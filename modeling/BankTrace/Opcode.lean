namespace BankTrace

inductive Mode
  /-- Nothing is printed: bytes that are no instruction, and `BRK`. -/
  | undefined
  | implied
  | immediate
  | zeroPage
  | zeroPageX
  | zeroPageY
  | absolute
  | absoluteX
  | absoluteY
  | indirect
  | indirectX
  | indirectY
  | relative
deriving DecidableEq, Repr

namespace Mode

def isAbsolute : Mode → Bool
  | absolute | absoluteX | absoluteY => true
  | _ => false

def length : Mode → Nat
  | undefined | implied => 1
  | immediate | zeroPage | zeroPageX | zeroPageY | indirectX | indirectY | relative => 2
  | absolute | absoluteX | absoluteY | indirect => 3

end Mode

inductive Control
  | next
  /-- To the next instruction; an absolute operand names data worth a label. -/
  | reference
  | branch
  | jump
  | jumpIndirect
  | call
  | ret
  /-- Nowhere: the byte is not accepted as code. -/
  | illegal
deriving DecidableEq, Repr

def Control.isFinal : Control → Bool
  | jump | jumpIndirect | ret => true
  | _ => false

structure Opcode where
  mnemonic : String
  /-- Bytes of the whole instruction; zero for a byte that can never be code. -/
  length : Nat
  mode : Mode
  control : Control
  /-- The opcode has a zero-page twin, so that an absolute operand below `$0100` needs the suffix
  `.W` to be assembled into the same bytes. -/
  wide : Bool
deriving DecidableEq, Repr

end BankTrace
