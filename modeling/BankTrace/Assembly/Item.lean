import BankTrace.Opcode.Table
import BankTrace.Survey
import BankTrace.Bank

namespace BankTrace.Assembly

inductive Item
  | pointer (word : Nat)
  /-- `argument` is the value of the operand bytes, zero if there are none. -/
  | instruction (op : Opcode) (argument : Nat) (length_pos : 0 < op.length)
  /-- A code byte that starts nothing: what is left of an instruction overrun by another one. -/
  | orphan (byte : UInt8)
  | value (byte : UInt8)
deriving DecidableEq

def Item.size : Item → Nat
  | pointer _ => 2
  | instruction op .. => op.length
  | orphan _ | value _ => 1

theorem Item.size_pos (item : Item) : 0 < item.size := by
  cases item with
  | instruction _ _ h => exact h
  | _ => simp [size]

variable {n : Nat}

def argument? (bank : Bank) (offset length : Nat) : Option Nat :=
  match length with
  | 0 | 1 => some 0
  | 2 => (bank.byte? (offset + 1)).map UInt8.toNat
  | _ => bank.word? (offset + 1)

/-- The item that begins at `offset`. -/
def item? (bank : Bank) (s : Survey n) (offset : Nat) : Option Item :=
  if s.isPointer offset && offset + 1 < Bank.size then (bank.word? offset).map .pointer
  else do
    let byte ← bank.byte? offset
    if s.isStart offset then
      let op := Opcode.ofByte byte
      if h : 0 < op.length ∧ offset + op.length ≤ Bank.size then
        return .instruction op (← argument? bank offset op.length) h.1
      else return .orphan byte
    else if s.isCode offset then return .orphan byte
    else return .value byte

def itemsFrom? (bank : Bank) (s : Survey n) (offset : Nat) : Option (List (Nat × Item)) :=
  if offset < Bank.size then
    match item? bank s offset with
    | none => none
    | some item =>
      have := item.size_pos
      (itemsFrom? bank s (offset + item.size)).map ((offset, item) :: ·)
  else some []
termination_by Bank.size - offset

def items? (bank : Bank) (s : Survey n) : Option (List (Nat × Item)) := itemsFrom? bank s 0

end BankTrace.Assembly
