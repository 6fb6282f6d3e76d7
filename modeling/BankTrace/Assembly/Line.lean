import BankTrace.Assembly.Item
import BankTrace.Assembly.Place

namespace BankTrace.Assembly

inductive Index
  | none
  | x
  | y
deriving DecidableEq, Repr

inductive Operand
  | none
  | immediate (value : Nat)
  | zeroPage (value : Nat) (index : Index)
  /-- `wide` asks for the suffix `.W`. -/
  | absolute (wide : Bool) (place : Place) (index : Index)
  | indirect (address : Nat)
  | indirectX (value : Nat)
  | indirectY (value : Nat)
  | branch (target : Nat)
  /-- A branch over `distance` bytes from its own start. -/
  | skip (distance : Int)
deriving DecidableEq, Repr

inductive Line
  | blank
  | origin
  | finish
  | label (offset : Nat)
  | pointer (place : Place)
  | values (bytes : List UInt8)
  | instruction (mnemonic : String) (operand : Operand)
deriving DecidableEq, Repr

variable {n : Nat}

/-- An absolute operand. Below the cartridge an address has no label, and one below `$0100` needs a
suffix where the opcode has a zero-page twin. -/
def absoluteOperand (s : Survey n) (op : Opcode) (word : Nat) (index : Index) : Operand :=
  if word < 0x8000 then .absolute (word < 0x100 && op.wide) (.word word) index
  else .absolute false (placeOf s word) index

def relativeOperand (s : Survey n) (offset : Nat) (byte : UInt8) : Operand :=
  let target := branchOffset offset byte
  if s.isLabel target then .branch target else .skip (displacement byte + 2)

/-- The operand of the instruction `op` at `offset`, where `argument` is the value of its operand
bytes. -/
def operandOf (s : Survey n) (offset : Nat) (op : Opcode) (argument : Nat) : Operand :=
  match op.mode with
  | .undefined | .implied => .none
  | .immediate => .immediate argument
  | .zeroPage => .zeroPage argument .none
  | .zeroPageX => .zeroPage argument .x
  | .zeroPageY => .zeroPage argument .y
  | .absolute => absoluteOperand s op argument .none
  | .absoluteX => absoluteOperand s op argument .x
  | .absoluteY => absoluteOperand s op argument .y
  | .indirect => .indirect argument
  | .indirectX => .indirectX argument
  | .indirectY => .indirectY argument
  | .relative => relativeOperand s offset argument.toUInt8

def valuesPerLine : Nat := 16

def dataLines (bytes : List UInt8) : List Line :=
  let rest := bytes.drop valuesPerLine
  if rest.isEmpty then [.values bytes] else .values (bytes.take valuesPerLine) :: dataLines rest
termination_by bytes.length
decreasing_by
  rename_i h
  have : 0 < (bytes.drop valuesPerLine).length := List.length_pos_iff.2 (by simpa [rest] using h)
  simp only [List.length_drop, valuesPerLine] at this ⊢
  omega

def pointerWord? : Nat × Item → Option Nat
  | (_, .pointer word) => some word
  | _ => none

/-- The byte of a data item that continues the data before it: one without a label. -/
def plainByte? (s : Survey n) : Nat × Item → Option UInt8
  | (offset, .value byte) => if s.isPlain offset then some byte else none
  | _ => none

/-- The results of `f` on the longest front part where it has one, and the remaining list. -/
def spanMap {α β : Type} (f : α → Option β) : List α → List β × List α
  | [] => ([], [])
  | a :: rest => match f a with
    | none => ([], a :: rest)
    | some b => let (bs, rest) := spanMap f rest; (b :: bs, rest)

theorem length_spanMap_le {α β : Type} (f : α → Option β) (l : List α) :
    (spanMap f l).2.length ≤ l.length := by
  induction l with
  | nil => simp [spanMap]
  | cons a rest ih =>
    rw [spanMap]
    split
    · simp
    · simp only [List.length_cons]; omega

def labelLines (s : Survey n) (offset : Nat) : List Line :=
  if s.isLabel offset then [.label offset] else []

/-- The lines of consecutive items. Pointers and data form blocks: a block of pointers stands
between empty lines, a block of data is followed by one, and so is an instruction after which
control does not go on. -/
def layout (s : Survey n) : List (Nat × Item) → List Line
  | [] => []
  | (offset, item) :: rest =>
    match item with
    | .pointer word =>
      let run := spanMap pointerWord? rest
      have := length_spanMap_le pointerWord? rest
      .blank :: (word :: run.1).map (.pointer <| pointerPlace s ·) ++ .blank :: layout s run.2
    | .instruction op argument _ =>
      labelLines s offset ++ .instruction op.mnemonic (operandOf s offset op argument) ::
        (if op.control.isFinal then [.blank] else []) ++ layout s rest
    | .orphan byte => labelLines s offset ++ .values [byte] :: layout s rest
    | .value byte =>
      let run := spanMap (plainByte? s) rest
      have := length_spanMap_le (plainByte? s) rest
      labelLines s offset ++ dataLines (byte :: run.1) ++ .blank :: layout s run.2
termination_by items => items.length

def lines? (bank : Bank) (s : Survey n) : Option (List Line) :=
  (items? bank s).map fun items => .origin :: .blank :: layout s items ++ [.finish]

end BankTrace.Assembly
