import BankTrace.Exploration
import BankTrace.Opcode.Table

namespace BankTrace.Exploration

variable {n : Nat}

/-- Words whose high byte reaches this are taken as a jump table after a call. -/
def jumpTableHighByte : UInt8 := 0xC0

/-- How far from a reference to data an existing label makes another one unnecessary. -/
def labelSlack : Nat := 3

def isDataLabel (s : Survey n) (offset : Nat) : Bool := s.isData offset && s.isLabel offset

def nearDataLabel (s : Survey n) (target : Nat) : Bool :=
  (List.range labelSlack).any fun i =>
    let distance := i + 1
    (distance ≤ target && isDataLabel s (target - distance)) || isDataLabel s (target + distance)

/-- Labels the byte that the operand at `operand` names, if it is in the cartridge and not code, and
no data label is near. -/
def refer? (x : Exploration n) (bank : Bank) (operand : Nat) : Option (Exploration n) := do
  let isCartridge ← bank.isCartridge? operand
  let target ← bank.pointee? operand
  if isCartridge && !x.survey.isCode target && !nearDataLabel x.survey target then
    x.change? (·.label? target)
  else some x

/-- Gives the bytes from `settled` on back to data, after `refused` bytes at `offset` were not
accepted as code. -/
def undo? (x : Exploration n) (bank : Bank) (start offset settled : Nat) (afterCall : Bool)
    (refused : Nat) (waiting : List Strand) : Option (Exploration n) := do
  let byte ← bank.byte? offset
  let last := offset + (refused - 1)
  let x ← (x.report (.undone byte offset settled last)).change? (·.release? settled last)
  let strand : Strand :=
    if afterCall then ⟨start, settled, .probe refused⟩ else ⟨start, settled + refused, .close⟩
  return { x with strands := strand :: waiting, rollbacks := x.rollbacks + 1 }

def proceed? (x : Exploration n) (bank : Bank) (start offset settled : Nat) (afterCall : Bool)
    (op : Opcode) (waiting : List Strand) : Option (Exploration n) :=
  let next := offset + op.length
  let onward (x : Exploration n) (task : Task) : Exploration n :=
    { x with strands := ⟨start, next, task⟩ :: waiting }
  match op.control with
  | .next => some (onward x (.decode settled afterCall))
  | .reference => do
    let x ← if op.mode.isAbsolute then x.refer? bank (offset + 1) else some x
    return onward x (.decode settled afterCall)
  | .branch => do
    let byte ← bank.byte? (offset + 1)
    return (onward x (.decode next false)).visit (branchOffset offset byte)
  | .jump => do
    let target ← bank.pointee? (offset + 1)
    return (onward x .close).visit target
  | .jumpIndirect => do
    let isCartridge ← bank.isCartridge? (offset + 1)
    let pointer ← bank.pointee? (offset + 1)
    if isCartridge && pointer + 1 < Bank.size then
      let target ← bank.pointee? pointer
      return (onward x .close).visit target
    else return onward x .close
  | .call => do
    let target ← bank.pointee? (offset + 1)
    return (onward x (.decode next true)).visit target
  | .ret => some (onward x .close)
  | .illegal => x.undo? bank start offset settled afterCall op.length waiting

def decode? (x : Exploration n) (bank : Bank) (start offset settled : Nat) (afterCall : Bool)
    (waiting : List Strand) : Option (Exploration n) := do
  let op := Opcode.ofByte (← bank.byte? offset)
  if op.length = 0 ∨ Bank.size < offset + op.length then
    x.undo? bank start offset settled afterCall 0 waiting
  else
    let x ← x.change? (·.claim? offset op.length)
    (x.report (.decoded offset op)).proceed? bank start offset settled afterCall op waiting

/-- Whether the word at `slot` may belong to a jump table: its first byte is untouched and its
second byte reaches `jumpTableHighByte`. -/
def isTableWord (s : Survey n) (bank : Bank) (slot : Nat) : Bool :=
  s.isPlain slot && (bank.byte? (slot + 1)).any (jumpTableHighByte ≤ ·)

/-- Looks for a word of a jump table at `offset`, and explores its target first if there is one. -/
def probe? (x : Exploration n) (bank : Bank) (start offset refused : Nat)
    (waiting : List Strand) : Option (Exploration n) :=
  if isTableWord x.survey bank offset then do
    let target ← bank.pointee? offset
    return { x with strands := ⟨start, offset, .claim refused⟩ :: waiting }.visit target
  else some { x with strands := ⟨start, offset + refused, .close⟩ :: waiting }

def claimWord? (x : Exploration n) (bank : Bank) (start offset refused : Nat)
    (waiting : List Strand) : Option (Exploration n) := do
  let word ← bank.word? offset
  let x ← (x.report (.jumpTableWord offset word)).change? (·.point? offset)
  let x ← x.change? (·.point? (offset + 1))
  return { x with
    strands := ⟨start, offset + 2, .probe refused⟩ :: waiting
    recovered := x.recovered + 1 }

/-- Ends a strand. Its first byte gets a label if the strand went anywhere, or if it is code. -/
def close? (x : Exploration n) (start offset : Nat) (waiting : List Strand) :
    Option (Exploration n) := do
  let moved := offset != start
  let x ← if moved || x.survey.isCode start then x.change? (·.label? start) else some x
  return { x with strands := waiting, advanced := moved }

def step? (bank : Bank) (x : Exploration n) : Option (Exploration n) :=
  match x.strands with
  | [] => some x
  | ⟨start, offset, task⟩ :: waiting => match task with
    | .decode settled afterCall =>
      if x.survey.isData offset then x.decode? bank start offset settled afterCall waiting
      else some { x with strands := ⟨start, offset, .close⟩ :: waiting }
    | .probe refused => x.probe? bank start offset refused waiting
    | .claim refused => x.claimWord? bank start offset refused waiting
    | .close => x.close? start offset waiting

end BankTrace.Exploration
