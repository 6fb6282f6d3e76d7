import BankTrace.Bank
import BankTrace.Survey

namespace BankTrace.Assembly

inductive Place
  | word (value : Nat)
  | label (offset : Nat) (adjustment : Int)
deriving DecidableEq, Repr

def labelReach : Nat := 15

variable {n : Nat}

/-- The label closest to `target` but not on it, with what leads from it to `target`. Of two at the
same distance it is the lower one. -/
def borrowed? (s : Survey n) (target : Nat) : Option (Nat × Int) :=
  (List.range labelReach).findSome? fun i =>
    let distance := i + 1
    if distance ≤ target && s.isLabel (target - distance) then
      some (target - distance, distance)
    else if s.isLabel (target + distance) then some (target + distance, -distance)
    else none

/-- An address in the cartridge: its label, else a borrowed one, else digits. -/
def placeOf (s : Survey n) (word : Nat) : Place :=
  let target := Bank.offsetOf word
  if s.isLabel target then .label target 0
  else match borrowed? s target with
    | some (offset, adjustment) => .label offset adjustment
    | none => .word word

/-- A word of a pointer table: only a label of its own is used. -/
def pointerPlace (s : Survey n) (word : Nat) : Place :=
  if s.isLabel (Bank.offsetOf word) then .label (Bank.offsetOf word) 0 else .word word

end BankTrace.Assembly
