import BankTrace.Failure
import BankTrace.Numeral
import BankTrace.Text.Fields

namespace BankTrace.PointerTable

/-- The table that two numbers describe; negative ones lie outside every bank. -/
def ofNumbers (offset count : Int) : Except SetupFailure PointerTable :=
  let table : PointerTable := ⟨offset.toNat, count.toNat⟩
  if 0 ≤ offset ∧ 0 ≤ count then .ok table else .error (.tableOutOfRange table)

def numberIn (a : Arithmetic) (text : List Char) : Except SetupFailure (Option Int) :=
  if a = .checked ∧ Numeral.overflows text then .error .overflow else .ok (Numeral.read? text)

def numberAt (a : Arithmetic) (fields : List (List Char)) (field : Nat) :
    Except SetupFailure (Option Int) :=
  match fields[field]? with
  | none => .ok none
  | some text => numberIn a text

/-- The table on a line that is not blank, whose number in the file is `line`. What follows the
second field is ignored. -/
def ofLine (a : Arithmetic) (line : Nat) (text : List Char) : Except SetupFailure PointerTable := do
  let fields := Text.fields '|' text
  let some offset ← numberAt a fields 0 | .error (.badLine line .offset (String.ofList text))
  let some count ← numberAt a fields 1 | .error (.badLine line .count (String.ofList text))
  let table ← ofNumbers offset count
  if table.inRange then .ok table else .error (.tableOutOfRange table)

def ofLines (a : Arithmetic) (line : Nat) :
    List (List Char) → Except SetupFailure (List PointerTable)
  | [] => .ok []
  | text :: rest =>
    let text := Text.trim text
    if text.isEmpty then ofLines a (line + 1) rest
    else do return (← ofLine a line text) :: (← ofLines a (line + 1) rest)

/-- The tables of a pointer file, in order; its first line is a heading. -/
def ofFile (a : Arithmetic) (text : String) : Except SetupFailure (List PointerTable) :=
  ofLines a 2 ((Text.fields '\n' text.toList).drop 1)

def splitColon? : List Char → Option (List Char × List Char)
  | [] => none
  | ':' :: rest => some ([], rest)
  | c :: rest => (splitColon? rest).map fun (before, after) => (c :: before, after)

/-- The table that an argument `OFFSET:COUNT` describes. Its range is checked later. -/
def ofArgument (a : Arithmetic) (argument : String) : Except SetupFailure PointerTable := do
  let some (offset, count) := splitColon? argument.toList
    | .error (.badArgument (.notTable argument))
  let some offset ← numberIn a offset | .error (.badArgument (.notTable argument))
  let some count ← numberIn a count | .error (.badArgument (.notTable argument))
  ofNumbers offset count

end BankTrace.PointerTable
