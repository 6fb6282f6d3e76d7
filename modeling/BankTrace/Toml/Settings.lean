import BankTrace.Settings
import BankTrace.Toml.Document

namespace BankTrace

namespace Settings

open Toml (Value)

/-- One of several named choices: its name, or a table with the name as its only key and nothing
under it. -/
def choice? {α : Type} (choices : List (String × α)) : Value → Option α
  | .text name => choices.lookup name
  | .table [(name, .table [])] => choices.lookup name
  | .table [(name, .array [])] => choices.lookup name
  | _ => none

def medium? : Value → Option Medium := choice? [("text", .text), ("html", .html)]

def brackets? : Value → Option Brackets := choice? [("square", .square), ("round", .round)]

def orDefault {α : Type} (read? : Value → Option α) (default : α) : Option Value → Option α
  | none => some default
  | some v => read? v

def style? : Value → Option Style
  | .table entries =>
    if entries.all fun entry => entry.1 == "dialect" || entry.1 == "brackets" then do
      return {
        medium := ← orDefault medium? .text (entries.lookup "dialect")
        brackets := ← orDefault brackets? .square (entries.lookup "brackets") }
    else none
  | .array items => do
    return {
      medium := ← orDefault medium? .text items[0]?
      brackets := ← orDefault brackets? .square items[1]? }
  | _ => none

def natural? : Value → Option Nat
  | .integer value => if 0 ≤ value then some value.toNat else none
  | _ => none

def table? : Value → Option PointerTable
  | .table entries => do
    return ⟨← natural? (← entries.lookup "offset"), ← natural? (← entries.lookup "count")⟩
  | .array (offset :: count :: _) => do return ⟨← natural? offset, ← natural? count⟩
  | _ => none

def tables? : Value → Option (List PointerTable)
  | .array items => items.mapM table?
  | _ => none

def ofEntries? (entries : List (String × Value)) : Option Settings :=
  if entries.all fun entry => entry.1 == "output" || entry.1 == "pointer_tables" then do
    return {
      style := ← orDefault style? {} (entries.lookup "output")
      tables := ← orDefault tables? [] (entries.lookup "pointer_tables") }
  else none

def ofText (text : String) : Except String Settings :=
  match Toml.read? text with
  | none => .error "malformed TOML"
  | some entries => match ofEntries? entries with
    | none => .error "a key or value that is not a setting"
    | some settings => .ok settings

end Settings

/-- Settings in a TOML document: the style of the listing under `output`, and extra pointer tables
under `pointer_tables`. A group of settings with named entries may also be written as an array, in
the order of the entries. -/
def Toml.settingsFormat : SettingsFormat where
  read := Settings.ofText
  read_empty := rfl

end BankTrace
