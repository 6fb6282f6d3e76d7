import BankTrace.Toml.DateTime
import BankTrace.Toml.Table
import BankTrace.Toml.Text

namespace BankTrace.Toml

/-- Arrays and inline tables nest less deep than this, and a key has fewer parts. -/
def depthLimit : Nat := 80

def isBareKey (c : Char) : Bool :=
  ('A' ≤ c && c ≤ 'Z') || ('a' ≤ c && c ≤ 'z') || ('0' ≤ c && c ≤ '9') || c == '-' || c == '_'

def simpleKey : Reader String := do
  let name ← basicString.orElse (literalString.orElse (spanOne isBareKey))
  return String.ofList name

/-- A key: the tables on the way, and the last part. Blanks may stand around each part. -/
def key : Reader (List String × String) :=
  let part : Reader String := do
    spaces
    let name ← simpleKey
    spaces
    return name
  (Reader.separated part (char '.')).filterMap fun parts =>
    if parts.length < depthLimit then parts.getLast?.map (parts.dropLast, ·) else none

def assignment {α : Type} (item : Reader α) : Reader ((List String × String) × α) := do
  let path ← key
  let _ ← char '='
  spaces
  return (path, ← item)

def scalar : Reader Value :=
  let word (name : String) (v : Value) : Reader Value := do
    Toml.word name
    return v
  let text : Reader Value := do return .text (← string)
  let dateTime : Reader Value := do
    Toml.dateTime
    return .dateTime
  let float : Reader Value := do
    Toml.float
    return .float
  let integer : Reader Value := do return .integer (← Toml.integer)
  text.orElse <| (word "true" (.boolean true)).orElse <| (word "false" (.boolean false)).orElse <|
    dateTime.orElse <| float.orElse integer

def array (item : Reader Value) : Reader Value := do
  let _ ← char '['
  let element : Reader Value := do
    gap
    let v ← item
    gap
    return v
  let items ← Reader.optional do
    let items ← Reader.separated element (char ',')
    let _ ← (char ',').optional
    return items
  gap
  let _ ← char ']'
  return .array (items.getD [])

/-- An inline table of what `item` reads: one line, no comma after the last entry. -/
def inlineTable (item : Reader Value) : Reader Value := do
  let _ ← char '\x7b'
  let entry : Reader ((List String × String) × Value) := do
    let entry ← assignment item
    spaces
    return entry
  let entries ← (Reader.separated entry (char ',')).optional
  spaces
  let _ ← char '\x7d'
  let build : Option Entries := (entries.getD []).foldlM
    (fun table entry => table.assign entry.1.1 entry.1.2 entry.2) []
  match build with
  | some entries => return .table (Node.toPairs entries)
  | none => Reader.fail

/-- A value in which arrays and inline tables nest at most `depth` deep. -/
def valueWithin : Nat → Reader Value
  | 0 => scalar
  | depth + 1 =>
    scalar.orElse ((array (valueWithin depth)).orElse (inlineTable (valueWithin depth)))

def value : Reader Value := valueWithin (depthLimit - 1)

inductive Statement
  | assign (path : List String) (key : String) (v : Value)
  /-- `[a.b]` -/
  | openTable (path : List String) (key : String)
  /-- `[[a.b]]` -/
  | openElement (path : List String) (key : String)

def statement : Reader Statement :=
  let element : Reader Statement := do
    word "[["
    let (path, key) ← key
    word "]]"
    return .openElement path key
  let table : Reader Statement := do
    word "["
    let (path, key) ← key
    word "]"
    return .openTable path key
  let assign : Reader Statement := do
    let ((path, key), v) ← assignment value
    return .assign path key v
  do
    let s ← element.orElse (table.orElse assign)
    restOfLine
    return s

def line : Reader (Option Statement) :=
  let emptyLine : Reader (Option Statement) := do
    lineEnd
    return none
  let commentLine : Reader (Option Statement) := do
    comment
    lineEnd.orElse endOfText
    return none
  let statementLine : Reader (Option Statement) := do return some (← statement)
  do
    spaces
    emptyLine.orElse (commentLine.orElse statementLine)

end BankTrace.Toml
