import BankTrace.Failure
import BankTrace.Text.Fields

namespace BankTrace

/-- Names from the root down. The folder itself is at `["."]`, a name that no path can reach from
above, and what is outside is empty. -/
abbrev Location := List String

structure Folder where
  files : List (Location × ByteArray) := []
  subfolders : List Location := []

namespace Folder

def here : Location := ["."]

inductive Kind
  | absent
  | file (content : ByteArray)
  | folder

def kind (f : Folder) (l : Location) : Kind :=
  if l = [] ∨ l = here ∨ l ∈ f.subfolders then .folder
  else match f.files.lookup l with
    | some content => .file content
    | none => .absent

/-- Goes from a location, which must be a folder, along one name of a path. -/
def go (f : Folder) (l : Location) (name : String) : Except FileFailure Location :=
  match f.kind l with
  | .absent => .error .missing
  | .file _ => .error .notDirectory
  | .folder =>
    if name = "" ∨ name = "." then .ok l
    else if name = ".." then .ok l.dropLast
    else .ok (l ++ [name])

def names (path : String) : Location × List String :=
  match (Text.fields '/' path.toList).map String.ofList with
  | "" :: name :: rest => ([], name :: rest)
  | names => (here, names)

def read (f : Folder) (path : String) : Except FileFailure ByteArray := do
  if path = "" then throw .missing
  let (start, names) := names path
  match f.kind (← names.foldlM f.go start) with
  | .absent => throw .missing
  | .folder => throw .isDirectory
  | .file content => return content

def put (f : Folder) (l : Location) (content : ByteArray) : Folder :=
  { f with files := (l, content) :: f.files.filter fun file => file.1 != l }

def write (f : Folder) (path : String) (content : ByteArray) : Except FileFailure Folder := do
  if path = "" then throw .missing
  let (start, names) := names path
  let plain := (names.reverse.dropWhile (· == "")).reverse
  match plain.getLast? with
  | none => throw .isDirectory
  | some name =>
    let parent ← plain.dropLast.foldlM f.go start
    let target ← f.go parent name
    if plain.length < names.length || name == "." || name == ".." then throw .isDirectory
    match f.kind target with
    | .folder => throw .isDirectory
    | _ => return f.put target content

end Folder

end BankTrace
