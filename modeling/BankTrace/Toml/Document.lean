import BankTrace.Toml.Grammar

namespace BankTrace.Toml

/-- The statements of a document. A byte order mark may stand in front. -/
def statements : Reader (List Statement) := do
  let _ ← (char '\uFEFF').optional
  let lines ← Reader.many line
  spaces
  endOfText
  return lines.filterMap id

/-- A document under construction, with the path to the table of the last heading. -/
structure Draft where
  root : Entries := []
  heading : List String := []

def Draft.add? (d : Draft) : Statement → Option Draft
  | .assign path key v => do
    let root ← Entries.descend false (fun _ inner => inner.assign path key v) d.heading false d.root
    return { d with root }
  | .openTable path key => do
    return { root := ← d.root.openTable path key, heading := path ++ [key] }
  | .openElement path key => do
    return { root := ← d.root.openElement path key, heading := path ++ [key] }

def read? (text : String) : Option (List (String × Value)) := do
  let (statements, _) ← statements text.toList
  let draft ← statements.foldlM Draft.add? {}
  return Node.toPairs draft.root

end BankTrace.Toml
