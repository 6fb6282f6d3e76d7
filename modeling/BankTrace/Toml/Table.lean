import BankTrace.Toml.Value

namespace BankTrace.Toml

inductive Node
  | value (v : Value)
  /-- A table. It is implicit as long as only a longer key or heading has named it, and dotted if
  that was a key. -/
  | table (isImplicit isDotted : Bool) (entries : List (String × Node))
  /-- An array of tables, the last one first. -/
  | tables (elements : List (List (String × Node)))

abbrev Entries := List (String × Node)

namespace Entries

def get? (entries : Entries) (key : String) : Option Node :=
  (entries.find? (·.1 == key)).map (·.2)

def put (entries : Entries) (key : String) (node : Node) : Entries :=
  if entries.any (·.1 == key) then
    entries.map fun entry => if entry.1 == key then (key, node) else entry
  else entries ++ [(key, node)]

/-- Changes the table that is reached along `path`, making implicit tables on the way. `change`
gets the table and whether it is dotted. In an array of tables the way leads into the last one. A
dotted key must not pass through a table that has been written out. -/
def descend (dotted : Bool) (change : Bool → Entries → Option Entries) :
    List String → Bool → Entries → Option Entries
  | [], isDotted, entries => change isDotted entries
  | key :: path, _, entries =>
    match entries.get? key with
    | none => do
      let inner ← descend dotted change path dotted []
      return entries.put key (.table true dotted inner)
    | some (.value _) => none
    | some (.table isImplicit isDotted inner) =>
      if dotted && !isImplicit then none
      else do
        let inner ← descend dotted change path isDotted inner
        return entries.put key (.table isImplicit isDotted inner)
    | some (.tables []) => none
    | some (.tables (last :: before)) => do
      let last ← descend dotted change path false last
      return entries.put key (.tables (last :: before))

/-- Enters a value under a key, given by the tables on the way to it and its last part. A key of
several parts may only add to tables that dotted keys have made. -/
def assign (entries : Entries) (path : List String) (key : String) (v : Value) : Option Entries :=
  descend true
    (fun isDotted inner =>
      if isDotted == path.isEmpty || (inner.get? key).isSome then none
      else some (inner.put key (.value v)))
    path false entries

/-- Opens a table for the lines under its heading. Only a table that is implicit, and no dotted key
has made, may be written out later. -/
def openTable (entries : Entries) (path : List String) (key : String) : Option Entries :=
  descend false
    (fun _ inner => match inner.get? key with
      | none => some (inner.put key (.table false false []))
      | some (.table true false children) => some (inner.put key (.table false false children))
      | some _ => none)
    path false entries

def openElement (entries : Entries) (path : List String) (key : String) : Option Entries :=
  descend false
    (fun _ inner => match inner.get? key with
      | none => some (inner.put key (.tables [[]]))
      | some (.tables elements) => some (inner.put key (.tables ([] :: elements)))
      | some _ => none)
    path false entries

end Entries

mutual

def Node.toValue : Node → Value
  | .value v => v
  | .table _ _ entries => .table (Node.toPairs entries)
  | .tables elements => .array (Node.toTables elements).reverse

def Node.toPairs : List (String × Node) → List (String × Value)
  | [] => []
  | (key, node) :: rest => (key, node.toValue) :: Node.toPairs rest

def Node.toTables : List (List (String × Node)) → List Value
  | [] => []
  | entries :: rest => .table (Node.toPairs entries) :: Node.toTables rest

end

end BankTrace.Toml
