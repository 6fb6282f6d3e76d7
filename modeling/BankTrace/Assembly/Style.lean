import BankTrace.Failure

namespace BankTrace

inductive Medium
  | text
  | html
deriving DecidableEq, Repr

/-- How the operands of indirect instructions are bracketed. -/
inductive Brackets
  | square
  | round
deriving DecidableEq, Repr

structure Style where
  medium : Medium := .text
  brackets : Brackets := .square
deriving DecidableEq, Repr

namespace Medium

/-- The medium of a name, in whatever case its ASCII letters are. -/
def ofName (name : String) : Except SetupFailure Medium :=
  match String.ofList (name.toList.map Char.toLower) with
  | "text" => .ok text
  | "html" => .ok html
  | _ => .error (.unknownDialect name)

end Medium

end BankTrace
