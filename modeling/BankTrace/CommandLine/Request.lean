import BankTrace.Assembly.Style
import BankTrace.PointerTable.Written

namespace BankTrace.CommandLine

inductive Switch
  | html
  | roundBrackets
  | summary
  | help
deriving DecidableEq, Repr

inductive Setting
  | dialect
  | pointerFile
  | table
  | settingsFile
  | output
deriving DecidableEq, Repr

inductive Flag
  | switch (s : Switch)
  | setting (s : Setting)
deriving DecidableEq, Repr

def Flag.ofText? : String → Option Flag
  | "--html" => some (.switch .html)
  | "--dialect" => some (.setting .dialect)
  | "--round-brackets" => some (.switch .roundBrackets)
  | "--codepointers" => some (.setting .pointerFile)
  | "--table" => some (.setting .table)
  | "--config" => some (.setting .settingsFile)
  | "--output" => some (.setting .output)
  | "--stats" => some (.switch .summary)
  | "-h" => some (.switch .help)
  | "--help" => some (.switch .help)
  | _ => none

structure Request where
  image : Option String := none
  medium : Option Medium := none
  roundBrackets : Bool := false
  pointerFile : Option String := none
  tables : List PointerTable := []
  settingsFile : Option String := none
  output : Option String := none
  summary : Bool := false
deriving DecidableEq, Repr

inductive Order
  | help
  | disassemble (r : Request)
deriving DecidableEq, Repr

namespace Request

def turnOn (r : Request) : Switch → Request
  | .html => { r with medium := some .html }
  | .roundBrackets => { r with roundBrackets := true }
  | .summary => { r with summary := true }
  | .help => r

/-- Takes up an option with its value. Tables add up; of all else the last one counts. -/
def set (a : Arithmetic) (r : Request) (value : String) : Setting → Except SetupFailure Request
  | .dialect => do return { r with medium := some (← Medium.ofName value) }
  | .pointerFile => .ok { r with pointerFile := some value }
  | .table => do return { r with tables := r.tables ++ [← PointerTable.ofArgument a value] }
  | .settingsFile => .ok { r with settingsFile := some value }
  | .output => .ok { r with output := some value }

/-- Takes up an argument that is no option: the image, once. -/
def position (r : Request) (argument : String) : Except SetupFailure Request :=
  if argument.toList.head? != some '-' && r.image.isNone then .ok { r with image := some argument }
  else .error (.badArgument (.unknownOption argument))

end Request

/-- Reads arguments from left to right on top of what was asked before. A request for help ends the
reading, and so does the first mistake. -/
def Order.ofArguments (a : Arithmetic) (r : Request) : List String → Except SetupFailure Order
  | [] => .ok (.disassemble r)
  | argument :: rest =>
    match Flag.ofText? argument with
    | none => do ofArguments a (← r.position argument) rest
    | some (.switch .help) => .ok .help
    | some (.switch s) => ofArguments a (r.turnOn s) rest
    | some (.setting s) =>
      match rest with
      | [] => .error (.badArgument (.needsValue argument))
      | value :: rest => do ofArguments a (← r.set a value s) rest

end BankTrace.CommandLine
