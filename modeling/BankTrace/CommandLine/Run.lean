import BankTrace.CommandLine.Request
import BankTrace.Assembly.Written
import BankTrace.Settings

namespace BankTrace

inductive Failure
  | image (cause : ImageFailure)
  | setup (cause : SetupFailure)
  /-- The analysis left the bank; it never does. -/
  | stray
deriving DecidableEq, Repr

namespace CommandLine

/-- What one build of the program does not share with others. -/
structure Build where
  arithmetic : Arithmetic
  format : SettingsFormat

/-- What a command line needs from its surroundings. -/
structure Shell (m : Type → Type) where
  read : String → m (Except FileFailure ByteArray)
  write : String → String → m (Except FileFailure Unit)
  print : String → m (Except FileFailure Unit)
  complain : String → m Unit
  note : List Event → m Unit

def usage : String := "Usage: prgtrace [options] <rom-file>\n"

def help : String := usage ++ String.join [
  "\nOptions:\n",
  "  --html                 Write an HTML listing with anchors\n",
  "  --dialect NAME         Output dialect: text or html\n",
  "  --round-brackets       Use ( ) instead of [ ] for indirect operands\n",
  "  --codepointers FILE    Read extra code pointer tables (offset|count lines)\n",
  "  --table OFFSET:COUNT   Add a code pointer table (repeatable)\n",
  "  --config FILE          Read settings from a TOML file\n",
  "  --output FILE          Write the listing to FILE instead of stdout\n",
  "  --stats                Print analysis statistics to stderr\n",
  "  -h, --help             Show this help message\n"]

def report : Failure → String
  | .image cause => s!"prgtrace: {cause.message}\n"
  | .setup (.badArgument cause) =>
    s!"prgtrace: {(SetupFailure.badArgument cause).message}\n" ++ usage ++
      "Try 'prgtrace -h' for help\n"
  | .setup .overflow | .stray => ""
  | .setup cause => s!"prgtrace: {cause.message}\n"

def exitCode : Failure → UInt32
  | .setup .overflow | .stray => 101
  | _ => 1

variable {m : Type → Type} [Monad m]

/-- A run that ends at the first failure. -/
abbrev Attempt (m : Type → Type) := ExceptT Failure m

def orSetup {α : Type} (e : Except SetupFailure α) : Attempt m α :=
  ExceptT.mk (pure (e.mapError .setup))

def decodeText (content : ByteArray) : Except SetupFailure String :=
  match String.fromUTF8? content with
  | some text => .ok text
  | none => .error (.unreadable .notText)

def readText (shell : Shell m) (path : String) : Attempt m String := do
  let content ← shell.read path
  let content ← orSetup (content.mapError .unreadable)
  orSetup (decodeText content)

def readSettings (build : Build) (shell : Shell m) (path : String) : Attempt m Settings := do
  let settings ← orSetup ((build.format.read (← readText shell path)).mapError .badSettings)
  shell.note [.settingsRead path settings.tables.length]
  return settings

def readTables (build : Build) (shell : Shell m) (path : String) :
    Attempt m (List PointerTable) := do
  orSetup (PointerTable.ofFile build.arithmetic (← readText shell path))

def decodeBank (content : ByteArray) : Except ImageFailure Bank :=
  match Bank.ofBytes? content.data with
  | some bank => .ok bank
  | none => .error (.wrongSize content.size)

def readBank (shell : Shell m) (path : String) : Attempt m Bank := do
  match ← shell.read path with
  | .error cause => throw (.image (.unreadable cause))
  | .ok content =>
    shell.note [.imageRead content.size path]
    match decodeBank content with
    | .error cause => throw (.image cause)
    | .ok bank => return bank

def addTables (shell : Shell m) (seeds : Seeds) (tables : List PointerTable) :
    Attempt m Seeds := do
  let (after, rejected) := seeds.addAll tables
  shell.note (Event.accepted seeds after)
  match rejected with
  | none => return after
  | some table => throw (.setup (.tableOutOfRange table))

/-- The style of the settings, overruled by the command line. -/
def Request.style (r : Request) (settings : Settings) : Style where
  medium := r.medium.getD settings.style.medium
  brackets := if r.roundBrackets then .round else settings.style.brackets

/-- Writes the listing to the output file, or prints it if there is none. -/
def deliver (shell : Shell m) (output : Option String) (listing : String) : Attempt m Unit := do
  let result ← match output with
    | some path => shell.write path listing
    | none => shell.print listing
  orSetup (result.mapError .unreadable)

def settingsFrom (build : Build) (shell : Shell m) : Option String → Attempt m Settings
  | some path => readSettings build shell path
  | none => return {}

def addTablesFrom (build : Build) (shell : Shell m) (seeds : Seeds) :
    Option String → Attempt m Seeds
  | some path => do addTables shell seeds (← readTables build shell path)
  | none => return seeds

/-- Carries out a request. Tables are taken from the settings, the pointer file and the command
line, in this order. -/
def disassemble (build : Build) (shell : Shell m) (r : Request) : Attempt m Unit := do
  let some image := r.image | throw (.setup (.badArgument .noImage))
  let settings ← settingsFrom build shell r.settingsFile
  let seeds ← addTables shell .empty settings.tables
  let seeds ← addTablesFrom build shell seeds r.pointerFile
  let seeds ← addTables shell seeds r.tables
  let bank ← readBank shell image
  let some analysis := bank.analyze? seeds | throw .stray
  shell.note analysis.journal.toList
  let some listing := bank.listing? analysis.survey (r.style settings) | throw .stray
  deliver shell r.output listing
  if r.summary then shell.complain analysis.summary.text

/-- Reports a failure if there was one, and returns the exit code. -/
def conclude (shell : Shell m) : Except Failure Unit → m UInt32
  | .ok () => return 0
  | .error failure => do
    shell.complain (report failure)
    return exitCode failure

def run (build : Build) (shell : Shell m) (arguments : List String) : m UInt32 := do
  let outcome ← ExceptT.run <| show Attempt m Unit from do
    match ← orSetup (Order.ofArguments build.arithmetic {} arguments) with
    | .help => shell.complain help
    | .disassemble r => disassemble build shell r
  conclude shell outcome

end CommandLine

end BankTrace
