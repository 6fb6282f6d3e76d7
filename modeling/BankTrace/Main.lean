import BankTrace.CommandLine.Run
import BankTrace.Toml.Settings

namespace BankTrace.CommandLine

def fileFailure : IO.Error → FileFailure
  | .noFileOrDirectory .. => .missing
  | .inappropriateType _ 21 _ => .isDirectory
  | .inappropriateType .. => .notDirectory
  | e => .other (toString e)

def attempt {α : Type} (act : IO α) : IO (Except FileFailure α) := do
  try return .ok (← act)
  catch e => return .error (fileFailure e)

/-- The files and streams of the process. The journal is not kept. -/
def processShell : Shell IO where
  read path := attempt (IO.FS.readBinFile path)
  write path text := attempt (IO.FS.writeFile path text)
  print text := attempt do
    let out ← IO.getStdout
    out.putStr text
    out.flush
  complain text := do (← IO.getStderr).putStr text
  note _ := return

/-- Settings are TOML documents, and arithmetic wraps around. -/
def processBuild : Build := ⟨.wrapping, Toml.settingsFormat⟩

end BankTrace.CommandLine

def main (arguments : List String) : IO UInt32 :=
  BankTrace.CommandLine.run BankTrace.CommandLine.processBuild
    BankTrace.CommandLine.processShell arguments
