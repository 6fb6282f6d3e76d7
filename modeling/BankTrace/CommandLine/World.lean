import BankTrace.CommandLine.Run
import BankTrace.Folder

namespace BankTrace.CommandLine

/-- A world in which a command line can run without any effect outside of it. -/
structure World where
  folder : Folder
  printed : String := ""
  complaints : String := ""
  journal : List Event := []
  /-- How much of a text gets through when printing it fails, and why it fails. -/
  blockage : String → Option (Nat × FileFailure) := fun _ => none

namespace World

/-- What is printed of a text when printing fails after `count` characters. -/
def cut (text : String) (count : Nat) : String := String.ofList (text.toList.take count)

/-- Reads and writes the folder. Writing a file that fails changes nothing. -/
def shell : Shell (StateM World) where
  read path := return (← get).folder.read path
  write path text := modifyGet fun w =>
    match w.folder.write path text.toUTF8 with
    | .ok folder => (.ok (), { w with folder })
    | .error cause => (.error cause, w)
  print text := modifyGet fun w =>
    match w.blockage text with
    | none => (.ok (), { w with printed := w.printed ++ text })
    | some (count, cause) => (.error cause, { w with printed := w.printed ++ cut text count })
  complain text := modify fun w => { w with complaints := w.complaints ++ text }
  note events := modify fun w => { w with journal := w.journal ++ events }

/-- The exit code of a command line, and the world after it. -/
def run (build : Build) (w : World) (arguments : List String) : UInt32 × World :=
  StateT.run (CommandLine.run build shell arguments) w

end World

end BankTrace.CommandLine
