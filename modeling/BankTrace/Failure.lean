import BankTrace.PointerTable
import BankTrace.Text.Hexadecimal

namespace BankTrace

inductive FileFailure
  | missing
  | isDirectory
  | notDirectory
  | notText
  | other (message : String)
deriving DecidableEq, Repr

def FileFailure.message : FileFailure → String
  | missing => "No such file or directory (os error 2)"
  | isDirectory => "Is a directory (os error 21)"
  | notDirectory => "Not a directory (os error 20)"
  | notText => "stream did not contain valid UTF-8"
  | other message => message

inductive ImageFailure
  | unreadable (cause : FileFailure)
  | wrongSize (bytes : Nat)
deriving DecidableEq, Repr

def ImageFailure.message : ImageFailure → String
  | unreadable cause => s!"Couldn't read ROM: {cause.message}"
  | wrongSize bytes => s!"ROM must be {Bank.size} bytes in size, got {bytes}"

inductive TableField
  | offset
  | count
deriving DecidableEq, Repr

def TableField.name : TableField → String
  | offset => "offset"
  | count => "count"

inductive ArgumentFailure
  | needsValue (flag : String)
  | unknownOption (argument : String)
  | noImage
  | notTable (argument : String)
deriving DecidableEq, Repr

def ArgumentFailure.message : ArgumentFailure → String
  | needsValue flag => s!"{flag} needs a value"
  | unknownOption argument => s!"unknown option '{argument}'"
  | noImage => "no ROM file given"
  | notTable argument => s!"expected OFFSET:COUNT, got '{argument}'"

inductive SetupFailure
  | unreadable (cause : FileFailure)
  /-- Line `line` of a pointer file, counted from one, has no number in the given field. -/
  | badLine (line : Nat) (field : TableField) (text : String)
  | badSettings (message : String)
  | tableOutOfRange (table : PointerTable)
  | unknownDialect (name : String)
  | badArgument (cause : ArgumentFailure)
  /-- A number has no negative in 64 bits. The run breaks off, with no message of its own. -/
  | overflow
deriving DecidableEq, Repr

def SetupFailure.message : SetupFailure → String
  | unreadable cause => s!"Couldn't read configuration: {cause.message}"
  | badLine line field text => s!"Pointer table file line {line}: bad {field.name} in '{text}'"
  | badSettings message => s!"Invalid config file: {message}"
  | tableOutOfRange table =>
    s!"Code pointer table at {Text.offset table.offset} with {table.count} entries " ++
      "is out of range"
  | unknownDialect name => s!"Unknown output dialect '{name}'"
  | badArgument cause => s!"Bad argument: {cause.message}"
  | overflow => ""

end BankTrace
