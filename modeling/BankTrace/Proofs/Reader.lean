import BankTrace.Bank
import BankTrace.Numeral
import BankTrace.Opcode.Table
import BankTrace.Text.Fields
import BankTrace.Assembly.Line

namespace BankTrace.Assembly

/-- The operand of an instruction by its shape, with every place replaced by its value. -/
inductive Argument
  | none
  | immediate (value : Int)
  | direct (wide : Bool) (value : Int) (index : Index)
  | indirect (value : Int)
  | indirectX (value : Int)
  | indirectY (value : Int)
  | skip (distance : Int)
deriving DecidableEq, Repr

inductive Statement
  | nothing
  | origin (address : Int)
  | finish
  | bytes (values : List Int)
  | words (values : List Int)
  | instruction (mnemonic : String) (argument : Argument)
deriving DecidableEq, Repr

def readSigned? : List Char → Option Int
  | '+' :: digits => (Numeral.natural? 10 digits).map Int.ofNat
  | '-' :: digits => (Numeral.natural? 10 digits).map fun value => -Int.ofNat value
  | _ => none

/-- What is added to a label, if anything. -/
def readAdjustment? : List Char → Option Int
  | [] => some 0
  | text => readSigned? text

/-- A hexadecimal number, or a label: four digits, with an adjustment or without. -/
def readValue? : List Char → Option Int
  | '$' :: digits => (Numeral.natural? 16 digits).map Int.ofNat
  | 'L' :: text => do
    let address ← Numeral.natural? 16 (text.take 4)
    let adjustment ← readAdjustment? (text.drop 4)
    return Int.ofNat address + adjustment
  | _ => none

def readIndexed? (text : List Char) : Option (Int × Index) :=
  match Text.fields ',' text with
  | [value] => (readValue? value).map (·, .none)
  | [value, ['X']] => (readValue? value).map (·, .x)
  | [value, ['Y']] => (readValue? value).map (·, .y)
  | _ => none

/-- A value up to the closing bracket, with the index register inside or after the brackets. -/
def readBracketed? (bracket : Char) (text : List Char) : Option Argument :=
  match Text.fields ',' text with
  | [value] =>
    if value.getLast? = some bracket then (readValue? value.dropLast).map .indirect else none
  | [value, 'X' :: last] =>
    if last = [bracket] then (readValue? value).map .indirectX else none
  | [value, ['Y']] =>
    if value.getLast? = some bracket then (readValue? value.dropLast).map .indirectY else none
  | _ => none

def readArgument? : List Char → Option Argument
  | [] => some .none
  | '.' :: 'W' :: ' ' :: text => (readIndexed? text).map fun (value, index) =>
    .direct true value index
  | ' ' :: '#' :: text => (readValue? text).map .immediate
  | ' ' :: '[' :: text => readBracketed? ']' text
  | ' ' :: '(' :: text => readBracketed? ')' text
  | ' ' :: '$' :: '+' :: text => (readSigned? ('+' :: text)).map .skip
  | ' ' :: '$' :: '-' :: text => (readSigned? ('-' :: text)).map .skip
  | ' ' :: text => (readIndexed? text).map fun (value, index) => .direct false value index
  | _ => none

/-- A mnemonic is three characters long. -/
def readLine? : List Char → Option Statement
  | [] => some .nothing
  | 'L' :: text => if text.getLast? = some ':' then some .nothing else none
  | '.' :: 'O' :: 'R' :: 'G' :: ' ' :: text => (readValue? text).map .origin
  | '.' :: 'E' :: 'N' :: 'D' :: [] => some .finish
  | '.' :: 'D' :: 'B' :: ' ' :: text => ((Text.fields ',' text).mapM readValue?).map .bytes
  | '.' :: 'D' :: 'W' :: ' ' :: text => ((Text.fields ',' text).mapM readValue?).map .words
  | ' ' :: ' ' :: ' ' :: ' ' :: text =>
    (readArgument? (text.drop 3)).map (.instruction (.ofList (text.take 3)))
  | _ => none

def byteOf? (value : Int) : Option (List UInt8) :=
  if 0 ≤ value ∧ value < 0x100 then some [value.toNat.toUInt8] else none

def wordOf? (value : Int) : Option (List UInt8) :=
  if 0 ≤ value ∧ value < 0x10000 then
    some [(value.toNat % 0x100).toUInt8, (value.toNat / 0x100).toUInt8]
  else none

def displacementOf? (value : Int) : Option (List UInt8) :=
  if -0x80 ≤ value ∧ value < 0x80 then some [(value % 0x100).toNat.toUInt8] else none

/-- The displacement of a branch at `location` that reaches `target`, around the end of the bank if
need be. -/
def branchDistance (location target : Int) : Int :=
  let distance := (target - location - 2) % Bank.size
  if distance < Bank.size / 2 then distance else distance - Bank.size

def opcodeByte? (mnemonic : String) (mode : Mode) : Option UInt8 :=
  (Opcode.table.toList.findIdx? fun op =>
    op.length != 0 && op.mode == mode && op.mnemonic == mnemonic).map Nat.toUInt8

def Index.zeroPage : Index → Mode
  | none => .zeroPage
  | x => .zeroPageX
  | y => .zeroPageY

def Index.absolute : Index → Mode
  | none => .absolute
  | x => .absoluteX
  | y => .absoluteY

def encodeAs? (mnemonic : String) (mode : Mode) (operand : Option (List UInt8)) :
    Option (List UInt8) := do
  let opcode ← opcodeByte? mnemonic mode
  let operand ← operand
  return opcode :: operand

/-- A value by itself. A mnemonic that branches takes it for a target; else the form for page zero is
chosen if the value fits, unless the suffix forbids it. -/
def encodeDirect? (location : Int) (mnemonic : String) (wide : Bool) (value : Int) (index : Index) :
    Option (List UInt8) :=
  if (opcodeByte? mnemonic .relative).isSome then
    encodeAs? mnemonic .relative (displacementOf? (branchDistance location value))
  else if value < 0x100 ∧ (opcodeByte? mnemonic index.zeroPage).isSome ∧ ¬ wide then
    encodeAs? mnemonic index.zeroPage (byteOf? value)
  else encodeAs? mnemonic index.absolute (wordOf? value)

def encode? (location : Int) (mnemonic : String) : Argument → Option (List UInt8)
  | .none => (encodeAs? mnemonic .implied (some [])).orElse fun _ =>
    encodeAs? mnemonic .undefined (some [])
  | .immediate value => encodeAs? mnemonic .immediate (byteOf? value)
  | .direct wide value index => encodeDirect? location mnemonic wide value index
  | .indirect value => encodeAs? mnemonic .indirect (wordOf? value)
  | .indirectX value => encodeAs? mnemonic .indirectX (byteOf? value)
  | .indirectY value => encodeAs? mnemonic .indirectY (byteOf? value)
  | .skip distance => encodeAs? mnemonic .relative (displacementOf? (distance - 2))

/-- The bytes that a statement puts at `location`; none for a second origin or for the end. -/
def Statement.assemble? (location : Int) : Statement → Option (List UInt8)
  | nothing => some []
  | bytes values => (values.mapM byteOf?).map List.flatten
  | words values => (values.mapM wordOf?).map List.flatten
  | instruction mnemonic argument => encode? location mnemonic argument
  | origin _ | finish => none

/-- The bytes of statements from `location` to the end statement, which may not be missing. -/
def assembleFrom? (location : Int) : List Statement → Option (List UInt8)
  | [] => none
  | .finish :: _ => some []
  | statement :: rest => do
    let bytes ← statement.assemble? location
    let more ← assembleFrom? (location + bytes.length) rest
    return bytes ++ more

/-- The bytes of a listing, read line by line from its origin. -/
def assemble? (text : String) : Option (List UInt8) := do
  match ← (Text.fields '\n' text.toList).mapM readLine? with
  | .origin address :: rest => assembleFrom? address rest
  | _ => none

end BankTrace.Assembly
