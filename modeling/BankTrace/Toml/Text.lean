import BankTrace.Numeral
import BankTrace.Toml.Reader

namespace BankTrace.Toml

def isBasic (c : Char) : Bool := isPrintable c && c != '"' && c != '\\'

def isLiteral (c : Char) : Bool := isPrintable c && c != '\''

def scalar? (code : Nat) : Option Char :=
  if code.isValidChar then some (.ofNat code) else none

def codePoint (count : Nat) : Reader Char := fun text =>
  let digits := text.take count
  if digits.length = count then do
    let code ← Numeral.digits? 16 digits
    return (← scalar? code, text.drop count)
  else none

def escape : Reader Char := do
  let _ ← char '\\'
  match ← charThat fun _ => true with
  | 'b' => return '\x08'
  | 't' => return '\t'
  | 'n' => return '\n'
  | 'f' => return '\x0C'
  | 'r' => return '\r'
  | '"' => return '"'
  | '\\' => return '\\'
  | 'u' => codePoint 4
  | 'U' => codePoint 8
  | _ => Reader.fail

def basicString : Reader (List Char) := do
  let _ ← char '"'
  let content ← Reader.many ((charThat isBasic).orElse escape)
  let _ ← char '"'
  return content

def literalString : Reader (List Char) := do
  let _ ← char '\''
  let content ← span isLiteral
  let _ ← char '\''
  return content

/-- A backslash at the end of a line joins it to the next text. -/
def lineJoin : Reader Unit := do
  let _ ← char '\\'
  spaces
  lineEnd
  let _ ← Reader.many ((do let _ ← spanOne isSpace).orElse lineEnd)

/-- One or two quotes inside a multi-line string: another character follows. -/
def innerQuotes (quote : Char) : Reader (List Char) :=
  let one : Reader (List Char) := do
    let _ ← char quote
    notFollowedBy quote
    return [quote]
  let two : Reader (List Char) := do
    let _ ← char quote
    return quote :: (← one)
  two.orElse one

/-- The end of a multi-line string: three quotes, after at most two that belong to the content. -/
def closingQuotes (quote : Char) : Reader (List Char) :=
  let run (count : Nat) : Reader (List Char) := do
    word (String.ofList (List.replicate (count + 3) quote))
    return List.replicate count quote
  (run 2).orElse ((run 1).orElse (run 0))

/-- A string between triple quotes. A line end right after the opening quotes is dropped. -/
def multiLine (quote : Char) (piece : Reader (List Char)) : Reader (List Char) := do
  word (String.ofList (List.replicate 3 quote))
  let _ ← lineEnd.optional
  let content ← Reader.many (piece.orElse (innerQuotes quote))
  return content.flatten ++ (← closingQuotes quote)

def newline : Reader (List Char) := do
  lineEnd
  return ['\n']

def multiLineBasicString : Reader (List Char) :=
  let joined : Reader (List Char) := do
    lineJoin
    return []
  let escaped : Reader (List Char) := do return [← escape]
  multiLine '"' ((spanOne isBasic).orElse (joined.orElse (escaped.orElse newline)))

def multiLineLiteralString : Reader (List Char) :=
  multiLine '\'' ((spanOne isLiteral).orElse newline)

def string : Reader String := do
  let content ← multiLineBasicString.orElse
    (basicString.orElse (multiLineLiteralString.orElse literalString))
  return String.ofList content

end BankTrace.Toml
