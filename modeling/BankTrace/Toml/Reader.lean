namespace BankTrace.Toml

abbrev Reader (α : Type) := List Char → Option (α × List Char)

namespace Reader

variable {α β : Type}

def done (a : α) : Reader α := fun text => some (a, text)

def fail : Reader α := fun _ => none

def bind (r : Reader α) (f : α → Reader β) : Reader β := fun text =>
  match r text with
  | none => none
  | some (a, rest) => f a rest

instance : Monad Reader where
  pure := done
  bind := bind

def orElse (r s : Reader α) : Reader α := fun text => (r text).or (s text)

def optional (r : Reader α) : Reader (Option α) := orElse (do return some (← r)) (done none)

def filterMap (f : α → Option β) (r : Reader α) : Reader β := do
  match f (← r) with
  | some b => done b
  | none => fail

def upTo (r : Reader α) : Nat → Reader (List α)
  | 0 => done []
  | limit + 1 => fun text =>
    match r text with
    | none => some ([], text)
    | some (a, rest) => (upTo r limit rest).map fun (as, rest) => (a :: as, rest)

def many (r : Reader α) : Reader (List α) := fun text => upTo r text.length text

def separated (r : Reader α) (separator : Reader β) : Reader (List α) := do
  let first ← r
  return first :: (← many do let _ ← separator; r)

end Reader

def charThat (p : Char → Bool) : Reader Char
  | [] => none
  | c :: rest => if p c then some (c, rest) else none

def char (c : Char) : Reader Char := charThat (· == c)

def word (expected : String) : Reader Unit := fun text =>
  if expected.toList.isPrefixOf text then some ((), text.drop expected.length) else none

def span (p : Char → Bool) : Reader (List Char) := fun text =>
  some (text.takeWhile p, text.dropWhile p)

def spanOne (p : Char → Bool) : Reader (List Char) := do
  let first ← charThat p
  return first :: (← span p)

def notFollowedBy (c : Char) : Reader Unit := fun text =>
  if text.head? == some c then none else some ((), text)

def isSpace (c : Char) : Bool := c == ' ' || c == '\t'

def isPrintable (c : Char) : Bool := c == '\t' || (0x20 ≤ c.toNat && c.toNat != 0x7F)

def spaces : Reader Unit := do let _ ← span isSpace

def lineEnd : Reader Unit := (word "\n").orElse (word "\r\n")

def endOfText : Reader Unit
  | [] => some ((), [])
  | _ => none

def comment : Reader Unit := do
  let _ ← char '#'
  let _ ← span isPrintable

/-- What may stand between the elements of an array. -/
def gap : Reader Unit := do
  let _ ← Reader.many <|
    Reader.orElse (do let _ ← spanOne isSpace) (Reader.orElse lineEnd (do comment; lineEnd))

def restOfLine : Reader Unit := do
  spaces
  let _ ← comment.optional
  lineEnd.orElse endOfText

end BankTrace.Toml
