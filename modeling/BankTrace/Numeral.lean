import BankTrace.Text.Blank

namespace BankTrace

/-- What becomes of a result that does not fit into 64 bits: it wraps around, or the run breaks
off. -/
inductive Arithmetic
  | wrapping
  | checked
deriving DecidableEq, Repr

namespace Numeral

/-- Value of a digit below `radix`; letters count from ten, in either case. -/
def digit? (radix : Nat) (c : Char) : Option Nat :=
  let value :=
    if '0' ≤ c ∧ c ≤ '9' then c.toNat - '0'.toNat
    else if 'a' ≤ c ∧ c ≤ 'f' then c.toNat - 'a'.toNat + 10
    else if 'A' ≤ c ∧ c ≤ 'F' then c.toNat - 'A'.toNat + 10
    else radix
  if value < radix then some value else none

def digits? (radix : Nat) (text : List Char) : Option Nat :=
  text.foldlM (fun value c => (digit? radix c).map (radix * value + ·)) 0

def natural? (radix : Nat) (text : List Char) : Option Nat :=
  if text.isEmpty then none else digits? radix text

def within64? (value : Int) : Option Int :=
  if -0x8000000000000000 ≤ value ∧ value < 0x8000000000000000 then some value else none

def integer? (radix : Nat) : List Char → Option Int
  | '-' :: rest => do within64? (-(← natural? radix rest))
  | '+' :: rest => do within64? (← natural? radix rest)
  | text => do within64? (← natural? radix text)

/-- A number without its outer sign: the characters in front choose the radix of what follows. -/
def unsigned? : List Char → Option Int
  | '0' :: 'x' :: rest => integer? 16 rest
  | '0' :: 'X' :: rest => integer? 16 rest
  | '#' :: rest => integer? 16 rest
  | '$' :: rest => integer? 16 rest
  | '0' :: c :: rest => integer? 8 (c :: rest)
  | text => integer? 10 text

/-- The negative of a value within 64 bits. The least one has none there, and is left. -/
def negated (value : Int) : Int := if value = -0x8000000000000000 then value else -value

/-- The number that a text denotes, blanks around it aside: decimal, hexadecimal after `0x`, `0X`,
`#` or `$`, octal after a leading zero. Arithmetic wraps around. -/
def read? (text : List Char) : Option Int :=
  match Text.trim text with
  | '-' :: rest => (unsigned? rest).map negated
  | '+' :: rest => unsigned? rest
  | text => unsigned? text

/-- Reading the text takes the negative of the least value within 64 bits. -/
def overflows (text : List Char) : Bool :=
  match Text.trim text with
  | '-' :: rest => unsigned? rest == some (-0x8000000000000000)
  | _ => false

end Numeral

end BankTrace
