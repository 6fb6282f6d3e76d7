import BankTrace.Numeral
import BankTrace.Toml.Reader

namespace BankTrace.Toml

def isDigit (radix : Nat) (c : Char) : Bool := (Numeral.digit? radix c).isSome

def furtherDigit (radix : Nat) : Reader Char :=
  (charThat (isDigit radix)).orElse do
    let _ ← char '_'
    charThat (isDigit radix)

def digits (radix : Nat) : Reader (List Char) := do
  let first ← charThat (isDigit radix)
  return first :: (← Reader.many (furtherDigit radix))

/-- Decimal digits without a leading zero, unless zero is all there is. -/
def decimalDigits : Reader (List Char) :=
  Reader.orElse
    (do
      let first ← charThat fun c => '1' ≤ c && c ≤ '9'
      return first :: (← Reader.many (furtherDigit 10)))
    (do return [← charThat (isDigit 10)])

/-- Whether a minus sign was there; a plus sign is dropped. -/
def sign : Reader Bool := do
  return (← (charThat fun c => c == '+' || c == '-').optional) == some '-'

def decimalInteger : Reader Int := do
  let isNegative ← sign
  let magnitude ← decimalDigits.filterMap (Numeral.digits? 10)
  let value : Int := magnitude
  return if isNegative then -value else value

def radixInteger (mark : String) (radix : Nat) : Reader Int := do
  word mark
  let magnitude ← (digits radix).filterMap (Numeral.digits? radix)
  return (magnitude : Int)

def integer : Reader Int :=
  let unbounded := (radixInteger "0x" 16).orElse <| (radixInteger "0o" 8).orElse <|
    (radixInteger "0b" 2).orElse decimalInteger
  unbounded.filterMap Numeral.within64?

def exponent : Reader Int := do
  let _ ← charThat fun c => c == 'e' || c == 'E'
  let isNegative ← sign
  let magnitude ← (digits 10).filterMap (Numeral.digits? 10)
  let value : Int := magnitude
  return if isNegative then -value else value

def fraction : Reader (List Char) := do
  let _ ← char '.'
  digits 10

/-- Whether `mantissa * 10 ^ scale` rounds to a finite binary64 number. The bound is half-way
between the largest such number and the next power of two. -/
def roundsToFinite (mantissa : Nat) (scale : Int) : Bool :=
  let places : Int := (Nat.toDigits 10 mantissa).length + scale
  let bound := Nat.pow 2 1024 - Nat.pow 2 970
  if mantissa = 0 ∨ places < 309 then true
  else if 310 < places then false
  else mantissa * Nat.pow 10 scale.toNat < bound * Nat.pow 10 (-scale).toNat

/-- A number with a fraction or an exponent. A positive one must not be too large for binary64. -/
def finiteFloat : Reader Unit := do
  let isNegative ← sign
  let whole ← decimalDigits
  let (fraction, exponent) ← Reader.orElse
    (do return ([], ← exponent))
    (do
      let fraction ← fraction
      return (fraction, (← exponent.optional).getD 0))
  let mantissa ← (Reader.done (whole ++ fraction)).filterMap (Numeral.digits? 10)
  if isNegative || roundsToFinite mantissa (exponent - fraction.length) then return
  Reader.fail

def float : Reader Unit :=
  finiteFloat.orElse do
    let _ ← sign
    (word "inf").orElse (word "nan")

end BankTrace.Toml
