import BankTrace.Toml.Number

namespace BankTrace.Toml

def fixedNumber (count : Nat) : Reader Nat := fun text =>
  let front := text.take count
  if front.length = count then
    (Numeral.digits? 10 front).map fun value => (value, text.drop count)
  else none

def twoDigits (low high : Nat) : Reader Nat :=
  (fixedNumber 2).filterMap fun value => if low ≤ value ∧ value ≤ high then some value else none

def isLeapYear (year : Nat) : Bool := year % 4 == 0 && (year % 100 != 0 || year % 400 == 0)

def daysInMonth (year month : Nat) : Nat :=
  match month with
  | 2 => if isLeapYear year then 29 else 28
  | 4 | 6 | 9 | 11 => 30
  | _ => 31

def date : Reader Unit := do
  let year ← fixedNumber 4
  let _ ← char '-'
  let month ← twoDigits 1 12
  let _ ← char '-'
  let _ ← twoDigits 1 (daysInMonth year month)

/-- A time of day; a leap second is allowed. -/
def time : Reader Unit := do
  let _ ← twoDigits 0 23
  let _ ← char ':'
  let _ ← twoDigits 0 59
  let _ ← char ':'
  let _ ← twoDigits 0 60
  let _ ← Reader.optional do
    let _ ← char '.'
    spanOne (isDigit 10)

def zone : Reader Unit :=
  Reader.orElse
    (do let _ ← charThat fun c => c == 'Z' || c == 'z')
    (do
      let _ ← charThat fun c => c == '+' || c == '-'
      let _ ← twoDigits 0 23
      let _ ← char ':'
      let _ ← twoDigits 0 59)

/-- A date with or without a time, or a time alone. -/
def dateTime : Reader Unit :=
  Reader.orElse
    (do
      date
      let _ ← Reader.optional do
        let _ ← charThat fun c => c == 'T' || c == 't' || c == ' '
        time
        zone.optional)
    time

end BankTrace.Toml
