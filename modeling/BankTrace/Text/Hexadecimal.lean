namespace BankTrace.Text

def hexLower (width n : Nat) : String :=
  let digits := Nat.toDigits 16 n
  String.ofList (List.replicate (width - digits.length) '0' ++ digits)

def hexUpper (width n : Nat) : String :=
  let digits := (Nat.toDigits 16 n).map Char.toUpper
  String.ofList (List.replicate (width - digits.length) '0' ++ digits)

/-- An offset as messages write it: `0x` and at least four lower-case digits. -/
def offset (n : Nat) : String := "0x" ++ hexLower 4 n

end BankTrace.Text
