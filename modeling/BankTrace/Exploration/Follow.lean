import BankTrace.Exploration.Step

namespace BankTrace.Exploration

variable {n : Nat}

/-- Steps until no strand is left, but no more than `limit` of them. -/
def run? (bank : Bank) (x : Exploration n) : Nat → Option (Exploration n)
  | 0 => some x
  | limit + 1 =>
    if x.strands.isEmpty then some x
    else match step? bank x with
      | none => none
      | some x => run? bank x limit

/-- More steps than the exploration of a bank from one start takes. -/
def stepLimit : Nat := Nat.pow 2 112

def follow? (bank : Bank) (x : Exploration n) (start : Nat) : Option (Exploration n) :=
  run? bank ({ x with strands := [], advanced := false }.visit start) stepLimit

end BankTrace.Exploration
