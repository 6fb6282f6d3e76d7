import BankTrace.Survey

namespace BankTrace.Survey

variable {n : Nat}

def isBoundary (s : Survey n) (offset : Nat) : Bool :=
  offset != 0 && s.isCode (offset - 1) && s.isData offset

/-- Looks at one byte: a boundary that has no label yet gets one, and is counted. -/
def labelBoundary : Survey n × Nat → Nat → Survey n × Nat
  | (s, added), offset =>
    if s.isBoundary offset && !s.isLabel offset then (s.alter offset .labelled, added + 1)
    else (s, added)

-- Irreducible: surveys of a whole bank are never to be compared by running the pass.
/-- Looks at every byte but the first, in order, each time at the survey as it is by then. -/
@[irreducible]
def passBoundaries (s : Survey n) : Survey n × Nat :=
  (List.range' 1 (n - 1)).foldl labelBoundary (s, 0)

def labelBoundaries (s : Survey n) : Survey n := s.passBoundaries.1

def unlabelledBoundaries (s : Survey n) : Nat := s.passBoundaries.2

end BankTrace.Survey
