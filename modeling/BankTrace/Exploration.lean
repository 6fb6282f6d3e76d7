import BankTrace.Journal
import BankTrace.Survey

namespace BankTrace

inductive Task
  /-- Decode the instruction at the current offset. What stands before `settled`, the byte after the
  last branch or call, is kept if the strand meets a byte that is not code; `afterCall` tells
  whether that was a call, so that a jump table may follow it. -/
  | decode (settled : Nat) (afterCall : Bool)
  /-- Look for the next word of a jump table after a call. `refused` is the length of what was not
  accepted as code there; the strand steps over it when the table ends. -/
  | probe (refused : Nat)
  /-- The target of the word at the current offset has been explored: claim the word. -/
  | claim (refused : Nat)
  | close
deriving DecidableEq, Repr

structure Strand where
  start : Nat
  offset : Nat
  task : Task
deriving DecidableEq, Repr

def Strand.fresh (start : Nat) : Strand := ⟨start, start, .decode start false⟩

structure Exploration (n : Nat) where
  survey : Survey n
  /-- The current strand first, then those that wait for it. -/
  strands : List Strand := []
  rollbacks : Nat := 0
  recovered : Nat := 0
  /-- Largest number of strands on the stack when one was begun for another. -/
  deepest : Nat := 0
  /-- Whether the strand that ended last went past its first byte. -/
  advanced : Bool := false
  journal : Array Event := #[]
deriving DecidableEq

namespace Exploration

variable {n : Nat}

def ofSurvey (s : Survey n) : Exploration n := { survey := s }

def report (x : Exploration n) (e : Event) : Exploration n :=
  match x with
  | ⟨survey, strands, rollbacks, recovered, deepest, advanced, journal⟩ =>
    ⟨survey, strands, rollbacks, recovered, deepest, advanced, journal.push e⟩

/-- Changes the survey; there is no result if the change is refused. -/
def change? (x : Exploration n) (f : Survey n → Option (Survey n)) : Option (Exploration n) :=
  match x with
  | ⟨survey, strands, rollbacks, recovered, deepest, advanced, journal⟩ =>
    (f survey).map (⟨·, strands, rollbacks, recovered, deepest, advanced, journal⟩)

/-- Begins a strand at `target`, unless `target` is in the middle of an instruction. -/
def visit (x : Exploration n) (target : Nat) : Exploration n :=
  if x.survey.isCode target && !x.survey.isStart target then
    x.report (.insideInstruction target)
  else
    { x with
      strands := .fresh target :: x.strands
      deepest := if x.strands.isEmpty then x.deepest else max x.deepest (x.strands.length + 1) }

end Exploration

end BankTrace
