import BankTrace.Boundary
import BankTrace.Exploration.Follow

namespace BankTrace

structure Summary where
  codeBytes : Nat
  dataBytes : Nat
  instructions : Nat
  labels : Nat
  pointerSlots : Nat
  rollbacks : Nat
  recovered : Nat
deriving DecidableEq, Repr

def Summary.text (s : Summary) : String :=
  String.join [
    "\n",
    s!"Code bytes:          {s.codeBytes}\n",
    s!"Data bytes:          {s.dataBytes}\n",
    s!"Instructions:        {s.instructions}\n",
    s!"Labels:              {s.labels}\n",
    s!"Pointer slots:       {s.pointerSlots}\n",
    s!"Rollbacks:           {s.rollbacks}\n",
    s!"Recovered pointers:  {s.recovered}\n"]

def Survey.count {n : Nat} (s : Survey n) (p : Mark → Bool) : Nat := s.marks.toList.countP p

structure Analysis where
  survey : Survey Bank.size
  rollbacks : Nat := 0
  recovered : Nat := 0
  journal : Array Event := #[]

namespace Analysis

def unexplored : Analysis := { survey := .blank Bank.size }

def summary (a : Analysis) : Summary where
  codeBytes := a.survey.count Mark.code
  dataBytes := a.survey.count fun m => !m.code
  instructions := a.survey.count Mark.start
  labels := a.survey.count Mark.label
  pointerSlots := a.survey.count Mark.pointer / 2
  rollbacks := a.rollbacks
  recovered := a.recovered

/-- Marks both bytes of each slot as a code pointer. -/
def seed? {n : Nat} (s : Survey n) (slots : List Nat) : Option (Survey n) :=
  slots.foldlM (fun s slot => do (← s.point? slot).point? (slot + 1)) s

def followSlot? {n : Nat} (bank : Bank) (x : Exploration n) (slot : Nat) :
    Option (Exploration n) := do
  let word ← bank.word? slot
  (x.report (.seeded slot word)).follow? bank (Bank.offsetOf word)

def explore? (bank : Bank) (seeds : Seeds) : Option (Exploration Bank.size) := do
  let survey ← seed? (.blank Bank.size) seeds.slots
  seeds.slots.foldlM (followSlot? bank) (.ofSurvey survey)

/-- Labels what the exploration left without a name, and closes the journal. -/
def ofExploration (x : Exploration Bank.size) : Analysis :=
  let labelled : Analysis :=
    { survey := x.survey.labelBoundaries, rollbacks := x.rollbacks, recovered := x.recovered }
  let summary := labelled.summary
  { labelled with
    journal := x.journal ++ #[
      .deepest x.deepest,
      .boundariesLabelled x.survey.unlabelledBoundaries,
      .finished summary.instructions summary.codeBytes summary.dataBytes summary.labels] }

end Analysis

/-- The analysis of a bank, starting from the given tables and the hardware vectors. -/
def Bank.analyze? (bank : Bank) (seeds : Seeds) : Option Analysis :=
  (Analysis.explore? bank seeds).map Analysis.ofExploration

end BankTrace
