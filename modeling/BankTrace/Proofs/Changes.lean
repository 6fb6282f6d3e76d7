import BankTrace.Proofs.Spans

namespace BankTrace

variable {n : Nat}

inductive Change
  | label (offset : Nat)
  | claim (first length : Nat)
  | point (offset : Nat)
  | release (first last : Nat)
  | labelBoundaries
  | explore (bank : Bank) (start : Nat)

namespace Change

def perform? (s : Survey n) : Change → Option (Survey n)
  | label offset => s.label? offset
  | claim first length => s.claim? first length
  | point offset => s.point? offset
  | release first last => s.release? first last
  | labelBoundaries => some s.labelBoundaries
  | explore bank start => ((Exploration.ofSurvey s).follow? bank start).map Exploration.survey

/-- The change concerns only bytes of a survey of `n` marks; to explore a bank is in range of a
survey of its size. -/
def InRange (n : Nat) : Change → Prop
  | label offset | point offset => offset < n
  | claim first length => 0 < length ∧ first + length ≤ n
  | release first last => first ≤ last + 1 ∧ last < n
  | labelBoundaries => True
  | explore .. => n = Bank.size

variable {s t : Survey n} {c : Change}

theorem InRange.exists_perform? (h : c.InRange n) (s : Survey n) : ∃ t, c.perform? s = some t := by
  cases c with
  | label offset => exact Survey.exists_label? h
  | claim first length => exact Survey.exists_claim? h.1 h.2
  | point offset => exact Survey.exists_point? h
  | release first last => exact Survey.exists_release? h.1 h.2
  | labelBoundaries => exact ⟨_, rfl⟩
  | explore bank start =>
    obtain rfl : n = Bank.size := h
    obtain ⟨y, hy, -⟩ := Exploration.exists_follow? bank (.ofSurvey s) start
    exact ⟨y.survey, by rw [perform?, hy, Option.map_some]⟩

theorem InRange.consistent (h : c.InRange n) (hs : s.Consistent) (ht : c.perform? s = some t) :
    t.Consistent := by
  cases c with
  | label offset => exact hs.of_labelsInto (.of_label? ht)
  | claim first length => exact hs.of_claim? ht
  | point offset => exact hs.of_point? ht
  | release first last => exact hs.of_release? ht
  | labelBoundaries => exact Option.some.inj ht ▸ hs.of_labelsInto (.of_labelBoundaries s)
  | explore bank start =>
    obtain rfl : n = Bank.size := h
    obtain ⟨y, hy, rfl⟩ := Option.map_eq_some_iff.1 ht
    exact Exploration.keeps_of_sent (P := fun c => c.survey.Consistent)
      (fun _ hmove => hmove.consistent) (by exact hs) hy

/-- Changes in range can be made one after the other, and keep a survey consistent. -/
theorem exists_foldlM_perform? {changes : List Change} (h : ∀ c ∈ changes, c.InRange n)
    (hs : s.Consistent) : ∃ t, changes.foldlM perform? s = some t ∧ t.Consistent := by
  induction changes generalizing s with
  | nil => exact ⟨s, rfl, hs⟩
  | cons c changes ih =>
    rw [List.forall_mem_cons] at h
    obtain ⟨t, ht⟩ := h.1.exists_perform? s
    obtain ⟨u, hu, hconsistent⟩ := ih h.2 (h.1.consistent hs ht)
    refine ⟨u, ?_, hconsistent⟩
    rw [List.foldlM_cons, ht]
    exact hu

end Change

theorem Survey.blank_consistent (n : Nat) : (blank n).Consistent := by
  intro i m hm
  rw [mark?_blank, Option.ite_none_right_eq_some] at hm
  exact Option.some.inj hm.2 ▸ Mark.plain_consistent

/-- An exploration that has come some way from the target of a slot. -/
def Analysis.Underway (bank : Bank) (seeds : Seeds) (y : Exploration Bank.size) : Prop :=
  ∃ before slot after s x word k, seeds.slots = before ++ slot :: after ∧
    seed? (.blank Bank.size) seeds.slots = some s ∧
    before.foldlM (followSlot? bank) (.ofSurvey s) = some x ∧ bank.word? slot = some word ∧
    Exploration.run? bank ((x.report (.seeded slot word)).sent (Bank.offsetOf word)) k = some y

/-- Every survey that an analysis passes through. -/
inductive Analysis.Passes (bank : Bank) (seeds : Seeds) : Survey Bank.size → Prop
  | seeding {slots left s} (split : seeds.slots = slots ++ left)
      (seeded : seed? (.blank Bank.size) slots = some s) : Passes bank seeds s
  | halfSeeded {slots slot left s t} (split : seeds.slots = slots ++ slot :: left)
      (seeded : seed? (.blank Bank.size) slots = some s) (low : s.point? slot = some t) :
      Passes bank seeds t
  | exploring {y} (underway : Underway bank seeds y) : Passes bank seeds y.survey
  /-- In a step that decodes, the bytes have been claimed; what the opcode asks for is still to be
  done, even to give them back. -/
  | claimed {y start offset settled afterCall waiting op t} (underway : Underway bank seeds y)
      (current : y.strands = ⟨start, offset, .decode settled afterCall⟩ :: waiting)
      (data : y.survey.isData offset) (opcode : bank.opcode? offset = some op)
      (claimed : y.survey.claim? offset op.length = some t) : Passes bank seeds t
  /-- In a step that claims a word of a jump table, its first byte has been marked. -/
  | halfPointed {y start offset k waiting t} (underway : Underway bank seeds y)
      (current : y.strands = ⟨start, offset, .claim k⟩ :: waiting)
      (low : y.survey.point? offset = some t) : Passes bank seeds t
  | labelling {x s} (explored : explore? bank seeds = some x) (begun : x.survey.LabelsInto s)
      (rest : s.LabelsInto x.survey.labelBoundaries) : Passes bank seeds s

theorem Analysis.passes_of_analyze? {bank : Bank} {seeds : Seeds} {a : Analysis}
    (h : bank.analyze? seeds = some a) : Passes bank seeds a.survey := by
  obtain ⟨x, hx, rfl⟩ := Option.map_eq_some_iff.1 h
  exact .labelling hx (.of_labelBoundaries _) (.refl _)

namespace Survey

/-- The marks agree with each other, and no start of an instruction is part of a pointer. -/
structure Distinct (s : Survey n) : Prop where
  consistent : s.Consistent
  apart : ∀ i, s.isStart i → s.isPointer i = false

variable {s t : Survey n} {first length offset : Nat}

namespace Distinct

theorem of_tidy {bank : Bank} (hc : s.Consistent) (h : s.Tidy bank) : s.Distinct where
  consistent := hc
  apart i hi := by
    obtain ⟨op, hop⟩ := h i hi
    exact hop.noPointer

theorem of_seed? {slots : List Nat} (bank : Bank) (h : Analysis.seed? (.blank n) slots = some s) :
    s.Distinct := by
  have hsealed : s.Sealed bank := sealed_of_seed? h
  exact of_tidy hsealed.consistent hsealed.tidy

theorem of_claim? (h : s.Distinct) (data : s.isData first)
    (claimed : s.claim? first length = some t) : t.Distinct where
  consistent := h.consistent.of_claim? claimed
  apart i hi := by
    rw [Bool.eq_false_iff, ne_eq, isPointer_of_claim? claimed, Bool.not_eq_true]
    rcases (isStart_of_claim? claimed i).1 hi with rfl | ⟨hstart, -⟩
    · exact h.consistent.isPointer_eq_false data
    · exact h.apart i hstart

theorem of_point? (h : s.Distinct) (pointed : s.point? offset = some t) : t.Distinct where
  consistent := h.consistent.of_point? pointed
  apart i hi := by
    obtain ⟨hstart, hne⟩ := (isStart_of_point? pointed i).1 hi
    rw [Bool.eq_false_iff, ne_eq, isPointer_of_point? pointed, h.apart i hstart]
    simpa using hne

theorem of_labelsInto (h : s.Distinct) (hl : s.LabelsInto t) : t.Distinct where
  consistent := h.consistent.of_labelsInto hl
  apart i hi := by
    rw [hl.isStart_eq] at hi
    rw [hl.isPointer_eq]
    exact h.apart i hi

end Distinct

end Survey

namespace Analysis

variable {bank : Bank} {seeds : Seeds}

theorem Underway.distinct {y : Exploration Bank.size} (h : Underway bank seeds y) :
    y.survey.Distinct := by
  obtain ⟨before, slot, after, s, x, word, k, hslots, hs, hx, hword, hrun⟩ := h
  have hkept := Course.kept_orderly bank seeds
  obtain ⟨s', x', word', hs', hx', hword', hsent⟩ := hkept.exists_sent hslots
  obtain rfl := Option.some.inj (hs.symm.trans hs')
  obtain rfl := Option.some.inj (hx.symm.trans hx')
  obtain rfl := Option.some.inj (hword.symm.trans hword')
  obtain ⟨-, horder⟩ :=
    Exploration.keeps_of_run? hkept.moved (Exploration.sound_sent bank _ _) hsent hrun
  exact .of_tidy horder.consistent horder.tidy

theorem distinct_of_explore? {x : Exploration Bank.size} (h : explore? bank seeds = some x) :
    x.survey.Distinct := by
  have hkept := Course.kept_orderly bank seeds
  simp only [explore?, Option.bind_eq_bind, Option.bind_eq_some_iff] at h
  obtain ⟨s, hs, hx⟩ := h
  obtain ⟨z, hz, hexp⟩ := Exploration.exists_explores bank seeds.succ_slot_lt (.ofSurvey s)
  obtain rfl := Option.some.inj (hx.symm.trans hz)
  obtain ⟨-, -, horder⟩ := hkept.of_explores hexp (fun _ => id) rfl (hkept.seeded hs)
  exact .of_tidy horder.consistent horder.tidy

theorem Passes.distinct {s : Survey Bank.size} (h : Passes bank seeds s) : s.Distinct := by
  cases h with
  | seeding split seeded => exact .of_seed? bank seeded
  | halfSeeded split seeded low =>
    exact (Survey.Distinct.of_seed? bank seeded).of_point? low
  | exploring underway => exact underway.distinct
  | claimed underway current data opcode claimed => exact underway.distinct.of_claim? data claimed
  | halfPointed underway current low => exact underway.distinct.of_point? low
  | labelling explored begun rest => exact (distinct_of_explore? explored).of_labelsInto begun

end Analysis

/-- The marks stay consistent whatever is done to a survey, and in an analysis no byte is ever both
the start of an instruction and part of a pointer. -/
theorem Survey.marks_stay_consistent :
    (∀ {n : Nat} {changes : List Change}, (∀ c ∈ changes, c.InRange n) →
      ∃ s, changes.foldlM Change.perform? (blank n) = some s ∧
        ∀ i < n, ∃ m, s.mark? i = some m ∧ m.Consistent) ∧
    ∀ (bank : Bank) (seeds : Seeds),
      (∃ a, bank.analyze? seeds = some a ∧ Analysis.Passes bank seeds a.survey) ∧
      ∀ {s}, Analysis.Passes bank seeds s →
        s.Consistent ∧ ∀ i, ¬ (s.isStart i ∧ s.isPointer i) := by
  refine ⟨fun {n changes} h => ?_, fun bank seeds => ⟨?_, fun {s} hs => ?_⟩⟩
  · obtain ⟨s, hs, hconsistent⟩ := Change.exists_foldlM_perform? h (blank_consistent n)
    refine ⟨s, hs, fun i hi => ?_⟩
    obtain ⟨m, hm⟩ := s.exists_mark? hi
    exact ⟨m, hm, hconsistent i m hm⟩
  · obtain ⟨-, x, -, -, ha⟩ := bank.analyze?_eq_some seeds
    exact ⟨_, ha, Analysis.passes_of_analyze? ha⟩
  · have hdistinct := hs.distinct
    refine ⟨hdistinct.consistent, fun i hi => ?_⟩
    rw [hdistinct.apart i hi.1] at hi
    exact Bool.false_ne_true hi.2

def callsBank : Bank := ⟨Vector.replicate Bank.size 0x20⟩

/-- An instruction is claimed and overrun by a pointer, a byte is given back that was never claimed,
and then the bank is explored from the pointer. -/
def roughChanges : List Change :=
  [.claim 0 3, .label 1, .point 1, .release 5 5, .explore callsBank 1, .labelBoundaries]

theorem consistent_roughChanges :
    (∀ c ∈ roughChanges, c.InRange Bank.size) ∧
    (∃ s, roughChanges.foldlM Change.perform? (Survey.blank Bank.size) = some s ∧
      ∀ i < Bank.size, ∃ m, s.mark? i = some m ∧ m.Consistent) ∧
    ∃ a, callsBank.analyze? .empty = some a ∧ Analysis.Passes callsBank .empty a.survey ∧
      a.survey.Consistent ∧ ∀ i, ¬ (a.survey.isStart i ∧ a.survey.isPointer i) := by
  have hin : ∀ c ∈ roughChanges, c.InRange Bank.size := by
    simp [roughChanges, Change.InRange, Bank.size]
  obtain ⟨⟨a, ha, hpasses⟩, hall⟩ := Survey.marks_stay_consistent.2 callsBank .empty
  exact ⟨hin, Survey.marks_stay_consistent.1 hin, a, ha, hpasses, hall hpasses⟩

end BankTrace
