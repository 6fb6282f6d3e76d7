import BankTrace.Proofs.Boundaries

namespace BankTrace

variable {n : Nat}

/-- A byte that is not data. -/
def Survey.Taken (s : Survey n) (i : Nat) : Prop := i < n ∧ s.isData i = false

namespace Survey

variable {s t : Survey n} {i : Nat}

theorem Taken.not_isData (h : s.Taken i) : ¬ s.isData i := by simp [h.2]

theorem Taken.ne_of_isData {offset : Nat} (h : s.Taken i) (hdata : s.isData offset) :
    i ≠ offset := by
  intro he
  rw [he] at h
  exact h.not_isData hdata

theorem Taken.of_claim? {first length : Nat} (h : s.claim? first length = some t)
    (hi : s.Taken i) : t.Taken i := by
  refine ⟨hi.1, ?_⟩
  rw [Bool.eq_false_iff]
  intro ht
  exact hi.not_isData ((isData_of_claim? h i).1 ht).1

theorem taken_of_claim? {first length : Nat} (h : s.claim? first length = some t)
    (hlo : first ≤ i) (hhi : i < first + length) : t.Taken i := by
  have hlen := claim?_bounds h
  refine ⟨by omega, ?_⟩
  rw [Bool.eq_false_iff]
  intro ht
  exact ((isData_of_claim? h i).1 ht).2 ⟨hlo, hhi⟩

theorem Taken.of_release? {first last : Nat} (h : s.release? first last = some t)
    (hi : s.Taken i) (hout : ¬ (first ≤ i ∧ i ≤ last)) : t.Taken i := by
  refine ⟨hi.1, ?_⟩
  rw [Bool.eq_false_iff]
  intro ht
  rcases (isData_of_release? h i).1 ht with hdata | hin
  · exact hi.not_isData hdata
  · exact hout hin

theorem Taken.of_undo? {settled offset : Nat} (h : s.release? settled offset = some t)
    (hdata : s.isData offset) (hi : s.Taken i)
    (hdoubt : ¬ (s.isData offset ∧ settled ≤ i ∧ i < offset)) : t.Taken i := by
  apply hi.of_release? h
  intro hin
  have hne := hi.ne_of_isData hdata
  exact hdoubt ⟨hdata, hin.1, by omega⟩

theorem Taken.of_point? {offset : Nat} (h : s.point? offset = some t) (hi : s.Taken i) :
    t.Taken i := by
  refine ⟨hi.1, ?_⟩
  rw [Bool.eq_false_iff]
  intro ht
  exact hi.not_isData ((isData_of_point? h i).1 ht).1

theorem LabelsInto.taken_iff (h : s.LabelsInto t) : t.Taken i ↔ s.Taken i := by
  unfold Taken
  rw [h.isData_eq]

theorem mark?_labelBoundaries_of_taken (s : Survey n) (hi : s.Taken i) :
    s.labelBoundaries.mark? i = s.mark? i := by
  have hboundary : ¬ s.isBoundary i := by
    rw [isBoundary, hi.2, Bool.and_false]
    exact Bool.false_ne_true
  rw [mark?_labelBoundaries, if_neg hboundary]

end Survey

/-- A strand with nothing that it could give back. -/
def Strand.Steady (strand : Strand) : Prop :=
  match strand.task with
  | .decode settled _ => settled = strand.offset
  | _ => True

/-- A strand that waits for another: it has just taken a branch or call, or it will not decode. -/
def Strand.Waits (strand : Strand) : Prop :=
  match strand.task with
  | .decode settled _ => settled = strand.offset ∧ strand.start < settled
  | _ => True

theorem Strand.Waits.steady {strand : Strand} (h : strand.Waits) : strand.Steady := by
  obtain ⟨start, offset, task⟩ := strand
  cases task with
  | decode settled afterCall => exact h.1
  | _ => trivial

theorem Strand.fresh_steady (start : Nat) : (Strand.fresh start).Steady := rfl

theorem Strand.undone_waits (start settled : Nat) (afterCall : Bool) (k : Nat) :
    (Strand.undone start settled afterCall k).Waits := by
  unfold undone
  split <;> trivial

theorem Strand.undone_steady (start settled : Nat) (afterCall : Bool) (k : Nat) :
    (Strand.undone start settled afterCall k).Steady :=
  (Strand.undone_waits start settled afterCall k).steady

theorem Strand.taskAfter_steady (c : Control) (start next : Nat) :
    (⟨start, next, c.taskAfter next⟩ : Strand).Steady := by
  cases c <;> first | exact rfl | trivial

theorem Strand.taskAfter_waits {start offset length : Nat} (c : Control) (hle : start ≤ offset)
    (hpos : 0 < length) :
    (⟨start, offset + length, c.taskAfter (offset + length)⟩ : Strand).Waits := by
  have hlt : start < offset + length := by omega
  cases c <;> first | exact ⟨rfl, hlt⟩ | trivial

theorem Survey.entering_eq (s : Survey n) (target : Option Nat) :
    s.entering target = [] ∨ ∃ start, target = some start ∧ s.entering target = [.fresh start] := by
  cases target with
  | none => exact .inl rfl
  | some start =>
    by_cases h : s.isCode start && !s.isStart start
    · exact .inl (if_pos h)
    · exact .inr ⟨start, rfl, if_neg h⟩

namespace Course

def Stacked (c : Course n) : Prop := ∀ strand ∈ c.strands.tail, strand.Waits

/-- The bytes that the current strand would give back if it were refused where it is. If it is not at
data there are none, for it will end there and keep them. -/
def InDoubt (c : Course n) (i : Nat) : Prop :=
  match c.strands with
  | ⟨_, offset, .decode settled _⟩ :: _ => c.survey.isData offset ∧ settled ≤ i ∧ i < offset
  | _ => False

/-- A byte that is not data and not in doubt. -/
def Held (c : Course n) (i : Nat) : Prop := c.survey.Taken i ∧ ¬ c.InDoubt i

/-- A byte in a row of three that are held. -/
def Fixed (c : Course n) (i : Nat) : Prop :=
  ∃ j, j ≤ i ∧ i < j + 3 ∧ c.Held j ∧ c.Held (j + 1) ∧ c.Held (j + 2)

theorem Fixed.held {c : Course n} {i : Nat} (h : c.Fixed i) : c.Held i := by
  obtain ⟨j, hlo, hhi, h₀, h₁, h₂⟩ := h
  obtain rfl | rfl | rfl : i = j ∨ i = j + 1 ∨ i = j + 2 := by omega
  · exact h₀
  · exact h₁
  · exact h₂

theorem not_inDoubt_of_steady {c : Course n} {strand : Strand} {waiting : List Strand}
    (hs : c.strands = strand :: waiting) (h : strand.Steady) (i : Nat) : ¬ c.InDoubt i := by
  obtain ⟨start, offset, task⟩ := strand
  unfold InDoubt
  rw [hs]
  cases task with
  | decode settled afterCall =>
    have h : settled = offset := h
    rintro ⟨-, hlo, hhi⟩
    omega
  | _ => exact id

theorem not_inDoubt_of_entering {s : Survey n} {target : Option Nat} {strand : Strand}
    {waiting : List Strand} {r p : Nat} {a : Bool} (h : strand.Steady) (i : Nat) :
    ¬ (⟨s, s.entering target ++ strand :: waiting, r, p, a⟩ : Course n).InDoubt i := by
  rcases s.entering_eq target with he | ⟨start, -, he⟩
  · exact not_inDoubt_of_steady (by rw [he]; rfl) h i
  · exact not_inDoubt_of_steady (by rw [he]; rfl) (Strand.fresh_steady start) i

theorem stacked_entering {s : Survey n} {target : Option Nat} {strand : Strand}
    {waiting : List Strand} {r p : Nat} {a : Bool} (h : strand.Waits)
    (hw : ∀ strand ∈ waiting, strand.Waits) :
    (⟨s, s.entering target ++ strand :: waiting, r, p, a⟩ : Course n).Stacked := by
  rcases s.entering_eq target with he | ⟨start, -, he⟩
  · simpa [Stacked, he] using hw
  · simpa [Stacked, he] using And.intro h hw

end Course

namespace Move

variable {bank : Bank} {c d : Course Bank.size}

theorem stacked (h : Move bank c d) (hin : c.Inside) (hc : c.Stacked) : d.Stacked := by
  cases h with
  | transfer data holds nonlinear claimed =>
    obtain ⟨hle, hle', -⟩ := hin _ List.mem_cons_self
    exact Course.stacked_entering (Strand.taskAfter_waits _ (hle.trans hle') holds.length_pos) hc
  | probe word pointee => exact Course.stacked_entering trivial hc
  | finish closed => exact fun strand hmem => hc strand (List.mem_of_mem_tail hmem)
  | _ => exact hc

/-- A held byte stays held, or an instruction runs over it and may be undone: then the instruction
stands between two data bytes. -/
theorem held_or_overrun (h : Move bank c d) (hc : c.Stacked) {i : Nat} (hi : c.Held i) :
    d.Held i ∨ ∃ o l, l ≤ 3 ∧ c.survey.isData o ∧ c.survey.isData (o + l) ∧ o < i ∧ i < o + l := by
  cases h with
  | arrive stop => exact .inl ⟨hi.1, Course.not_inDoubt_of_steady rfl (by trivial) i⟩
  | @undo s t start offset settled afterCall k waiting r p a data refuses released =>
    exact .inl ⟨hi.1.of_undo? released data hi.2,
      Course.not_inDoubt_of_steady rfl (Strand.undone_steady _ _ _ _) i⟩
  | @advance s t u start offset settled afterCall op waiting r p a data holds linear claimed
      annotated =>
    have hlab := Survey.LabelsInto.of_annotate? annotated
    have htaken : u.Taken i := hlab.taken_iff.2 (hi.1.of_claim? claimed)
    by_cases hnext : u.isData (offset + op.length)
    · by_cases hover : offset < i ∧ i < offset + op.length
      · right
        rw [hlab.isData_eq, Survey.isData_of_claim? claimed] at hnext
        exact ⟨offset, op.length, holds.length_le, data, hnext.1, hover⟩
      · left
        refine ⟨htaken, ?_⟩
        rintro ⟨-, hlo, hhi⟩
        have hne := hi.1.ne_of_isData data
        exact hi.2 ⟨data, hlo, by omega⟩
    · exact .inl ⟨htaken, fun hd => hnext hd.1⟩
  | transfer data holds nonlinear claimed =>
    exact .inl ⟨hi.1.of_claim? claimed,
      Course.not_inDoubt_of_entering (Strand.taskAfter_steady _ _ _) i⟩
  | probe word pointee => exact .inl ⟨hi.1, Course.not_inDoubt_of_entering (by trivial) i⟩
  | tableEnd noWord => exact .inl ⟨hi.1, Course.not_inDoubt_of_steady rfl (by trivial) i⟩
  | claim low high =>
    exact .inl ⟨(hi.1.of_point? low).of_point? high, Course.not_inDoubt_of_steady rfl (by trivial) i⟩
  | @finish s t start offset waiting r p a closed =>
    refine .inl ⟨(Survey.LabelsInto.of_close? closed).taken_iff.2 hi.1, ?_⟩
    cases waiting with
    | nil => exact id
    | cons strand waiting =>
      exact Course.not_inDoubt_of_steady rfl (hc strand List.mem_cons_self).steady i

theorem fixed (h : Move bank c d) (hc : c.Stacked) {i : Nat} (hi : c.Fixed i) : d.Fixed i := by
  obtain ⟨j, hlo, hhi, h₀, h₁, h₂⟩ := hi
  -- An instruction between two data bytes is too short to run over any byte of the row.
  have keep : ∀ k, c.Held k → j ≤ k → k < j + 3 → d.Held k := by
    intro k hk hjk hkj
    rcases h.held_or_overrun hc hk with hd | ⟨o, l, hl, ho, hol, hok, hkl⟩
    · exact hd
    · have apart : ∀ m, c.Held m → m ≠ o ∧ m ≠ o + l := fun m hm =>
        ⟨hm.1.ne_of_isData ho, hm.1.ne_of_isData hol⟩
      have := apart _ h₀
      have := apart _ h₁
      have := apart _ h₂
      omega
  exact ⟨j, hlo, hhi, keep j h₀ (by omega) (by omega), keep _ h₁ (by omega) (by omega),
    keep _ h₂ (by omega) (by omega)⟩

end Move

end BankTrace
