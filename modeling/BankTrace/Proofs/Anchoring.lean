import BankTrace.Proofs.Permanence

namespace BankTrace

variable {n : Nat}

namespace Course

/-- The current strand decodes, and stands on the straight line from `a`. -/
def OnLine (bank : Bank) (c : Course n) (a : Nat) : Prop :=
  match c.strands with
  | ⟨_, offset, .decode _ _⟩ :: _ => bank.LinearTo a offset
  | _ => False

/-- The state of the bytes `b` and `b + 1`, the last two before a strand went on at `b + 2`. -/
def Anchored (bank : Bank) (c : Course n) (b : Nat) : Prop :=
  bank.Doomed (b + 2) ∨
    c.survey.Taken b ∧ c.survey.Taken (b + 1) ∧
      ((¬ c.InDoubt b ∧ ¬ c.InDoubt (b + 1)) ∨ c.OnLine bank (b + 2))

/-- The current strand has come straight from `settled`, and the bytes since then are taken. -/
def Stretched (bank : Bank) (c : Course n) : Prop :=
  match c.strands with
  | ⟨_, offset, .decode settled _⟩ :: _ =>
    bank.LinearTo settled offset ∧ ∀ i, settled ≤ i → i < offset → c.survey.Taken i
  | _ => True

def Rooted (bank : Bank) (c : Course n) (strand : Strand) : Prop :=
  match strand.task with
  | .decode settled afterCall =>
    (settled = strand.start ∧ afterCall = false) ∨ ∃ b, settled = b + 2 ∧ c.Anchored bank b
  | _ => True

/-- What holds of the course of an exploration after every step. -/
structure Sound (bank : Bank) (c : Course n) : Prop where
  inside : c.Inside
  stacked : c.Stacked
  stretched : c.Stretched bank
  rooted : ∀ strand ∈ c.strands, c.Rooted bank strand

theorem anchored_of_steady {bank : Bank} {c : Course n} {strand : Strand} {waiting : List Strand}
    {b : Nat} (hs : c.strands = strand :: waiting) (h : strand.Steady)
    (h₀ : c.survey.Taken b) (h₁ : c.survey.Taken (b + 1)) : c.Anchored bank b :=
  .inr ⟨h₀, h₁, .inl ⟨not_inDoubt_of_steady hs h b, not_inDoubt_of_steady hs h (b + 1)⟩⟩

theorem anchored_of_entering {bank : Bank} {s : Survey n} {target : Option Nat} {strand : Strand}
    {waiting : List Strand} {r p b : Nat} {a : Bool} (h : strand.Steady) (h₀ : s.Taken b)
    (h₁ : s.Taken (b + 1)) :
    (⟨s, s.entering target ++ strand :: waiting, r, p, a⟩ : Course n).Anchored bank b :=
  .inr ⟨h₀, h₁, .inl ⟨not_inDoubt_of_entering h b, not_inDoubt_of_entering h (b + 1)⟩⟩

theorem stretched_of_steady {bank : Bank} {c : Course n} {strand : Strand} {waiting : List Strand}
    (hs : c.strands = strand :: waiting) (h : strand.Steady) : c.Stretched bank := by
  obtain ⟨start, offset, task⟩ := strand
  unfold Stretched
  rw [hs]
  cases task with
  | decode settled afterCall =>
    obtain rfl : settled = offset := h
    exact ⟨.refl, fun i hlo hhi => by omega⟩
  | _ => trivial

theorem stretched_of_entering {bank : Bank} {s : Survey n} {target : Option Nat} {strand : Strand}
    {waiting : List Strand} {r p : Nat} {a : Bool} (h : strand.Steady) :
    (⟨s, s.entering target ++ strand :: waiting, r, p, a⟩ : Course n).Stretched bank := by
  rcases s.entering_eq target with he | ⟨start, -, he⟩
  · exact stretched_of_steady (by rw [he]; rfl) h
  · exact stretched_of_steady (by rw [he]; rfl) (Strand.fresh_steady start)

theorem rooted_fresh (bank : Bank) (c : Course n) (start : Nat) :
    c.Rooted bank (.fresh start) := .inl ⟨rfl, rfl⟩

theorem sound_fresh (bank : Bank) (s : Survey n) (target : Option Nat) (r p : Nat) (a : Bool) :
    (⟨s, s.entering target, r, p, a⟩ : Course n).Sound bank := by
  rcases s.entering_eq target with he | ⟨start, -, he⟩
  · rw [he]
    exact ⟨by simp [Inside], by simp [Stacked], trivial, by simp⟩
  · rw [he]
    refine ⟨?_, by simp [Stacked], stretched_of_steady rfl (Strand.fresh_steady start), ?_⟩
    · simpa [Inside] using Strand.fresh_inside start
    · simpa using rooted_fresh bank _ start

end Course

namespace Move

variable {bank : Bank} {c d : Course Bank.size}

theorem anchored (h : Move bank c d) (hc : c.Stacked) {b : Nat} (hb : c.Anchored bank b) :
    d.Anchored bank b := by
  rcases hb with hdoom | ⟨h₀, h₁, hb⟩
  · exact .inl hdoom
  cases h with
  | arrive stop => exact Course.anchored_of_steady rfl (by trivial) h₀ h₁
  | @undo s t start offset settled afterCall k waiting r p a data refuses released =>
    rcases hb with ⟨hd₀, hd₁⟩ | hline
    · exact Course.anchored_of_steady rfl (Strand.undone_steady start settled afterCall k)
        (h₀.of_undo? released data hd₀) (h₁.of_undo? released data hd₁)
    · exact .inl ⟨offset, k, hline, refuses⟩
  | @advance s t u start offset settled afterCall op waiting r p a data holds linear claimed
      annotated =>
    have hlab := Survey.LabelsInto.of_annotate? annotated
    have ht₀ : u.Taken b := hlab.taken_iff.2 (h₀.of_claim? claimed)
    have ht₁ : u.Taken (b + 1) := hlab.taken_iff.2 (h₁.of_claim? claimed)
    refine .inr ⟨ht₀, ht₁, ?_⟩
    by_cases hnext : u.isData (offset + op.length)
    · rcases hb with ⟨hd₀, hd₁⟩ | hline
      · by_cases hover : b + 2 = offset + op.length
        · right
          show bank.LinearTo (b + 2) (offset + op.length)
          rw [hover]
          exact .refl
        · left
          -- The pair is not data, so an instruction that meets it without ending behind it ends
          -- inside it, which is not data either.
          have hlen := holds.length_le
          have hb₀ := And.intro (h₀.ne_of_isData data) (ht₀.ne_of_isData hnext)
          have hb₁ := And.intro (h₁.ne_of_isData data) (ht₁.ne_of_isData hnext)
          constructor
          · rintro ⟨-, hlo, hhi⟩
            exact hd₀ ⟨data, hlo, by omega⟩
          · rintro ⟨-, hlo, hhi⟩
            exact hd₁ ⟨data, hlo, by omega⟩
      · right
        show bank.LinearTo (b + 2) (offset + op.length)
        exact Relation.ReflTransGen.tail hline ⟨op, holds, linear, rfl⟩
    · exact .inl ⟨fun hd => hnext hd.1, fun hd => hnext hd.1⟩
  | transfer data holds nonlinear claimed =>
    exact Course.anchored_of_entering (Strand.taskAfter_steady _ _ _) (h₀.of_claim? claimed)
      (h₁.of_claim? claimed)
  | probe word pointee => exact Course.anchored_of_entering (by trivial) h₀ h₁
  | tableEnd noWord => exact Course.anchored_of_steady rfl (by trivial) h₀ h₁
  | claim low high =>
    exact Course.anchored_of_steady rfl (by trivial) ((h₀.of_point? low).of_point? high)
      ((h₁.of_point? low).of_point? high)
  | @finish s t start offset waiting r p a closed =>
    have hlab := Survey.LabelsInto.of_close? closed
    have ht₀ := hlab.taken_iff.2 h₀
    have ht₁ := hlab.taken_iff.2 h₁
    cases waiting with
    | nil => exact .inr ⟨ht₀, ht₁, .inl ⟨id, id⟩⟩
    | cons strand waiting =>
      exact Course.anchored_of_steady rfl (hc strand List.mem_cons_self).steady ht₀ ht₁

theorem stretched (h : Move bank c d) (hst : c.Stacked)
    (hc : c.Stretched bank) : d.Stretched bank := by
  cases h with
  | arrive stop => trivial
  | undo data refuses released =>
    exact Course.stretched_of_steady rfl (Strand.undone_steady _ _ _ _)
  | @advance s t u start offset settled afterCall op waiting r p a data holds linear claimed
      annotated =>
    refine ⟨Relation.ReflTransGen.tail hc.1 ⟨op, holds, linear, rfl⟩, fun i hlo hhi => ?_⟩
    rw [(Survey.LabelsInto.of_annotate? annotated).taken_iff]
    rcases Nat.lt_or_ge i offset with hi | hi
    · exact (hc.2 i hlo hi).of_claim? claimed
    · exact Survey.taken_of_claim? claimed hi hhi
  | transfer data holds nonlinear claimed =>
    exact Course.stretched_of_entering (Strand.taskAfter_steady _ _ _)
  | probe word pointee => exact Course.stretched_of_entering (by trivial)
  | tableEnd noWord => trivial
  | claim low high => trivial
  | @finish s t start offset waiting r p a closed =>
    cases waiting with
    | nil => trivial
    | cons strand waiting =>
      exact Course.stretched_of_steady rfl (hst strand List.mem_cons_self).steady

theorem rooted (h : Move bank c d) (hst : c.Stacked) {strand : Strand}
    (hs : c.Rooted bank strand) : d.Rooted bank strand := by
  obtain ⟨start, offset, task⟩ := strand
  cases task with
  | decode settled afterCall =>
    rcases hs with hfresh | ⟨b, hb, hanchor⟩
    · exact .inl hfresh
    · exact .inr ⟨b, hb, h.anchored hst hanchor⟩
  | _ => trivial

theorem rooted_taskAfter {s t : Survey Bank.size} {start offset : Nat} {op : Opcode}
    {target : Option Nat} {waiting : List Strand} {r p : Nat} {a : Bool}
    (holds : bank.Holds offset op) (claimed : s.claim? offset op.length = some t) :
    (⟨t, t.entering target ++
        ⟨start, offset + op.length, op.control.taskAfter (offset + op.length)⟩ :: waiting, r, p, a⟩ :
      Course Bank.size).Rooted bank
      ⟨start, offset + op.length, op.control.taskAfter (offset + op.length)⟩ := by
  have hr := Bank.regular_of_opcode? holds.opcode
  have steady := Strand.taskAfter_steady op.control start (offset + op.length)
  have anchor : ∀ b, offset ≤ b → b + 2 = offset + op.length →
      (⟨t, t.entering target ++
        ⟨start, offset + op.length, op.control.taskAfter (offset + op.length)⟩ :: waiting, r, p, a⟩ :
      Course Bank.size).Anchored bank b := fun b hlo hb =>
    .inr ⟨Survey.taken_of_claim? claimed hlo (by omega),
      Survey.taken_of_claim? claimed (by omega) (by omega),
      .inl ⟨Course.not_inDoubt_of_entering steady _, Course.not_inDoubt_of_entering steady _⟩⟩
  cases hctl : op.control with
  | branch =>
    simp only [Opcode.Regular, hctl] at hr
    rw [hctl] at anchor
    exact .inr ⟨offset, by omega, anchor offset le_rfl (by omega)⟩
  | call =>
    simp only [Opcode.Regular, hctl] at hr
    rw [hctl] at anchor
    exact .inr ⟨offset + 1, by omega, anchor (offset + 1) (by omega) (by omega)⟩
  | _ => trivial

theorem sound (h : Move bank c d) (hc : c.Sound bank) : d.Sound bank := by
  have keep : ∀ strand ∈ c.strands, d.Rooted bank strand := fun strand hmem =>
    h.rooted hc.stacked (hc.rooted strand hmem)
  refine ⟨h.inside hc.inside, h.stacked hc.inside hc.stacked,
    h.stretched hc.stacked hc.stretched, ?_⟩
  cases h with
  | arrive stop =>
    rw [List.forall_mem_cons] at keep ⊢
    exact ⟨trivial, keep.2⟩
  | @undo s t start offset settled afterCall k waiting r p a data refuses released =>
    rw [List.forall_mem_cons] at keep ⊢
    refine ⟨?_, keep.2⟩
    unfold Strand.undone
    split <;> trivial
  | advance data holds linear claimed annotated =>
    rw [List.forall_mem_cons] at keep ⊢
    exact keep
  | transfer data holds nonlinear claimed =>
    rw [List.forall_mem_cons] at keep
    rw [List.forall_mem_append, List.forall_mem_cons]
    refine ⟨fun strand hmem => ?_, rooted_taskAfter holds claimed, keep.2⟩
    obtain ⟨start, -, rfl⟩ := Survey.eq_fresh_of_mem_entering hmem
    exact Course.rooted_fresh bank _ start
  | probe word pointee =>
    rw [List.forall_mem_cons] at keep
    rw [List.forall_mem_append, List.forall_mem_cons]
    refine ⟨fun strand hmem => ?_, trivial, keep.2⟩
    obtain ⟨start, -, rfl⟩ := Survey.eq_fresh_of_mem_entering hmem
    exact Course.rooted_fresh bank _ start
  | tableEnd noWord =>
    rw [List.forall_mem_cons] at keep ⊢
    exact ⟨trivial, keep.2⟩
  | claim low high =>
    rw [List.forall_mem_cons] at keep ⊢
    exact ⟨trivial, keep.2⟩
  | finish closed =>
    rw [List.forall_mem_cons] at keep
    exact keep.2

end Move

end BankTrace
