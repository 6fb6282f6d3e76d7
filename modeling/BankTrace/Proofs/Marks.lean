import BankTrace.Boundary
import BankTrace.Proofs.Move

namespace BankTrace.Survey

variable {n : Nat} {s t : Survey n} {first last length offset : Nat}

section Claim

variable (h : s.claim? first length = some t) (i : Nat)
include h

theorem claim?_bounds : 0 < length ∧ first + length ≤ n :=
  claim?_isSome_iff.1 (Option.isSome_iff_exists.2 ⟨t, h⟩)

theorem any_of_claim? (p : Mark → Bool) :
    (t.mark? i).any p =
      if i = first then (s.mark? i).any fun m => p m.asStart
      else if first < i ∧ i < first + length then (s.mark? i).any fun m => p m.asOperand
      else (s.mark? i).any p := by
  rw [mark?_of_claim? h]
  split_ifs <;> simp only [Option.any_map]

theorem isData_of_claim? : t.isData i ↔ s.isData i ∧ ¬ (first ≤ i ∧ i < first + length) := by
  have hlen := claim?_bounds h
  rw [isData, any_of_claim? h, isData]
  cases s.mark? i with
  | none => simp
  | some m =>
    simp only [Option.any_some, Mark.asStart, Mark.asOperand]
    grind

theorem isCode_of_claim? : t.isCode i ↔ s.isCode i ∨ (first ≤ i ∧ i < first + length) := by
  have hlen := claim?_bounds h
  rw [isCode, any_of_claim? h, isCode]
  cases hm : s.mark? i with
  | none =>
    have hi := (s.mark?_eq_none_iff i).1 hm
    simp
    omega
  | some m =>
    simp only [Option.any_some, Mark.asStart, Mark.asOperand]
    grind

theorem isStart_of_claim? :
    t.isStart i ↔ i = first ∨ (s.isStart i ∧ ¬ (first < i ∧ i < first + length)) := by
  have hlen := claim?_bounds h
  rw [isStart, any_of_claim? h, isStart]
  cases hm : s.mark? i with
  | none =>
    have hi := (s.mark?_eq_none_iff i).1 hm
    simp
    omega
  | some m =>
    simp only [Option.any_some, Mark.asStart, Mark.asOperand]
    grind

theorem isPointer_of_claim? : t.isPointer i ↔ s.isPointer i := by
  rw [isPointer, any_of_claim? h, isPointer]
  split_ifs <;> rfl

theorem isLabel_of_claim? :
    t.isLabel i ↔ s.isLabel i ∧ ¬ (first < i ∧ i < first + length) := by
  rw [isLabel, any_of_claim? h, isLabel]
  cases s.mark? i with
  | none => simp
  | some m =>
    simp only [Option.any_some, Mark.asStart, Mark.asOperand]
    grind

end Claim

section Release

variable (h : s.release? first last = some t) (i : Nat)
include h

theorem release?_bounds : first ≤ last + 1 ∧ last < n :=
  release?_isSome_iff.1 (Option.isSome_iff_exists.2 ⟨t, h⟩)

theorem isData_of_release? : t.isData i ↔ s.isData i ∨ (first ≤ i ∧ i ≤ last) := by
  have hlen := release?_bounds h
  rw [isData, mark?_of_release? h, isData]
  cases hm : s.mark? i with
  | none =>
    have hi := (s.mark?_eq_none_iff i).1 hm
    simp
    omega
  | some m =>
    simp only [Option.map_some, Mark.asData]
    grind

/-- A mark that giving a byte back takes away is left where it was before, outside the span. -/
theorem any_of_release? {p : Mark → Bool} (hp : ∀ m : Mark, p m.asData = false) :
    (t.mark? i).any p ↔ (s.mark? i).any p ∧ ¬ (first ≤ i ∧ i ≤ last) := by
  rw [mark?_of_release? h]
  split_ifs with hin
  · rw [Option.any_map]
    simp [hp, hin]
  · simp [hin]

theorem isCode_of_release? : t.isCode i ↔ s.isCode i ∧ ¬ (first ≤ i ∧ i ≤ last) :=
  any_of_release? h i fun _ => rfl

theorem isStart_of_release? : t.isStart i ↔ s.isStart i ∧ ¬ (first ≤ i ∧ i ≤ last) :=
  any_of_release? h i fun _ => rfl

theorem isPointer_of_release? : t.isPointer i ↔ s.isPointer i ∧ ¬ (first ≤ i ∧ i ≤ last) :=
  any_of_release? h i fun _ => rfl

theorem isLabel_of_release? : t.isLabel i ↔ s.isLabel i := by
  rw [isLabel, mark?_of_release? h, isLabel]
  split_ifs
  · rw [Option.any_map]
    rfl
  · rfl

end Release

section Point

variable (h : s.point? offset = some t) (i : Nat)
include h

theorem mark?_of_point? :
    t.mark? i = if i = offset then some .codePointer else s.mark? i := by
  obtain ⟨hlt, rfl⟩ := point?_eq_some_iff.1 h
  rw [mark?_alter]
  split_ifs with hi
  · subst i
    obtain ⟨m, hm⟩ := s.exists_mark? hlt
    rw [hm, Option.map_some]
  · rfl

theorem isData_of_point? : t.isData i ↔ s.isData i ∧ i ≠ offset := by
  rw [isData, mark?_of_point? h, isData]
  split_ifs with hi <;> simp [hi, Mark.codePointer]

theorem isCode_of_point? : t.isCode i ↔ s.isCode i ∨ i = offset := by
  rw [isCode, mark?_of_point? h, isCode]
  split_ifs with hi <;> simp [hi, Mark.codePointer]

theorem isStart_of_point? : t.isStart i ↔ s.isStart i ∧ i ≠ offset := by
  rw [isStart, mark?_of_point? h, isStart]
  split_ifs with hi <;> simp [hi, Mark.codePointer]

theorem isPointer_of_point? : t.isPointer i ↔ s.isPointer i ∨ i = offset := by
  rw [isPointer, mark?_of_point? h, isPointer]
  split_ifs with hi <;> simp [hi, Mark.codePointer]

theorem isLabel_of_point? : t.isLabel i ↔ s.isLabel i ∧ i ≠ offset := by
  rw [isLabel, mark?_of_point? h, isLabel]
  split_ifs with hi <;> simp [hi, Mark.codePointer]

end Point

theorem mark?_of_label? (h : s.label? offset = some t) (i : Nat) :
    t.mark? i = if i = offset then (s.mark? i).map .labelled else s.mark? i := by
  obtain ⟨-, rfl⟩ := label?_eq_some_iff.1 h
  exact mark?_alter _ _ _ i

theorem isLabel_of_close? {start : Nat} (h : s.close? start offset = some t)
    (hcode : offset = start → s.isCode start) : t.isLabel start := by
  have hcond : offset != start || s.isCode start := by
    rw [Bool.or_eq_true, bne_iff_ne]
    exact or_iff_not_imp_left.2 fun hne => hcode (not_not.1 hne)
  rw [close?, if_pos hcond] at h
  obtain ⟨m, hm⟩ := s.exists_mark? (label?_eq_some_iff.1 h).1
  rw [isLabel, mark?_of_label? h, if_pos rfl, hm]
  rfl

/-- `t` differs from `s` in that some bytes have got a label. -/
def LabelsInto (s t : Survey n) : Prop :=
  ∀ i, t.mark? i = s.mark? i ∨ t.mark? i = (s.mark? i).map .labelled

namespace LabelsInto

theorem refl (s : Survey n) : s.LabelsInto s := fun _ => .inl rfl

theorem of_label? (h : s.label? offset = some t) : s.LabelsInto t := by
  intro i
  rw [mark?_of_label? h]
  split_ifs
  · exact .inr rfl
  · exact .inl rfl

theorem of_close? {start : Nat} (h : s.close? start offset = some t) : s.LabelsInto t := by
  unfold close? at h
  split at h
  · exact of_label? h
  · exact Option.some.inj h ▸ refl s

theorem of_refer? {bank : Bank} {operand : Nat} (h : s.refer? bank operand = some t) :
    s.LabelsInto t := by
  simp only [refer?, Option.bind_eq_bind, Option.bind_eq_some_iff] at h
  obtain ⟨_, -, _, -, h⟩ := h
  split at h
  · exact of_label? h
  · exact Option.some.inj h ▸ refl s

theorem of_annotate? {bank : Bank} {op : Opcode} (h : s.annotate? bank offset op = some t) :
    s.LabelsInto t := by
  unfold annotate? at h
  split at h
  · exact of_refer? h
  · exact Option.some.inj h ▸ refl s

variable (h : s.LabelsInto t) (i : Nat)
include h

theorem any_eq {p : Mark → Bool} (hp : ∀ m, p m.labelled = p m) :
    (t.mark? i).any p = (s.mark? i).any p := by
  rcases h i with hi | hi
  · rw [hi]
  · rw [hi, Option.any_map]
    simp only [hp]

theorem isData_eq : t.isData i = s.isData i := h.any_eq i fun _ => rfl

theorem isCode_eq : t.isCode i = s.isCode i := h.any_eq i fun _ => rfl

theorem isStart_eq : t.isStart i = s.isStart i := h.any_eq i fun _ => rfl

theorem isPointer_eq : t.isPointer i = s.isPointer i := h.any_eq i fun _ => rfl

theorem isLabel (hl : s.isLabel i) : t.isLabel i := by
  unfold Survey.isLabel at hl ⊢
  rcases h i with hi | hi
  · rwa [hi]
  · rw [hi, Option.any_map]
    cases hm : s.mark? i with
    | none => simp [hm] at hl
    | some m => rfl

end LabelsInto

end BankTrace.Survey
