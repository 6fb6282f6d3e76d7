import BankTrace.Proofs.Marks

namespace BankTrace.Survey

variable {n : Nat} {s t : Survey n} {i : Nat}

theorem isBoundary_iff : s.isBoundary i ↔ 1 ≤ i ∧ s.isData i ∧ s.isCode (i - 1) := by
  simp only [isBoundary, Bool.and_eq_true, bne_iff_ne, Nat.one_le_iff_ne_zero]
  tauto

theorem LabelsInto.isBoundary_eq (h : s.LabelsInto t) (i : Nat) :
    t.isBoundary i = s.isBoundary i := by
  rw [isBoundary, isBoundary, h.isCode_eq, h.isData_eq]

theorem LabelsInto.mark?_eq (h : s.LabelsInto t) (i : Nat) :
    t.mark? i = (s.mark? i).map fun m => { m with label := t.isLabel i } := by
  rw [Survey.isLabel]
  rcases h i with hi | hi
  · rw [hi]
    cases s.mark? i <;> rfl
  · rw [hi]
    cases s.mark? i <;> rfl

theorem map_labelled (h : s.isLabel i) : (s.mark? i).map .labelled = s.mark? i := by
  obtain ⟨m, hm, hlabel⟩ := (Option.any_eq_true _ _).1 h
  rw [hm, Option.map_some, Mark.labelled, ← hlabel]

section LabelBoundary

variable (s : Survey n) (added offset i : Nat)

theorem mark?_labelBoundary :
    (labelBoundary (s, added) offset).1.mark? i =
      if i = offset ∧ s.isBoundary offset then (s.mark? i).map .labelled else s.mark? i := by
  cases hboundary : s.isBoundary offset with
  | false => simp [labelBoundary, hboundary]
  | true =>
    cases hlabel : s.isLabel offset with
    | false => simp [labelBoundary, hboundary, hlabel, mark?_alter]
    | true =>
      simp only [labelBoundary, hboundary, hlabel, Bool.not_true, Bool.and_false,
        Bool.false_eq_true, ↓reduceIte, and_true]
      split_ifs with hi
      · subst i
        exact (map_labelled hlabel).symm
      · rfl

theorem added_labelBoundary :
    (labelBoundary (s, added) offset).2 =
      added + if s.isBoundary offset && !s.isLabel offset then 1 else 0 := by
  rw [labelBoundary]
  split_ifs <;> rfl

end LabelBoundary

/-- The survey and the count when the bytes below `bound` have been looked at: their boundaries are
labelled, all other bytes are as they were, and the labels that are new are counted. -/
structure PassedTo (s : Survey n) (bound : Nat) (pass : Survey n × Nat) : Prop where
  marks : ∀ i, pass.1.mark? i =
    if i < bound ∧ s.isBoundary i then (s.mark? i).map .labelled else s.mark? i
  added : pass.2 = (List.range bound).countP fun i => s.isBoundary i && !s.isLabel i

namespace PassedTo

variable {bound : Nat} {pass : Survey n × Nat}

theorem start (s : Survey n) : s.PassedTo 1 (s, 0) where
  marks i := by
    rw [if_neg]
    rintro ⟨hlt, hboundary⟩
    have hpos := (isBoundary_iff.1 hboundary).1
    omega
  added := by simp [isBoundary]

theorem labelsInto (h : s.PassedTo bound pass) : s.LabelsInto pass.1 := by
  intro i
  rw [h.marks]
  split_ifs
  · exact .inr rfl
  · exact .inl rfl

theorem step (h : s.PassedTo bound pass) : s.PassedTo (bound + 1) (labelBoundary pass bound) := by
  obtain ⟨t, added⟩ := pass
  -- What the step looks at is still as it was at the beginning.
  have hmark : t.mark? bound = s.mark? bound := by
    have hmarks := h.marks bound
    rwa [if_neg (by omega)] at hmarks
  have hboundary : t.isBoundary bound = s.isBoundary bound := h.labelsInto.isBoundary_eq bound
  have hlabel : t.isLabel bound = s.isLabel bound := by rw [isLabel, isLabel, hmark]
  refine ⟨fun i => ?_, ?_⟩
  · have hmarks : t.mark? i = _ := h.marks i
    rw [mark?_labelBoundary, hboundary]
    by_cases hi : i = bound
    · subst i
      simp only [hmark, true_and, Nat.lt_succ_self]
    · have hlt : i < bound + 1 ↔ i < bound := by omega
      rw [if_neg (by tauto), hmarks]
      simp only [hlt]
  · have hadded : added = _ := h.added
    rw [added_labelBoundary, hboundary, hlabel, hadded, List.range_succ, List.countP_append,
      List.countP_singleton]

theorem foldl (s : Survey n) (count : Nat) :
    s.PassedTo (count + 1) ((List.range' 1 count).foldl labelBoundary (s, 0)) := by
  induction count with
  | zero => exact start s
  | succ count ih =>
    rw [List.range'_1_concat, List.foldl_append, Nat.add_comm 1 count]
    exact ih.step

end PassedTo

theorem passedTo_passBoundaries (s : Survey n) : s.PassedTo n s.passBoundaries := by
  rw [passBoundaries]
  cases n with
  | zero => exact ⟨fun i => by simp, rfl⟩
  | succ count => exact .foldl s count

theorem mark?_labelBoundaries (s : Survey n) (i : Nat) :
    s.labelBoundaries.mark? i =
      if s.isBoundary i then (s.mark? i).map .labelled else s.mark? i := by
  have hinside : i < n ∧ s.isBoundary i ↔ s.isBoundary i :=
    and_iff_right_of_imp fun h => isData_lt (isBoundary_iff.1 h).2.1
  rw [labelBoundaries, (passedTo_passBoundaries s).marks]
  simp only [hinside]

theorem unlabelledBoundaries_eq (s : Survey n) :
    s.unlabelledBoundaries = (List.range n).countP fun i => s.isBoundary i && !s.isLabel i :=
  (passedTo_passBoundaries s).added

theorem LabelsInto.of_labelBoundaries (s : Survey n) : s.LabelsInto s.labelBoundaries :=
  (passedTo_passBoundaries s).labelsInto

theorem isLabel_labelBoundaries_iff :
    s.labelBoundaries.isLabel i ↔ s.isLabel i ∨ s.isBoundary i := by
  rw [isLabel, mark?_labelBoundaries, isLabel]
  split_ifs with hboundary
  · obtain ⟨m, hm⟩ := s.exists_mark? (isData_lt (isBoundary_iff.1 hboundary).2.1)
    simp [hm, hboundary, Mark.labelled]
  · simp [hboundary]

/-- Labelling the boundaries of a survey, of whatever length and marks, changes nothing but labels.
A byte then has a label exactly if it had one before or is data behind a code byte; the new labels
are counted; and doing it again changes nothing and counts nothing. -/
theorem labelBoundaries_exact (s : Survey n) :
    (∀ i, s.labelBoundaries.mark? i =
      (s.mark? i).map fun m => { m with label := s.labelBoundaries.isLabel i }) ∧
    (∀ i, s.labelBoundaries.isLabel i ↔
      s.isLabel i ∨ 1 ≤ i ∧ s.isData i ∧ s.isCode (i - 1)) ∧
    s.unlabelledBoundaries =
      (List.range n).countP (fun i => s.labelBoundaries.isLabel i && !s.isLabel i) ∧
    s.labelBoundaries.unlabelledBoundaries = 0 ∧
    s.labelBoundaries.labelBoundaries = s.labelBoundaries := by
  have hlabels := LabelsInto.of_labelBoundaries s
  refine ⟨hlabels.mark?_eq, fun i => ?_, ?_, ?_, ext_mark? fun i => ?_⟩
  · rw [isLabel_labelBoundaries_iff, isBoundary_iff]
  · rw [unlabelledBoundaries_eq]
    refine List.countP_congr fun i _ => ?_
    rw [Bool.and_eq_true, Bool.and_eq_true, isLabel_labelBoundaries_iff]
    cases s.isLabel i <;> simp
  · rw [unlabelledBoundaries_eq, List.countP_eq_zero]
    intro i _
    rw [hlabels.isBoundary_eq, Bool.and_eq_true, Bool.not_eq_true', not_and, Bool.not_eq_false]
    exact fun h => isLabel_labelBoundaries_iff.2 (.inr h)
  · rw [mark?_labelBoundaries, hlabels.isBoundary_eq]
    split_ifs with h
    · exact map_labelled (isLabel_labelBoundaries_iff.2 (.inr h))
    · rfl

end BankTrace.Survey
