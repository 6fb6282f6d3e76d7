import BankTrace.Proofs.Marks

namespace BankTrace

variable {n : Nat}

structure Mark.Consistent (m : Mark) : Prop where
  data_eq : m.data = !m.code
  pointer : m.pointer → m.code
  start : m.start → m.code

namespace Mark

theorem plain_consistent : plain.Consistent := ⟨rfl, nofun, nofun⟩

theorem codePointer_consistent : codePointer.Consistent := ⟨rfl, fun _ => rfl, nofun⟩

theorem Consistent.labelled {m : Mark} (h : m.Consistent) : m.labelled.Consistent :=
  ⟨h.data_eq, h.pointer, h.start⟩

theorem asStart_consistent (m : Mark) : m.asStart.Consistent := ⟨rfl, fun _ => rfl, fun _ => rfl⟩

theorem asOperand_consistent (m : Mark) : m.asOperand.Consistent := ⟨rfl, fun _ => rfl, nofun⟩

theorem asData_consistent (m : Mark) : m.asData.Consistent := ⟨rfl, nofun, nofun⟩

end Mark

def Survey.Consistent (s : Survey n) : Prop := ∀ i m, s.mark? i = some m → m.Consistent

namespace Survey.Consistent

variable {s t : Survey n} {first last length offset i : Nat}

theorem of_claim? (h : s.Consistent) (hc : s.claim? first length = some t) : t.Consistent := by
  intro i m hm
  rw [mark?_of_claim? hc] at hm
  split_ifs at hm
  · obtain ⟨m, -, rfl⟩ := Option.map_eq_some_iff.1 hm
    exact m.asStart_consistent
  · obtain ⟨m, -, rfl⟩ := Option.map_eq_some_iff.1 hm
    exact m.asOperand_consistent
  · exact h i m hm

theorem of_release? (h : s.Consistent) (hr : s.release? first last = some t) : t.Consistent := by
  intro i m hm
  rw [mark?_of_release? hr] at hm
  split_ifs at hm
  · obtain ⟨m, -, rfl⟩ := Option.map_eq_some_iff.1 hm
    exact m.asData_consistent
  · exact h i m hm

theorem of_point? (h : s.Consistent) (hp : s.point? offset = some t) : t.Consistent := by
  intro i m hm
  rw [mark?_of_point? hp] at hm
  split_ifs at hm
  · rw [← Option.some.inj hm]
    exact Mark.codePointer_consistent
  · exact h i m hm

theorem of_labelsInto (h : s.Consistent) (hl : s.LabelsInto t) : t.Consistent := by
  intro i m hm
  rcases hl i with hi | hi
  · exact h i m (hi ▸ hm)
  · rw [hi] at hm
    obtain ⟨m, hbefore, rfl⟩ := Option.map_eq_some_iff.1 hm
    exact (h i m hbefore).labelled

section Questions

variable (h : s.Consistent)
include h

theorem isData_eq (hi : i < n) : s.isData i = !s.isCode i := by
  obtain ⟨m, hm⟩ := s.exists_mark? hi
  rw [isData, isCode, hm]
  exact (h i m hm).data_eq

theorem isData_eq_false (hc : s.isCode i) : s.isData i = false := by
  rw [h.isData_eq (isCode_lt hc), hc]
  rfl

theorem isCode_of_isData_eq_false (hi : i < n) (hd : s.isData i = false) : s.isCode i := by
  rw [h.isData_eq hi] at hd
  simpa using hd

theorem isCode_of_isStart (hs : s.isStart i) : s.isCode i := by
  obtain ⟨m, hm, hp⟩ := (Option.any_eq_true _ _).1 hs
  rw [isCode, hm]
  exact (h i m hm).start hp

theorem isCode_of_isPointer (hs : s.isPointer i) : s.isCode i := by
  obtain ⟨m, hm, hp⟩ := (Option.any_eq_true _ _).1 hs
  rw [isCode, hm]
  exact (h i m hm).pointer hp

theorem isPointer_eq_false (hd : s.isData i) : s.isPointer i = false := by
  rw [Bool.eq_false_iff]
  intro hp
  rw [h.isData_eq_false (h.isCode_of_isPointer hp)] at hd
  contradiction

end Questions

end Survey.Consistent

theorem Move.consistent {bank : Bank} {c d : Course Bank.size} (h : Move bank c d)
    (hc : c.survey.Consistent) : d.survey.Consistent := by
  cases h with
  | undo data refuses released => exact hc.of_release? released
  | advance data holds linear claimed annotated =>
    exact (hc.of_claim? claimed).of_labelsInto (.of_annotate? annotated)
  | transfer data holds nonlinear claimed => exact hc.of_claim? claimed
  | claim low high => exact (hc.of_point? low).of_point? high
  | finish closed => exact hc.of_labelsInto (.of_close? closed)
  | _ => exact hc

end BankTrace
