import BankTrace.Proofs.Digits
import BankTrace.Text.Blank
import Mathlib.Data.List.DropRight

namespace BankTrace.Text

/-- A text with any blanks around it. -/
def Padded (core text : List Char) : Prop :=
  ∃ before after, before.all isBlank ∧ after.all isBlank ∧ text = before ++ core ++ after

theorem padded_self (text : List Char) : Padded text text := ⟨[], [], rfl, rfl, by simp⟩

theorem not_mem_of_isBlank {c : Char} {blanks : List Char} (hc : isBlank c = false)
    (h : blanks.all isBlank) : c ∉ blanks :=
  fun hmem => Bool.false_ne_true (hc.symm.trans (List.all_eq_true.1 h c hmem))

theorem padded_trim (text : List Char) : Padded (trim text) text := by
  refine ⟨text.takeWhile isBlank, (text.dropWhile isBlank).rtakeWhile isBlank,
    List.all_eq_true.2 fun c => List.mem_takeWhile_imp,
    List.all_eq_true.2 fun c => List.mem_rtakeWhile_imp, ?_⟩
  rw [List.append_assoc]
  change text = text.takeWhile isBlank ++ ((text.dropWhile isBlank).rdropWhile isBlank ++ _)
  rw [List.rdropWhile_append_rtakeWhile, List.takeWhile_append_dropWhile]

theorem trim_append_left {before : List Char} (h : before.all isBlank) (text : List Char) :
    trim (before ++ text) = trim text := by
  rw [trim, List.dropWhile_append_of_pos (List.all_eq_true.1 h), trim]

theorem trim_append_right {after : List Char} (h : after.all isBlank) (text : List Char) :
    trim (text ++ after) = trim text := by
  have hreverse : after.reverse.all isBlank := by rwa [List.all_reverse]
  unfold trim
  rw [List.dropWhile_append]
  split_ifs with hblank
  · rw [List.isEmpty_iff] at hblank
    rw [hblank, List.dropWhile_eq_nil_iff.2 (List.all_eq_true.1 h)]
  · rw [List.reverse_append, List.dropWhile_append_of_pos (List.all_eq_true.1 hreverse)]

section Padded

variable {core text : List Char}

theorem Padded.trim_eq (h : Padded core text) : trim text = trim core := by
  obtain ⟨before, after, hbefore, hafter, rfl⟩ := h
  rw [trim_append_right hafter, trim_append_left hbefore]

theorem Padded.not_mem {c : Char} (h : Padded core text) (hblank : isBlank c = false)
    (hc : c ∉ core) : c ∉ text := by
  obtain ⟨before, after, hbefore, hafter, rfl⟩ := h
  exact List.not_mem_append (List.not_mem_append (not_mem_of_isBlank hblank hbefore) hc)
    (not_mem_of_isBlank hblank hafter)

theorem Padded.append {after : List Char} (h : Padded core text) (hafter : after.all isBlank) :
    Padded core (text ++ after) := by
  obtain ⟨before, behind, hbefore, hbehind, rfl⟩ := h
  refine ⟨before, behind ++ after, hbefore, ?_, by simp⟩
  rw [List.all_append, hbehind, hafter]
  rfl

theorem trim_eq_nil_iff : trim text = [] ↔ text.all isBlank := by
  constructor
  · intro h
    obtain ⟨before, after, hbefore, hafter, htext⟩ := padded_trim text
    rw [htext, h, List.append_nil, List.all_append, hbefore, hafter]
    rfl
  · exact fun h => trim_append_right h []

theorem trim_of_forall (h : ∀ c ∈ text, isBlank c = false) : trim text = text := by
  have hdrop : ∀ {l : List Char}, (∀ c ∈ l, isBlank c = false) → l.dropWhile isBlank = l := by
    intro l hl
    exact List.dropWhile_eq_self_iff.2 fun hpos => by simp [hl _ (List.getElem_mem hpos)]
  rw [trim, hdrop h, hdrop fun c hc => h c (List.mem_reverse.1 hc), List.reverse_reverse]

end Padded

section Fields

variable {separator : Char} {text : List Char}

theorem fields_append_left {before piece : List Char} {pieces : List (List Char)}
    (hbefore : separator ∉ before) (h : fields separator text = piece :: pieces) :
    fields separator (before ++ text) = (before ++ piece) :: pieces := by
  induction before with
  | nil => exact h
  | cons c before ih =>
    rw [List.mem_cons, not_or] at hbefore
    exact fields_cons (Ne.symm hbefore.1) (ih hbefore.2)

theorem fields_append_right {after : List Char} (hafter : separator ∉ after) (text : List Char) :
    ∃ front last, fields separator text = front ++ [last] ∧
      fields separator (text ++ after) = front ++ [last ++ after] := by
  induction text with
  | nil => exact ⟨[], [], rfl, fields_of_not_mem hafter⟩
  | cons c text ih =>
    obtain ⟨front, last, hfields, happend⟩ := ih
    by_cases hc : c = separator
    · refine ⟨[] :: front, last, ?_, ?_⟩
      · rw [fields, if_pos hc, hfields, List.cons_append]
      · rw [List.cons_append, fields, if_pos hc, happend, List.cons_append]
    · cases front with
      | nil => exact ⟨[], c :: last, fields_cons hc hfields, fields_cons hc happend⟩
      | cons piece front =>
        exact ⟨(c :: piece) :: front, last, fields_cons hc hfields, fields_cons hc happend⟩

theorem map_trim_fields (hsep : isBlank separator = false) (text : List Char) :
    (fields separator (trim text)).map trim = (fields separator text).map trim := by
  obtain ⟨before, after, hbefore, hafter, htext⟩ := padded_trim text
  have hout := not_mem_of_isBlank hsep hbefore
  obtain ⟨front, last, hcore, happend⟩ :=
    fields_append_right (not_mem_of_isBlank hsep hafter) (trim text)
  rw [hcore]
  conv_rhs => rw [htext, List.append_assoc]
  cases front with
  | nil =>
    rw [fields_append_left hout happend]
    simp [trim_append_left hbefore, trim_append_right hafter]
  | cons piece front =>
    rw [fields_append_left hout happend]
    simp [trim_append_left hbefore, trim_append_right hafter]

end Fields

end BankTrace.Text
