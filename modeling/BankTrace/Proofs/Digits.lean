import BankTrace.Numeral
import BankTrace.Text.Fields
import BankTrace.Text.Hexadecimal
import Mathlib.Tactic

namespace BankTrace

namespace Text

theorem fields_append_cons {separator : Char} {front : List Char} (rest : List Char)
    (h : separator ∉ front) :
    fields separator (front ++ separator :: rest) = front :: fields separator rest := by
  induction front with
  | nil => rw [List.nil_append, fields, if_pos rfl]
  | cons c front ih =>
    have hc : c ≠ separator := fun he => h (he ▸ List.mem_cons_self)
    have hfront : separator ∉ front := fun hmem => h (List.mem_cons_of_mem c hmem)
    rw [List.cons_append, fields, if_neg hc, ih hfront]

theorem fields_of_not_mem {separator : Char} {text : List Char} (h : separator ∉ text) :
    fields separator text = [text] := by
  induction text with
  | nil => rfl
  | cons c text ih =>
    have hc : c ≠ separator := fun he => h (he ▸ List.mem_cons_self)
    have htext : separator ∉ text := fun hmem => h (List.mem_cons_of_mem c hmem)
    rw [fields, if_neg hc, ih htext]

theorem fields_intercalate {separator : Char} {pieces : List (List Char)} (hne : pieces ≠ [])
    (h : ∀ piece ∈ pieces, separator ∉ piece) :
    fields separator ([separator].intercalate pieces) = pieces := by
  induction pieces with
  | nil => exact absurd rfl hne
  | cons piece pieces ih =>
    rw [List.forall_mem_cons] at h
    cases pieces with
    | nil => simpa using fields_of_not_mem h.1
    | cons next pieces =>
      rw [List.intercalate_cons_cons, List.append_assoc, List.singleton_append,
        fields_append_cons _ h.1, ih (List.cons_ne_nil _ _) h.2]

theorem fields_cons {separator c : Char} {text piece : List Char} {pieces : List (List Char)}
    (hc : c ≠ separator) (h : fields separator text = piece :: pieces) :
    fields separator (c :: text) = (c :: piece) :: pieces := by
  rw [fields, if_neg hc, h]

theorem intercalate_fields (separator : Char) (text : List Char) :
    [separator].intercalate (fields separator text) = text := by
  induction text with
  | nil => rfl
  | cons c rest ih =>
    obtain ⟨piece, pieces, hfields⟩ := List.exists_cons_of_ne_nil (fields_ne_nil separator rest)
    rw [hfields] at ih
    by_cases hc : c = separator
    · rw [fields, if_pos hc, hfields, List.intercalate_cons_cons, ih, hc]
      rfl
    · rw [fields_cons hc hfields, ← ih]
      cases pieces <;> simp [List.intercalate_cons_cons]

theorem not_mem_of_mem_fields {separator : Char} (text : List Char) :
    ∀ piece ∈ fields separator text, separator ∉ piece := by
  induction text with
  | nil => simp [fields]
  | cons c rest ih =>
    by_cases hc : c = separator
    · rw [fields, if_pos hc, List.forall_mem_cons]
      exact ⟨List.not_mem_nil, ih⟩
    · obtain ⟨piece, pieces, hfields⟩ := List.exists_cons_of_ne_nil (fields_ne_nil separator rest)
      rw [hfields, List.forall_mem_cons] at ih
      rw [fields_cons hc hfields, List.forall_mem_cons]
      exact ⟨List.not_mem_cons_of_ne_of_not_mem (Ne.symm hc) ih.1, ih.2⟩

theorem fields_flatMap {α : Type} {separator : Char} {piece : α → List Char} {l : List α}
    (h : ∀ a ∈ l, separator ∉ piece a) :
    fields separator (l.flatMap fun a => piece a ++ [separator]) = l.map piece ++ [[]] := by
  induction l with
  | nil => rfl
  | cons a l ih =>
    rw [List.forall_mem_cons] at h
    rw [List.flatMap_cons, List.append_assoc, List.singleton_append, fields_append_cons _ h.1,
      ih h.2]
    rfl

theorem not_mem_intercalate {c : Char} {between : List Char} {pieces : List (List Char)}
    (hbetween : c ∉ between) (h : ∀ piece ∈ pieces, c ∉ piece) :
    c ∉ between.intercalate pieces := by
  induction pieces with
  | nil => exact List.not_mem_nil
  | cons piece pieces ih =>
    rw [List.forall_mem_cons] at h
    by_cases hne : pieces = []
    · rw [hne, List.intercalate_singleton]
      exact h.1
    · rw [List.intercalate_cons_of_ne_nil hne, List.mem_append, List.mem_append]
      simp only [h.1, hbetween, ih h.2, or_self, not_false_eq_true]

end Text

namespace Numeral

theorem digits?_append (radix : Nat) (front : List Char) (c : Char) :
    digits? radix (front ++ [c]) =
      (digits? radix front).bind fun value => (digit? radix c).map (radix * value + ·) := by
  simp only [digits?, List.foldlM_append, List.foldlM_cons, List.foldlM_nil, Option.bind_eq_bind,
    Option.pure_def, Option.bind_fun_some]

theorem isSome_digit?_of_mem {radix value : Nat} {text : List Char}
    (h : digits? radix text = some value) {c : Char} (hc : c ∈ text) : (digit? radix c).isSome := by
  induction text using List.reverseRecOn generalizing value with
  | nil => exact absurd hc List.not_mem_nil
  | append_singleton front last ih =>
    rw [digits?_append, Option.bind_eq_some_iff] at h
    obtain ⟨v, hfront, hlast⟩ := h
    rcases List.mem_append.1 hc with hc | hc
    · exact ih hfront hc
    · obtain ⟨d, hd, -⟩ := Option.map_eq_some_iff.1 hlast
      rw [List.mem_singleton.1 hc, hd]
      rfl

theorem digits?_map_toDigits {radix : Nat} (hradix : 1 < radix) {letter : Char → Char}
    (hletter : ∀ d < radix, digit? radix (letter d.digitChar) = some d) (n : Nat) :
    digits? radix ((Nat.toDigits radix n).map letter) = some n := by
  induction n using Nat.strong_induction_on with
  | _ n ih =>
    rw [Nat.toDigits_eq_if hradix]
    split_ifs with hlt
    · rw [List.map_singleton, ← List.nil_append [_], digits?_append, hletter n hlt]
      simp [digits?]
    · have hpos : 0 < n := by omega
      rw [List.map_append, List.map_singleton, digits?_append, ih _ (Nat.div_lt_self hpos hradix),
        hletter _ (Nat.mod_lt _ (by omega)), Option.bind_some, Option.map_some,
        Nat.div_add_mod]

theorem digits?_replicate_zero {radix : Nat} (hradix : 0 < radix) (count : Nat)
    (text : List Char) :
    digits? radix (List.replicate count '0' ++ text) = digits? radix text := by
  have hzero : digit? radix '0' = some 0 := by
    simpa [digit?] using hradix.ne'
  induction count with
  | zero => rfl
  | succ count ih =>
    rw [List.replicate_succ, List.cons_append, ← ih]
    simp only [digits?, List.foldlM_cons, hzero, Option.map_some, Option.bind_eq_bind,
      Option.bind_some, Nat.mul_zero, Nat.add_zero]

theorem natural?_eq {radix value : Nat} {text : List Char} (hne : text ≠ [])
    (h : digits? radix text = some value) : natural? radix text = some value := by
  rw [natural?, if_neg (by simpa using hne), h]

theorem isSome_digit?_of_ten {c : Char} (h : (digit? 10 c).isSome) : (digit? 16 c).isSome := by
  unfold digit? at h ⊢
  split_ifs at h ⊢ <;> simp_all
  omega

theorem digit?_toUpper_digitChar : ∀ d < 16, digit? 16 d.digitChar.toUpper = some d := by decide

theorem digit?_digitChar : ∀ d < 10, digit? 10 d.digitChar = some d := by decide

end Numeral

namespace Text

theorem toList_hexUpper (width n : Nat) :
    (hexUpper width n).toList =
      List.replicate (width - (Nat.toDigits 16 n).length) '0' ++
        (Nat.toDigits 16 n).map Char.toUpper := by
  rw [hexUpper, String.toList_ofList, List.length_map]

theorem digits?_hexUpper (width n : Nat) :
    Numeral.digits? 16 (hexUpper width n).toList = some n := by
  rw [toList_hexUpper, Numeral.digits?_replicate_zero (by decide),
    Numeral.digits?_map_toDigits (by decide) Numeral.digit?_toUpper_digitChar]

theorem natural?_hexUpper (width n : Nat) :
    Numeral.natural? 16 (hexUpper width n).toList = some n := by
  apply Numeral.natural?_eq _ (digits?_hexUpper width n)
  rw [toList_hexUpper]
  simp

theorem not_mem_hexUpper {c : Char} (h : Numeral.digit? 16 c = none) (width n : Nat) :
    c ∉ (hexUpper width n).toList := by
  intro hmem
  have hsome := Numeral.isSome_digit?_of_mem (digits?_hexUpper width n) hmem
  rw [h] at hsome
  exact Bool.false_ne_true hsome

theorem length_hexUpper {width n : Nat} (hpos : 0 < width) (h : n < 16 ^ width) :
    (hexUpper width n).toList.length = width := by
  have hle := (Nat.length_toDigits_le_iff (by decide) hpos).2 h
  rw [toList_hexUpper, List.length_append, List.length_replicate, List.length_map]
  omega

theorem digits?_toDigits (n : Nat) : Numeral.digits? 10 (Nat.toDigits 10 n) = some n := by
  have h : Numeral.digits? 10 ((Nat.toDigits 10 n).map id) = some n :=
    Numeral.digits?_map_toDigits (by decide) Numeral.digit?_digitChar n
  rwa [List.map_id] at h

theorem natural?_toDigits (n : Nat) : Numeral.natural? 10 (Nat.toDigits 10 n) = some n :=
  Numeral.natural?_eq Nat.toDigits_ne_nil (digits?_toDigits n)

theorem not_mem_toDigits {c : Char} (h : Numeral.digit? 16 c = none) (n : Nat) :
    c ∉ Nat.toDigits 10 n := by
  intro hmem
  have hdigit := Numeral.isSome_digit?_of_mem (digits?_toDigits n) hmem
  have hsome := Numeral.isSome_digit?_of_ten hdigit
  rw [h] at hsome
  exact Bool.false_ne_true hsome

end Text

end BankTrace
