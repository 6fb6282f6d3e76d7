import BankTrace.Analysis
import BankTrace.Proofs.WellFormed

namespace BankTrace

theorem Seeds.covers_iff (seeds : Seeds) (i : Nat) :
    seeds.Covers i ↔ ∃ slot ∈ seeds.slots, i = slot ∨ i = slot + 1 := by
  simp only [Covers, slots, List.mem_flatMap, PointerTable.slots, List.mem_map, List.mem_range]
  constructor
  · rintro ⟨t, ht, hlo, hhi⟩
    exact ⟨t.offset + 2 * ((i - t.offset) / 2), ⟨t, ht, _, by omega, rfl⟩, by omega⟩
  · rintro ⟨slot, ⟨t, ht, k, hk, rfl⟩, hi⟩
    exact ⟨t, ht, by omega, by omega⟩

namespace Analysis

variable {n : Nat}

theorem mark?_of_seed? {slots : List Nat} {s t : Survey n} (h : seed? s slots = some t) (i : Nat) :
    t.mark? i =
      if ∃ slot ∈ slots, i = slot ∨ i = slot + 1 then some .codePointer else s.mark? i := by
  induction slots generalizing s with
  | nil =>
    rw [← Option.some.inj h]
    simp
  | cons slot slots ih =>
    simp only [seed?, List.foldlM_cons, Option.bind_eq_bind, Option.bind_eq_some_iff] at h
    obtain ⟨v, ⟨u, hu, hv⟩, hrest⟩ := h
    rw [ih hrest, Survey.mark?_of_point? hv, Survey.mark?_of_point? hu]
    by_cases hin : ∃ slot ∈ slots, i = slot ∨ i = slot + 1
    · have hin' : ∃ other ∈ slot :: slots, i = other ∨ i = other + 1 := by
        obtain ⟨other, hmem, hi⟩ := hin
        exact ⟨other, List.mem_cons_of_mem _ hmem, hi⟩
      rw [if_pos hin, if_pos hin']
    · rw [if_neg hin]
      simp only [List.exists_mem_cons_iff, hin, or_false]
      split_ifs <;> first | rfl | omega

section Blank

variable {slots : List Nat} {s : Survey n} (h : seed? (.blank n) slots = some s) (i : Nat)
include h

theorem mark?_of_seed?_blank :
    s.mark? i =
      if ∃ slot ∈ slots, i = slot ∨ i = slot + 1 then some .codePointer
      else if i < n then some .plain else none := by
  rw [mark?_of_seed? h, Survey.mark?_blank]

theorem isStart_of_seed? : s.isStart i = false := by
  rw [Survey.isStart, mark?_of_seed?_blank h]
  split_ifs <;> rfl

end Blank

theorem mark?_of_covers {seeds : Seeds} {s : Survey n} (h : seed? (.blank n) seeds.slots = some s)
    {i : Nat} (hi : seeds.Covers i) : s.mark? i = some .codePointer := by
  rw [mark?_of_seed?_blank h, if_pos ((seeds.covers_iff i).1 hi)]

theorem mark?_of_vectors {seeds : Seeds} {s : Survey Bank.size}
    (h : seed? (.blank Bank.size) seeds.slots = some s) {i : Nat}
    (hlo : PointerTable.vectors.offset ≤ i) (hhi : i < Bank.size) :
    s.mark? i = some .codePointer :=
  mark?_of_covers h ⟨.vectors, List.mem_append_right _ List.mem_cons_self, hlo, hhi⟩

theorem mark?_of_not_covers {seeds : Seeds} {s : Survey n}
    (h : seed? (.blank n) seeds.slots = some s) {i : Nat} (hlt : i < n) (hi : ¬ seeds.Covers i) :
    s.mark? i = some .plain := by
  rw [mark?_of_seed?_blank h, if_neg (mt (seeds.covers_iff i).2 hi), if_pos hlt]

theorem mark?_of_seed?_empty {s : Survey Bank.size}
    (h : seed? (.blank Bank.size) Seeds.empty.slots = some s) {i : Nat}
    (hi : i < PointerTable.vectors.offset) : s.mark? i = some .plain := by
  refine mark?_of_not_covers h (hi.trans (by decide)) ?_
  rintro ⟨t, ht, hlo, -⟩
  rw [List.mem_singleton.1 (ht : t ∈ [PointerTable.vectors])] at hlo
  omega

end Analysis

end BankTrace
