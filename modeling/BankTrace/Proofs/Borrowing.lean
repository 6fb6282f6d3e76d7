import BankTrace.Assembly.Place
import Mathlib.Data.Nat.Dist
import Mathlib.Tactic

namespace BankTrace.Assembly

variable {n : Nat} {s : Survey n} {target distance offset : Nat} {adjustment : Int}

/-- The label to borrow for `target`, with what leads from it to the target. -/
structure Lends (s : Survey n) (target offset : Nat) (adjustment : Int) : Prop where
  isLabel : s.isLabel offset
  inReach : 1 ≤ Nat.dist offset target ∧ Nat.dist offset target ≤ labelReach
  leads : offset + adjustment = target
  /-- None is closer, but for one on the target itself. -/
  closest : ∀ other, s.isLabel other → other ≠ target →
    Nat.dist offset target ≤ Nat.dist other target
  lower : ∀ other, s.isLabel other → Nat.dist other target = Nat.dist offset target →
    offset ≤ other

theorem Lends.unique {offset' : Nat} {adjustment' : Int} (h : Lends s target offset adjustment)
    (h' : Lends s target offset' adjustment') : offset = offset' ∧ adjustment = adjustment' := by
  have hne : ∀ {i}, 1 ≤ Nat.dist i target → i ≠ target := by
    rintro i hpos rfl
    rw [Nat.dist_self] at hpos
    omega
  have hdist : Nat.dist offset target = Nat.dist offset' target :=
    le_antisymm (h.closest offset' h'.isLabel (hne h'.inReach.1))
      (h'.closest offset h.isLabel (hne h.inReach.1))
  have hoffset : offset = offset' :=
    le_antisymm (h.lower offset' h'.isLabel hdist.symm) (h'.lower offset h.isLabel hdist)
  have hleads := h.leads
  have hleads' := h'.leads
  omega

theorem dist_eq_iff : Nat.dist offset target = distance ↔
    offset + distance = target ∨ offset = target + distance := by
  unfold Nat.dist
  omega

/-- The label at a distance from `target`, the lower one of two. -/
def labelAt? (s : Survey n) (target distance : Nat) : Option (Nat × Int) :=
  if distance ≤ target && s.isLabel (target - distance) then some (target - distance, distance)
  else if s.isLabel (target + distance) then some (target + distance, -distance)
  else none

theorem borrowed?_eq_findSome? (s : Survey n) (target : Nat) :
    borrowed? s target =
      (List.range labelReach).findSome? fun i => labelAt? s target (i + 1) := rfl

theorem labelAt?_isSome_iff :
    (labelAt? s target distance).isSome ↔
      ∃ offset, s.isLabel offset ∧ Nat.dist offset target = distance := by
  simp only [dist_eq_iff]
  unfold labelAt?
  split_ifs with hlow hhigh
  · simp only [Bool.and_eq_true, decide_eq_true_eq] at hlow
    exact iff_of_true rfl ⟨target - distance, hlow.2, .inl (by omega)⟩
  · exact iff_of_true rfl ⟨target + distance, hhigh, .inr rfl⟩
  · refine iff_of_false Bool.false_ne_true ?_
    rintro ⟨offset, hlabel, rfl | rfl⟩
    · simp [hlabel] at hlow
    · exact hhigh hlabel

theorem labelAt?_eq_some (h : labelAt? s target distance = some (offset, adjustment)) :
    s.isLabel offset ∧ Nat.dist offset target = distance ∧ offset + adjustment = target ∧
      ∀ other, s.isLabel other → Nat.dist other target = distance → offset ≤ other := by
  simp only [dist_eq_iff]
  unfold labelAt? at h
  split_ifs at h with hlow hhigh
  · simp only [Bool.and_eq_true, decide_eq_true_eq] at hlow
    obtain ⟨rfl, rfl⟩ := h
    exact ⟨hlow.2, .inl (by omega), by omega, fun other _ hother => by omega⟩
  · obtain ⟨rfl, rfl⟩ := h
    refine ⟨hhigh, .inr rfl, by omega, ?_⟩
    rintro other hlabel (rfl | rfl)
    · simp [hlabel] at hlow
    · exact le_rfl

theorem first_of_findSome?_range {α : Type} {f : Nat → Option α} {bound : Nat} {a : α}
    (h : (List.range bound).findSome? f = some a) :
    ∃ i < bound, f i = some a ∧ ∀ j < i, f j = none := by
  obtain ⟨front, i, back, hsplit, hi, hfront⟩ := List.findSome?_eq_some_iff.1 h
  have hlt : i < bound := by
    rw [← List.mem_range, hsplit]
    simp
  refine ⟨i, hlt, hi, fun j hj => hfront j ?_⟩
  have hmem : j ∈ front ++ i :: back := hsplit ▸ List.mem_range.2 (hj.trans hlt)
  have hsorted : (front ++ i :: back).Pairwise (· < ·) := hsplit ▸ List.pairwise_lt_range
  rw [List.pairwise_append, List.pairwise_cons] at hsorted
  rcases List.mem_append.1 hmem with hmem | hmem
  · exact hmem
  · rcases List.mem_cons.1 hmem with rfl | hmem
    · exact absurd hj (Nat.lt_irrefl j)
    · exact absurd hj (hsorted.2.1.1 j hmem).asymm

theorem borrowed?_isSome_iff :
    (borrowed? s target).isSome ↔ ∃ offset, s.isLabel offset ∧
      1 ≤ Nat.dist offset target ∧ Nat.dist offset target ≤ labelReach := by
  simp only [borrowed?_eq_findSome?, List.findSome?_isSome_iff, labelAt?_isSome_iff, List.mem_range]
  constructor
  · rintro ⟨i, hi, offset, hlabel, hdist⟩
    exact ⟨offset, hlabel, by omega, by omega⟩
  · rintro ⟨offset, hlabel, hpos, hreach⟩
    exact ⟨Nat.dist offset target - 1, by omega, offset, hlabel, by omega⟩

theorem lends_of_borrowed? (h : borrowed? s target = some (offset, adjustment)) :
    Lends s target offset adjustment := by
  rw [borrowed?_eq_findSome?] at h
  obtain ⟨i, hi, hfound, hbefore⟩ := first_of_findSome?_range h
  obtain ⟨hlabel, hdist, hleads, hlower⟩ := labelAt?_eq_some hfound
  refine ⟨hlabel, by omega, hleads, fun other hother hne => ?_, fun other hother hsame => ?_⟩
  · by_contra hcloser
    have hpos : 0 < Nat.dist other target := Nat.pos_of_ne_zero fun h =>
      hne (Nat.eq_of_dist_eq_zero h)
    -- The search would have ended at the distance of `other`.
    have hnone := hbefore (Nat.dist other target - 1) (by omega)
    have hsome : (labelAt? s target (Nat.dist other target - 1 + 1)).isSome :=
      labelAt?_isSome_iff.2 ⟨other, hother, by omega⟩
    rw [hnone] at hsome
    exact Bool.false_ne_true hsome
  · exact hlower other hother (by omega)

theorem borrowed?_eq_some_iff :
    borrowed? s target = some (offset, adjustment) ↔ Lends s target offset adjustment := by
  refine ⟨lends_of_borrowed?, fun h => ?_⟩
  obtain ⟨⟨offset', adjustment'⟩, hfound⟩ :=
    Option.isSome_iff_exists.1 (borrowed?_isSome_iff.2 ⟨offset, h.isLabel, h.inReach⟩)
  obtain ⟨rfl, rfl⟩ := h.unique (lends_of_borrowed? hfound)
  exact hfound

end BankTrace.Assembly
