import BankTrace.Proofs.Borrowing
import BankTrace.Proofs.Decoding

namespace BankTrace

theorem Bank.addressOf_lt (offset : Nat) : Bank.addressOf offset < 16 ^ 4 := by
  have hlt := Nat.mod_lt offset (by decide : 0 < Bank.size)
  have hsize : Bank.origin + Bank.size = 16 ^ 4 := by decide
  unfold Bank.addressOf
  omega

theorem Bank.addressOf_of_lt {offset : Nat} (h : offset < Bank.size) :
    Bank.addressOf offset = Bank.origin + offset := by
  rw [Bank.addressOf, Nat.mod_eq_of_lt h]

namespace Assembly

/-- The address that a place denotes. -/
def Place.value : Place → Int
  | word value => value
  | label offset adjustment => Bank.addressOf offset + adjustment

def Place.isLabel : Place → Bool
  | word _ => false
  | label .. => true

/-- A label in the bank leads to the address of the target. The name of one behind the bank has
wrapped around, and leads to an address a bank below. -/
theorem Lends.addressOf_add {n : Nat} {s : Survey n} {target offset : Nat} {adjustment : Int}
    (h : Lends s target offset adjustment) (htarget : target < Bank.size) :
    Bank.addressOf offset + adjustment =
      if offset < Bank.size then (Bank.addressOf target : Int)
      else Bank.addressOf target - Bank.size := by
  have hreach := h.inReach.2
  have hleads := h.leads
  unfold Nat.dist labelReach at hreach
  unfold Bank.addressOf
  unfold Bank.size at htarget ⊢
  split_ifs <;> omega

section PlaceOf

variable {n : Nat} {s : Survey n} {word : Nat}

theorem placeOf_of_isLabel (h : s.isLabel (Bank.offsetOf word)) :
    placeOf s word = .label (Bank.offsetOf word) 0 := by
  rw [placeOf, if_pos h]

theorem placeOf_of_borrowed? {offset : Nat} {adjustment : Int}
    (h : ¬ s.isLabel (Bank.offsetOf word))
    (hborrowed : borrowed? s (Bank.offsetOf word) = some (offset, adjustment)) :
    placeOf s word = .label offset adjustment := by
  rw [placeOf, if_neg h, hborrowed]

theorem placeOf_of_none (h : ¬ s.isLabel (Bank.offsetOf word))
    (hborrowed : borrowed? s (Bank.offsetOf word) = none) : placeOf s word = .word word := by
  rw [placeOf, if_neg h, hborrowed]

end PlaceOf

theorem value_placeOf (s : Survey Bank.size) (word : Nat) :
    (placeOf s word).value =
      if (placeOf s word).isLabel then Bank.addressOf (Bank.offsetOf word) else word := by
  by_cases hlabel : s.isLabel (Bank.offsetOf word)
  · simp [placeOf_of_isLabel hlabel, Place.isLabel, Place.value]
  · cases hborrowed : borrowed? s (Bank.offsetOf word) with
    | none => simp [placeOf_of_none hlabel hborrowed, Place.isLabel, Place.value]
    | some found =>
      obtain ⟨offset, adjustment⟩ := found
      have hlends := lends_of_borrowed? hborrowed
      have hvalue := hlends.addressOf_add (Bank.offsetOf_lt word)
      rw [if_pos (Survey.isLabel_lt hlends.isLabel)] at hvalue
      rw [placeOf_of_borrowed? hlabel hborrowed]
      exact hvalue

theorem value_pointerPlace (s : Survey Bank.size) (word : Nat) :
    (pointerPlace s word).value =
      if (pointerPlace s word).isLabel then Bank.addressOf (Bank.offsetOf word) else word := by
  unfold pointerPlace
  by_cases hlabel : s.isLabel (Bank.offsetOf word)
  · simp [hlabel, Place.isLabel, Place.value]
  · simp [hlabel, Place.isLabel, Place.value]

end Assembly

end BankTrace
