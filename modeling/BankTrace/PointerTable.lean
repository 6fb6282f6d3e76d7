import BankTrace.Bank

namespace BankTrace

/-- `count` consecutive words from `offset` on, each the address of code. -/
structure PointerTable where
  offset : Nat
  count : Nat
deriving DecidableEq, Repr

namespace PointerTable

/-- NMI, reset and IRQ, in the last six bytes of the bank. -/
def vectors : PointerTable := ⟨0x3FFA, 3⟩

def slots (t : PointerTable) : List Nat :=
  (List.range t.count).map fun i => t.offset + 2 * i

def Fits (t : PointerTable) : Prop := t.offset + 2 * t.count ≤ Bank.size

instance (t : PointerTable) : Decidable t.Fits := Nat.decLe _ _

theorem vectors_fits : vectors.Fits := by decide

/-- Where a table ends, in 64 bits. There is no result if that overflows. -/
def end64? (t : PointerTable) : Option Nat :=
  if 2 * t.count < UInt64.size ∧ 2 * t.count + t.offset < UInt64.size then
    some (2 * t.count + t.offset)
  else none

theorem fits_iff_end64? (t : PointerTable) :
    t.Fits ↔ ∃ last, t.end64? = some last ∧ last ≤ Bank.size := by
  have hsize : Bank.size < UInt64.size := by decide
  simp only [Fits, end64?, Option.ite_none_right_eq_some, Option.some.injEq]
  constructor
  · intro h
    exact ⟨_, ⟨⟨by omega, by omega⟩, rfl⟩, by omega⟩
  · rintro ⟨last, ⟨-, rfl⟩, hle⟩
    omega

/-- The range test of a table: its end can be told in 64 bits, and lies inside the bank. -/
def inRange (t : PointerTable) : Bool := t.end64?.any (· ≤ Bank.size)

@[simp] theorem inRange_iff_fits (t : PointerTable) : t.inRange ↔ t.Fits := by
  simp [inRange, fits_iff_end64?, Option.any_eq_true]

theorem succ_slot_lt {t : PointerTable} (h : t.Fits) {slot : Nat} (hs : slot ∈ t.slots) :
    slot + 1 < Bank.size := by
  obtain ⟨i, hi, rfl⟩ := List.mem_map.1 hs
  have hi := List.mem_range.1 hi
  unfold Fits at h
  omega

end PointerTable

/-- The tables given by the user, in order, each inside the bank. -/
structure Seeds where
  extra : List PointerTable
  fits : ∀ t ∈ extra, t.Fits

namespace Seeds

def empty : Seeds := ⟨[], by simp⟩

def add? (s : Seeds) (t : PointerTable) : Option Seeds :=
  if h : t.inRange then
    some ⟨s.extra ++ [t], by
      intro u hu
      rcases List.mem_append.1 hu with hu | hu
      · exact s.fits u hu
      · exact List.mem_singleton.1 hu ▸ t.inRange_iff_fits.1 h⟩
  else none

/-- Adds tables up to the first that does not fit, which is returned too. -/
def addAll (s : Seeds) : List PointerTable → Seeds × Option PointerTable
  | [] => (s, none)
  | t :: ts => match s.add? t with
    | some s => s.addAll ts
    | none => (s, t)

def tables (s : Seeds) : List PointerTable := s.extra ++ [.vectors]

theorem fits_of_mem_tables (s : Seeds) {t : PointerTable} (h : t ∈ s.tables) : t.Fits := by
  rcases List.mem_append.1 h with h | h
  · exact s.fits t h
  · exact List.mem_singleton.1 h ▸ PointerTable.vectors_fits

def slots (s : Seeds) : List Nat := s.tables.flatMap PointerTable.slots

end Seeds

end BankTrace
