import BankTrace.Proofs.Supplies

namespace BankTrace

namespace PointerTable

theorem slots_eq_range' (t : PointerTable) : t.slots = List.range' t.offset t.count 2 :=
  List.ext_getElem (by simp [slots]) (by simp [slots])

theorem isChain_slots (t : PointerTable) : t.slots.IsChain fun slot next => next = slot + 2 := by
  rw [slots_eq_range']
  exact List.isChain_range' _ _ _

end PointerTable

namespace Seeds

/-- A call on the store: one table is offered, or several in a row. -/
inductive Call
  | add (t : PointerTable)
  | extend (ts : List PointerTable)

namespace Call

def offered : Call → List PointerTable
  | add t => [t]
  | extend ts => ts

def accepted (call : Call) : List PointerTable :=
  call.offered.takeWhile fun t => t.offset + 2 * t.count ≤ Bank.size

def rejected (call : Call) : Option PointerTable :=
  call.offered.find? fun t => Bank.size < t.offset + 2 * t.count

end Call

def perform (s : Seeds) : Call → Seeds × Option PointerTable
  | .add t => match s.add? t with
    | some after => (after, none)
    | none => (s, some t)
  | .extend ts => s.addAll ts

/-- The store after a history of calls, and for which tables they failed. -/
def performAll (s : Seeds) : List Call → Seeds × List (Option PointerTable)
  | [] => (s, [])
  | call :: calls =>
    let (after, failure) := s.perform call
    let (last, failures) := after.performAll calls
    (last, failure :: failures)

theorem perform_eq_addAll (s : Seeds) (call : Call) : s.perform call = s.addAll call.offered := by
  cases call with
  | add t =>
    rw [perform, Call.offered, addAll]
    cases s.add? t <;> rfl
  | extend ts => rfl

theorem perform_spec (s : Seeds) (call : Call) :
    (s.perform call).1.extra = s.extra ++ call.accepted ∧
      (s.perform call).2 = call.rejected := by
  have hrejected : call.rejected = call.offered.find? (¬ ·.Fits) := by
    simp only [Call.rejected, PointerTable.Fits, Nat.not_le]
  rw [perform_eq_addAll, hrejected]
  exact s.addAll_eq call.offered

theorem performAll_spec (s : Seeds) (calls : List Call) :
    (s.performAll calls).1.extra = s.extra ++ calls.flatMap Call.accepted ∧
      (s.performAll calls).2 = calls.map Call.rejected := by
  induction calls generalizing s with
  | nil => exact ⟨(List.append_nil _).symm, rfl⟩
  | cons call calls ih =>
    obtain ⟨hextra, hfailure⟩ := s.perform_spec call
    obtain ⟨hlast, hfailures⟩ := ih (s.perform call).1
    constructor
    · calc
        (s.performAll (call :: calls)).1.extra
          = (s.perform call).1.extra ++ calls.flatMap Call.accepted := hlast
        _ = s.extra ++ (call :: calls).flatMap Call.accepted := by
          rw [hextra, List.append_assoc, List.flatMap_cons]
    · exact congrArg₂ List.cons hfailure hfailures

theorem perform_add (s : Seeds) (t : PointerTable) :
    (t.offset + 2 * t.count ≤ Bank.size →
      ∃ after, s.perform (.add t) = (after, none) ∧ after.extra = s.extra ++ [t]) ∧
    (Bank.size < t.offset + 2 * t.count → s.perform (.add t) = (s, some t)) := by
  constructor
  · intro hle
    obtain ⟨after, hadd, hextra⟩ := s.add?_eq_some hle
    exact ⟨after, by rw [perform, hadd], hextra⟩
  · intro hlt
    rw [perform, s.add?_eq_none hlt.not_ge]

theorem perform_extend (s : Seeds) {front : List PointerTable} {t : PointerTable}
    (hfront : ∀ u ∈ front, u.offset + 2 * u.count ≤ Bank.size)
    (ht : Bank.size < t.offset + 2 * t.count) (back : List PointerTable) :
    ∃ after, s.perform (.extend (front ++ t :: back)) = (after, some t) ∧
      after.extra = s.extra ++ front := by
  obtain ⟨hextra, hfailure⟩ := s.perform_spec (.extend (front ++ t :: back))
  refine ⟨_, Prod.ext rfl ?_, ?_⟩
  · rw [hfailure, Call.rejected, Call.offered, List.find?_append, List.find?_eq_none.2 ?_]
    · simp [ht]
    · simpa using hfront
  · rw [hextra, Call.accepted, Call.offered,
      List.takeWhile_append_of_pos (by simpa using hfront)]
    simp [ht]

/-- After any calls the store holds the tables that were accepted, in order, and the vectors behind
them, the words of all of which lie in the bank; and what the next call does is told by the range of
its tables alone. -/
theorem performAll_admits (calls : List Call) :
    ∃ s failures, empty.performAll calls = (s, failures) ∧
      s.extra = calls.flatMap Call.accepted ∧ failures = calls.map Call.rejected ∧
      s.tables = s.extra ++ [⟨0x3FFA, 3⟩] ∧
      (∀ t ∈ s.tables, (t.slots.IsChain fun slot next => next = slot + 2) ∧
        ∀ slot ∈ t.slots, slot + 1 < Bank.size) ∧
      (∀ t, (t.offset + 2 * t.count ≤ Bank.size →
          ∃ after, s.perform (.add t) = (after, none) ∧ after.extra = s.extra ++ [t]) ∧
        (Bank.size < t.offset + 2 * t.count → s.perform (.add t) = (s, some t))) ∧
      ∀ front t back, (∀ u ∈ front, u.offset + 2 * u.count ≤ Bank.size) →
        Bank.size < t.offset + 2 * t.count →
        ∃ after, s.perform (.extend (front ++ t :: back)) = (after, some t) ∧
          after.extra = s.extra ++ front := by
  obtain ⟨hextra, hfailures⟩ := empty.performAll_spec calls
  refine ⟨_, _, rfl, hextra, hfailures, rfl, fun t ht => ⟨t.isChain_slots, fun slot hslot => ?_⟩,
    perform_add _, fun front t back hfront ht => perform_extend _ hfront ht back⟩
  exact PointerTable.succ_slot_lt (fits_of_mem_tables _ ht) hslot

-- Cut to 64 bits, twice the first count and the end of the third table would be zero.
example : empty.performAll [.add ⟨0, 2 ^ 63⟩, .extend [⟨0x3FFE, 1⟩, ⟨2 ^ 64 - 2, 1⟩, ⟨0, 1⟩]] =
    (⟨[⟨0x3FFE, 1⟩], by decide⟩, [some ⟨0, 2 ^ 63⟩, some ⟨2 ^ 64 - 2, 1⟩]) := by
  rfl

end Seeds

end BankTrace
