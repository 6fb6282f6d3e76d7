import BankTrace.Proofs.Anchoring
import Mathlib.Data.Finset.Card

namespace BankTrace

variable {n : Nat}

def Survey.dataCount (s : Survey n) : Nat := ((Finset.range n).filter (s.isData ·)).card

open Classical in
noncomputable def Course.fixedCount (c : Course n) : Nat := ((Finset.range n).filter c.Fixed).card

/-- Each byte of data may make one more strand branch at once. -/
def branchCost : Nat := Bank.size + 3

/-- A strand about to begin, with all the strands that branches begin before the next gain. -/
def freshCost : Nat := Bank.size + 2 + branchCost * Bank.size

def tableCost (offset : Nat) : Nat := (freshCost + 2) * (Bank.size + 2 - offset) + 2

/-- A gain pays for the strand that goes on, for the table it may meet and for the strand begun. -/
def gainCost : Nat := tableCost 0 + Bank.size + 2 + freshCost + 1

/-- Steps that a strand may still take, with those of the strands begun for its jump table. -/
def Strand.cost (strand : Strand) : Nat :=
  match strand.task with
  | .decode settled true => tableCost settled + 2 + (Bank.size - strand.offset)
  | .decode _ false => 2 + (Bank.size - strand.offset)
  | .probe _ => tableCost strand.offset
  | .claim _ => 1 + tableCost (strand.offset + 2)
  | .close => 1

/-- The current strand may branch at its first byte, if it has not done anything yet. -/
def Survey.headCost (s : Survey n) (strand : Strand) : Nat :=
  strand.cost + if strand = .fresh strand.start then branchCost * s.dataCount else 0

def Course.cost (c : Course n) : Nat :=
  match c.strands with
  | [] => 0
  | strand :: waiting => c.survey.headCost strand + (waiting.map Strand.cost).sum

noncomputable def Course.potential (c : Course n) : Nat :=
  gainCost * (n - c.fixedCount) + c.cost

theorem Strand.ne_fresh_of_waits {strand : Strand} (h : strand.Waits) :
    strand ≠ .fresh strand.start := by
  intro he
  rw [he] at h
  exact absurd h.2 (lt_irrefl _)

theorem Strand.cost_taskAfter_le (c : Control) (start next : Nat) :
    (⟨start, next, c.taskAfter next⟩ : Strand).cost ≤ tableCost 0 + Bank.size + 2 := by
  have hmono : tableCost next ≤ tableCost 0 :=
    Nat.add_le_add_right (Nat.mul_le_mul_left _ (by omega)) _
  cases c <;> simp only [cost, Control.taskAfter] <;> omega

theorem Strand.cost_fresh (start : Nat) :
    (Strand.fresh start).cost = 2 + (Bank.size - start) := rfl

theorem Strand.one_lt_cost_decode (start offset settled : Nat) (afterCall : Bool) :
    1 < (⟨start, offset, .decode settled afterCall⟩ : Strand).cost := by
  cases afterCall <;> simp only [cost] <;> omega

theorem Strand.cost_advance_lt (start settled : Nat) (afterCall : Bool) {offset length : Nat}
    (hlt : offset < Bank.size) (hpos : 0 < length) :
    (⟨start, offset + length, .decode settled afterCall⟩ : Strand).cost <
      (⟨start, offset, .decode settled afterCall⟩ : Strand).cost := by
  cases afterCall <;> simp only [cost] <;> omega

theorem Strand.cost_undone_lt (start offset settled : Nat) (afterCall : Bool) (k : Nat) :
    (Strand.undone start settled afterCall k).cost <
      (⟨start, offset, .decode settled afterCall⟩ : Strand).cost := by
  cases afterCall <;> simp only [cost, undone] <;> simp only [reduceIte, Bool.false_eq_true] <;> omega

theorem tableCost_step {offset : Nat} (h : offset + 1 < Bank.size) :
    1 + tableCost (offset + 2) + freshCost < tableCost offset := by
  have hsplit : Bank.size + 2 - offset = (Bank.size + 2 - (offset + 2)) + 2 := by omega
  unfold tableCost
  rw [hsplit, Nat.mul_add]
  omega

namespace Survey

variable {s t : Survey Bank.size}

theorem dataCount_le (s : Survey n) : s.dataCount ≤ n :=
  (Finset.card_filter_le _ _).trans_eq (Finset.card_range n)

theorem dataCount_lt_of_claim? {first length : Nat} (hdata : s.isData first)
    (h : s.claim? first length = some t) : t.dataCount < s.dataCount := by
  apply Finset.card_lt_card
  rw [Finset.ssubset_iff_of_subset]
  · refine ⟨first, by simp [isData_lt hdata, hdata], ?_⟩
    have hlen := claim?_bounds h
    simp only [Finset.mem_filter, isData_of_claim? h]
    exact fun hn => hn.2.2 ⟨le_rfl, by omega⟩
  · intro i
    simp only [Finset.mem_filter, isData_of_claim? h]
    exact fun hi => ⟨hi.1, hi.2.1⟩

theorem headCost_of_ne (s : Survey n) {strand : Strand} (h : strand ≠ .fresh strand.start) :
    s.headCost strand = strand.cost := by
  rw [headCost, if_neg h, Nat.add_zero]

theorem cost_le_headCost (s : Survey n) (strand : Strand) : strand.cost ≤ s.headCost strand :=
  Nat.le_add_right _ _

theorem headCost_fresh (s : Survey n) (start : Nat) :
    s.headCost (.fresh start) = 2 + (Bank.size - start) + branchCost * s.dataCount := by
  show (Strand.fresh start).cost + (if Strand.fresh start = .fresh start then _ else 0) = _
  rw [if_pos rfl, Strand.cost_fresh]

theorem headCost_fresh_le (s : Survey Bank.size) (start : Nat) :
    s.headCost (.fresh start) ≤ freshCost := by
  have hmul := Nat.mul_le_mul_left branchCost s.dataCount_le
  rw [headCost_fresh]
  unfold freshCost
  omega

end Survey

namespace Course

theorem cost_entering_le (s : Survey Bank.size) (target : Option Nat) {strand : Strand}
    (waiting : List Strand) (r p : Nat) (a : Bool) (h : strand ≠ .fresh strand.start) :
    (⟨s, s.entering target ++ strand :: waiting, r, p, a⟩ : Course Bank.size).cost ≤
      freshCost + strand.cost + (waiting.map Strand.cost).sum := by
  rcases s.entering_eq target with he | ⟨start, -, he⟩
  · simp only [cost, he, List.nil_append, s.headCost_of_ne h]
    omega
  · have := s.headCost_fresh_le start
    simp only [cost, he, List.singleton_append, List.map_cons, List.sum_cons]
    omega

theorem potential_lt_of_cost {c d : Course n} (hfix : ∀ i, c.Fixed i → d.Fixed i)
    (h : d.cost < c.cost) : d.potential < c.potential := by
  classical
  have hcard : c.fixedCount ≤ d.fixedCount :=
    Finset.card_le_card (Finset.monotone_filter_right _ fun i _ => hfix i)
  have := Nat.mul_le_mul_left gainCost (Nat.sub_le_sub_left hcard n)
  unfold potential
  omega

theorem potential_lt_of_strand {s t : Survey n} {strand strand' : Strand} {waiting : List Strand}
    {r r' p p' : Nat} {a : Bool}
    (hfix : ∀ i, (⟨s, strand :: waiting, r, p, a⟩ : Course n).Fixed i →
      (⟨t, strand' :: waiting, r', p', a⟩ : Course n).Fixed i)
    (hne : strand' ≠ .fresh strand'.start) (hlt : strand'.cost < strand.cost) :
    (⟨t, strand' :: waiting, r', p', a⟩ : Course n).potential <
      (⟨s, strand :: waiting, r, p, a⟩ : Course n).potential := by
  apply potential_lt_of_cost hfix
  have hle := s.cost_le_headCost strand
  simp only [cost, t.headCost_of_ne hne]
  omega

theorem potential_lt_of_gain {c d : Course n} (hfix : ∀ i, c.Fixed i → d.Fixed i) {i : Nat}
    (hc : c.survey.isData i) (hd : d.Fixed i) (h : d.cost < c.cost + gainCost) :
    d.potential < c.potential := by
  classical
  have hcard : c.fixedCount < d.fixedCount := by
    apply Finset.card_lt_card
    rw [Finset.ssubset_iff_of_subset (Finset.monotone_filter_right _ fun i _ => hfix i)]
    have hnot : ¬ c.Fixed i := fun h => h.held.1.not_isData hc
    exact ⟨i, by simpa using ⟨hd.held.1.1, hd⟩, by simp [hnot]⟩
  have hle : d.fixedCount ≤ n := (Finset.card_filter_le _ _).trans_eq (Finset.card_range n)
  have hmul := Nat.mul_le_mul_left gainCost (by omega : n - d.fixedCount + 1 ≤ n - c.fixedCount)
  rw [Nat.mul_add, Nat.mul_one] at hmul
  unfold potential
  omega

theorem fixed_of_entering {s : Survey n} {target : Option Nat} {strand : Strand}
    {waiting : List Strand} {r p : Nat} {a : Bool} (h : strand.Steady) {i j : Nat} (hlo : j ≤ i)
    (hhi : i < j + 3) (hrow : ∀ k, j ≤ k → k < j + 3 → s.Taken k) :
    (⟨s, s.entering target ++ strand :: waiting, r, p, a⟩ : Course n).Fixed i :=
  ⟨j, hlo, hhi, ⟨hrow _ le_rfl (by omega), not_inDoubt_of_entering h _⟩,
    ⟨hrow _ (by omega) (by omega), not_inDoubt_of_entering h _⟩,
    ⟨hrow _ (by omega) (by omega), not_inDoubt_of_entering h _⟩⟩

theorem cost_transfer_lt (s : Survey Bank.size) (target : Option Nat) (control : Control)
    (waiting : List Strand) (r p : Nat) (a : Bool) {start offset length : Nat}
    (hle : start ≤ offset) (hpos : 0 < length) :
    (⟨s, s.entering target ++
      ⟨start, offset + length, control.taskAfter (offset + length)⟩ :: waiting, r, p, a⟩ :
      Course Bank.size).cost < (waiting.map Strand.cost).sum + gainCost := by
  have waits := Strand.taskAfter_waits control hle hpos
  have hcost := cost_entering_le s target waiting r p a (Strand.ne_fresh_of_waits waits)
  have hbound := Strand.cost_taskAfter_le control start (offset + length)
  unfold gainCost
  omega

theorem cost_branch_lt {s t : Survey Bank.size} {start : Nat} (target : Option Nat)
    (waiting : List Strand) (r p : Nat) (a : Bool) (data : s.isData start)
    (claimed : s.claim? start 2 = some t) :
    (⟨t, t.entering target ++ ⟨start, start + 2, .decode (start + 2) false⟩ :: waiting, r, p, a⟩ :
      Course Bank.size).cost < (⟨s, .fresh start :: waiting, r, p, a⟩ : Course Bank.size).cost := by
  have hlt := Survey.isData_lt data
  have hcount := Nat.mul_le_mul_left branchCost (Survey.dataCount_lt_of_claim? data claimed)
  have waits : (⟨start, start + 2, .decode (start + 2) false⟩ : Strand).Waits :=
    ⟨rfl, show start < start + 2 by omega⟩
  have hcont : (⟨start, start + 2, .decode (start + 2) false⟩ : Strand).cost =
      2 + (Bank.size - (start + 2)) := rfl
  rw [Nat.succ_eq_add_one, Nat.mul_add, Nat.mul_one] at hcount
  rcases t.entering_eq target with he | ⟨child, -, he⟩
  · simp only [cost, he, List.nil_append, s.headCost_fresh,
      t.headCost_of_ne (Strand.ne_fresh_of_waits waits), hcont]
    omega
  · simp only [cost, he, List.singleton_append, List.map_cons, List.sum_cons,
      Survey.headCost_fresh, hcont]
    unfold branchCost at hcount ⊢
    omega

/-- An instruction that is not straight-line ends a row of three bytes, unless it is a return, or a
branch with which a strand begins. -/
theorem Sound.row_of_transfer {bank : Bank} {c : Course Bank.size} (hc : c.Sound bank)
    {t : Survey Bank.size} {start offset settled : Nat} {afterCall : Bool} {op : Opcode}
    {waiting : List Strand}
    (hs : c.strands = ⟨start, offset, .decode settled afterCall⟩ :: waiting)
    (holds : bank.Holds offset op) (nonlinear : op.control.isLinear = false)
    (claimed : c.survey.claim? offset op.length = some t) :
    (∃ j, j ≤ offset ∧ offset < j + 3 ∧ ∀ k, j ≤ k → k < j + 3 → t.Taken k) ∨ op.control = .ret ∨
      op.control = .branch ∧ op.length = 2 ∧ offset = start ∧ settled = start ∧
        afterCall = false := by
  obtain ⟨hss, hso, -⟩ : (⟨start, offset, .decode settled afterCall⟩ : Strand).Inside Bank.size :=
    hc.inside _ (by simp [hs])
  have hr := Bank.regular_of_opcode? holds.opcode
  have long (hlen : op.length = 3) :
      ∃ j, j ≤ offset ∧ offset < j + 3 ∧ ∀ k, j ≤ k → k < j + 3 → t.Taken k :=
    ⟨offset, le_rfl, by omega, fun k hlo hhi => Survey.taken_of_claim? claimed hlo (by omega)⟩
  cases hctl : op.control with
  | illegal => exact absurd hctl holds.legal
  | next => simp [hctl, Control.isLinear] at nonlinear
  | reference => simp [hctl, Control.isLinear] at nonlinear
  | ret => exact .inr (.inl rfl)
  | jump | jumpIndirect | call =>
    simp only [Opcode.Regular, hctl] at hr
    exact .inl (long hr)
  | branch =>
    simp only [Opcode.Regular, hctl] at hr
    -- The byte before the branch, if the strand has one behind it, makes the row.
    have behind (i : Nat) (hi : i + 1 = offset) (htaken : c.survey.Taken i) :
        ∃ j, j ≤ offset ∧ offset < j + 3 ∧ ∀ k, j ≤ k → k < j + 3 → t.Taken k := by
      refine ⟨i, by omega, by omega, fun k hlo hhi => ?_⟩
      obtain rfl | hk : k = i ∨ offset ≤ k := by omega
      · exact htaken.of_claim? claimed
      · exact Survey.taken_of_claim? claimed hk (by omega)
    rcases Nat.lt_or_eq_of_le (show settled ≤ offset from hso) with hlt | rfl
    · have hstretch := hc.stretched
      simp only [Stretched, hs] at hstretch
      exact .inl (behind (offset - 1) (by omega) (hstretch.2 _ (by omega) (by omega)))
    · have hroot : c.Rooted bank ⟨start, settled, .decode settled afterCall⟩ :=
        hc.rooted _ (by simp [hs])
      rcases hroot with ⟨hstart, hcall⟩ | ⟨b, rfl, hdoom | ⟨-, htaken, -⟩⟩
      · exact .inr (.inr ⟨rfl, hr, hstart, hstart, hcall⟩)
      · rcases hdoom.refuses_or_isLinear .refl with ⟨k, hk⟩ | ⟨op', hop', hlin⟩
        · exact absurd hk holds.not_refuses
        · rw [holds.unique hop', hlin] at nonlinear
          exact absurd nonlinear (by decide)
      · exact .inl (behind (b + 1) rfl htaken)

end Course

namespace Move

variable {bank : Bank} {c d : Course Bank.size}

/-- Every move makes the potential smaller. -/
theorem potential_lt (h : Move bank c d) (hc : c.Sound bank) : d.potential < c.potential := by
  have hfix : ∀ i, c.Fixed i → d.Fixed i := fun i => h.fixed hc.stacked
  cases h with
  | arrive stop =>
    exact Course.potential_lt_of_strand hfix (Strand.ne_fresh_of_waits trivial)
      (Strand.one_lt_cost_decode _ _ _ _)
  | undo data refuses released =>
    exact Course.potential_lt_of_strand hfix
      (Strand.ne_fresh_of_waits (Strand.undone_waits _ _ _ _)) (Strand.cost_undone_lt _ _ _ _ _)
  | @advance s t u start offset settled afterCall op waiting r p a data holds linear claimed
      annotated =>
    obtain ⟨hss, hso, -⟩ := hc.inside _ List.mem_cons_self
    have hstart : start ≤ offset := hss.trans hso
    have hpos := holds.length_pos
    refine Course.potential_lt_of_strand hfix (fun he => ?_)
      (Strand.cost_advance_lt start settled afterCall holds.lt hpos)
    have hback : offset + op.length = start := congrArg Strand.offset he
    omega
  | @transfer s t start offset settled afterCall op waiting r p a data holds nonlinear claimed =>
    obtain ⟨hss, hso, -⟩ := hc.inside _ List.mem_cons_self
    have hstart : start ≤ offset := hss.trans hso
    rcases hc.row_of_transfer rfl holds nonlinear claimed with
      ⟨j, hlo, hhi, hrow⟩ | hret | ⟨hbranch, hlen, rfl, rfl, rfl⟩
    · apply Course.potential_lt_of_gain hfix data
        (Course.fixed_of_entering (Strand.taskAfter_steady _ _ _) hlo hhi hrow)
      have hcost := Course.cost_transfer_lt t (bank.transfer? offset op) op.control waiting r p a
        hstart holds.length_pos
      have hsum : (waiting.map Strand.cost).sum ≤ (⟨s, ⟨start, offset, .decode settled afterCall⟩ ::
        waiting, r, p, a⟩ : Course Bank.size).cost := Nat.le_add_left _ _
      omega
    · have hnone : bank.transfer? offset op = none := by simp only [Bank.transfer?, hret]
      rw [hnone, hret] at hfix ⊢
      exact Course.potential_lt_of_strand hfix (Strand.ne_fresh_of_waits trivial)
        (Strand.one_lt_cost_decode _ _ _ _)
    · apply Course.potential_lt_of_cost hfix
      rw [hlen] at claimed
      rw [hbranch, hlen]
      exact Course.cost_branch_lt _ waiting r p a data claimed
  | @probe s start offset k target waiting r p a word pointee =>
    apply Course.potential_lt_of_cost hfix
    have hstep := tableCost_step (Exploration.lt_of_isTableWord word)
    have hle := s.cost_le_headCost ⟨start, offset, .probe k⟩
    have hcost := Course.cost_entering_le s target waiting r p a
      (Strand.ne_fresh_of_waits (by trivial : (⟨start, offset, .claim k⟩ : Strand).Waits))
    simp only [Course.cost] at hcost ⊢
    simp only [Strand.cost] at hle hcost
    omega
  | tableEnd noWord =>
    apply Course.potential_lt_of_strand hfix (Strand.ne_fresh_of_waits trivial)
    simp only [Strand.cost, tableCost]
    omega
  | claim low high =>
    apply Course.potential_lt_of_strand hfix (Strand.ne_fresh_of_waits trivial)
    simp only [Strand.cost]
    omega
  | @finish s t start offset waiting r p a closed =>
    apply Course.potential_lt_of_cost hfix
    have hle := s.cost_le_headCost ⟨start, offset, .close⟩
    simp only [Strand.cost] at hle
    cases waiting with
    | nil =>
      simp only [Course.cost]
      omega
    | cons strand waiting =>
      have hne := Strand.ne_fresh_of_waits (hc.stacked strand List.mem_cons_self)
      simp only [Course.cost, t.headCost_of_ne hne, List.map_cons, List.sum_cons]
      omega

end Move

end BankTrace
