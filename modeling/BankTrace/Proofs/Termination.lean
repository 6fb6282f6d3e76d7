import BankTrace.Analysis
import BankTrace.Proofs.Potential
import BankTrace.Proofs.Progress

namespace BankTrace

namespace Exploration

variable {n : Nat}

def sent (x : Exploration n) (start : Nat) : Exploration n :=
  { x with strands := [], advanced := false }.visit start

theorem course_sent (x : Exploration n) (start : Nat) :
    (x.sent start).course =
      ⟨x.survey, x.survey.entering start, x.rollbacks, x.recovered, false⟩ := by
  rw [sent, course_visit, List.append_nil]

theorem sound_sent (bank : Bank) (x : Exploration n) (start : Nat) :
    (x.sent start).course.Sound bank := by
  rw [course_sent]
  exact Course.sound_fresh bank _ _ _ _ _

theorem run?_of_isEmpty (bank : Bank) {x : Exploration n} (h : x.strands = []) (limit : Nat) :
    run? bank x limit = some x := by
  cases limit with
  | zero => rfl
  | succ limit => simp [run?, h]

theorem run?_succ {bank : Bank} {x y : Exploration n} (hne : x.strands ≠ [])
    (h : step? bank x = some y) (limit : Nat) : run? bank x (limit + 1) = run? bank y limit := by
  simp [run?, hne, h]

theorem run?_add (bank : Bank) (x : Exploration n) (j k : Nat) :
    run? bank x (j + k) = (run? bank x j).bind (run? bank · k) := by
  induction j generalizing x with
  | zero => rw [Nat.zero_add, run?, Option.bind_some]
  | succ j ih =>
    by_cases hne : x.strands = []
    · simp only [run?_of_isEmpty bank hne, Option.bind_some]
    · rw [Nat.succ_add]
      cases hstep : step? bank x with
      | none => simp [run?, hne, hstep]
      | some y => rw [run?_succ hne hstep, run?_succ hne hstep, ih]

/-- A sound exploration ends, however many steps more than its potential it is given. -/
theorem exists_end {bank : Bank} {x : Exploration Bank.size} (hx : x.course.Sound bank) :
    ∃ y, y.strands = [] ∧ ∀ limit, x.course.potential ≤ limit → run? bank x limit = some y := by
  induction hpot : x.course.potential using Nat.strong_induction_on generalizing x with
  | _ potential ih =>
    by_cases hne : x.strands = []
    · exact ⟨x, hne, fun limit _ => run?_of_isEmpty bank hne limit⟩
    · obtain ⟨y, hstep, hm⟩ := exists_move bank hx.inside hne
      have hlt := hm.potential_lt hx
      obtain ⟨z, hz, hrun⟩ := ih _ (hpot ▸ hlt) (hm.sound hx) rfl
      refine ⟨z, hz, fun limit hlimit => ?_⟩
      obtain ⟨limit, rfl⟩ : ∃ m, limit = m + 1 := ⟨limit - 1, by omega⟩
      rw [run?_succ hne hstep]
      exact hrun limit (by omega)

theorem keeps_of_steps {bank : Bank} {P : Exploration Bank.size → Prop}
    (hstep : ∀ {x y : Exploration Bank.size}, x.course.Sound bank → x.strands ≠ [] →
      step? bank x = some y → P x → P y) {x y : Exploration Bank.size}
    {limit : Nat} (hx : x.course.Sound bank) (hP : P x) (h : run? bank x limit = some y) :
    P y := by
  induction limit generalizing x with
  | zero => rwa [← Option.some.inj h]
  | succ limit ih =>
    by_cases hne : x.strands = []
    · rw [run?_of_isEmpty bank hne] at h
      rwa [← Option.some.inj h]
    · obtain ⟨z, hz, hm⟩ := exists_move bank hx.inside hne
      rw [run?_succ hne hz] at h
      exact ih (hm.sound hx) (hstep hx hne hz hP) h

theorem keeps_of_run? {bank : Bank} {P : Course Bank.size → Prop}
    (hmove : ∀ {c d}, c.Sound bank → Move bank c d → P c → P d) {x y : Exploration Bank.size}
    {limit : Nat} (hx : x.course.Sound bank) (hP : P x.course) (h : run? bank x limit = some y) :
    P y.course := by
  refine keeps_of_steps (P := fun x => P x.course) (fun hsound hne hstep => ?_) hx hP h
  exact hmove hsound (move_of_step? hsound.inside hne hstep)

theorem sound_of_run? {bank : Bank} {x y : Exploration Bank.size} {limit : Nat}
    (hx : x.course.Sound bank) (h : run? bank x limit = some y) : y.course.Sound bank :=
  keeps_of_run? (P := Course.Sound bank) (fun hc hmove _ => hmove.sound hc) hx hx h

theorem potential_sent_le (x : Exploration Bank.size) (start : Nat) :
    (x.sent start).course.potential ≤ stepLimit := by
  have hgain := Nat.mul_le_mul_left gainCost
    (Nat.sub_le Bank.size (x.sent start).course.fixedCount)
  have hcost : (x.sent start).course.cost ≤ freshCost := by
    rw [course_sent]
    rcases x.survey.entering_eq start with he | ⟨first, -, he⟩
    · simp only [Course.cost, he, Nat.zero_le]
    · simpa [Course.cost, he] using x.survey.headCost_fresh_le first
  have hbound : gainCost * Bank.size + freshCost ≤ stepLimit := by decide
  unfold Course.potential
  omega

theorem exists_follow? (bank : Bank) (x : Exploration Bank.size) (start : Nat) :
    ∃ y, x.follow? bank start = some y ∧ y.strands = [] := by
  obtain ⟨y, hy, hrun⟩ := exists_end (sound_sent bank x start)
  exact ⟨y, hrun _ (potential_sent_le x start), hy⟩

/-- What every move keeps holds after an exploration that was sent to `start`. -/
theorem keeps_of_sent {bank : Bank} {P : Course Bank.size → Prop}
    (hmove : ∀ {c d}, c.Sound bank → Move bank c d → P c → P d) {x y : Exploration Bank.size}
    {start k : Nat} (hP : P ⟨x.survey, x.survey.entering start, x.rollbacks, x.recovered, false⟩)
    (h : run? bank (x.sent start) k = some y) : P y.course :=
  keeps_of_run? hmove (sound_sent bank x start) (by rwa [course_sent]) h

/-- `z` is what is left of `x` when it has been sent to the target of each slot in turn, and has each
time been followed until no strand was left. -/
inductive Explores (bank : Bank) : Exploration n → List Nat → Exploration n → Prop
  | done (x : Exploration n) : Explores bank x [] x
  | next {x y z : Exploration n} {slot word k : Nat} {slots : List Nat}
      (hword : bank.word? slot = some word)
      (hrun : run? bank ((x.report (.seeded slot word)).sent (Bank.offsetOf word)) k = some y)
      (ended : y.strands = []) (rest : Explores bank y slots z) :
      Explores bank x (slot :: slots) z

theorem exists_explores (bank : Bank) {slots : List Nat} (hin : ∀ slot ∈ slots, slot + 1 < Bank.size)
    (x : Exploration Bank.size) :
    ∃ z, slots.foldlM (Analysis.followSlot? bank) x = some z ∧ Explores bank x slots z := by
  induction slots generalizing x with
  | nil => exact ⟨x, rfl, .done x⟩
  | cons slot slots ih =>
    rw [List.forall_mem_cons] at hin
    obtain ⟨word, hword⟩ := Bank.word?_eq_some bank hin.1
    obtain ⟨y, hy, hend⟩ := exists_follow? bank (x.report (.seeded slot word)) (Bank.offsetOf word)
    obtain ⟨z, hz, hrest⟩ := ih hin.2 y
    refine ⟨z, ?_, .next hword hy hend hrest⟩
    rw [List.foldlM_cons, Analysis.followSlot?, hword]
    simp only [Option.bind_eq_bind, Option.bind_some, hy, hz]

end Exploration

namespace Analysis

theorem exists_seed? {slots : List Nat} (hin : ∀ slot ∈ slots, slot + 1 < Bank.size)
    (s : Survey Bank.size) : ∃ t, seed? s slots = some t := by
  induction slots generalizing s with
  | nil => exact ⟨s, rfl⟩
  | cons slot slots ih =>
    rw [List.forall_mem_cons] at hin
    obtain ⟨t, ht⟩ := Survey.exists_point? (s := s) (i := slot) (by omega)
    obtain ⟨u, hu⟩ := Survey.exists_point? (s := t) hin.1
    obtain ⟨v, hv⟩ := ih hin.2 u
    refine ⟨v, ?_⟩
    rw [seed?, List.foldlM_cons]
    simp only [ht, hu, Option.bind_eq_bind, Option.bind_some]
    exact hv

end Analysis

theorem Seeds.succ_slot_lt (seeds : Seeds) : ∀ slot ∈ seeds.slots, slot + 1 < Bank.size := by
  intro slot hmem
  obtain ⟨t, ht, hslot⟩ := List.mem_flatMap.1 hmem
  exact PointerTable.succ_slot_lt (seeds.fits_of_mem_tables ht) hslot

/-- An analysis seeds its pointer tables and explores from each slot to the end. -/
theorem Bank.analyze?_eq_some (bank : Bank) (seeds : Seeds) :
    ∃ s x, Analysis.seed? (.blank Bank.size) seeds.slots = some s ∧
      Exploration.Explores bank (.ofSurvey s) seeds.slots x ∧
      bank.analyze? seeds = some (.ofExploration x) := by
  obtain ⟨s, hs⟩ := Analysis.exists_seed? seeds.succ_slot_lt (.blank Bank.size)
  obtain ⟨x, hx, hexp⟩ := Exploration.exists_explores bank seeds.succ_slot_lt (.ofSurvey s)
  refine ⟨s, x, hs, hexp, ?_⟩
  simp only [analyze?, Analysis.explore?, hs, Option.bind_eq_bind, Option.bind_some, hx,
    Option.map_some]

/-- The strands of an exploration run out after finitely many steps, whatever was marked before and
wherever it starts; the bound on steps is never met. So every analysis ends, too. -/
theorem Bank.exploration_terminates (bank : Bank) :
    (∀ (x : Exploration Bank.size) (start : Nat), ∃ k y,
      Exploration.run? bank (x.sent start) k = some y ∧ y.strands = [] ∧
        x.follow? bank start = some y) ∧
    ∀ seeds : Seeds, ∃ s x, Analysis.seed? (.blank Bank.size) seeds.slots = some s ∧
      Exploration.Explores bank (.ofSurvey s) seeds.slots x ∧
      bank.analyze? seeds = some (.ofExploration x) := by
  refine ⟨fun x start => ?_, bank.analyze?_eq_some⟩
  obtain ⟨y, hy, hend⟩ := Exploration.exists_follow? bank x start
  exact ⟨Exploration.stepLimit, y, hy, hend, hy⟩

end BankTrace
