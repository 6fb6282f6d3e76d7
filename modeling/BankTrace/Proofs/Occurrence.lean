import BankTrace.Proofs.Determinacy
import BankTrace.Proofs.Recovery

namespace BankTrace

variable {n : Nat} {bank : Bank}

theorem Exploration.Explores.concat {x y z : Exploration n} {slots : List Nat} {slot word k : Nat}
    (h : Explores bank x slots y) (hword : bank.word? slot = some word)
    (hrun : run? bank ((y.report (.seeded slot word)).sent (Bank.offsetOf word)) k = some z)
    (ended : z.strands = []) : Explores bank x (slots ++ [slot]) z := by
  induction h with
  | done x => exact .next hword hrun ended (.done z)
  | next hword' hrun' ended' _ ih => exact .next hword' hrun' ended' (ih hrun)

/-- At some step of the exploration from some slot, `E` holds of the exploration before the step and
after it. -/
def Analysis.Meets (bank : Bank) (seeds : Seeds)
    (E : Exploration Bank.size → Exploration Bank.size → Prop) : Prop :=
  ∃ before slot after s x word k y z,
    seeds.slots = before ++ slot :: after ∧ seed? (.blank Bank.size) seeds.slots = some s ∧
    Exploration.Explores bank (.ofSurvey s) before x ∧ bank.word? slot = some word ∧
    Exploration.run? bank ((x.report (.seeded slot word)).sent (Bank.offsetOf word)) k = some y ∧
    Exploration.run? bank ((x.report (.seeded slot word)).sent (Bank.offsetOf word)) (k + 1) = some z ∧
    E y z

/-- The words visited are those of `slots`, and those that have been recovered. -/
def Exploration.Visits (x : Exploration n) (slots words : List Nat) : Prop :=
  ∀ word, word ∈ words ↔ word ∈ slots ∨ word ∈ x.recoveredSlots

/-- The seeding establishes `P` with no word visited, each new exploration takes it over, and every move
keeps it with which `E` does not happen. -/
structure Course.KeptUnless (bank : Bank) (seeds : Seeds)
    (E : Course Bank.size → Course Bank.size → Prop) (P : Course Bank.size → List Nat → Prop) :
    Prop where
  seeded : ∀ {s}, Analysis.seed? (.blank Bank.size) seeds.slots = some s → P ⟨s, [], 0, 0, false⟩ []
  sent : ∀ {s r p a words slot target}, slot ∈ seeds.slots → bank.pointee? slot = some target →
    P ⟨s, [], r, p, a⟩ words → P ⟨s, s.entering target, r, p, false⟩ (words ++ [slot])
  moved : ∀ {c d words}, c.Sound bank → Move bank c d → ¬ E c d → P c words →
    P d (words ++ c.claiming?.toList)

/-- What every step keeps with which `E` does not happen, is kept by a run in which it does not. -/
theorem Exploration.keeps_of_run?_unless {E : Course Bank.size → Course Bank.size → Prop}
    {P : Course Bank.size → List Nat → Prop}
    (hmove : ∀ {c d words}, c.Sound bank → Move bank c d → ¬ E c d → P c words →
      P d (words ++ c.claiming?.toList))
    {x y : Exploration Bank.size} {k : Nat} {slots : List Nat} (hx : x.course.Sound bank)
    (never : ∀ j y z, run? bank x j = some y → run? bank x (j + 1) = some z → ¬ E y.course z.course)
    (hP : ∃ words, x.Visits slots words ∧ P x.course words) (h : run? bank x k = some y) :
    ∃ words, y.Visits slots words ∧ P y.course words := by
  induction k generalizing y with
  | zero => rwa [← Option.some.inj h]
  | succ k ih =>
    obtain ⟨w, hw, ⟨-, rfl⟩ | ⟨hne, hstep⟩⟩ := step_of_run?_succ hx h
    · exact ih hw
    · obtain ⟨words, hvisits, hP⟩ := ih hw
      have hsound := sound_of_run? hx hw
      refine ⟨_, fun word => ?_, hmove hsound (move_of_step? hsound.inside hne hstep)
        (never k w y hw h) hP⟩
      rw [recoveredSlots_of_step? hstep, List.mem_append, List.mem_append, hvisits, or_assoc]

theorem Exploration.Visits.sent {x : Exploration n} {slots words : List Nat} (h : x.Visits slots words)
    (slot word : Nat) : ((x.report (.seeded slot word)).sent (Bank.offsetOf word)).Visits
      (slots ++ [slot]) (words ++ [slot]) := by
  have hrecovered : ((x.report (.seeded slot word)).sent (Bank.offsetOf word)).recoveredSlots =
      x.recoveredSlots :=
    (recoveredSlots_visit _ _).trans ((recoveredSlots_report _ _).trans (List.append_nil _))
  intro w
  rw [hrecovered, List.mem_append, List.mem_append, h, or_right_comm]

namespace Course.KeptUnless

variable {seeds : Seeds} {E : Course Bank.size → Course Bank.size → Prop}
  {P : Course Bank.size → List Nat → Prop} (h : KeptUnless bank seeds E P)
include h

theorem of_explores (never : ¬ Analysis.Meets bank seeds fun y z => E y.course z.course)
    {s : Survey Bank.size} {x z : Exploration Bank.size} {before slots : List Nat}
    (hseed : Analysis.seed? (.blank Bank.size) seeds.slots = some s)
    (hslots : seeds.slots = before ++ slots)
    (hbefore : Exploration.Explores bank (.ofSurvey s) before x)
    (hexp : Exploration.Explores bank x slots z) (hx : x.strands = [])
    (hP : ∃ words, x.Visits before words ∧ P x.course words) :
    z.strands = [] ∧ ∃ words, z.Visits seeds.slots words ∧ P z.course words := by
  induction hexp generalizing before with
  | done x =>
    rw [List.append_nil] at hslots
    rw [hslots]
    exact ⟨hx, hP⟩
  | @next x y z slot word k slots hword hrun ended rest ih =>
    obtain ⟨words, hvisits, hP⟩ := hP
    have hslot : slot ∈ seeds.slots := by
      rw [hslots]
      exact List.mem_append_right _ List.mem_cons_self
    have hsent : P ((x.report (.seeded slot word)).sent (Bank.offsetOf word)).course
        (words ++ [slot]) := by
      have hcourse : x.course = ⟨x.survey, [], x.rollbacks, x.recovered, x.advanced⟩ := by
        rw [Exploration.course, hx]
      rw [hcourse] at hP
      rw [Exploration.course_sent]
      exact h.sent hslot (by rw [Bank.pointee?, hword]; rfl) hP
    have hy : ∃ words, y.Visits (before ++ [slot]) words ∧ P y.course words := by
      refine Exploration.keeps_of_run?_unless h.moved (Exploration.sound_sent bank _ _)
        (fun j v w hv hw hE => never ?_) ⟨_, hvisits.sent slot word, hsent⟩ hrun
      exact ⟨before, slot, slots, s, x, word, j, v, w, hslots, hseed, hbefore, hword, hv, hw, hE⟩
    exact ih (by rw [hslots, List.append_assoc]; rfl) (hbefore.concat hword hrun ended) ended hy

/-- What is kept holds when all slots have been explored and all words visited, or the event has
happened. -/
theorem exists_analyze? : ∃ x, bank.analyze? seeds = some (.ofExploration x) ∧ x.strands = [] ∧
    ((∃ words, (∀ word, word ∈ words ↔
        word ∈ seeds.slots ∨ word ∈ (Analysis.ofExploration x).recoveredSlots) ∧ P x.course words) ∨
      Analysis.Meets bank seeds fun y z => E y.course z.course) := by
  obtain ⟨s, x, hseed, hexp, ha⟩ := bank.analyze?_eq_some seeds
  by_cases hmeets : Analysis.Meets bank seeds fun y z => E y.course z.course
  · obtain ⟨hend, -⟩ := hexp.keeps (P := fun _ => True) (fun _ _ _ _ _ => trivial) rfl trivial
    exact ⟨x, ha, hend, .inr hmeets⟩
  · obtain ⟨hend, words, hvisits, hP⟩ := h.of_explores hmeets hseed rfl (.done _) hexp rfl
      ⟨[], fun word => ⟨nofun, fun hword => hword.elim nofun nofun⟩, h.seeded hseed⟩
    exact ⟨x, ha, hend, .inl ⟨words, (Analysis.recoveredSlots_ofExploration x).symm ▸ hvisits, hP⟩⟩

end Course.KeptUnless

end BankTrace
