import BankTrace.Proofs.Seeding
import BankTrace.Proofs.Termination

namespace BankTrace

/-- `P` holds of the marks of an analysis after every step of the exploration from every slot, and of
the marks that it returns; no step is without a result. -/
def Analysis.Throughout (bank : Bank) (seeds : Seeds) (P : Survey Bank.size → Prop) : Prop :=
  (∀ before slot after, seeds.slots = before ++ slot :: after → ∃ s x word,
    seed? (.blank Bank.size) seeds.slots = some s ∧
    before.foldlM (followSlot? bank) (.ofSurvey s) = some x ∧ bank.word? slot = some word ∧
    ∀ k, ∃ y, Exploration.run? bank ((x.report (.seeded slot word)).sent (Bank.offsetOf word)) k =
      some y ∧ P y.survey) ∧
  ∃ a, bank.analyze? seeds = some a ∧ P a.survey

/-- The seeding establishes `P`, each new exploration takes it over and every move keeps it. -/
structure Course.Kept (bank : Bank) (seeds : Seeds) (P : Course Bank.size → Prop) : Prop where
  seeded : ∀ {s}, Analysis.seed? (.blank Bank.size) seeds.slots = some s → P ⟨s, [], 0, 0, false⟩
  sent : ∀ {s r p a slot target}, slot ∈ seeds.slots → bank.pointee? slot = some target →
    P ⟨s, [], r, p, a⟩ → P ⟨s, s.entering target, r, p, false⟩
  moved : ∀ {c d}, c.Sound bank → Move bank c d → P c → P d

namespace Exploration

theorem exists_run? {bank : Bank} {x : Exploration Bank.size} (hx : x.course.Sound bank) (k : Nat) :
    ∃ y, run? bank x k = some y := by
  induction k generalizing x with
  | zero => exact ⟨x, rfl⟩
  | succ k ih =>
    by_cases hne : x.strands = []
    · exact ⟨x, run?_of_isEmpty bank hne _⟩
    · obtain ⟨y, hstep, hm⟩ := exists_move bank hx.inside hne
      rw [run?_succ hne hstep]
      exact ih (hm.sound hx)

theorem Explores.keeps {bank : Bank} {P : Exploration Bank.size → Prop} {slots : List Nat}
    {x z : Exploration Bank.size} (h : Explores bank x slots z)
    (hnext : ∀ {x y : Exploration Bank.size} {slot word k : Nat}, slot ∈ slots →
      bank.word? slot = some word → x.strands = [] → P x →
      run? bank ((x.report (.seeded slot word)).sent (Bank.offsetOf word)) k = some y → P y)
    (hx : x.strands = []) (hP : P x) : z.strands = [] ∧ P z := by
  induction h with
  | done x => exact ⟨hx, hP⟩
  | next hword hrun ended rest ih =>
    exact ih (fun hslot => hnext (List.mem_cons_of_mem _ hslot)) ended
      (hnext List.mem_cons_self hword hx hP hrun)

end Exploration

namespace Course.Kept

variable {bank : Bank} {seeds : Seeds} {P : Course Bank.size → Prop} (h : Kept bank seeds P)
include h

theorem of_sent {x : Exploration Bank.size} {slot word : Nat} (hslot : slot ∈ seeds.slots)
    (hword : bank.word? slot = some word) (hx : x.strands = []) (hP : P x.course) :
    P ((x.report (.seeded slot word)).sent (Bank.offsetOf word)).course := by
  rw [Exploration.course_sent]
  have hcourse : x.course = ⟨x.survey, [], x.rollbacks, x.recovered, x.advanced⟩ := by
    rw [Exploration.course, hx]
  rw [hcourse] at hP
  exact h.sent hslot (by rw [Bank.pointee?, hword]; rfl) hP

theorem of_explores {x z : Exploration Bank.size} {slots : List Nat}
    (hexp : Exploration.Explores bank x slots z) (hslots : ∀ slot ∈ slots, slot ∈ seeds.slots)
    (hx : x.strands = []) (hP : P x.course) : z.strands = [] ∧ P z.course := by
  refine hexp.keeps (P := fun x => P x.course) (fun hslot hword hrest hP hrun => ?_) hx hP
  have hsent := h.of_sent (hslots _ hslot) hword hrest hP
  exact Exploration.keeps_of_run? h.moved (Exploration.sound_sent bank _ _) hsent hrun

theorem exists_analyze? : ∃ x, bank.analyze? seeds = some (.ofExploration x) ∧ x.strands = [] ∧
    P x.course := by
  obtain ⟨s, x, hseed, hexp, ha⟩ := bank.analyze?_eq_some seeds
  exact ⟨x, ha, h.of_explores hexp (fun _ => id) rfl (h.seeded hseed)⟩

theorem exists_sent {before after : List Nat} {slot : Nat}
    (hslots : seeds.slots = before ++ slot :: after) : ∃ s x word,
      Analysis.seed? (.blank Bank.size) seeds.slots = some s ∧
      before.foldlM (Analysis.followSlot? bank) (.ofSurvey s) = some x ∧
      bank.word? slot = some word ∧
      P ((x.report (.seeded slot word)).sent (Bank.offsetOf word)).course := by
  have hin := seeds.succ_slot_lt
  have hmem : ∀ slot' ∈ before ++ slot :: after, slot' ∈ seeds.slots := hslots ▸ fun _ => id
  obtain ⟨s, hs⟩ := Analysis.exists_seed? hin (.blank Bank.size)
  have hbefore : ∀ slot' ∈ before, slot' ∈ seeds.slots := fun slot' hslot' =>
    hmem slot' (List.mem_append_left _ hslot')
  have hslot : slot ∈ seeds.slots := hmem slot (List.mem_append_right _ List.mem_cons_self)
  obtain ⟨x, hx, hexp⟩ := Exploration.exists_explores bank
    (fun slot' hslot' => hin slot' (hbefore slot' hslot')) (.ofSurvey s)
  obtain ⟨hrest, hP⟩ := h.of_explores hexp hbefore rfl (h.seeded hs)
  obtain ⟨word, hword⟩ := Bank.word?_eq_some bank (hin slot hslot)
  exact ⟨s, x, word, hs, hx, hword, h.of_sent hslot hword hrest hP⟩

/-- What is kept holds throughout, and at the end too if it allows for the labels of boundaries. -/
theorem throughout {Q : Survey Bank.size → Prop} (hQ : ∀ {c}, P c → Q c.survey)
    (hlabel : ∀ {c}, P c → Q c.survey.labelBoundaries) : Analysis.Throughout bank seeds Q := by
  constructor
  · intro before slot after hslots
    obtain ⟨s, x, word, hs, hx, hword, hP⟩ := h.exists_sent hslots
    refine ⟨s, x, word, hs, hx, hword, fun k => ?_⟩
    have hsound := Exploration.sound_sent bank (x.report (.seeded slot word)) (Bank.offsetOf word)
    obtain ⟨y, hy⟩ := Exploration.exists_run? hsound k
    exact ⟨y, hy, hQ (Exploration.keeps_of_run? h.moved hsound hP hy)⟩
  · obtain ⟨x, ha, -, hP⟩ := h.exists_analyze?
    have hfinal := hlabel hP
    exact ⟨_, ha, hfinal⟩

end Course.Kept

end BankTrace
