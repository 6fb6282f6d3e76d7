import BankTrace.Proofs.JumpTables

namespace BankTrace

variable {n : Nat}

def Event.recovers? : Event → Option Nat
  | jumpTableWord slot _ => some slot
  | _ => none

def Exploration.recoveredSlots (x : Exploration n) : List Nat :=
  x.journal.toList.filterMap Event.recovers?

/-- The words that have been claimed for jump tables, in the order of the journal. -/
def Analysis.recoveredSlots (a : Analysis) : List Nat := a.journal.toList.filterMap Event.recovers?

namespace Exploration

variable {bank : Bank} {x y : Exploration n}

@[simp] theorem recoveredSlots_report (x : Exploration n) (e : Event) :
    (x.report e).recoveredSlots = x.recoveredSlots ++ e.recovers?.toList := by
  cases he : e.recovers? <;> simp [recoveredSlots, report, he]

@[simp] theorem recoveredSlots_change? {f : Survey n → Option (Survey n)}
    (h : x.change? f = some y) : y.recoveredSlots = x.recoveredSlots := by
  obtain ⟨s, -, rfl⟩ := Option.map_eq_some_iff.1 h
  rfl

@[simp] theorem recoveredSlots_visit (x : Exploration n) (target : Nat) :
    (x.visit target).recoveredSlots = x.recoveredSlots := by
  unfold visit
  split
  · rw [recoveredSlots_report]
    exact List.append_nil _
  · rfl

theorem recoveredSlots_refer? {operand : Nat} (h : x.refer? bank operand = some y) :
    y.recoveredSlots = x.recoveredSlots := by
  simp only [refer?, Option.bind_eq_bind, Option.bind_eq_some_iff] at h
  obtain ⟨_, -, _, -, h⟩ := h
  split at h
  · exact recoveredSlots_change? h
  · rw [Option.some.inj h]

section Tasks

variable {start offset settled k : Nat} {afterCall : Bool} {op : Opcode} {waiting : List Strand}

theorem recoveredSlots_undo? (h : x.undo? bank start offset settled afterCall k waiting = some y) :
    y.recoveredSlots = x.recoveredSlots := by
  simp only [undo?, Option.bind_eq_bind, Option.bind_eq_some_iff] at h
  obtain ⟨byte, -, z, hz, h⟩ := h
  rw [← Option.some.inj h]
  exact (recoveredSlots_change? hz).trans ((recoveredSlots_report _ _).trans (List.append_nil _))

theorem recoveredSlots_proceed?
    (h : x.proceed? bank start offset settled afterCall op waiting = some y) :
    y.recoveredSlots = x.recoveredSlots := by
  cases hcontrol : op.control with
  | next | ret =>
    simp only [proceed?, hcontrol] at h
    rw [← Option.some.inj h]
    rfl
  | reference =>
    simp only [proceed?, hcontrol] at h
    split at h
    · obtain ⟨z, hz, h⟩ := Option.bind_eq_some_iff.1 h
      rw [← Option.some.inj h, ← recoveredSlots_refer? hz]
      rfl
    · rw [← Option.some.inj h]
      rfl
  | branch | jump | call =>
    simp only [proceed?, hcontrol, Option.bind_eq_bind, Option.bind_eq_some_iff] at h
    obtain ⟨_, -, h⟩ := h
    rw [← Option.some.inj h]
    exact recoveredSlots_visit _ _
  | jumpIndirect =>
    simp only [proceed?, hcontrol, Option.bind_eq_bind, Option.bind_eq_some_iff] at h
    obtain ⟨_, -, _, -, h⟩ := h
    split at h
    · obtain ⟨_, -, h⟩ := Option.bind_eq_some_iff.1 h
      rw [← Option.some.inj h]
      exact recoveredSlots_visit _ _
    · rw [← Option.some.inj h]
      rfl
  | illegal =>
    simp only [proceed?, hcontrol] at h
    exact recoveredSlots_undo? h

theorem recoveredSlots_decode? (h : x.decode? bank start offset settled afterCall waiting = some y) :
    y.recoveredSlots = x.recoveredSlots := by
  simp only [decode?, Option.bind_eq_bind, Option.bind_eq_some_iff] at h
  obtain ⟨byte, -, h⟩ := h
  split at h
  · exact recoveredSlots_undo? h
  · obtain ⟨z, hz, h⟩ := Option.bind_eq_some_iff.1 h
    rw [recoveredSlots_proceed? h, recoveredSlots_report, recoveredSlots_change? hz]
    exact List.append_nil _

theorem recoveredSlots_probe? (h : x.probe? bank start offset k waiting = some y) :
    y.recoveredSlots = x.recoveredSlots := by
  unfold probe? at h
  split at h
  · obtain ⟨target, -, h⟩ := Option.bind_eq_some_iff.1 h
    rw [← Option.some.inj h]
    exact recoveredSlots_visit _ _
  · rw [← Option.some.inj h]
    rfl

theorem recoveredSlots_claimWord? (h : x.claimWord? bank start offset k waiting = some y) :
    y.recoveredSlots = x.recoveredSlots ++ [offset] := by
  simp only [claimWord?, Option.bind_eq_bind, Option.bind_eq_some_iff] at h
  obtain ⟨word, -, z, hz, w, hw, h⟩ := h
  rw [← Option.some.inj h]
  have hreport := recoveredSlots_report x (.jumpTableWord offset word)
  exact (recoveredSlots_change? hw).trans ((recoveredSlots_change? hz).trans hreport)

theorem recoveredSlots_close? (h : x.close? start offset waiting = some y) :
    y.recoveredSlots = x.recoveredSlots := by
  simp only [close?] at h
  split at h
  · obtain ⟨z, hz, h⟩ := Option.bind_eq_some_iff.1 h
    rw [← Option.some.inj h, ← recoveredSlots_change? hz]
    rfl
  · rw [← Option.some.inj h]
    rfl

end Tasks

/-- A step adds the word that it claims to those recovered, if it claims one. -/
theorem recoveredSlots_of_step? (h : step? bank x = some y) :
    y.recoveredSlots = x.recoveredSlots ++ x.course.claiming?.toList := by
  cases hs : x.strands with
  | nil =>
    simp only [step?, hs] at h
    rw [← Option.some.inj h, Course.claiming?, course, hs]
    exact (List.append_nil _).symm
  | cons strand waiting =>
    obtain ⟨start, offset, task⟩ := strand
    simp only [step?, hs] at h
    rw [Course.claiming?, course, hs]
    cases task with
    | decode settled afterCall =>
      simp only at h
      split at h
      · exact (recoveredSlots_decode? h).trans (List.append_nil _).symm
      · rw [← Option.some.inj h]
        exact (List.append_nil _).symm
    | probe k => exact (recoveredSlots_probe? h).trans (List.append_nil _).symm
    | claim k => exact recoveredSlots_claimWord? h
    | close => exact (recoveredSlots_close? h).trans (List.append_nil _).symm

end Exploration

theorem Analysis.recoveredSlots_ofExploration (x : Exploration Bank.size) :
    (ofExploration x).recoveredSlots = x.recoveredSlots := by
  simp [recoveredSlots, Exploration.recoveredSlots, ofExploration, Event.recovers?]

/-- `P` holds of the marks and strands, together with the words recovered so far, when the tables are
seeded; each new exploration takes it over and every move keeps it. -/
structure Course.KeptWith (bank : Bank) (seeds : Seeds) (P : Course Bank.size → List Nat → Prop) :
    Prop where
  seeded : ∀ {s}, Analysis.seed? (.blank Bank.size) seeds.slots = some s → P ⟨s, [], 0, 0, false⟩ []
  sent : ∀ {s r p a words slot target}, slot ∈ seeds.slots → bank.pointee? slot = some target →
    P ⟨s, [], r, p, a⟩ words → P ⟨s, s.entering target, r, p, false⟩ words
  moved : ∀ {c d words}, c.Sound bank → Move bank c d → P c words → P d (words ++ c.claiming?.toList)

/-- What is kept together with the words recovered holds when all slots have been explored. -/
theorem Course.KeptWith.exists_analyze? {bank : Bank} {seeds : Seeds}
    {P : Course Bank.size → List Nat → Prop} (h : KeptWith bank seeds P) :
    ∃ x, bank.analyze? seeds = some (.ofExploration x) ∧ x.strands = [] ∧
      P x.course (Analysis.ofExploration x).recoveredSlots := by
  obtain ⟨s, x, hseed, hexp, ha⟩ := bank.analyze?_eq_some seeds
  have hend := hexp.keeps (P := fun x => P x.course x.recoveredSlots)
    (fun {x y slot word k} hslot hword hrest hP hrun => ?_) rfl (h.seeded hseed)
  · exact ⟨x, ha, hend.1, (Analysis.recoveredSlots_ofExploration x).symm ▸ hend.2⟩
  · have hsent : P ((x.report (.seeded slot word)).sent (Bank.offsetOf word)).course
        ((x.report (.seeded slot word)).sent (Bank.offsetOf word)).recoveredSlots := by
      have hcourse : x.course = ⟨x.survey, [], x.rollbacks, x.recovered, x.advanced⟩ := by
        rw [Exploration.course, hrest]
      rw [hcourse] at hP
      have hslots : ((x.report (.seeded slot word)).sent (Bank.offsetOf word)).recoveredSlots =
          x.recoveredSlots :=
        (Exploration.recoveredSlots_visit _ _).trans
          ((Exploration.recoveredSlots_report _ _).trans (List.append_nil _))
      rw [Exploration.course_sent, hslots]
      exact h.sent hslot (by rw [Bank.pointee?, hword]; rfl) hP
    refine Exploration.keeps_of_steps (P := fun x => P x.course x.recoveredSlots)
      (fun hsound hne hstep hP => ?_) (Exploration.sound_sent bank _ _) hsent hrun
    rw [Exploration.recoveredSlots_of_step? hstep]
    exact h.moved hsound (Exploration.move_of_step? hsound.inside hne hstep) hP

end BankTrace
