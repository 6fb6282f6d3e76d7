import BankTrace.Proofs.Classification
import BankTrace.Proofs.Seeding

namespace BankTrace

namespace Analysis

theorem faithful_of_seed? (bank : Bank) {seeds : Seeds} {s : Survey Bank.size}
    (h : seed? (.blank Bank.size) seeds.slots = some s) : s.Faithful bank seeds := by
  refine ⟨?_, ?_, ?_, ?_⟩
  · intro i hi
    rw [Survey.isData, Survey.isCode, mark?_of_seed?_blank h]
    split_ifs <;> simp [Mark.codePointer, Mark.plain]
  · intro i hi
    rw [isStart_of_seed? h] at hi
    contradiction
  · intro i
    simp only [isStart_of_seed? h, Bool.false_eq_true, false_and, exists_false, or_false,
      seeds.covers_iff]
    rw [Survey.isCode, mark?_of_seed?_blank h]
    split_ifs with hin <;> simp [Mark.codePointer, Mark.plain, hin]
  · intro i
    rw [Survey.isPointer, mark?_of_seed?_blank h, seeds.covers_iff]
    split_ifs with hin <;> simp [Mark.codePointer, Mark.plain, hin]

theorem classifies_of_seed? (bank : Bank) {seeds : Seeds} {s : Survey Bank.size}
    (h : seed? (.blank Bank.size) seeds.slots = some s) :
    (Exploration.ofSurvey s).course.Classifies bank seeds fun _ => False := by
  have hunmarked : ∀ i, ¬ (Exploration.ofSurvey s).course.survey.isStart i := by
    intro i hi
    exact absurd ((isStart_of_seed? h i).symm.trans hi) Bool.false_ne_true
  refine ⟨faithful_of_seed? bank h, ?_, ?_, ?_, ?_, rfl, rfl⟩
  · intro strand hmem
    exact absurd hmem List.not_mem_nil
  · intro t ht
    exact ht.elim
  · intro offset op hmarked
    exact absurd hmarked (hunmarked offset)
  · intro offset op target hmarked
    exact absurd hmarked (hunmarked offset)

end Analysis

namespace Course

variable {n : Nat} {c : Course n} {target : Nat}

theorem Due.isStart (h : c.Due target) (hc : c.strands = []) : c.survey.isStart target := by
  rcases h with hstart | ⟨_, _, _, hmem⟩
  · exact hstart
  · exact absurd hmem (hc ▸ List.not_mem_nil)

theorem Named.isLabel (h : c.Named target) (hc : c.strands = []) : c.survey.isLabel target := by
  rcases h with hlabel | ⟨_, hmem, _⟩
  · exact hlabel
  · exact absurd hmem (hc ▸ List.not_mem_nil)

end Course

section WellFormed

variable {bank : Bank} {seeds : Seeds} {sought : Nat → Prop}

theorem Course.Classifies.sent {c : Course Bank.size} (h : c.Classifies bank seeds sought)
    (hc : c.strands = []) (wf : bank.WellFormed seeds) {target : Nat}
    (hr : bank.Reaches seeds target) :
    (⟨c.survey, c.survey.entering target, c.rollbacks, c.recovered, false⟩ :
      Course Bank.size).Classifies bank seeds (fun t => sought t ∨ t = target) := by
  rw [h.faithful.entering_eq wf hr]
  refine ⟨h.faithful, ?_, ?_, ?_, ?_, h.rollbacks, h.recovered⟩
  · intro strand hmem
    rw [List.mem_singleton.1 hmem]
    exact ⟨hr, hr⟩
  · rintro t (ht | rfl)
    · obtain ⟨hrt, hd, hn⟩ := h.sought ht
      exact ⟨hrt, .inl (hd.isStart hc), .inl (hn.isLabel hc)⟩
    · exact ⟨hr, .inr ⟨_, _, _, List.mem_cons_self⟩, .inr ⟨_, List.mem_cons_self, rfl⟩⟩
  · intro offset op hstart hop hgoes
    have hd := h.onward hstart hop hgoes
    exact .inl (hd.isStart hc)
  · intro offset op t hstart hop hsent
    obtain ⟨hd, hn⟩ := h.transfer hstart hop hsent
    exact ⟨.inl (hd.isStart hc), .inl (hn.isLabel hc)⟩

theorem Course.Classifies.imp {c : Course Bank.size} {fewer : Nat → Prop}
    (h : c.Classifies bank seeds sought) (hi : ∀ t, fewer t → sought t) :
    c.Classifies bank seeds fewer :=
  { h with sought := fun ht => h.sought (hi _ ht) }

theorem Exploration.Explores.classifies {x z : Exploration Bank.size} {slots : List Nat}
    (h : Explores bank x slots z) (wf : bank.WellFormed seeds)
    (hslots : ∀ slot ∈ slots, slot ∈ seeds.slots) (hx : x.strands = [])
    (hc : x.course.Classifies bank seeds sought) :
    z.strands = [] ∧ z.course.Classifies bank seeds
      (fun t => sought t ∨ ∃ slot ∈ slots, bank.pointee? slot = some t) := by
  induction h generalizing sought with
  | done x =>
    refine ⟨hx, hc.imp ?_⟩
    rintro t (ht | ⟨_, hmem, -⟩)
    · exact ht
    · exact absurd hmem List.not_mem_nil
  | @next x y z slot word k slots hword hrun ended rest ih =>
    rw [List.forall_mem_cons] at hslots
    have hpointee : bank.pointee? slot = some (Bank.offsetOf word) := by
      rw [Bank.pointee?, hword]
      rfl
    have hr := Bank.Reaches.slot hslots.1 hpointee
    have hy := keeps_of_sent (x := x.report (.seeded slot word))
      (fun hsound hmove => hmove.classifies wf hsound.inside) (hc.sent hx wf hr) hrun
    obtain ⟨hz, hcz⟩ := ih hslots.2 ended hy
    refine ⟨hz, hcz.imp ?_⟩
    rintro t (ht | ⟨other, hmem, ht⟩)
    · exact .inl (.inl ht)
    · rcases List.mem_cons.1 hmem with rfl | hmem
      · exact .inl (.inr (Option.some.inj (ht.symm.trans hpointee)))
      · exact .inr ⟨other, hmem, ht⟩

theorem Course.Classifies.isStart_iff {c : Course Bank.size} (h : c.Classifies bank seeds sought)
    (hc : c.strands = [])
    (hsought : ∀ slot ∈ seeds.slots, ∀ t, bank.pointee? slot = some t → sought t) (i : Nat) :
    c.survey.isStart i ↔ bank.Reaches seeds i := by
  constructor
  · exact h.faithful.reached
  · intro hr
    induction hr with
    | slot mem pointee =>
      obtain ⟨-, hd, -⟩ := h.sought (hsought _ mem _ pointee)
      exact hd.isStart hc
    | onward reached opcode goesOn ih =>
      have hd := h.onward ih opcode goesOn
      exact hd.isStart hc
    | transfer reached opcode sent ih =>
      obtain ⟨hd, -⟩ := h.transfer ih opcode sent
      exact hd.isStart hc

end WellFormed

/-- An analysis that tells the instructions in reach and the bytes of tables from everything else. -/
structure Analysis.Exact (bank : Bank) (seeds : Seeds) (a : Analysis) : Prop where
  starts : ∀ i, a.survey.isStart i ↔ bank.Reaches seeds i
  code : ∀ i, a.survey.isCode i ↔
    seeds.Covers i ∨ ∃ offset, bank.Reaches seeds offset ∧ bank.Spans offset i
  pointers : ∀ i, a.survey.isPointer i ↔ seeds.Covers i
  rollbacks : a.summary.rollbacks = 0
  recovered : a.summary.recovered = 0
  slotLabels : ∀ slot ∈ seeds.slots, ∀ target, bank.pointee? slot = some target →
    a.survey.isLabel target
  transferLabels : ∀ offset, bank.Reaches seeds offset → ∀ op, bank.opcode? offset = some op →
    ∀ target, bank.transfer? offset op = some target → a.survey.isLabel target

/-- An analysis of a well-formed program sees to all that the slots lead to. -/
theorem Bank.WellFormed.exists_analyze? {bank : Bank} {seeds : Seeds} (wf : bank.WellFormed seeds) :
    ∃ x, bank.analyze? seeds = some (.ofExploration x) ∧ x.strands = [] ∧
      x.course.Classifies bank seeds fun t => ∃ slot ∈ seeds.slots, bank.pointee? slot = some t := by
  obtain ⟨s, x, hseed, hexplores, ha⟩ := bank.analyze?_eq_some seeds
  obtain ⟨hend, hx⟩ :=
    hexplores.classifies wf (fun _ => id) rfl (Analysis.classifies_of_seed? bank hseed)
  exact ⟨x, ha, hend, hx.imp fun _ => .inr⟩

/-- The analysis of a well-formed program is exact, in whatever order its branches, calls and loops
are met. -/
theorem Bank.analyze?_exact {bank : Bank} {seeds : Seeds} (wf : bank.WellFormed seeds) :
    ∃ a, bank.analyze? seeds = some a ∧ a.Exact bank seeds := by
  obtain ⟨x, ha, hend, hx⟩ := wf.exists_analyze?
  refine ⟨_, ha, ?_⟩
  have hlab := Survey.LabelsInto.of_labelBoundaries x.survey
  have hmarked := hx.isStart_iff hend fun slot hmem t ht => ⟨slot, hmem, ht⟩
  refine ⟨?_, ?_, ?_, hx.rollbacks, hx.recovered, ?_, ?_⟩
  · intro i
    rw [← hmarked i]
    exact Bool.eq_iff_iff.1 (hlab.isStart_eq i)
  · intro i
    have hcode := hx.faithful.code_iff i
    simp only [hmarked] at hcode
    rw [← hcode]
    exact Bool.eq_iff_iff.1 (hlab.isCode_eq i)
  · intro i
    rw [← hx.faithful.pointer_iff i]
    exact Bool.eq_iff_iff.1 (hlab.isPointer_eq i)
  · intro slot hmem target ht
    obtain ⟨-, -, hn⟩ := hx.sought ⟨slot, hmem, ht⟩
    exact hlab.isLabel target (hn.isLabel hend)
  · intro offset hr op hop target hsent
    obtain ⟨-, hn⟩ := hx.transfer ((hmarked offset).2 hr) hop hsent
    exact hlab.isLabel target (hn.isLabel hend)

/-- A routine at `$2060` that calls the subroutine after it and branches back to its own start. -/
def loopingRoutine : Nat → UInt8
  | 0x2060 => 0x20
  | 0x2061 => 0x66
  | 0x2062 => 0xE0
  | 0x2063 => 0xD0
  | 0x2064 => 0xFB
  | _ => 0x60

def loopingBank : Bank := ⟨Vector.ofFn fun i => loopingRoutine i⟩

theorem byte?_loopingBank {i : Nat} (h : i < Bank.size) :
    loopingBank.byte? i = some (loopingRoutine i) :=
  Bank.byte?_ofFn loopingRoutine h

theorem opcode?_loopingBank {i : Nat} (h : i < Bank.size) :
    loopingBank.opcode? i = some (Opcode.ofByte (loopingRoutine i)) :=
  Bank.opcode?_of_byte? (byte?_loopingBank h)

def loopingStarts : List Nat := [0x2060, 0x2063, 0x2065, 0x2066]

theorem loopingBank_transfer? : ∀ offset ∈ loopingStarts, ∀ target,
    loopingBank.transfer? offset (Opcode.ofByte (loopingRoutine offset)) = some target →
      target ∈ loopingStarts := by
  have hcall : loopingBank.pointee? 0x2061 = some 0x2066 := by
    simp only [Bank.pointee?, Bank.word?, byte?_loopingBank (by decide : 0x2061 < Bank.size),
      byte?_loopingBank (by decide : 0x2061 + 1 < Bank.size)]
    rfl
  have hret : (Opcode.ofByte 0x60).control = .ret := by decide +kernel
  have hbranch : loopingBank.byte? 0x2064 = some 0xFB := byte?_loopingBank (by decide)
  simp only [loopingStarts, List.forall_mem_cons]
  refine ⟨?_, ?_, ?_, ?_, by simp⟩
  · intro target h
    have h : loopingBank.pointee? 0x2061 = some target := h
    rw [← Option.some.inj (hcall.symm.trans h)]
    decide
  · intro target h
    have h : (loopingBank.byte? 0x2064).map (branchOffset 0x2063) = some target := h
    rw [hbranch] at h
    rw [← Option.some.inj h]
    decide
  · intro target h
    have hbyte : loopingRoutine 0x2065 = 0x60 := by decide
    simp only [hbyte, Bank.transfer?, hret, reduceCtorEq] at h
  · intro target h
    have hbyte : loopingRoutine 0x2066 = 0x60 := by decide
    simp only [hbyte, Bank.transfer?, hret, reduceCtorEq] at h

section Tables

variable {seeds : Seeds} (low : ∀ t ∈ seeds.extra, t.offset + 2 * t.count ≤ 0x2060)
include low

theorem loopingBank_pointee? {slot : Nat} (hslot : slot ∈ seeds.slots) :
    loopingBank.pointee? slot = some 0x2060 := by
  have plain : ∀ j, j < 0x2060 ∨ 0x2066 < j → loopingRoutine j = 0x60 := by
    intro j hj
    unfold loopingRoutine
    split
    all_goals first | rfl | omega
  have outside : slot + 1 < 0x2060 ∨ 0x2066 < slot := by
    obtain ⟨t, ht, hslot⟩ := List.mem_flatMap.1 hslot
    obtain ⟨i, hi, rfl⟩ := List.mem_map.1 hslot
    have hi := List.mem_range.1 hi
    rcases List.mem_append.1 ht with ht | ht
    · have hbound := low t ht
      omega
    · obtain rfl := List.mem_singleton.1 ht
      exact .inr (Nat.lt_of_lt_of_le (by decide : 0x2066 < 0x3FFA) (Nat.le_add_right _ _))
  rw [loopingBank, Bank.pointee?_ofFn loopingRoutine (seeds.succ_slot_lt slot hslot),
    plain slot (by omega), plain (slot + 1) (by omega)]
  rfl

theorem loopingBank_reaches {offset : Nat} (h : loopingBank.Reaches seeds offset) :
    offset ∈ loopingStarts := by
  induction h with
  | slot mem pointee =>
    rw [← Option.some.inj ((loopingBank_pointee? low mem).symm.trans pointee)]
    decide
  | @onward offset op reached opcode goesOn ih =>
    have honward : ∀ o ∈ loopingStarts, (Opcode.ofByte (loopingRoutine o)).control.goesOn →
        o + (Opcode.ofByte (loopingRoutine o)).length ∈ loopingStarts := by decide +kernel
    rw [opcode?_loopingBank (Bank.lt_of_opcode? opcode)] at opcode
    obtain rfl := Option.some.inj opcode
    exact honward offset ih goesOn
  | @transfer offset target op reached opcode sent ih =>
    rw [opcode?_loopingBank (Bank.lt_of_opcode? opcode)] at opcode
    obtain rfl := Option.some.inj opcode
    exact loopingBank_transfer? offset ih target sent

theorem loopingBank_wellFormed : loopingBank.WellFormed seeds := by
  have hholds : ∀ o ∈ loopingStarts,
      loopingBank.Holds o (Opcode.ofByte (loopingRoutine o)) ∧
        o + (Opcode.ofByte (loopingRoutine o)).length ≤ 0x2067 := by
    have hlegal : ∀ o ∈ loopingStarts, o < Bank.size ∧
        (Opcode.ofByte (loopingRoutine o)).control ≠ .illegal ∧
        o + (Opcode.ofByte (loopingRoutine o)).length ≤ 0x2067 := by decide +kernel
    intro o ho
    obtain ⟨hlt, hne, hle⟩ := hlegal o ho
    exact ⟨⟨opcode?_loopingBank hlt, hne, hle.trans (by decide)⟩, hle⟩
  have hapart : ∀ a ∈ loopingStarts, ∀ b ∈ loopingStarts, a < b →
      a + (Opcode.ofByte (loopingRoutine a)).length ≤ b := by decide +kernel
  have hfirsts : ∀ o ∈ loopingStarts, 0x2060 ≤ o := by decide
  refine ⟨?_, ?_, ?_⟩
  · intro offset hr
    exact ⟨_, (hholds offset (loopingBank_reaches low hr)).1⟩
  · intro a b i ha hb hia hib
    have ha := loopingBank_reaches low ha
    have hb := loopingBank_reaches low hb
    rw [(hholds a ha).1.spans_iff] at hia
    rw [(hholds b hb).1.spans_iff] at hib
    rcases Nat.lt_trichotomy a b with hlt | heq | hlt
    · have := hapart a ha b hb hlt
      omega
    · exact heq
    · have := hapart b hb a ha hlt
      omega
  · intro offset i hr hspan hcov
    have hle := hholds offset (loopingBank_reaches low hr)
    rw [hle.1.spans_iff] at hspan
    have hfirst : 0x2060 ≤ offset := hfirsts offset (loopingBank_reaches low hr)
    obtain ⟨t, ht, hlo, hhi⟩ := hcov
    rcases List.mem_append.1 ht with ht | ht
    · have hbound := low t ht
      omega
    · obtain rfl := List.mem_singleton.1 ht
      have hvectors : 0x3FFA ≤ i := hlo
      omega

end Tables

/-- The routine is found, and nothing else. -/
theorem analyze?_loopingBank : loopingBank.WellFormed .empty ∧
    ∃ a, loopingBank.analyze? .empty = some a ∧ a.Exact loopingBank .empty :=
  ⟨loopingBank_wellFormed nofun, Bank.analyze?_exact (loopingBank_wellFormed nofun)⟩

end BankTrace
