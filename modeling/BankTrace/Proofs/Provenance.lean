import BankTrace.Proofs.Throughout

namespace BankTrace

variable {n : Nat}

namespace Bank

/-- The `k`-th word after the call at `call`, and each before it, is high enough for a jump table. -/
def TableThrough (bank : Bank) (call k : Nat) : Prop :=
  ∀ j ≤ k, ∃ high, bank.byte? (call + 3 + 2 * j + 1) = some high ∧
    Exploration.jumpTableHighByte ≤ high

/-- The offsets that control can reach from the words of the pointer tables, if every word that may
belong to a jump table after a call does. -/
inductive Attains (bank : Bank) (seeds : Seeds) : Nat → Prop
  | slot {slot target : Nat} (mem : slot ∈ seeds.slots)
      (pointee : bank.pointee? slot = some target) : Attains bank seeds target
  | onward {offset : Nat} {op : Opcode} (attained : Attains bank seeds offset)
      (holds : bank.Holds offset op) (goesOn : op.control.goesOn) :
      Attains bank seeds (offset + op.length)
  | transfer {offset target : Nat} {op : Opcode} (attained : Attains bank seeds offset)
      (holds : bank.Holds offset op) (sent : bank.transfer? offset op = some target) :
      Attains bank seeds target
  | word {call k target : Nat} {op : Opcode} (attained : Attains bank seeds call)
      (holds : bank.Holds call op) (calls : op.control = .call) (table : bank.TableThrough call k)
      (pointee : bank.pointee? (call + 3 + 2 * k) = some target) : Attains bank seeds target

def Calls (bank : Bank) (seeds : Seeds) (call : Nat) : Prop :=
  bank.Attains seeds call ∧ ∃ op, bank.Holds call op ∧ op.control = .call

/-- A word at `slot` may belong to a jump table after a call that control can reach. -/
def Tabulates (bank : Bank) (seeds : Seeds) (slot : Nat) : Prop :=
  ∃ call k, bank.Calls seeds call ∧ bank.TableThrough call k ∧ slot = call + 3 + 2 * k

/-- Control is sent to `target`, by a word or by an instruction, rather than falling through to it. -/
inductive Aims (bank : Bank) (seeds : Seeds) (target : Nat) : Prop
  | slot {slot : Nat} (mem : slot ∈ seeds.slots) (pointee : bank.pointee? slot = some target)
  | transfer {offset : Nat} {op : Opcode} (attained : bank.Attains seeds offset)
      (holds : bank.Holds offset op) (sent : bank.transfer? offset op = some target)
  | word {slot : Nat} (table : bank.Tabulates seeds slot) (pointee : bank.pointee? slot = some target)

/-- An instruction that control can reach reads or writes memory of the cartridge at `target`. -/
def Refers (bank : Bank) (seeds : Seeds) (target : Nat) : Prop :=
  ∃ offset op, bank.Attains seeds offset ∧ bank.Holds offset op ∧ op.control = .reference ∧
    bank.isCartridge? (offset + 1) = some true ∧ bank.pointee? (offset + 1) = some target

/-- The byte at `i` belongs to an instruction that control can reach. -/
def Executes (bank : Bank) (seeds : Seeds) (i : Nat) : Prop :=
  ∃ offset op, bank.Attains seeds offset ∧ bank.Holds offset op ∧ offset ≤ i ∧ i < offset + op.length

variable {bank : Bank} {seeds : Seeds} {call k offset target : Nat} {op : Opcode}

theorem Aims.attains (h : bank.Aims seeds target) : bank.Attains seeds target := by
  cases h with
  | slot mem pointee => exact .slot mem pointee
  | transfer attained holds sent => exact .transfer attained holds sent
  | word table pointee =>
    obtain ⟨call, k, ⟨attained, op, holds, calls⟩, through, rfl⟩ := table
    exact .word attained holds calls through pointee

theorem tableThrough_of_isTableWord {s : Survey n} (before : ∀ j < k, bank.TableThrough call j)
    (word : Exploration.isTableWord s bank (call + 3 + 2 * k)) : bank.TableThrough call k := by
  intro j hj
  rcases Nat.lt_or_eq_of_le hj with hlt | rfl
  · exact before j hlt j le_rfl
  · simp only [Exploration.isTableWord, Bool.and_eq_true] at word
    obtain ⟨high, hhigh, hle⟩ := (Option.any_eq_true _ _).1 word.2
    exact ⟨high, hhigh, of_decide_eq_true hle⟩

end Bank

namespace Survey

variable {s t : Survey n} {offset i : Nat}

theorem isLabel_of_label? (h : s.label? offset = some t) (hi : t.isLabel i) :
    s.isLabel i ∨ i = offset := by
  rw [isLabel, mark?_of_label? h] at hi
  split_ifs at hi with heq
  · exact .inr heq
  · exact .inl hi

theorem isLabel_before_close? {start : Nat} (h : s.close? start offset = some t)
    (hi : t.isLabel i) : s.isLabel i ∨ i = start := by
  unfold close? at h
  split at h
  · exact isLabel_of_label? h hi
  · exact .inl (Option.some.inj h ▸ hi)

theorem isLabel_before_annotate? {bank : Bank} {op : Opcode}
    (h : s.annotate? bank offset op = some t) (hi : t.isLabel i) :
    s.isLabel i ∨ op.control = .reference ∧ bank.isCartridge? (offset + 1) = some true ∧
      bank.pointee? (offset + 1) = some i := by
  unfold annotate? at h
  split at h
  · rename_i href
    simp only [refer?, Option.bind_eq_bind, Option.bind_eq_some_iff] at h
    obtain ⟨isCartridge, hcartridge, target, htarget, h⟩ := h
    split at h
    · rename_i hcond
      simp only [Bool.and_eq_true] at hcond
      rcases isLabel_of_label? h hi with hs | rfl
      · exact .inl hs
      · exact .inr ⟨href, hcond.1.1 ▸ hcartridge, htarget⟩
    · exact .inl (Option.some.inj h ▸ hi)
  · exact .inl (Option.some.inj h ▸ hi)

theorem isLabel_of_labelBoundaries (hi : s.labelBoundaries.isLabel i) :
    s.isLabel i ∨ s.labelBoundaries.isBoundary i := by
  rw [(LabelsInto.of_labelBoundaries s).isBoundary_eq]
  exact isLabel_labelBoundaries_iff.1 hi

/-- What control accounts for: every instruction, every byte of code and every label. -/
structure Grounded (bank : Bank) (seeds : Seeds) (s : Survey n) : Prop where
  start : ∀ i, s.isStart i → bank.Attains seeds i
  code : ∀ i, s.isCode i → seeds.Covers i ∨ bank.Executes seeds i ∨
    ∃ slot, bank.Tabulates seeds slot ∧ (i = slot ∨ i = slot + 1)
  label : ∀ i, s.isLabel i → bank.Aims seeds i ∨ bank.Refers seeds i

namespace Grounded

variable {bank : Bank} {seeds : Seeds} {first last : Nat} {op : Opcode}

theorem of_claim? (h : s.Grounded bank seeds) (attained : bank.Attains seeds first)
    (holds : bank.Holds first op) (claimed : s.claim? first op.length = some t) :
    t.Grounded bank seeds where
  start i hi := by
    rcases (isStart_of_claim? claimed i).1 hi with rfl | hold
    · exact attained
    · exact h.start i hold.1
  code i hi := by
    rcases (isCode_of_claim? claimed i).1 hi with hold | hspan
    · exact h.code i hold
    · exact .inr (.inl ⟨first, op, attained, holds, hspan⟩)
  label i hi := h.label i ((isLabel_of_claim? claimed i).1 hi).1

theorem of_release? (h : s.Grounded bank seeds) (released : s.release? first last = some t) :
    t.Grounded bank seeds where
  start i hi := h.start i ((isStart_of_release? released i).1 hi).1
  code i hi := h.code i ((isCode_of_release? released i).1 hi).1
  label i hi := h.label i ((isLabel_of_release? released i).1 hi)

theorem of_point? (h : s.Grounded bank seeds) {slot : Nat} (table : bank.Tabulates seeds slot)
    (hslot : offset = slot ∨ offset = slot + 1) (pointed : s.point? offset = some t) :
    t.Grounded bank seeds where
  start i hi := h.start i ((isStart_of_point? pointed i).1 hi).1
  code i hi := by
    rcases (isCode_of_point? pointed i).1 hi with hold | rfl
    · exact h.code i hold
    · exact .inr (.inr ⟨slot, table, hslot⟩)
  label i hi := h.label i ((isLabel_of_point? pointed i).1 hi).1

theorem of_labelsInto (h : s.Grounded bank seeds) (hl : s.LabelsInto t)
    (label : ∀ i, t.isLabel i → s.isLabel i ∨ bank.Aims seeds i ∨ bank.Refers seeds i) :
    t.Grounded bank seeds where
  start i hi := h.start i (by rwa [hl.isStart_eq] at hi)
  code i hi := h.code i (by rwa [hl.isCode_eq] at hi)
  label i hi := (label i hi).elim (h.label i) id

end Grounded

end Survey

/-- Where a strand is about to decode control can come, and where it is about to claim words there
may be a jump table. -/
def Strand.Grounded (bank : Bank) (seeds : Seeds) (strand : Strand) : Prop :=
  bank.Aims seeds strand.start ∧
    match strand.task with
    | .decode settled afterCall => bank.Attains seeds strand.offset ∧
      (afterCall → ∃ call, bank.Calls seeds call ∧ settled = call + 3)
    | .probe _ => ∃ call k, bank.Calls seeds call ∧ (∀ j < k, bank.TableThrough call j) ∧
      strand.offset = call + 3 + 2 * k
    | .claim _ => bank.Tabulates seeds strand.offset
    | .close => True

structure Course.Grounded (bank : Bank) (seeds : Seeds) (c : Course n) : Prop where
  survey : c.survey.Grounded bank seeds
  strands : ∀ strand ∈ c.strands, strand.Grounded bank seeds

section Strands

variable {bank : Bank} {seeds : Seeds} {start offset settled k : Nat} {afterCall : Bool}
  {op : Opcode}

theorem Strand.grounded_of_mem_entering {s : Survey n} {target : Option Nat} {strand : Strand}
    (h : ∀ i, target = some i → bank.Aims seeds i) (hmem : strand ∈ s.entering target) :
    strand.Grounded bank seeds := by
  obtain ⟨i, hi, rfl⟩ := Survey.eq_fresh_of_mem_entering hmem
  exact ⟨h i hi, (h i hi).attains, nofun⟩

theorem Strand.grounded_undone (hstart : bank.Aims seeds start)
    (hcall : afterCall → ∃ call, bank.Calls seeds call ∧ settled = call + 3) :
    (Strand.undone start settled afterCall k).Grounded bank seeds := by
  unfold Strand.undone
  split
  · rename_i hafter
    obtain ⟨call, hcalls, hsettled⟩ := hcall hafter
    exact ⟨hstart, call, 0, hcalls, nofun, hsettled⟩
  · exact ⟨hstart, trivial⟩

theorem Strand.grounded_taskAfter (hstart : bank.Aims seeds start)
    (attained : bank.Attains seeds offset) (holds : bank.Holds offset op) :
    (⟨start, offset + op.length, op.control.taskAfter (offset + op.length)⟩ : Strand).Grounded bank
      seeds := by
  refine ⟨hstart, ?_⟩
  cases hcontrol : op.control with
  | branch => exact ⟨.onward attained holds (by rw [hcontrol]; rfl), nofun⟩
  | call =>
    have hlength : op.length = 3 := by
      have hregular := Bank.regular_of_opcode? holds.opcode
      rwa [Opcode.Regular, hcontrol] at hregular
    refine ⟨.onward attained holds (by rw [hcontrol]; rfl), fun _ => ?_⟩
    exact ⟨offset, ⟨attained, op, holds, hcontrol⟩, by rw [hlength]⟩
  | _ => trivial

end Strands

theorem Control.goesOn_of_isLinear {control : Control} (h : control.isLinear) : control.goesOn := by
  cases control <;> first | rfl | contradiction

/-- No move adds anything that control does not account for. -/
theorem Move.grounded {bank : Bank} {seeds : Seeds} {c d : Course n} (h : Move bank c d)
    (hc : c.Grounded bank seeds) : d.Grounded bank seeds := by
  obtain ⟨hs, hstrands⟩ := hc
  cases h with
  | arrive stop =>
    rw [List.forall_mem_cons] at hstrands
    exact ⟨hs, List.forall_mem_cons.2 ⟨⟨hstrands.1.1, trivial⟩, hstrands.2⟩⟩
  | undo data refuses released =>
    rw [List.forall_mem_cons] at hstrands
    obtain ⟨⟨hstart, -, hcall⟩, hwaiting⟩ := hstrands
    exact ⟨hs.of_release? released,
      List.forall_mem_cons.2 ⟨Strand.grounded_undone hstart hcall, hwaiting⟩⟩
  | @advance s t u start offset settled afterCall op waiting r p a data holds linear claimed
      annotated =>
    rw [List.forall_mem_cons] at hstrands
    obtain ⟨⟨hstart, attained, hcall⟩, hwaiting⟩ := hstrands
    have hnext := attained.onward holds (Control.goesOn_of_isLinear linear)
    refine ⟨(hs.of_claim? attained holds claimed).of_labelsInto (.of_annotate? annotated)
      fun i hi => ?_, List.forall_mem_cons.2 ⟨⟨hstart, hnext, hcall⟩, hwaiting⟩⟩
    rcases Survey.isLabel_before_annotate? annotated hi with hold | ⟨href, hcartridge, hpointee⟩
    · exact .inl hold
    · exact .inr (.inr ⟨offset, op, attained, holds, href, hcartridge, hpointee⟩)
  | transfer data holds nonlinear claimed =>
    rw [List.forall_mem_cons] at hstrands
    obtain ⟨⟨hstart, attained, -⟩, hwaiting⟩ := hstrands
    refine ⟨hs.of_claim? attained holds claimed, List.forall_mem_append.2 ⟨fun strand hmem => ?_,
      List.forall_mem_cons.2 ⟨Strand.grounded_taskAfter hstart attained holds, hwaiting⟩⟩⟩
    exact Strand.grounded_of_mem_entering (fun i hi => .transfer attained holds hi) hmem
  | probe word pointee =>
    rw [List.forall_mem_cons] at hstrands
    obtain ⟨⟨hstart, call, k, hcalls, before, hoffset⟩, hwaiting⟩ := hstrands
    obtain rfl : _ = call + 3 + 2 * k := hoffset
    -- The words before this one have passed the same test.
    have htable : bank.Tabulates seeds (call + 3 + 2 * k) :=
      ⟨call, k, hcalls, Bank.tableThrough_of_isTableWord before word, rfl⟩
    refine ⟨hs, List.forall_mem_append.2 ⟨fun strand hmem => ?_,
      List.forall_mem_cons.2 ⟨⟨hstart, htable⟩, hwaiting⟩⟩⟩
    refine Strand.grounded_of_mem_entering (fun i hi => ?_) hmem
    exact .word htable (Option.some.inj hi ▸ pointee)
  | tableEnd noWord =>
    rw [List.forall_mem_cons] at hstrands
    exact ⟨hs, List.forall_mem_cons.2 ⟨⟨hstrands.1.1, trivial⟩, hstrands.2⟩⟩
  | claim low high =>
    rw [List.forall_mem_cons] at hstrands
    obtain ⟨⟨hstart, htable⟩, hwaiting⟩ := hstrands
    refine ⟨(hs.of_point? htable (.inl rfl) low).of_point? htable (.inr rfl) high,
      List.forall_mem_cons.2 ⟨⟨hstart, ?_⟩, hwaiting⟩⟩
    obtain ⟨call, k, hcalls, through, hoffset⟩ := htable
    refine ⟨call, k + 1, hcalls, fun j hj i hi => through i (by omega), ?_⟩
    simp only at hoffset ⊢
    omega
  | finish closed =>
    rw [List.forall_mem_cons] at hstrands
    obtain ⟨⟨hstart, -⟩, hwaiting⟩ := hstrands
    refine ⟨hs.of_labelsInto (.of_close? closed) fun i hi => ?_, hwaiting⟩
    rcases Survey.isLabel_before_close? closed hi with hold | rfl
    · exact .inl hold
    · exact .inr (.inl hstart)

theorem Survey.grounded_of_seed? {bank : Bank} {seeds : Seeds} {s : Survey n}
    (h : Analysis.seed? (.blank n) seeds.slots = some s) : s.Grounded bank seeds where
  start i hi := by
    rw [Analysis.isStart_of_seed? h] at hi
    contradiction
  code i hi := by
    rw [isCode, Analysis.mark?_of_seed?_blank h] at hi
    split_ifs at hi with hslot
    · exact .inl ((seeds.covers_iff i).2 hslot)
    · contradiction
    · contradiction
  label i hi := by
    rw [isLabel, Analysis.mark?_of_seed?_blank h] at hi
    split_ifs at hi <;> contradiction

theorem Course.kept_grounded (bank : Bank) (seeds : Seeds) :
    Course.Kept bank seeds (Course.Grounded bank seeds) where
  seeded h := ⟨Survey.grounded_of_seed? h, nofun⟩
  sent hslot hpointee h := ⟨h.survey, fun _ hmem => Strand.grounded_of_mem_entering
    (fun _ hi => .slot hslot (Option.some.inj hi ▸ hpointee)) hmem⟩
  moved _ hmove h := hmove.grounded h

/-- An analysis invents nothing: its instructions are where control can come, its code is made of
instructions there, of pointer tables and of words that may belong to jump tables, and its labels
are what these name or boundaries. -/
theorem Bank.analyze?_grounded (bank : Bank) (seeds : Seeds) :
    ∃ a, bank.analyze? seeds = some a ∧
      (∀ i, a.survey.isStart i → bank.Attains seeds i) ∧
      (∀ i, a.survey.isCode i → seeds.Covers i ∨ bank.Executes seeds i ∨
        ∃ slot, bank.Tabulates seeds slot ∧ (i = slot ∨ i = slot + 1)) ∧
      ∀ i, a.survey.isLabel i →
        bank.Aims seeds i ∨ bank.Refers seeds i ∨ a.survey.isBoundary i := by
  obtain ⟨x, ha, -, hx, -⟩ := (Course.kept_grounded bank seeds).exists_analyze?
  have hl := Survey.LabelsInto.of_labelBoundaries x.survey
  refine ⟨_, ha, fun i hi => hx.start i ((hl.isStart_eq i).symm.trans hi),
    fun i hi => hx.code i ((hl.isCode_eq i).symm.trans hi), fun i hi => ?_⟩
  rcases Survey.isLabel_of_labelBoundaries hi with hold | hboundary
  · exact (hx.label i hold).imp_right .inl
  · exact .inr (.inr hboundary)

end BankTrace
