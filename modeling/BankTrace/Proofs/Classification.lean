import BankTrace.Proofs.Termination
import BankTrace.Proofs.WellFormed

namespace BankTrace

variable {n : Nat}

/-- `t` has the marks of `s` and more, but none that does not belong there. -/
structure Survey.Grows (bank : Bank) (seeds : Seeds) (s t : Survey Bank.size) : Prop where
  faithful : t.Faithful bank seeds
  isStart : ∀ {i}, s.isStart i → t.isStart i
  isCode : ∀ {i}, s.isCode i → t.isCode i
  isLabel : ∀ {i}, bank.Reaches seeds i → s.isLabel i → t.isLabel i

namespace Survey.Grows

variable {bank : Bank} {seeds : Seeds} {s t u : Survey Bank.size} {offset : Nat} {op : Opcode}

theorem refl (h : s.Faithful bank seeds) : s.Grows bank seeds s := ⟨h, id, id, fun _ => id⟩

theorem trans (h : s.Grows bank seeds t) (h' : t.Grows bank seeds u) : s.Grows bank seeds u :=
  ⟨h'.faithful, fun hs => h'.isStart (h.isStart hs), fun hc => h'.isCode (h.isCode hc),
    fun hr hl => h'.isLabel hr (h.isLabel hr hl)⟩

theorem of_labelsInto (h : s.Faithful bank seeds) (hl : s.LabelsInto t) : s.Grows bank seeds t where
  faithful := h.of_labelsInto hl
  isStart hs := by rwa [hl.isStart_eq]
  isCode hc := by rwa [hl.isCode_eq]
  isLabel _ h := hl.isLabel _ h

theorem of_claim? (h : s.Faithful bank seeds) (wf : bank.WellFormed seeds)
    (hr : bank.Reaches seeds offset) (holds : bank.Holds offset op)
    (claimed : s.claim? offset op.length = some t) : s.Grows bank seeds t where
  faithful := h.of_claim? wf hr holds claimed
  isStart hs := h.isStart_of_claim? wf hr holds claimed hs
  isCode hc := (isCode_of_claim? claimed _).2 (.inl hc)
  isLabel hi hl := wf.isLabel_of_claim? hr holds claimed hi hl

end Survey.Grows

/-- A strand of a well-formed program. It never looks for a jump table, and ends with a label. -/
def Strand.OnCode (bank : Bank) (seeds : Seeds) (s : Survey Bank.size) (strand : Strand) : Prop :=
  bank.Reaches seeds strand.start ∧
    match strand.task with
    | .decode _ _ => bank.Reaches seeds strand.offset
    | .close => strand.offset = strand.start → s.isCode strand.start
    | _ => False

theorem Strand.OnCode.grows {bank : Bank} {seeds : Seeds} {s t : Survey Bank.size} {strand : Strand}
    (h : strand.OnCode bank seeds s) (hg : s.Grows bank seeds t) : strand.OnCode bank seeds t := by
  obtain ⟨start, offset, task⟩ := strand
  refine ⟨h.1, ?_⟩
  cases task with
  | close => exact fun he => hg.isCode (h.2 he)
  | _ => exact h.2

theorem Control.taskAfter_of_goesOn {c : Control} {next : Nat} (nonlinear : c.isLinear = false)
    (goesOn : c.goesOn) : c.taskAfter next = .decode next (c == .call) := by
  cases c <;> simp_all [isLinear, Control.goesOn, taskAfter]

theorem Strand.onCode_taskAfter {bank : Bank} {seeds : Seeds} {start offset : Nat} {op : Opcode}
    (hstart : bank.Reaches seeds start) (hoffset : bank.Reaches seeds offset)
    (holds : bank.Holds offset op) (hle : start ≤ offset) (s : Survey Bank.size) :
    (⟨start, offset + op.length, op.control.taskAfter (offset + op.length)⟩ : Strand).OnCode
      bank seeds s := by
  have hpos := holds.length_pos
  refine ⟨hstart, ?_⟩
  cases hctl : op.control with
  | branch => exact hoffset.onward holds.opcode (by rw [hctl]; rfl)
  | call => exact hoffset.onward holds.opcode (by rw [hctl]; rfl)
  | _ => exact fun (he : offset + op.length = start) => absurd he (by omega)

namespace Course

/-- The instruction at `target` is marked, or a strand is about to decode it. -/
def Due (c : Course n) (target : Nat) : Prop :=
  c.survey.isStart target ∨
    ∃ start settled afterCall, ⟨start, target, .decode settled afterCall⟩ ∈ c.strands

/-- The byte at `target` has a label, or a strand that began there will give it one. -/
def Named (c : Course n) (target : Nat) : Prop :=
  c.survey.isLabel target ∨ ∃ strand ∈ c.strands, strand.start = target

/-- The exploration of a well-formed program, when it has been sent to all that is `sought`. -/
structure Classifies (bank : Bank) (seeds : Seeds) (sought : Nat → Prop) (c : Course Bank.size) :
    Prop where
  faithful : c.survey.Faithful bank seeds
  onCode : ∀ strand ∈ c.strands, strand.OnCode bank seeds c.survey
  sought : ∀ {target}, sought target → bank.Reaches seeds target ∧ c.Due target ∧ c.Named target
  onward : ∀ {offset op}, c.survey.isStart offset → bank.opcode? offset = some op →
    op.control.goesOn → c.Due (offset + op.length)
  transfer : ∀ {offset op target}, c.survey.isStart offset → bank.opcode? offset = some op →
    bank.transfer? offset op = some target → c.Due target ∧ c.Named target
  rollbacks : c.rollbacks = 0
  recovered : c.recovered = 0

variable {bank : Bank} {seeds : Seeds} {c d : Course Bank.size} {strand : Strand}
  {waiting : List Strand} {target : Nat}

theorem Due.of_cons (h : c.Due target) (hg : c.survey.Grows bank seeds d.survey)
    (hs : c.strands = strand :: waiting) (hw : waiting ⊆ d.strands)
    (hhead : ∀ start settled afterCall, strand = ⟨start, target, .decode settled afterCall⟩ →
      d.Due target) : d.Due target := by
  rcases h with hstart | ⟨start, settled, afterCall, hmem⟩
  · exact .inl (hg.isStart hstart)
  · rw [hs] at hmem
    rcases List.mem_cons.1 hmem with heq | hmem
    · exact hhead start settled afterCall heq.symm
    · exact .inr ⟨start, settled, afterCall, hw hmem⟩

theorem Named.of_cons (h : c.Named target) (hr : bank.Reaches seeds target)
    (hg : c.survey.Grows bank seeds d.survey) (hs : c.strands = strand :: waiting)
    (hw : waiting ⊆ d.strands) (hhead : strand.start = target → d.Named target) :
    d.Named target := by
  rcases h with hlabel | ⟨other, hmem, hstart⟩
  · exact .inl (hg.isLabel hr hlabel)
  · rw [hs] at hmem
    rcases List.mem_cons.1 hmem with rfl | hmem
    · exact hhead hstart
    · exact .inr ⟨other, hw hmem, hstart⟩

/-- One step of the current strand, if it sees to what it had to do and to what it has marked. -/
theorem Classifies.step {sought : Nat → Prop} (h : c.Classifies bank seeds sought)
    (hg : c.survey.Grows bank seeds d.survey) (hs : c.strands = strand :: waiting)
    (hw : waiting ⊆ d.strands)
    (honCode : ∀ other ∈ d.strands, other ∈ waiting ∨ other.OnCode bank seeds d.survey)
    (hdue : ∀ start target settled afterCall,
      strand = ⟨start, target, .decode settled afterCall⟩ → d.Due target)
    (hnamed : d.Named strand.start)
    (hmarked : ∀ offset op, d.survey.isStart offset → bank.opcode? offset = some op →
      c.survey.isStart offset ∨ (op.control.goesOn → d.Due (offset + op.length)) ∧
        ∀ target, bank.transfer? offset op = some target → d.Due target ∧ d.Named target)
    (hrollbacks : d.rollbacks = c.rollbacks) (hrecovered : d.recovered = c.recovered) :
    d.Classifies bank seeds sought := by
  have due : ∀ target, c.Due target → d.Due target := fun target ht =>
    ht.of_cons hg hs hw fun start settled afterCall he => hdue start target settled afterCall he
  have named : ∀ target, bank.Reaches seeds target → c.Named target → d.Named target :=
    fun target hr ht => ht.of_cons hr hg hs hw fun he => he ▸ hnamed
  refine ⟨hg.faithful, ?_, ?_, ?_, ?_, hrollbacks.trans h.rollbacks,
    hrecovered.trans h.recovered⟩
  · intro other hmem
    rcases honCode other hmem with hother | hother
    · exact (h.onCode other (hs ▸ List.mem_cons_of_mem _ hother)).grows hg
    · exact hother
  · intro target ht
    obtain ⟨hr, hd, hn⟩ := h.sought ht
    exact ⟨hr, due _ hd, named _ hr hn⟩
  · intro offset op hstart hop hgoes
    rcases hmarked offset op hstart hop with hold | hnew
    · exact due _ (h.onward hold hop hgoes)
    · exact hnew.1 hgoes
  · intro offset op target hstart hop hsent
    rcases hmarked offset op hstart hop with hold | hnew
    · have hr := (h.faithful.reached hold).transfer hop hsent
      obtain ⟨hd, hn⟩ := h.transfer hold hop hsent
      exact ⟨due _ hd, named _ hr hn⟩
    · exact hnew.2 target hsent

section Moves

variable {sought : Nat → Prop} {s t u : Survey Bank.size} {start offset settled : Nat}
  {afterCall : Bool} {op : Opcode} {r p : Nat} {a : Bool}

section Decoding

variable (hc : Classifies bank seeds sought
  ⟨s, ⟨start, offset, .decode settled afterCall⟩ :: waiting, r, p, a⟩)
include hc

theorem Classifies.reaches : bank.Reaches seeds start ∧ bank.Reaches seeds offset :=
  hc.onCode _ List.mem_cons_self

variable (wf : bank.WellFormed seeds)
include wf

theorem Classifies.step_arrive (stop : s.isData offset = false) :
    Classifies bank seeds sought ⟨s, ⟨start, offset, .close⟩ :: waiting, r, p, a⟩ := by
  have hf : s.Faithful bank seeds := hc.faithful
  obtain ⟨hstart, hoffset⟩ := hc.reaches
  have hmarked := hf.isStart_of_not_isData wf hoffset stop
  refine hc.step (.refl hf) rfl (List.subset_cons_self _ _) ?_ ?_ ?_ ?_ rfl rfl
  · intro other hmem
    rcases List.mem_cons.1 hmem with rfl | hmem
    · refine .inr ⟨hstart, fun he => ?_⟩
      have he : offset = start := he
      exact hf.isCode_of_isStart wf (he ▸ hmarked)
    · exact .inl hmem
  · rintro _ _ _ _ ⟨rfl, rfl⟩
    exact .inl hmarked
  · exact .inr ⟨_, List.mem_cons_self, rfl⟩
  · exact fun _ _ hold _ => .inl hold

variable (holds : bank.Holds offset op) (claimed : s.claim? offset op.length = some t)
include holds claimed

theorem Classifies.step_advance (linear : op.control.isLinear)
    (annotated : t.annotate? bank offset op = some u) :
    Classifies bank seeds sought
      ⟨u, ⟨start, offset + op.length, .decode settled afterCall⟩ :: waiting, r, p, a⟩ := by
  obtain ⟨hstart, hoffset⟩ := hc.reaches
  have hlab := Survey.LabelsInto.of_annotate? annotated
  have hgoes : op.control.goesOn := by
    cases hctl : op.control <;> simp_all [Control.isLinear, Control.goesOn]
  have hclaim := Survey.Grows.of_claim? hc.faithful wf hoffset holds claimed
  have hmarked : u.isStart offset := by
    rw [hlab.isStart_eq, Survey.isStart_of_claim? claimed]
    exact .inl rfl
  refine hc.step (hclaim.trans (.of_labelsInto hclaim.faithful hlab)) rfl
    (List.subset_cons_self _ _) ?_ ?_ ?_ ?_ rfl rfl
  · intro other hmem
    rcases List.mem_cons.1 hmem with rfl | hmem
    · exact .inr ⟨hstart, Bank.Reaches.onward hoffset holds.opcode hgoes⟩
    · exact .inl hmem
  · rintro _ _ _ _ ⟨rfl, rfl⟩
    exact .inl hmarked
  · exact .inr ⟨_, List.mem_cons_self, rfl⟩
  · intro o op' ho hop'
    simp only [hlab.isStart_eq, Survey.isStart_of_claim? claimed] at ho
    rcases ho with rfl | hold
    · obtain rfl := Option.some.inj (holds.opcode.symm.trans hop')
      refine .inr ⟨fun _ => .inr ⟨_, _, _, List.mem_cons_self⟩, fun target hsent => ?_⟩
      cases hctl : op.control <;> simp_all [Control.isLinear, Bank.transfer?]
    · exact .inl hold.1

theorem Classifies.step_transfer (nonlinear : op.control.isLinear = false) (hle : start ≤ offset) :
    Classifies bank seeds sought
      ⟨t, t.entering (bank.transfer? offset op) ++
        ⟨start, offset + op.length, op.control.taskAfter (offset + op.length)⟩ :: waiting,
        r, p, a⟩ := by
  obtain ⟨hstart, hoffset⟩ := hc.reaches
  have hg := Survey.Grows.of_claim? hc.faithful wf hoffset holds claimed
  have hmarked : t.isStart offset := (Survey.isStart_of_claim? claimed offset).2 (.inl rfl)
  refine hc.step hg rfl ?_ ?_ ?_ ?_ ?_ rfl rfl
  · exact fun other hmem => List.mem_append_right _ (List.mem_cons_of_mem _ hmem)
  · intro other hmem
    rcases List.mem_append.1 hmem with hfresh | hmem
    · obtain ⟨target, hsent, rfl⟩ := Survey.eq_fresh_of_mem_entering hfresh
      have hr := Bank.Reaches.transfer hoffset holds.opcode hsent
      exact .inr ⟨hr, hr⟩
    · rcases List.mem_cons.1 hmem with rfl | hmem
      · exact .inr (Strand.onCode_taskAfter hstart hoffset holds hle t)
      · exact .inl hmem
  · rintro _ _ _ _ ⟨rfl, rfl⟩
    exact .inl hmarked
  · exact .inr ⟨_, List.mem_append_right _ List.mem_cons_self, rfl⟩
  · intro o op' ho hop'
    rcases (Survey.isStart_of_claim? claimed o).1 ho with rfl | hold
    · obtain rfl := Option.some.inj (holds.opcode.symm.trans hop')
      refine .inr ⟨fun hgoes => ?_, fun target hsent => ?_⟩
      · refine .inr ⟨start, o + op.length, op.control == .call, List.mem_append_right _ ?_⟩
        rw [Control.taskAfter_of_goesOn nonlinear hgoes]
        exact List.mem_cons_self
      · have hr := Bank.Reaches.transfer hoffset holds.opcode hsent
        have hmem : Strand.fresh target ∈ t.entering (bank.transfer? o op) := by
          rw [hsent, hg.faithful.entering_eq wf hr]
          exact List.mem_cons_self
        exact ⟨.inr ⟨_, _, _, List.mem_append_left _ hmem⟩,
          .inr ⟨_, List.mem_append_left _ hmem, rfl⟩⟩
    · exact .inl hold.1

end Decoding

theorem Classifies.step_finish
    (hc : Classifies bank seeds sought ⟨s, ⟨start, offset, .close⟩ :: waiting, r, p, a⟩)
    (closed : s.close? start offset = some t) :
    Classifies bank seeds sought ⟨t, waiting, r, p, offset != start⟩ := by
  have hf : s.Faithful bank seeds := hc.faithful
  obtain ⟨-, hcode⟩ := hc.onCode _ List.mem_cons_self
  have hlab := Survey.LabelsInto.of_close? closed
  refine hc.step (.of_labelsInto hf hlab) rfl (List.Subset.refl _) ?_ ?_ ?_ ?_ rfl rfl
  · exact fun other hmem => .inl hmem
  · rintro _ _ _ _ ⟨⟩
  · exact .inl (Survey.isLabel_of_close? closed hcode)
  · intro o op' ho _
    exact .inl (by rwa [hlab.isStart_eq] at ho)

end Moves

end Course

/-- Every move of the exploration of a well-formed program keeps track of it. -/
theorem Move.classifies {bank : Bank} {seeds : Seeds} {sought : Nat → Prop}
    {c d : Course Bank.size} (wf : bank.WellFormed seeds) (h : Move bank c d) (hin : c.Inside)
    (hc : c.Classifies bank seeds sought) : d.Classifies bank seeds sought := by
  cases h with
  | arrive stop => exact hc.step_arrive wf stop
  | undo data refuses released =>
    obtain ⟨op, hop⟩ := wf.holds hc.reaches.2
    exact absurd refuses hop.not_refuses
  | advance data holds linear claimed annotated =>
    exact hc.step_advance wf holds claimed linear annotated
  | transfer data holds nonlinear claimed =>
    obtain ⟨hlow, hhigh, -⟩ := hin _ List.mem_cons_self
    exact hc.step_transfer wf holds claimed nonlinear (hlow.trans hhigh)
  | finish closed => exact hc.step_finish closed
  -- No strand looks for a jump table.
  | probe word pointee => exact (hc.onCode _ List.mem_cons_self).2.elim
  | tableEnd noWord => exact (hc.onCode _ List.mem_cons_self).2.elim
  | claim low high => exact (hc.onCode _ List.mem_cons_self).2.elim

end BankTrace
