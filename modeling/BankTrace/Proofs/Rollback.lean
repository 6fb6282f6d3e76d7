import BankTrace.Proofs.Determinacy
import BankTrace.Proofs.Settlement

namespace BankTrace

variable {n : Nat}

namespace Survey

/-- A byte has the same marks in `t` as in `s`, but for a label that it may have got. -/
structure Matches (s t : Survey n) (i : Nat) : Prop where
  code : t.isCode i = s.isCode i
  data : t.isData i = s.isData i
  pointer : t.isPointer i = s.isPointer i
  start : t.isStart i = s.isStart i
  label : s.isLabel i → t.isLabel i

/-- `t` is what straight-line code from `first` to `last` makes of `s`, if its operand bytes are those
for which `operand` holds. -/
structure Overlaid (s t : Survey n) (first last : Nat) (operand : Nat → Prop) : Prop where
  le : first ≤ last
  overrun : ∀ {i}, operand i → first ≤ i ∧ i < last ∧ t.isCode i ∧ t.isLabel i = false
  kept : ∀ {i}, first ≤ i → i < last → ¬ operand i → s.isData i ∧ (s.isLabel i → t.isLabel i)
  outside : ∀ {i}, ¬ (first ≤ i ∧ i < last) → s.Matches t i

variable {s t u v : Survey n} {first last length i : Nat} {operand : Nat → Prop}

namespace Matches

theorem of_mark?_eq (h : t.mark? i = s.mark? i) : s.Matches t i := by
  constructor <;> simp only [isCode, isData, isPointer, isStart, isLabel, h, imp_self]

theorem trans (h : s.Matches t i) (h' : t.Matches u i) : s.Matches u i where
  code := h'.code.trans h.code
  data := h'.data.trans h.data
  pointer := h'.pointer.trans h.pointer
  start := h'.start.trans h.start
  label hs := h'.label (h.label hs)

theorem of_labelsInto (h : s.LabelsInto t) (i : Nat) : s.Matches t i :=
  ⟨h.isCode_eq i, h.isData_eq i, h.isPointer_eq i, h.isStart_eq i, h.isLabel i⟩

theorem of_release? (hs : s.Consistent) (data : s.isData i) (label : s.isLabel i → t.isLabel i)
    (released : t.release? first last = some u) (hin : first ≤ i ∧ i ≤ last) : s.Matches u i := by
  have hcode : s.isCode i = false := by
    rw [Bool.eq_false_iff]
    exact fun h => Bool.false_ne_true ((hs.isData_eq_false h).symm.trans data)
  have hstart : s.isStart i = false := by
    rw [Bool.eq_false_iff]
    exact fun h => Bool.false_ne_true (hcode.symm.trans (hs.isCode_of_isStart h))
  refine ⟨?_, ?_, ?_, ?_, fun h => ?_⟩
  · rw [hcode, Bool.eq_false_iff, ne_eq, isCode_of_release? released]
    exact fun h => h.2 hin
  · rw [data, isData_of_release? released]
    exact .inr hin
  · rw [hs.isPointer_eq_false data, Bool.eq_false_iff, ne_eq, isPointer_of_release? released]
    exact fun h => h.2 hin
  · rw [hstart, Bool.eq_false_iff, ne_eq, isStart_of_release? released]
    exact fun h => h.2 hin
  · rw [isLabel_of_release? released]
    exact label h

end Matches

namespace Overlaid

theorem refl (s : Survey n) (first : Nat) (h : ∀ i, ¬ operand i) : s.Overlaid s first first operand where
  le := le_rfl
  overrun hi := absurd hi (h _)
  kept hlo hhi := by omega
  outside _ := .of_mark?_eq rfl

theorem advance (h : s.Overlaid t first last operand) {bank : Bank} {op : Opcode}
    (data : t.isData last) (claimed : t.claim? last length = some u)
    (annotated : u.annotate? bank last op = some v) :
    s.Overlaid v first (last + length) fun i => operand i ∨ last < i ∧ i < last + length := by
  have hle := h.le
  have hlabels := LabelsInto.of_annotate? annotated
  have inside : ∀ {i}, u.isCode i → v.isCode i ∧ v.isLabel i = u.isLabel i := by
    intro i hi
    have hmark := mark?_of_annotate? annotated hi
    exact ⟨(hlabels.isCode_eq i).trans hi, by rw [isLabel, isLabel, hmark]⟩
  have apart : ∀ {i}, ¬ (last ≤ i ∧ i < last + length) → t.Matches v i := by
    intro i hi
    have hmark : u.mark? i = t.mark? i := by
      rw [mark?_of_claim? claimed, if_neg (by have := claim?_bounds claimed; omega),
        if_neg (by omega)]
    exact (Matches.of_mark?_eq hmark).trans (.of_labelsInto hlabels i)
  refine ⟨by omega, ?_, ?_, ?_⟩
  · rintro i (hi | ⟨hlo, hhi⟩)
    · obtain ⟨hlo, hhi, hcode, hlabel⟩ := h.overrun hi
      obtain ⟨hcode', hlabel'⟩ := inside ((isCode_of_claim? claimed i).2 (.inl hcode))
      refine ⟨hlo, by omega, hcode', ?_⟩
      rw [hlabel', Bool.eq_false_iff, ne_eq, isLabel_of_claim? claimed, hlabel]
      exact fun hl => Bool.false_ne_true hl.1
    · obtain ⟨hcode', hlabel'⟩ := inside ((isCode_of_claim? claimed i).2 (.inr ⟨hlo.le, hhi⟩))
      refine ⟨by omega, hhi, hcode', ?_⟩
      rw [hlabel', Bool.eq_false_iff, ne_eq, isLabel_of_claim? claimed]
      exact fun hl => hl.2 ⟨hlo, hhi⟩
  · intro i hlo hhi hi
    rw [not_or] at hi
    rcases Nat.lt_or_ge i last with hlt | hge
    · obtain ⟨hdata, hlabel⟩ := h.kept hlo hlt hi.1
      exact ⟨hdata, fun hs => (apart (by omega)).label (hlabel hs)⟩
    · obtain rfl : i = last := by omega
      have hout := h.outside (i := i) (by omega)
      refine ⟨hout.data.symm.trans data, fun hs => hlabels.isLabel i ?_⟩
      exact (isLabel_of_claim? claimed i).2 ⟨hout.label hs, by omega⟩
  · intro i hi
    exact (h.outside (by omega)).trans (apart (by omega))

theorem release (h : s.Overlaid t first last operand) (hs : s.Consistent) (data : t.isData last)
    (released : t.release? first last = some u) :
    (∀ i, operand i → u.mark? i = some .plain) ∧ ∀ i, ¬ operand i → s.Matches u i := by
  refine ⟨fun i hi => ?_, fun i hi => ?_⟩
  · obtain ⟨hlo, hhi, hcode, hlabel⟩ := h.overrun hi
    obtain ⟨m, hm⟩ := t.exists_mark? (isCode_lt hcode)
    have hunlabelled : m.label = false := by simpa [isLabel, hm] using hlabel
    rw [mark?_of_release? released, if_pos ⟨hlo, hhi.le⟩, hm, Option.map_some, Mark.asData,
      hunlabelled]
    rfl
  · by_cases hin : first ≤ i ∧ i < last
    · obtain ⟨hdata, hlabel⟩ := h.kept hin.1 hin.2 hi
      exact .of_release? hs hdata hlabel released ⟨hin.1, hin.2.le⟩
    · have hout := h.outside hin
      rcases eq_or_ne i last with rfl | hne
      · exact .of_release? hs (hout.data.symm.trans data) hout.label released ⟨h.le, le_rfl⟩
      · have hmark : u.mark? i = t.mark? i := by
          rw [mark?_of_release? released, if_neg (by omega)]
        exact hout.trans (.of_mark?_eq hmark)

end Overlaid

end Survey

theorem Survey.steady_of_entering {s : Survey n} {target : Option Nat} {strand strand' : Strand}
    {waiting waiting' : List Strand} (hs : s.entering target ++ strand' :: waiting' = strand :: waiting)
    (steady : strand'.Steady) : strand.Steady := by
  rcases s.entering_eq target with he | ⟨start, -, he⟩
  · rw [he] at hs
    exact (List.cons.inj hs).1 ▸ steady
  · rw [he] at hs
    exact (List.cons.inj hs).1 ▸ Strand.fresh_steady start

namespace Move

variable {bank : Bank} {c d : Course n}

/-- Only straight-line code brings a strand away from where it began to decode. -/
theorem steady_or_advance (h : Move bank c d) (hst : c.Stacked) {strand : Strand}
    {waiting : List Strand} (hs : d.strands = strand :: waiting) :
    strand.Steady ∨ ∃ start offset settled afterCall op t,
      c.strands = ⟨start, offset, .decode settled afterCall⟩ :: waiting ∧
      strand = ⟨start, offset + op.length, .decode settled afterCall⟩ ∧
      c.survey.isData offset ∧ bank.Holds offset op ∧
      c.survey.claim? offset op.length = some t ∧ t.annotate? bank offset op = some d.survey := by
  cases h with
  | undo data refuses released =>
    exact .inl ((List.cons.inj hs).1 ▸ Strand.undone_steady _ _ _ _)
  | advance data holds linear claimed annotated =>
    obtain ⟨hstrand, rfl⟩ := List.cons.inj hs
    exact .inr ⟨_, _, _, _, _, _, rfl, hstrand.symm, data, holds, claimed, annotated⟩
  | transfer data holds nonlinear claimed =>
    exact .inl (Survey.steady_of_entering hs (Strand.taskAfter_steady _ _ _))
  | probe word pointee => exact .inl (Survey.steady_of_entering hs trivial)
  | @finish s t start offset rest r p a closed =>
    have hrest : rest = strand :: waiting := hs
    exact .inl (hst strand (hrest ▸ List.mem_cons_self)).steady
  | _ => exact .inl ((List.cons.inj hs).1 ▸ trivial)

theorem undo_of_rollbacks_ne (h : Move bank c d) (hne : d.rollbacks ≠ c.rollbacks) :
    ∃ start offset settled afterCall waiting,
      c.strands = ⟨start, offset, .decode settled afterCall⟩ :: waiting ∧
      c.survey.isData offset ∧ c.survey.release? settled offset = some d.survey := by
  cases h with
  | undo data refuses released => exact ⟨_, _, _, _, _, rfl, data, released⟩
  | _ => exact absurd rfl hne

end Move

namespace Exploration

/-- An instruction that the run from `x` decodes at step `m` or later, but before step `k`, has the byte
for an operand. -/
def Overruns (bank : Bank) (x : Exploration n) (m k i : Nat) : Prop :=
  ∃ j y offset op, m ≤ j ∧ j < k ∧ run? bank x j = some y ∧ y.Decodes bank offset op ∧
    offset < i ∧ i < offset + op.length

/-- From step `m`, where it has come to `b`, up to step `k` the run from `x` decodes straight-line code
from `settled` on, all in one strand. -/
structure Stretch (bank : Bank) (x b : Exploration n) (m k start settled : Nat) (afterCall : Bool)
    (waiting : List Strand) : Prop where
  le : m ≤ k
  run : run? bank x m = some b
  begun : b.strands = ⟨start, settled, .decode settled afterCall⟩ :: waiting
  decodes : ∀ j, m ≤ j → j ≤ k → ∃ y offset, run? bank x j = some y ∧
    y.strands = ⟨start, offset, .decode settled afterCall⟩ :: waiting

variable {bank : Bank}

theorem Decodes.unique {x : Exploration n} {offset offset' : Nat} {op op' : Opcode}
    (h : x.Decodes bank offset op) (h' : x.Decodes bank offset' op') : offset = offset' ∧ op = op' := by
  obtain ⟨start, settled, afterCall, waiting, hs, -, holds⟩ := h
  obtain ⟨start', settled', afterCall', waiting', hs', -, holds'⟩ := h'
  rw [hs, List.cons.injEq, Strand.mk.injEq] at hs'
  obtain ⟨⟨-, rfl, -⟩, -⟩ := hs'
  exact ⟨rfl, holds.unique holds'⟩

theorem overruns_self (bank : Bank) (x : Exploration n) (m i : Nat) : ¬ x.Overruns bank m m i := by
  rintro ⟨j, y, offset, op, hlo, hhi, -⟩
  omega

theorem overruns_succ {x y : Exploration n} {m k offset i : Nat} {op : Opcode} (hle : m ≤ k)
    (hy : run? bank x k = some y) (hdecodes : y.Decodes bank offset op) :
    x.Overruns bank m (k + 1) i ↔ x.Overruns bank m k i ∨ offset < i ∧ i < offset + op.length := by
  constructor
  · rintro ⟨j, z, offset', op', hlo, hhi, hz, hdecodes', hi⟩
    rcases Nat.lt_succ_iff_lt_or_eq.1 hhi with hlt | rfl
    · exact .inl ⟨j, z, offset', op', hlo, hlt, hz, hdecodes', hi⟩
    · obtain rfl := Option.some.inj (hy.symm.trans hz)
      obtain ⟨rfl, rfl⟩ := hdecodes.unique hdecodes'
      exact .inr hi
  · rintro (⟨j, z, offset', op', hlo, hhi, hrest⟩ | hi)
    · exact ⟨j, z, offset', op', hlo, Nat.lt_succ_of_lt hhi, hrest⟩
    · exact ⟨k, y, offset, op, hle, Nat.lt_succ_self k, hy, hdecodes, hi⟩

theorem steady_of_sent (x : Exploration n) (start : Nat) {strand : Strand} {waiting : List Strand}
    (hs : (x.sent start).strands = strand :: waiting) : strand.Steady := by
  have hstrands : (x.sent start).strands = x.survey.entering (some start) :=
    congrArg Course.strands (course_sent x start)
  have hmem : strand ∈ x.survey.entering (some start) := by
    rw [← hstrands, hs]
    exact List.mem_cons_self
  obtain ⟨first, -, rfl⟩ := Survey.eq_fresh_of_mem_entering hmem
  exact Strand.fresh_steady first

section Run

variable {x y z : Exploration Bank.size} {k start offset settled : Nat} {afterCall : Bool}
  {waiting : List Strand} (hx : x.course.Sound bank)
  (steady : ∀ {strand waiting}, x.strands = strand :: waiting → strand.Steady)
include hx steady

/-- Wherever a strand decodes, all that has been done since it began to, at `settled`, is to overlay
straight-line code. -/
theorem exists_stretch (hy : run? bank x k = some y)
    (hs : y.strands = ⟨start, offset, .decode settled afterCall⟩ :: waiting) :
    ∃ m b, Stretch bank x b m k start settled afterCall waiting ∧
      b.survey.Overlaid y.survey settled offset (x.Overruns bank m k) := by
  -- Where the strand is steady, it has just begun.
  have begun : ∀ {k y offset}, run? bank x k = some y →
      y.strands = ⟨start, offset, .decode settled afterCall⟩ :: waiting → settled = offset →
        ∃ m b, Stretch bank x b m k start settled afterCall waiting ∧
          b.survey.Overlaid y.survey settled offset (x.Overruns bank m k) := by
    rintro k y offset hy hs rfl
    refine ⟨k, y, ⟨le_rfl, hy, hs, fun j hlo hhi => ?_⟩, .refl _ _ (overruns_self bank x k)⟩
    obtain rfl : j = k := le_antisymm hhi hlo
    exact ⟨y, settled, hy, hs⟩
  induction k generalizing y offset with
  | zero =>
    obtain rfl := Option.some.inj hy
    exact begun rfl hs (steady hs)
  | succ k ih =>
    obtain ⟨w, hw, ⟨hnil, rfl⟩ | hmove⟩ := move_of_run?_succ hx hy
    · rw [hnil] at hs
      contradiction
    · rcases hmove.steady_or_advance (sound_of_run? hx hw).stacked hs with
        hsteady | ⟨start', offset', settled', afterCall', op, t, hsw, heq, data, holds, claimed,
          annotated⟩
      · exact begun hy hs hsteady
      · simp only [Strand.mk.injEq, Task.decode.injEq] at heq
        obtain ⟨rfl, rfl, rfl, rfl⟩ := heq
        obtain ⟨m, b, hstretch, hoverlaid⟩ := ih hw hsw
        refine ⟨m, b, ⟨hstretch.le.trans k.le_succ, hstretch.run, hstretch.begun, fun j hlo hhi => ?_⟩,
          ?_⟩
        · rcases Nat.lt_or_eq_of_le hhi with hlt | rfl
          · exact hstretch.decodes j hlo (Nat.le_of_lt_succ hlt)
          · exact ⟨y, _, hy, hs⟩
        · have hoperand : x.Overruns bank m (k + 1) = fun i =>
              x.Overruns bank m k i ∨ offset' < i ∧ i < offset' + op.length := by
            funext i
            exact propext (overruns_succ hstretch.le hw ⟨_, _, _, _, hsw, data, holds⟩)
          rw [hoperand]
          exact hoverlaid.advance data claimed annotated

/-- A rollback restores all bytes to what they were when the strand began to decode, but for labels and
for the operands of what it has decoded since: these are plain data afterwards. -/
theorem exists_stretch_of_rollback (consistent : x.survey.Consistent) (hy : run? bank x k = some y)
    (hz : run? bank x (k + 1) = some z) (hroll : z.rollbacks ≠ y.rollbacks) :
    ∃ m b start settled afterCall waiting, Stretch bank x b m k start settled afterCall waiting ∧
      (∀ i, x.Overruns bank m k i → z.survey.mark? i = some .plain) ∧
      ∀ i, ¬ x.Overruns bank m k i → b.survey.Matches z.survey i := by
  obtain ⟨w, hw, ⟨-, rfl⟩ | hmove⟩ := move_of_run?_succ hx hz
  · exact absurd (congrArg Exploration.rollbacks (Option.some.inj (hw.symm.trans hy))) hroll
  · obtain rfl := Option.some.inj (hw.symm.trans hy)
    obtain ⟨start, offset, settled, afterCall, waiting, hs, data, released⟩ :=
      hmove.undo_of_rollbacks_ne hroll
    obtain ⟨m, b, hstretch, hoverlaid⟩ := exists_stretch hx steady hw hs
    have hb : b.survey.Consistent := keeps_of_run? (P := fun c => c.survey.Consistent)
      (fun _ hmove => hmove.consistent) hx consistent hstretch.run
    exact ⟨m, b, start, settled, afterCall, waiting, hstretch, hoverlaid.release hb data released⟩

end Run

end Exploration

/-- Whenever a strand is rolled back in an analysis, all it has done since some earlier step, at which
it had just begun or had come back from a branch or call, is to decode straight-line code. What was
marked then is restored, but for labels, which may have been added, and for the operands of what was
decoded since, which are plain data afterwards. -/
theorem Bank.rollbacks_throughout (bank : Bank) (seeds : Seeds) {before after : List Nat} {slot : Nat}
    (hslots : seeds.slots = before ++ slot :: after) : ∃ s x x' word,
      Analysis.seed? (.blank Bank.size) seeds.slots = some s ∧
      before.foldlM (Analysis.followSlot? bank) (.ofSurvey s) = some x ∧
      bank.word? slot = some word ∧
      x' = (x.report (.seeded slot word)).sent (Bank.offsetOf word) ∧
      ∀ k, ∃ y z, Exploration.run? bank x' k = some y ∧ Exploration.run? bank x' (k + 1) = some z ∧
        (z.rollbacks ≠ y.rollbacks → ∃ m b start settled afterCall waiting,
          x'.Stretch bank b m k start settled afterCall waiting ∧
          (∀ i, x'.Overruns bank m k i → z.survey.mark? i = some .plain) ∧
          ∀ i, ¬ x'.Overruns bank m k i → b.survey.Matches z.survey i) := by
  obtain ⟨s, x, word, hs, hx, hword, -, horderly⟩ :=
    (Course.kept_orderly bank seeds).exists_sent hslots
  refine ⟨s, x, _, word, hs, hx, hword, rfl, fun k => ?_⟩
  have hsound := Exploration.sound_sent bank (x.report (.seeded slot word)) (Bank.offsetOf word)
  obtain ⟨y, hy⟩ := Exploration.exists_run? hsound k
  obtain ⟨z, hz⟩ := Exploration.exists_run? hsound (k + 1)
  exact ⟨y, z, hy, hz,
    Exploration.exists_stretch_of_rollback hsound (Exploration.steady_of_sent _ _)
      horderly.consistent hy hz⟩

/-- A branch to `RTS` at `$0003`, which is also the operand of the instruction behind the branch; then
comes a byte that is no code. -/
def rewindingProgram : Nat → UInt8
  | 0 => 0xD0
  | 1 => 0x01
  | 2 => 0xA9
  | 3 => 0x60
  | 0x3FFB | 0x3FFD | 0x3FFF => 0xC0
  | _ => 0

def rewindingBank : Bank := ⟨Vector.ofFn fun i => rewindingProgram i⟩

theorem rewindingBank_holds {i : Nat} {op : Opcode} (hop : Opcode.ofByte (rewindingProgram i) = op)
    (legal : op.control ≠ .illegal) (hlt : i + op.length ≤ 4) : rewindingBank.Holds i op := by
  have hsize : (4 : Nat) < Bank.size := by decide
  refine .ofFn rewindingProgram hop legal ?_ (hlt.trans hsize.le)
  omega

section Moves

variable {s t : Survey Bank.size} {start settled r p : Nat} {afterCall a : Bool}
  {waiting : List Strand}

theorem rewindingBank_branches (data : s.isData 0) (claimed : s.claim? 0 2 = some t) :
    Move rewindingBank ⟨s, ⟨start, 0, .decode settled afterCall⟩ :: waiting, r, p, a⟩
      ⟨t, t.entering (some 3) ++ ⟨start, 2, .decode 2 false⟩ :: waiting, r, p, a⟩ := by
  obtain ⟨op, hop, hcontrol, hlength⟩ : ∃ op, Opcode.ofByte (rewindingProgram 0) = op ∧
      op.control = .branch ∧ op.length = 2 := ⟨_, rfl, by decide +kernel, by decide +kernel⟩
  have holds := rewindingBank_holds hop (by rw [hcontrol]; decide) (by rw [hlength]; decide)
  have htransfer : rewindingBank.transfer? 0 op = some 3 := by
    rw [Bank.transfer?, hcontrol]
    exact congrArg (Option.map _) (Bank.byte?_ofFn rewindingProgram (by decide))
  have hmove : Move rewindingBank ⟨s, ⟨start, 0, .decode settled afterCall⟩ :: waiting, r, p, a⟩ _ :=
    .transfer data holds (by rw [hcontrol]; rfl) (by rw [hlength]; exact claimed)
  rwa [htransfer, hcontrol, hlength] at hmove

theorem rewindingBank_returns (data : s.isData 3) (claimed : s.claim? 3 1 = some t) :
    Move rewindingBank ⟨s, ⟨start, 3, .decode settled afterCall⟩ :: waiting, r, p, a⟩
      ⟨t, ⟨start, 4, .close⟩ :: waiting, r, p, a⟩ := by
  obtain ⟨op, hop, hcontrol, hlength⟩ : ∃ op, Opcode.ofByte (rewindingProgram 3) = op ∧
      op.control = .ret ∧ op.length = 1 := ⟨_, rfl, by decide +kernel, by decide +kernel⟩
  have holds := rewindingBank_holds hop (by rw [hcontrol]; decide) (by rw [hlength])
  have htransfer : rewindingBank.transfer? 3 op = none := by rw [Bank.transfer?, hcontrol]
  have hmove : Move rewindingBank ⟨s, ⟨start, 3, .decode settled afterCall⟩ :: waiting, r, p, a⟩ _ :=
    .transfer data holds (by rw [hcontrol]; rfl) (by rw [hlength]; exact claimed)
  rwa [htransfer, hcontrol, hlength] at hmove

theorem rewindingBank_loads : ∃ op, rewindingBank.Holds 2 op ∧ op.length = 2 ∧
    ∀ {s t : Survey Bank.size}, s.isData 2 → s.claim? 2 2 = some t →
      Move rewindingBank ⟨s, ⟨start, 2, .decode settled afterCall⟩ :: waiting, r, p, a⟩
        ⟨t, ⟨start, 4, .decode settled afterCall⟩ :: waiting, r, p, a⟩ := by
  obtain ⟨op, hop, hcontrol, hlength⟩ : ∃ op, Opcode.ofByte (rewindingProgram 2) = op ∧
      op.control = .next ∧ op.length = 2 := ⟨_, rfl, by decide +kernel, by decide +kernel⟩
  have holds := rewindingBank_holds hop (by rw [hcontrol]; decide) (by rw [hlength])
  refine ⟨op, holds, hlength, fun {s t} data claimed => ?_⟩
  have hmove : Move rewindingBank ⟨s, ⟨start, 2, .decode settled afterCall⟩ :: waiting, r, p, a⟩ _ :=
    .advance data holds (by rw [hcontrol]; rfl) (by rw [hlength]; exact claimed)
      (if_neg (by rw [hcontrol]; decide))
  rwa [hlength] at hmove

end Moves

/-- The exploration from the branch: after three steps `RTS` has been decoded, the next one puts it into
an operand, and the last one gives this back. -/
theorem run?_rewindingBank {s : Survey Bank.size} {x : Exploration Bank.size}
    (hx : x.course.Sound rewindingBank) (hcourse : x.course = ⟨s, [.fresh 0], 0, 0, false⟩)
    (plain : ∀ i < 5, s.mark? i = some .plain) : ∃ b y z,
      Exploration.run? rewindingBank x 3 = some b ∧ b.strands = [⟨0, 2, .decode 2 false⟩] ∧
      b.survey.mark? 3 = some { code := true, label := true, start := true } ∧
      b.survey.isData 2 ∧
      Exploration.run? rewindingBank x 4 = some y ∧ y.strands = [⟨0, 4, .decode 2 false⟩] ∧
      Exploration.run? rewindingBank x 5 = some z ∧ z.survey.mark? 3 = some .plain ∧
      y.rollbacks = 0 ∧ z.rollbacks = 1 := by
  obtain ⟨t₁, h₁⟩ : ∃ t, s.claim? 0 2 = some t := Survey.exists_claim? (by decide) (by decide)
  obtain ⟨t₂, h₂⟩ : ∃ t, t₁.claim? 3 1 = some t := Survey.exists_claim? (by decide) (by decide)
  obtain ⟨t₃, h₃⟩ : ∃ t, t₂.label? 3 = some t := Survey.exists_label? (by decide)
  obtain ⟨t₄, h₄⟩ : ∃ t, t₃.claim? 2 2 = some t := Survey.exists_claim? (by decide) (by decide)
  obtain ⟨t₅, h₅⟩ : ∃ t, t₄.release? 2 4 = some t := Survey.exists_release? (by decide) (by decide)
  have marks₁ := fun i => Survey.mark?_of_claim? h₁ i
  have marks₂ := fun i => Survey.mark?_of_claim? h₂ i
  have marks₃ := fun i => Survey.mark?_of_label? h₃ i
  have marks₄ := fun i => Survey.mark?_of_claim? h₄ i
  have marks₅ := fun i => Survey.mark?_of_release? h₅ i
  have data₀ : s.isData 0 := Survey.isData_of_plain (plain 0 (by decide))
  have data₁ : t₁.isData 3 := by
    rw [Survey.isData, marks₁, plain 3 (by decide)]
    rfl
  have data₃ : t₃.isData 2 := by
    rw [Survey.isData, marks₃, marks₂, marks₁, plain 2 (by decide)]
    rfl
  have data₄ : t₄.isData 4 := by
    rw [Survey.isData, marks₄, marks₃, marks₂, marks₁, plain 4 (by decide)]
    rfl
  have begun : t₁.entering (some 3) = [.fresh 3] := by
    rw [Survey.entering, Survey.isCode, marks₁, plain 3 (by decide)]
    rfl
  have refuses : rewindingBank.Refuses 4 1 :=
    .illegal (Bank.opcode?_ofFn rewindingProgram (by decide)) (by decide +kernel) (by decide +kernel)
  have move₁ : Move rewindingBank x.course _ := hcourse ▸ rewindingBank_branches data₀ h₁
  rw [begun] at move₁
  obtain ⟨x₁, hx₁, hcourse₁⟩ := Exploration.exists_run?_of_move hx
    (rfl : Exploration.run? rewindingBank x 0 = some x) move₁
  have move₂ : Move rewindingBank x₁.course _ := hcourse₁ ▸ rewindingBank_returns data₁ h₂
  obtain ⟨x₂, hx₂, hcourse₂⟩ := Exploration.exists_run?_of_move hx hx₁ move₂
  have move₃ : Move rewindingBank x₂.course ⟨t₃, [⟨0, 2, .decode 2 false⟩], 0, 0, true⟩ :=
    hcourse₂ ▸ .finish h₃
  obtain ⟨x₃, hx₃, hcourse₃⟩ := Exploration.exists_run?_of_move hx hx₂ move₃
  obtain ⟨op, -, -, hloads⟩ := rewindingBank_loads
  have move₄ : Move rewindingBank x₃.course _ := hcourse₃ ▸ hloads data₃ h₄
  obtain ⟨x₄, hx₄, hcourse₄⟩ := Exploration.exists_run?_of_move hx hx₃ move₄
  have move₅ : Move rewindingBank x₄.course ⟨t₅, [⟨0, 3, .close⟩], 1, 0, true⟩ :=
    hcourse₄ ▸ .undo data₄ refuses h₅
  obtain ⟨x₅, hx₅, hcourse₅⟩ := Exploration.exists_run?_of_move hx hx₄ move₅
  have hb : x₃.survey = t₃ := congrArg Course.survey hcourse₃
  have hz : x₅.survey = t₅ := congrArg Course.survey hcourse₅
  refine ⟨x₃, x₄, x₅, hx₃, congrArg Course.strands hcourse₃, ?_, hb ▸ data₃, hx₄,
    congrArg Course.strands hcourse₄, hx₅, ?_, congrArg Course.rollbacks hcourse₄,
    congrArg Course.rollbacks hcourse₅⟩
  · rw [hb, marks₃, marks₂, marks₁, plain 3 (by decide)]
    rfl
  · rw [hz, marks₅, marks₄, marks₃, marks₂, marks₁, plain 3 (by decide)]
    rfl

theorem exists_sent_rewindingBank : ∃ s word x,
    Analysis.seed? (.blank Bank.size) Seeds.empty.slots = some s ∧
    rewindingBank.word? 0x3FFA = some word ∧
    x = ((Exploration.ofSurvey s).report (.seeded 0x3FFA word)).sent (Bank.offsetOf word) ∧
    x.course = ⟨s, [.fresh 0], 0, 0, false⟩ ∧ ∀ i < 5, s.mark? i = some .plain := by
  obtain ⟨s, hs⟩ := Analysis.exists_seed? Seeds.empty.succ_slot_lt (.blank Bank.size)
  have plain : ∀ i < 5, s.mark? i = some .plain := fun i hi =>
    Analysis.mark?_of_seed?_empty hs (hi.trans (by decide))
  refine ⟨s, _, _, hs, Bank.word?_ofFn rewindingProgram (by decide), rfl, ?_, plain⟩
  have begun : s.entering (some 0) = [.fresh 0] := Survey.entering_of_plain (plain 0 (by decide))
  rw [Exploration.course_sent]
  exact congrArg (Course.mk s · 0 0 false) begun

/-- `RTS` is code when the strand begins to decode behind the branch, and data when that has been rolled
back. -/
theorem rollback_takes_code : ∃ s word x b y z,
    Analysis.seed? (.blank Bank.size) Seeds.empty.slots = some s ∧
    rewindingBank.word? 0x3FFA = some word ∧
    x = ((Exploration.ofSurvey s).report (.seeded 0x3FFA word)).sent (Bank.offsetOf word) ∧
    x.Stretch rewindingBank b 3 4 0 2 false [] ∧
    Exploration.run? rewindingBank x 4 = some y ∧ Exploration.run? rewindingBank x 5 = some z ∧
    z.rollbacks = y.rollbacks + 1 ∧
    (b.survey.isCode 3 ∧ b.survey.isStart 3 ∧ b.survey.isLabel 3) ∧
    z.survey.mark? 3 = some .plain := by
  obtain ⟨s, word, x, hs, hword, hx, hcourse, plain⟩ := exists_sent_rewindingBank
  have hsound : x.course.Sound rewindingBank := hx ▸ Exploration.sound_sent _ _ _
  obtain ⟨b, y, z, hb, hbs, hmark, -, hy, hys, hz, hplain, hrolled, hrolled'⟩ :=
    run?_rewindingBank hsound hcourse plain
  refine ⟨s, word, x, b, y, z, hs, hword, hx, ⟨by decide, hb, hbs, fun j hlo hhi => ?_⟩, hy, hz, ?_,
    ?_, hplain⟩
  · obtain rfl | rfl : j = 3 ∨ j = 4 := by omega
    · exact ⟨b, 2, hb, hbs⟩
    · exact ⟨y, 4, hy, hys⟩
  · rw [hrolled, hrolled']
  · rw [Survey.isCode, Survey.isStart, Survey.isLabel, hmark]
    exact ⟨rfl, rfl, rfl⟩

/-- The operand of what is rolled back there is plain data. -/
theorem mark?_of_rollback_rewindingBank :
    Seeds.empty.slots = [] ++ 0x3FFA :: [0x3FFC, 0x3FFE] ∧ ∃ s word x b z m,
      Analysis.seed? (.blank Bank.size) Seeds.empty.slots = some s ∧
      rewindingBank.word? 0x3FFA = some word ∧
      x = ((Exploration.ofSurvey s).report (.seeded 0x3FFA word)).sent (Bank.offsetOf word) ∧
      x.Stretch rewindingBank b m 4 0 2 false [] ∧ x.Overruns rewindingBank m 4 3 ∧
      Exploration.run? rewindingBank x 5 = some z ∧ z.survey.mark? 3 = some .plain := by
  have hslots : Seeds.empty.slots = [] ++ 0x3FFA :: [0x3FFC, 0x3FFE] := rfl
  obtain ⟨s, word, x, hs, hword, hx, hcourse, plain⟩ := exists_sent_rewindingBank
  have hsound : x.course.Sound rewindingBank := hx ▸ Exploration.sound_sent _ _ _
  obtain ⟨b, y, z, hb, hbs, -, data, hy, hys, hz, -, hrolled, hrolled'⟩ :=
    run?_rewindingBank hsound hcourse plain
  obtain ⟨s', x₀, x', word', hs', hx₀, hword', hx', hrestores⟩ :=
    rewindingBank.rollbacks_throughout .empty hslots
  obtain rfl := Option.some.inj (hs.symm.trans hs')
  obtain rfl := Option.some.inj (hword.symm.trans hword')
  obtain rfl : Exploration.ofSurvey s = x₀ := Option.some.inj hx₀
  obtain rfl : x = x' := hx.trans hx'.symm
  obtain ⟨y', z', hy', hz', hrestores⟩ := hrestores 4
  obtain rfl := Option.some.inj (hy.symm.trans hy')
  obtain rfl := Option.some.inj (hz.symm.trans hz')
  obtain ⟨m, b', start, settled, afterCall, waiting, hstretch, hoperand, -⟩ :=
    hrestores (by rw [hrolled, hrolled']; decide)
  obtain ⟨w, offset, hw, hws⟩ := hstretch.decodes 4 hstretch.le le_rfl
  obtain rfl := Option.some.inj (hy.symm.trans hw)
  obtain ⟨⟨rfl, rfl, rfl, rfl⟩, rfl⟩ : (0 = start ∧ 4 = offset ∧ 2 = settled ∧ false = afterCall) ∧
      [] = waiting := by simpa using hys.symm.trans hws
  have hm : m ≤ 3 := by
    refine Nat.le_of_lt_succ (lt_of_le_of_ne hstretch.le ?_)
    rintro rfl
    obtain rfl := Option.some.inj (hy.symm.trans hstretch.run)
    simpa using hys.symm.trans hstretch.begun
  obtain ⟨op, holds, hlength, -⟩ := @rewindingBank_loads 0 0 0 0 false false []
  have hover : x.Overruns rewindingBank m 4 3 :=
    ⟨3, b, 2, op, hm, by decide, hb, ⟨_, _, _, _, hbs, data, holds⟩, by decide, by omega⟩
  exact ⟨hslots, s, word, x, b', z, m, hs, hword, hx, hstretch, hover, hz, hoperand 3 hover⟩

end BankTrace
