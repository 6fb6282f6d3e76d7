import BankTrace.Proofs.Occurrence
import BankTrace.Proofs.Rollback

namespace BankTrace

variable {n : Nat}

/-- A byte next to the word at `slot` belongs to a table. -/
def Seeds.Flanked (seeds : Seeds) (slot : Nat) : Prop :=
  (∃ i, i + 1 = slot ∧ seeds.Covers i) ∨ seeds.Covers (slot + 2)

theorem Seeds.covers_of_mem_slots {seeds : Seeds} {slot : Nat} (hslot : slot ∈ seeds.slots) :
    seeds.Covers slot ∧ seeds.Covers (slot + 1) :=
  ⟨(seeds.covers_iff _).2 ⟨slot, hslot, .inl rfl⟩, (seeds.covers_iff _).2 ⟨slot, hslot, .inr rfl⟩⟩

theorem Seeds.Flanked.lined {seeds : Seeds} {slot : Nat} (h : seeds.Flanked slot)
    (hslot : slot ∈ seeds.slots) : seeds.Lined slot ∧ seeds.Lined (slot + 1) := by
  obtain ⟨h₀, h₁⟩ := covers_of_mem_slots hslot
  rcases h with ⟨i, rfl, hi⟩ | h₂
  · have hrow : ∀ j, i ≤ j → j < i + 3 → seeds.Covers j := by
      intro j hlo hhi
      obtain rfl | rfl | rfl : j = i ∨ j = i + 1 ∨ j = i + 1 + 1 := by omega
      · exact hi
      · exact h₀
      · exact h₁
    exact ⟨⟨i, by omega, by omega, hrow⟩, ⟨i, by omega, by omega, hrow⟩⟩
  · have hrow : ∀ j, slot ≤ j → j < slot + 3 → seeds.Covers j := by
      intro j hlo hhi
      obtain rfl | rfl | rfl : j = slot ∨ j = slot + 1 ∨ j = slot + 2 := by omega
      · exact h₀
      · exact h₁
      · exact h₂
    exact ⟨⟨slot, le_rfl, by omega, hrow⟩, ⟨slot, by omega, by omega, hrow⟩⟩

/-- A byte that is not data becomes data only while it is in doubt, when a rollback gives back all that
is. -/
theorem Move.taken_or_undo {bank : Bank} {c d : Course n} (h : Move bank c d) {i : Nat}
    (hi : c.survey.Taken i) : d.survey.Taken i ∨
      c.InDoubt i ∧ d.rollbacks = c.rollbacks + 1 ∧
        ∀ j, c.InDoubt j → d.survey.mark? j = (c.survey.mark? j).map .asData := by
  cases h with
  | @undo s t start offset settled afterCall k waiting r p a data refuses released =>
    by_cases hdoubt : s.isData offset ∧ settled ≤ i ∧ i < offset
    · refine .inr ⟨hdoubt, rfl, fun j hj => ?_⟩
      rw [Survey.mark?_of_release? released, if_pos ⟨hj.2.1, hj.2.2.le⟩]
    · exact .inl (hi.of_undo? released data hdoubt)
  | advance data holds linear claimed annotated =>
    exact .inl ((Survey.LabelsInto.of_annotate? annotated).taken_iff.2 (hi.of_claim? claimed))
  | transfer data holds nonlinear claimed => exact .inl (hi.of_claim? claimed)
  | claim low high => exact .inl ((hi.of_point? low).of_point? high)
  | finish closed => exact .inl ((Survey.LabelsInto.of_close? closed).taken_iff.2 hi)
  | _ => exact .inl hi

namespace Course

/-- The current strand has decoded, since it last branched, an instruction of three bytes whose operand
is the word at `slot`. -/
def Mounts (bank : Bank) (c : Course n) (slot : Nat) : Prop :=
  ∃ start offset settled afterCall waiting first op,
    c.strands = ⟨start, offset, .decode settled afterCall⟩ :: waiting ∧ settled ≤ first ∧
    first + 1 = slot ∧ slot + 2 ≤ offset ∧ c.survey.isStart first ∧ bank.Holds first op ∧ op.length = 3

theorem Mounts.inDoubt {bank : Bank} {c : Course n} {slot i j : Nat} (h : c.Mounts bank slot)
    (hi : c.InDoubt i) (hlo : slot ≤ j) (hhi : j < slot + 2) : c.InDoubt j := by
  obtain ⟨start, offset, settled, afterCall, waiting, first, op, hs, hle, hfirst, hend, -⟩ := h
  rw [InDoubt, hs] at hi ⊢
  exact ⟨hi.1, by omega, by omega⟩

/-- From `c` to `d` a strand is rolled back that has taken the word at `slot` for an operand, and the
marks of the word are lost. -/
structure Drops (bank : Bank) (slot : Nat) (c d : Course n) : Prop where
  mounts : c.Mounts bank slot
  rolledBack : d.rollbacks = c.rollbacks + 1
  before : ∀ i, slot ≤ i → i < slot + 2 → c.survey.mark? i = some .codePointer
  after : ∀ i, slot ≤ i → i < slot + 2 → d.survey.mark? i = some .plain

/-- The word at `slot` is marked as in the beginning, and in doubt only as an operand. -/
structure Stands (bank : Bank) (c : Course n) (slot : Nat) : Prop where
  reserved : ∀ i, slot ≤ i → i < slot + 2 → c.Reserved i
  mounts : ∀ i, slot ≤ i → i < slot + 2 → c.InDoubt i → c.Mounts bank slot

end Course

namespace Move

variable {bank : Bank} {c d : Course Bank.size} {slot i : Nat}

theorem mounts (h : Move bank c d) (hsound : c.Sound bank) (hc : c.Stands bank slot)
    (hlo : slot ≤ i) (hhi : i < slot + 2) (hi : d.InDoubt i) : d.Mounts bank slot := by
  cases hs : d.strands with
  | nil =>
    rw [Course.InDoubt, hs] at hi
    exact hi.elim
  | cons strand waiting =>
    rcases h.steady_or_advance hsound.stacked hs with hsteady |
      ⟨start, offset, settled, afterCall, op, t, hsc, rfl, data, holds, claimed, annotated⟩
    · exact absurd hi (Course.not_inDoubt_of_steady hs hsteady i)
    · have hlabels := Survey.LabelsInto.of_annotate? annotated
      rw [Course.InDoubt, hs] at hi
      obtain ⟨hnext, hsettled, hlast⟩ := hi
      rw [hlabels.isData_eq, Survey.isData_of_claim? claimed] at hnext
      have apart : ∀ j, slot ≤ j → j < slot + 2 → j ≠ offset ∧ j ≠ offset + op.length :=
        fun j hlo hhi => ⟨(hc.reserved j hlo hhi).taken.ne_of_isData data,
          (hc.reserved j hlo hhi).taken.ne_of_isData hnext.1⟩
      have apart₀ := apart slot le_rfl (by omega)
      have apart₁ := apart (slot + 1) (by omega) (by omega)
      have hstart : ∀ first, c.survey.isStart first → first < offset → d.survey.isStart first := by
        intro first hfirst hlt
        rw [hlabels.isStart_eq, Survey.isStart_of_claim? claimed]
        exact .inr ⟨hfirst, by omega⟩
      rcases Nat.lt_or_ge i offset with hlt | hge
      · have hdoubt : c.InDoubt i := by
          rw [Course.InDoubt, hsc]
          exact ⟨data, hsettled, hlt⟩
        obtain ⟨_, _, _, _, _, first, op', hsc', hle, hfirst, hend, hstarts, holds', hlength⟩ :=
          hc.mounts i hlo hhi hdoubt
        rw [hsc, List.cons.injEq, Strand.mk.injEq, Task.decode.injEq] at hsc'
        obtain ⟨⟨rfl, rfl, rfl, rfl⟩, rfl⟩ := hsc'
        exact ⟨_, _, _, _, _, first, op', hs, hle, hfirst, by omega, hstart first hstarts (by omega),
          holds', hlength⟩
      · -- Neither byte of the word is data, so the instruction begins right before it and ends behind.
        have hlength := holds.length_le
        have hle : settled ≤ offset := by
          have hinside := hsound.inside ⟨start, offset, .decode settled afterCall⟩ (hsc ▸ List.mem_cons_self)
          exact hinside.2.1
        refine ⟨_, _, _, _, _, offset, op, hs, hle, by omega, by omega, ?_, holds, by omega⟩
        rw [hlabels.isStart_eq, Survey.isStart_of_claim? claimed]
        exact .inl rfl

theorem stands (h : Move bank c d) (hsound : c.Sound bank) (keeps : ¬ c.Drops bank slot d)
    (hc : c.Stands bank slot) : d.Stands bank slot := by
  have htaken : ∀ i, slot ≤ i → i < slot + 2 → d.survey.Taken i := by
    intro i hlo hhi
    refine (h.taken_or_undo (hc.reserved i hlo hhi).taken).resolve_right ?_
    rintro ⟨hdoubt, hrolled, hreleased⟩
    have hmounts := hc.mounts i hlo hhi hdoubt
    refine keeps ⟨hmounts, hrolled, fun j hlo hhi => (hc.reserved j hlo hhi).mark, fun j hlo hhi => ?_⟩
    rw [hreleased j (hmounts.inDoubt hdoubt hlo hhi), (hc.reserved j hlo hhi).mark]
    rfl
  exact ⟨fun i hlo hhi => h.reserved (hc.reserved i hlo hhi) (htaken i hlo hhi),
    fun i hlo hhi => h.mounts hsound hc hlo hhi⟩

end Move

/-- Every word of the tables stands throughout an analysis, until it is dropped. -/
theorem Course.keptUnless_drops (bank : Bank) (seeds : Seeds) {slot : Nat} (hslot : slot ∈ seeds.slots) :
    Course.KeptUnless bank seeds (Course.Drops bank slot) fun c _ => c.Stands bank slot where
  seeded h := by
    refine ⟨fun i hlo hhi => ⟨Analysis.mark?_of_covers h ?_, nofun⟩, fun i _ _ => False.elim⟩
    obtain rfl | rfl : i = slot ∨ i = slot + 1 := by omega
    · exact (Seeds.covers_of_mem_slots hslot).1
    · exact (Seeds.covers_of_mem_slots hslot).2
  sent _ _ h := ⟨fun i hlo hhi => (h.reserved i hlo hhi).sent _, fun i _ _ hi =>
    absurd hi (not_inDoubt_of_sent _ _ _ _ _ i)⟩
  moved hsound hmove keeps h := hmove.stands hsound keeps h

/-- Every word of the tables is marked in the end as in the beginning, as a pointer and as nothing else;
or it stands alone, and at some step a strand is rolled back that has taken it for the operand of an
instruction. -/
theorem Bank.analyze?_keeps_words (bank : Bank) (seeds : Seeds) :
    ∃ a, bank.analyze? seeds = some a ∧ ∀ slot ∈ seeds.slots,
      (a.survey.mark? slot = some .codePointer ∧ a.survey.mark? (slot + 1) = some .codePointer) ∨
      ¬ seeds.Flanked slot ∧
        Analysis.Meets bank seeds fun y z => y.course.Drops bank slot z.course := by
  obtain ⟨x, hx, -, hpinned⟩ := (Course.kept_pinned bank seeds).exists_analyze?
  obtain ⟨a, ha⟩ : ∃ a, bank.analyze? seeds = some a := ⟨_, hx⟩
  have final : ∀ {x i}, bank.analyze? seeds = some (.ofExploration x) → x.course.Reserved i →
      a.survey.mark? i = some .codePointer := by
    intro x i hx h
    rw [Option.some.inj (ha.symm.trans hx)]
    exact (x.survey.mark?_labelBoundaries_of_taken h.taken).trans h.mark
  refine ⟨a, ha, fun slot hslot => ?_⟩
  by_cases hflanked : seeds.Flanked slot
  · have reserved : ∀ {i}, seeds.Lined i → x.course.Reserved i := fun h =>
      ⟨(hpinned _ h).mark, (hpinned _ h).noStart⟩
    obtain ⟨h₀, h₁⟩ := hflanked.lined hslot
    exact .inl ⟨final hx (reserved h₀), final hx (reserved h₁)⟩
  · obtain ⟨x, hx, -, ⟨-, -, hstands⟩ | hmeets⟩ := (Course.keptUnless_drops bank seeds hslot).exists_analyze?
    · exact .inl ⟨final hx (hstands.reserved _ le_rfl (by omega)),
        final hx (hstands.reserved _ (by omega) (by omega))⟩
    · exact .inr ⟨hflanked, hmeets⟩

/-- `LDA $C000` at the beginning, and behind it a byte that is no code. The vectors lead to the beginning,
and so does the operand. -/
def loadingProgram : Nat → UInt8
  | 0 => 0xAD
  | 2 | 0x3FFB | 0x3FFD | 0x3FFF => 0xC0
  | _ => 0

def loadingBank : Bank := ⟨Vector.ofFn fun i => loadingProgram i⟩

def loadingSeeds : Seeds := ⟨[⟨1, 1⟩], by decide⟩

/-- Each exploration loads, is refused and gives all bytes back. -/
theorem loadingBank_explored {s : Survey Bank.size} (code₀ : s.isCode 0 = false) (data₀ : s.isData 0)
    (data₃ : s.isData 3) (r p : Nat) :
    ∃ t, t.isCode 0 = false ∧ t.isData 0 ∧ t.isData 3 ∧ t.isPointer 1 = false ∧
      Relation.ReflTransGen (Move loadingBank) ⟨s, s.entering (some 0), r, p, false⟩
        ⟨t, [], r + 1, p, true⟩ := by
  obtain ⟨t₁, h₁⟩ : ∃ t, s.claim? 0 3 = some t := Survey.exists_claim? (by decide) (by decide)
  obtain ⟨t₂, h₂⟩ : ∃ t, t₁.release? 0 3 = some t := Survey.exists_release? (by decide) (by decide)
  obtain ⟨t₃, h₃⟩ : ∃ t, t₂.label? 0 = some t := Survey.exists_label? (by decide)
  have hlabels := Survey.LabelsInto.of_label? h₃
  have data : ∀ i ≤ 3, t₃.isData i := fun i hi => by
    rw [hlabels.isData_eq, Survey.isData_of_release? h₂]
    exact .inr ⟨i.zero_le, hi⟩
  refine ⟨t₃, ?_, data 0 (by decide), data 3 le_rfl, ?_, ?_⟩
  · rw [hlabels.isCode_eq, Bool.eq_false_iff, ne_eq, Survey.isCode_of_release? h₂]
    exact fun h => h.2 (by decide)
  · rw [hlabels.isPointer_eq, Bool.eq_false_iff, ne_eq, Survey.isPointer_of_release? h₂]
    exact fun h => h.2 (by decide)
  · obtain ⟨op, hop, hcontrol, hlength⟩ : ∃ op, Opcode.ofByte (loadingProgram 0) = op ∧
        op.control = .reference ∧ op.length = 3 := ⟨_, rfl, by decide +kernel, by decide +kernel⟩
    have holds : loadingBank.Holds 0 op :=
      .ofFn loadingProgram hop (by rw [hcontrol]; decide) (by decide) (by rw [hlength]; decide)
    have refuses : loadingBank.Refuses 3 1 :=
      .illegal (Bank.opcode?_ofFn loadingProgram (by decide)) (by decide +kernel) (by decide +kernel)
    have begun : s.entering (some 0) = [.fresh 0] := by
      rw [Survey.entering, code₀]
      rfl
    -- The operand names the instruction itself, which is code by then and gets no label.
    have annotated : t₁.annotate? loadingBank 0 op = some t₁ := by
      obtain ⟨isCartridge, hcartridge⟩ :=
        loadingBank.isCartridge?_eq_some (by decide : 0 + 1 + 1 < Bank.size)
      have hpointee : loadingBank.pointee? (0 + 1) = some 0 :=
        Bank.pointee?_ofFn loadingProgram (by decide)
      have code : t₁.isCode 0 := (Survey.isCode_of_claim? h₁ 0).2 (.inr (by decide))
      rw [Survey.annotate?, if_pos hcontrol, Survey.refer?, hcartridge, hpointee]
      simp only [Option.bind_eq_bind, Option.bind_some, code, Bool.not_true, Bool.and_false,
        Bool.false_and, Bool.false_eq_true, if_false]
    have data₃' : t₁.isData 3 := (Survey.isData_of_claim? h₁ 3).2 ⟨data₃, by decide⟩
    have move₁ : Move loadingBank ⟨s, [.fresh 0], r, p, false⟩ _ :=
      .advance data₀ holds (by rw [hcontrol]; rfl) (by rw [hlength]; exact h₁) annotated
    rw [hlength] at move₁
    have move₂ : Move loadingBank ⟨t₁, [⟨0, 3, .decode 0 false⟩], r, p, false⟩
        ⟨t₂, [⟨0, 1, .close⟩], r + 1, p, false⟩ := .undo data₃' refuses h₂
    have move₃ : Move loadingBank ⟨t₂, [⟨0, 1, .close⟩], r + 1, p, false⟩ ⟨t₃, [], r + 1, p, true⟩ :=
      .finish h₃
    rw [begun]
    exact .head move₁ (.head move₂ (.single move₃))

/-- In the end the word of the table is not marked as a pointer. -/
theorem exists_dropped_word : ∃ a, loadingBank.analyze? loadingSeeds = some a ∧
    ∃ slot ∈ loadingSeeds.slots, a.survey.isPointer slot = false := by
  obtain ⟨s, x, hseed, hexplores, ha⟩ := loadingBank.analyze?_eq_some loadingSeeds
  have htarget : ∀ slot ∈ loadingSeeds.slots, loadingBank.pointee? slot = some 0 := by
    intro slot hslot
    have hwords : ∀ slot ∈ loadingSeeds.slots, slot + 1 < Bank.size ∧ Bank.offsetOf
        ((loadingProgram slot).toNat + 0x100 * (loadingProgram (slot + 1)).toNat) = 0 := by
      decide +kernel
    obtain ⟨hlt, hword⟩ := hwords slot hslot
    exact (Bank.pointee?_ofFn loadingProgram hlt).trans (congrArg some hword)
  have plain : ∀ i, i < Bank.size → (∀ slot ∈ loadingSeeds.slots, i ≠ slot ∧ i ≠ slot + 1) →
      s.mark? i = some .plain := by
    intro i hi hnone
    rw [Analysis.mark?_of_seed?_blank hseed, if_neg, if_pos hi]
    rintro ⟨slot, hslot, rfl | rfl⟩
    · exact (hnone _ hslot).1 rfl
    · exact (hnone _ hslot).2 rfl
  have plain₀ := plain 0 (by decide) (by decide)
  have plain₃ := plain 3 (by decide) (by decide)
  have hlast := hexplores.leads (Q := fun slots s => s.isCode 0 = false ∧ s.isData 0 ∧ s.isData 3 ∧
    (∀ slot ∈ slots, loadingBank.pointee? slot = some 0) ∧ (slots = [] → s.isPointer 1 = false))
    ⟨by rw [Exploration.ofSurvey, Survey.isCode, plain₀]; rfl,
      by rw [Exploration.ofSurvey, Survey.isData, plain₀]; rfl,
      by rw [Exploration.ofSurvey, Survey.isData, plain₃]; rfl, htarget, nofun⟩ ?_
  · refine ⟨_, ha, 1, by decide, ?_⟩
    exact ((Survey.LabelsInto.of_labelBoundaries x.survey).isPointer_eq 1).trans (hlast.2.2.2.2 rfl)
  · rintro slot slots s r p ⟨code₀, data₀, data₃, htarget, -⟩
    rw [List.forall_mem_cons] at htarget
    obtain ⟨t, code₀, data₀, data₃, hpointer, hmoves⟩ := loadingBank_explored code₀ data₀ data₃ r p
    exact ⟨0, t, _, _, _, htarget.1, ⟨code₀, data₀, data₃, htarget.2, fun _ => hpointer⟩, hmoves⟩

end BankTrace
