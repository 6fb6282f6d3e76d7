import BankTrace.Proofs.Survival

namespace BankTrace

variable {n : Nat}

/-- A strand that will have left its first byte when it ends, whatever refuses it. -/
def Strand.Leaves (strand : Strand) : Prop :=
  match strand.task with
  | .decode settled afterCall => afterCall → strand.start < settled
  | .probe _ | .claim _ => strand.start < strand.offset
  | .close => strand.offset ≠ strand.start

theorem Strand.leaves_fresh (start : Nat) : (Strand.fresh start).Leaves := nofun

theorem Strand.leaves_taskAfter {start offset length : Nat} (c : Control) (hle : start ≤ offset)
    (hpos : 0 < length) :
    (⟨start, offset + length, c.taskAfter (offset + length)⟩ : Strand).Leaves := by
  have hlt : start < offset + length := by omega
  cases c <;> first | exact fun _ => hlt | exact hlt.ne'

theorem Bank.transfer?_of_isLinear {bank : Bank} {offset : Nat} {op : Opcode}
    (linear : op.control.isLinear) : bank.transfer? offset op = none := by
  unfold transfer?
  cases hcontrol : op.control with
  | next | reference | ret | illegal => rfl
  | _ => exact absurd linear (by rw [hcontrol]; exact Bool.false_ne_true)

theorem Strand.exists_start_of_eq {strand strand' : Strand} {waiting : List Strand} {target : Nat}
    (begun : List Strand) (heq : strand'.start = strand.start)
    (h : ∃ other ∈ strand :: waiting, other.start = target) :
    ∃ other ∈ begun ++ strand' :: waiting, other.start = target := by
  obtain ⟨other, hmem, hstart⟩ := h
  rcases List.mem_cons.1 hmem with rfl | hmem
  · exact ⟨strand', List.mem_append_right _ List.mem_cons_self, heq.trans hstart⟩
  · exact ⟨other, List.mem_append_right _ (List.mem_cons_of_mem _ hmem), hstart⟩

theorem Survey.isPlain_eq_false {s : Survey n} {i : Nat} {p : Mark → Bool} (hp : p .plain = false)
    (h : (s.mark? i).any p) : s.isPlain i = false := by
  rw [isPlain, beq_eq_false_iff_ne]
  intro hplain
  rw [hplain, Option.any_some, hp] at h
  contradiction

namespace Course

/-- The next step decodes an instruction that has the byte for an operand, and it is not plain data: it
has been decoded before, or it has a label. -/
def RunsOver (bank : Bank) (c : Course n) (i : Nat) : Prop :=
  c.survey.isPlain i = false ∧ ∃ start offset settled afterCall waiting op,
    c.strands = ⟨start, offset, .decode settled afterCall⟩ :: waiting ∧ c.survey.isData offset ∧
    bank.Holds offset op ∧ offset < i ∧ i < offset + op.length

/-- The next step gives up the strand from `start`, which has no label and has taken no branch, because
of a byte of no length. -/
def Abandons (bank : Bank) (c : Course n) (start : Nat) : Prop :=
  c.survey.isLabel start = false ∧
    ∃ offset waiting, c.strands = ⟨start, offset, .decode start false⟩ :: waiting ∧
      c.survey.isData offset ∧ bank.Refuses offset 0

/-- The byte has a label; or it is in the middle of an instruction or of a word, and not in doubt. -/
def Served (c : Course n) (target : Nat) : Prop :=
  c.survey.isLabel target ∨
    c.survey.isCode target ∧ c.survey.isStart target = false ∧ ¬ c.InDoubt target

/-- The byte is served, or a strand from there is under way. -/
def Visited (c : Course n) (target : Nat) : Prop :=
  c.Served target ∨ ∃ strand ∈ c.strands, strand.start = target

/-- The strands from `target` will label it when they end. -/
def Labels (c : Course n) (target : Nat) : Prop :=
  match c.strands with
  | [] => True
  | strand :: waiting =>
    (strand.start = target → strand.Leaves ∨ strand.task = .close ∧ c.survey.isCode target) ∧
      ∀ other ∈ waiting, other.start = target → other.Leaves

/-- An instruction leads to `target`, or a word that has been visited points there. -/
def Sends (bank : Bank) (c : Course n) (words : List Nat) (target : Nat) : Prop :=
  (∃ p op, c.survey.isStart p ∧ bank.Holds p op ∧ bank.transfer? p op = some target) ∨
    ∃ word, (word ∈ words ∨ ∃ strand ∈ c.strands, ∃ k, strand.task = .claim k ∧ strand.offset = word) ∧
      bank.pointee? word = some target

/-- What every move keeps that neither runs over `target` nor abandons it. -/
structure Attends (bank : Bank) (c : Course n) (words : List Nat) (target : Nat) : Prop where
  labels : c.Served target ∨ c.Labels target
  visited : c.Sends bank words target → c.Visited target

theorem visited_of_entering {c : Course n} {target : Nat} {rest : List Strand}
    (hs : c.strands = c.survey.entering (some target) ++ rest) (hdoubt : ¬ c.InDoubt target) :
    c.Visited target := by
  by_cases hinside : c.survey.isCode target && !c.survey.isStart target
  · rw [Bool.and_eq_true, Bool.not_eq_true'] at hinside
    exact .inl (.inr ⟨hinside.1, hinside.2, hdoubt⟩)
  · rw [Survey.entering, if_neg hinside] at hs
    exact .inr ⟨.fresh target, hs ▸ List.mem_cons_self, rfl⟩

theorem labels_of_entering {s : Survey n} {target : Nat} {first : Option Nat} {strand : Strand}
    {waiting : List Strand} {r p : Nat} {a : Bool} (hs : strand.start = target → strand.Leaves)
    (hw : ∀ other ∈ waiting, other.start = target → other.Leaves) :
    (⟨s, s.entering first ++ strand :: waiting, r, p, a⟩ : Course n).Labels target := by
  rcases s.entering_eq first with he | ⟨start, -, he⟩
  · rw [he]
    exact ⟨fun h => .inl (hs h), hw⟩
  · rw [he]
    exact ⟨fun _ => .inl (Strand.leaves_fresh start), List.forall_mem_cons.2 ⟨hs, hw⟩⟩

/-- The current strand, when not yet closing, will have left its first byte when it ends. -/
theorem Labels.leaves {s : Survey n} {start offset target : Nat} {task : Task}
    {waiting : List Strand} {r p : Nat} {a : Bool}
    (h : (⟨s, ⟨start, offset, task⟩ :: waiting, r, p, a⟩ : Course n).Labels target)
    (hopen : task ≠ .close) (hstart : start = target) : (⟨start, offset, task⟩ : Strand).Leaves :=
  (h.1 hstart).resolve_right fun hclose => hopen hclose.1

end Course

namespace Move

variable {bank : Bank} {c d : Course Bank.size} {words : List Nat} {target : Nat} (h : Move bank c d)
include h

theorem not_inDoubt (hst : c.Stacked) (consistent : c.survey.Consistent)
    (apart : ¬ c.RunsOver bank target) (hcode : c.survey.isCode target) (hc : ¬ c.InDoubt target) :
    ¬ d.InDoubt target := by
  intro hdoubt
  cases hs : d.strands with
  | nil =>
    rw [Course.InDoubt, hs] at hdoubt
    exact hdoubt
  | cons strand waiting =>
    rcases h.steady_or_advance hst hs with hsteady |
      ⟨start, offset, settled, afterCall, op, t, hsc, rfl, data, holds, claimed, annotated⟩
    · exact Course.not_inDoubt_of_steady hs hsteady target hdoubt
    · rw [Course.InDoubt, hs] at hdoubt
      rcases lt_trichotomy target offset with hlt | rfl | hgt
      · refine hc ?_
        rw [Course.InDoubt, hsc]
        exact ⟨data, hdoubt.2.1, hlt⟩
      · exact Bool.false_ne_true ((consistent.isData_eq_false hcode).symm.trans data)
      · exact apart ⟨Survey.isPlain_eq_false rfl hcode, _, _, _, _, _, _, hsc, data, holds, hgt,
          hdoubt.2.2⟩

theorem served (hst : c.Stacked) (consistent : c.survey.Consistent)
    (apart : ¬ c.RunsOver bank target) (hc : c.Served target) : d.Served target := by
  rcases hc with hlabel | ⟨hcode, hstart, hdoubt⟩
  · have hplain := Survey.isPlain_eq_false rfl hlabel
    cases h with
    | undo data refuses released => exact .inl ((Survey.isLabel_of_release? released _).2 hlabel)
    | advance data holds linear claimed annotated =>
      exact .inl ((Survey.LabelsInto.of_annotate? annotated).isLabel _
        ((Survey.isLabel_of_claim? claimed _).2
          ⟨hlabel, fun hin => apart ⟨hplain, _, _, _, _, _, _, rfl, data, holds, hin⟩⟩))
    | transfer data holds nonlinear claimed =>
      exact .inl ((Survey.isLabel_of_claim? claimed _).2
        ⟨hlabel, fun hin => apart ⟨hplain, _, _, _, _, _, _, rfl, data, holds, hin⟩⟩)
    | @claim s t u start offset k waiting r p a low high =>
      by_cases hin : target = offset ∨ target = offset + 1
      · refine .inr ⟨(Survey.isCode_of_point? high _).2 (hin.imp (fun heq =>
          (Survey.isCode_of_point? low _).2 (.inr heq)) id), ?_,
          Course.not_inDoubt_of_steady rfl (by trivial) _⟩
        rw [Bool.eq_false_iff, ne_eq, Survey.isStart_of_point? high, Survey.isStart_of_point? low]
        exact fun hnot => hin.elim hnot.1.2 hnot.2
      · rw [not_or] at hin
        exact .inl ((Survey.isLabel_of_point? high _).2
          ⟨(Survey.isLabel_of_point? low _).2 ⟨hlabel, hin.1⟩, hin.2⟩)
    | finish closed => exact .inl ((Survey.LabelsInto.of_close? closed).isLabel _ hlabel)
    | _ => exact .inl hlabel
  · have hdata := consistent.isData_eq_false hcode
    have htaken : d.survey.Taken target :=
      (h.taken_or_undo ⟨Survey.isCode_lt hcode, hdata⟩).resolve_right fun hundo => hdoubt hundo.1
    refine .inr ⟨h.any_of_taken Mark.lasting_code htaken hcode, ?_,
      h.not_inDoubt hst consistent apart hcode hdoubt⟩
    rw [Bool.eq_false_iff]
    intro hs
    rcases h.isStart_or_isData hs with hs | hs
    · exact Bool.false_ne_true (hstart.symm.trans hs)
    · exact Bool.false_ne_true (hdata.symm.trans hs)

theorem labels (hin : c.Inside) (consistent : c.survey.Consistent) (hlt : target < Bank.size)
    (hlabel : c.survey.isLabel target = false) (abandons : ¬ c.Abandons bank target)
    (hc : c.Labels target) : d.Labels target := by
  cases h with
  | @arrive s start offset settled afterCall waiting r p a stop =>
    refine ⟨?_, hc.2⟩
    rintro rfl
    by_cases heq : offset = start
    · exact .inr ⟨rfl, consistent.isCode_of_isData_eq_false hlt (heq ▸ stop)⟩
    · exact .inl heq
  | @undo s t start offset settled afterCall k waiting r p a data refuses released =>
    refine ⟨?_, hc.2⟩
    rintro hstart
    have hstart : start = target := by
      rw [← hstart, Strand.undone]
      split <;> rfl
    subst hstart
    left
    have hleaves := hc.leaves (by simp) rfl
    obtain ⟨hle, -, -⟩ := hin _ List.mem_cons_self
    cases afterCall with
    | true => exact hleaves rfl
    | false =>
      have hne : settled + k ≠ start := by
        intro heq
        obtain ⟨rfl, rfl⟩ : settled = start ∧ k = 0 := by
          have hle : start ≤ settled := hle
          omega
        exact abandons ⟨hlabel, offset, waiting, rfl, data, refuses⟩
      exact hne
  | advance data holds linear claimed annotated =>
    exact ⟨fun hstart => .inl (hc.leaves (by simp) hstart), hc.2⟩
  | transfer data holds nonlinear claimed =>
    obtain ⟨hle, hle', -⟩ := hin _ List.mem_cons_self
    exact Course.labels_of_entering
      (fun _ => Strand.leaves_taskAfter _ (hle.trans hle') holds.length_pos) hc.2
  | probe word pointee =>
    exact Course.labels_of_entering (hc.leaves (by simp)) hc.2
  | @tableEnd s start offset k waiting r p a noWord =>
    refine ⟨fun hstart => .inl ?_, hc.2⟩
    have hleaves : start < offset := hc.leaves (by simp) hstart
    exact (Nat.lt_add_right k hleaves).ne'
  | @claim s t u start offset k waiting r p a low high =>
    refine ⟨fun hstart => .inl ?_, hc.2⟩
    have hleaves : start < offset := hc.leaves (by simp) hstart
    exact Nat.lt_add_right 2 hleaves
  | @finish s t start offset waiting r p a closed =>
    cases waiting with
    | nil => trivial
    | cons strand waiting =>
      obtain ⟨hfirst, hw⟩ := List.forall_mem_cons.1 hc.2
      exact ⟨fun hstart => .inl (hfirst hstart), hw⟩

theorem visited (hlabels : c.Labels target) (hstrand : ∃ strand ∈ c.strands, strand.start = target) :
    d.Visited target := by
  cases h with
  | @undo s t start offset settled afterCall k waiting r p a data refuses released =>
    refine .inr (Strand.exists_start_of_eq [] ?_ hstrand)
    unfold Strand.undone
    split <;> rfl
  | transfer data holds nonlinear claimed =>
    exact .inr (Strand.exists_start_of_eq _ (by rfl) hstrand)
  | probe word pointee => exact .inr (Strand.exists_start_of_eq _ (by rfl) hstrand)
  | @finish s t start offset waiting r p a closed =>
    rcases (List.exists_mem_cons_iff _ _ _).1 hstrand with rfl | hwaiting
    · refine .inl (.inl (Survey.isLabel_of_close? closed ?_))
      exact fun heq => ((hlabels.1 rfl).resolve_left fun hne => hne heq).2
    · exact .inr hwaiting
  | _ => exact .inr (Strand.exists_start_of_eq [] (by rfl) hstrand)

theorem sends_before (hd : d.Sends bank (words ++ c.claiming?.toList) target) :
    c.Sends bank words target ∨ d.Visited target := by
  rcases hd with ⟨p, op, hp, holds, htransfer⟩ | ⟨word, hword | ⟨strand, hmem, k, htask, rfl⟩, hpointee⟩
  · have old : c.survey.isStart p → c.Sends bank words target ∨ d.Visited target := fun hp =>
      .inl (.inl ⟨p, op, hp, holds, htransfer⟩)
    cases h with
    | undo data refuses released => exact old ((Survey.isStart_of_release? released p).1 hp).1
    | advance data holds' linear claimed annotated =>
      rw [(Survey.LabelsInto.of_annotate? annotated).isStart_eq,
        Survey.isStart_of_claim? claimed] at hp
      rcases hp with rfl | hp
      · obtain rfl := holds.unique holds'
        rw [Bank.transfer?_of_isLinear linear] at htransfer
        contradiction
      · exact old hp.1
    | transfer data holds' nonlinear claimed =>
      rcases (Survey.isStart_of_claim? claimed p).1 hp with rfl | hp
      · obtain rfl := holds.unique holds'
        exact .inr (Course.visited_of_entering (by rw [htransfer])
          (Course.not_inDoubt_of_entering (Strand.taskAfter_steady _ _ _) _))
      · exact old hp.1
    | claim low high =>
      exact old ((Survey.isStart_of_point? low p).1 ((Survey.isStart_of_point? high p).1 hp).1).1
    | finish closed =>
      rw [(Survey.LabelsInto.of_close? closed).isStart_eq] at hp
      exact old hp
    | _ => exact old hp
  · rcases List.mem_append.1 hword with hword | hclaiming
    · exact .inl (.inr ⟨word, .inl hword, hpointee⟩)
    · obtain ⟨start, k, waiting, hs⟩ := Course.exists_of_claiming? (Option.mem_toList.1 hclaiming)
      exact .inl (.inr ⟨word, .inr ⟨_, hs ▸ List.mem_cons_self, k, rfl, rfl⟩, hpointee⟩)
  · rcases h.mem_claim_before hmem htask with hold |
      ⟨-, first, rest, hfirst, hsurvey, hstrands, hdoubt⟩
    · exact .inl (.inr ⟨_, .inr ⟨strand, hold, k, htask, rfl⟩, hpointee⟩)
    · obtain rfl := Option.some.inj (hfirst.symm.trans hpointee)
      exact .inr (Course.visited_of_entering (hsurvey ▸ hstrands) (hdoubt _))

theorem attends (hsound : c.Sound bank) (consistent : c.survey.Consistent) (hlt : target < Bank.size)
    (apart : ¬ c.RunsOver bank target) (abandons : ¬ c.Abandons bank target)
    (hc : c.Attends bank words target) : d.Attends bank (words ++ c.claiming?.toList) target := by
  have served : c.Served target → d.Served target := h.served hsound.stacked consistent apart
  refine ⟨?_, fun hd => ?_⟩
  · rcases hc.labels with hserved | hlabels
    · exact .inl (served hserved)
    · cases hlabel : c.survey.isLabel target with
      | true => exact .inl (served (.inl hlabel))
      | false => exact .inr (h.labels hsound.inside consistent hlt hlabel abandons hlabels)
  · rcases h.sends_before hd with hsends | hvisited
    · rcases hc.visited hsends, hc.labels with ⟨hserved | hstrand, hserved' | hlabels⟩
      · exact .inl (served hserved)
      · exact .inl (served hserved)
      · exact .inl (served hserved')
      · exact h.visited hlabels hstrand
    · exact hvisited

end Move

namespace Course

variable {bank : Bank} {s : Survey Bank.size} {r p target : Nat} {a : Bool} {words : List Nat}

theorem attends_of_seed? {seeds : Seeds}
    (h : Analysis.seed? (.blank Bank.size) seeds.slots = some s) :
    (⟨s, [], 0, 0, false⟩ : Course Bank.size).Attends bank [] target where
  labels := .inr trivial
  visited hsends := by
    rcases hsends with ⟨p, op, hp, -⟩ | ⟨word, hword | ⟨strand, hmem, -⟩, -⟩
    · exact absurd ((Analysis.isStart_of_seed? h p).symm.trans hp) Bool.false_ne_true
    · exact absurd hword List.not_mem_nil
    · exact absurd hmem List.not_mem_nil

theorem Attends.sent (h : (⟨s, [], r, p, a⟩ : Course Bank.size).Attends bank words target)
    {slot first : Nat} (hfirst : bank.pointee? slot = some first) :
    (⟨s, s.entering (some first), r, p, false⟩ : Course Bank.size).Attends bank (words ++ [slot])
      target where
  labels := by
    right
    rcases s.entering_eq (some first) with he | ⟨start, -, he⟩
    · rw [Labels, he]
      trivial
    · rw [Labels, he]
      exact ⟨fun _ => .inl (Strand.leaves_fresh start), List.forall_mem_nil _⟩
  visited hsends := by
    have hdoubt := not_inDoubt_of_sent s (some first) r p false target
    have old : (⟨s, [], r, p, a⟩ : Course Bank.size).Sends bank words target →
        (⟨s, s.entering (some first), r, p, false⟩ : Course Bank.size).Visited target := by
      intro hsends
      rcases h.visited hsends with (hlabel | ⟨hcode, hstart, -⟩) | ⟨strand, hmem, -⟩
      · exact .inl (.inl hlabel)
      · exact .inl (.inr ⟨hcode, hstart, hdoubt⟩)
      · exact absurd hmem List.not_mem_nil
    rcases hsends with hstart | ⟨word, hword | ⟨strand, hmem, k, htask, -⟩, hpointee⟩
    · exact old (.inl hstart)
    · rcases List.mem_append.1 hword with hword | hword
      · exact old (.inr ⟨word, .inl hword, hpointee⟩)
      · obtain rfl := List.mem_singleton.1 hword
        obtain rfl := Option.some.inj (hfirst.symm.trans hpointee)
        exact visited_of_entering (List.append_nil _).symm hdoubt
    · have hmem : strand ∈ s.entering (some first) := hmem
      obtain ⟨start, -, rfl⟩ := Survey.eq_fresh_of_mem_entering hmem
      cases htask

/-- Targets are attended throughout an analysis, until an instruction runs over them or they are
abandoned. -/
theorem keptUnless_attends (bank : Bank) (seeds : Seeds) (hlt : target < Bank.size) :
    Course.KeptUnless bank seeds (fun c _ => c.RunsOver bank target ∨ c.Abandons bank target)
      fun c words => (c.Topped ∧ c.Orderly bank) ∧ c.Attends bank words target where
  seeded h := ⟨(kept_orderly bank seeds).seeded h, attends_of_seed? h⟩
  sent hslot hpointee h := ⟨(kept_orderly bank seeds).sent hslot hpointee h.1, h.2.sent hpointee⟩
  moved hsound hmove keeps h := by
    rw [not_or] at keeps
    exact ⟨(kept_orderly bank seeds).moved hsound hmove h.1,
      hmove.attends hsound h.1.2.consistent hlt keeps.1 keeps.2 h.2⟩

end Course

/-- Where an instruction transfers control to in the end, or a word of a table points to, be it seeded or
recovered, there is a label if there is an instruction; unless at some step an instruction runs over
this byte, which is more than plain data, or a strand from there is abandoned because of a byte of no
length. -/
theorem Bank.analyze?_labels_targets (bank : Bank) (seeds : Seeds) :
    ∃ a, bank.analyze? seeds = some a ∧ ∀ target, a.survey.isStart target →
      ((∃ p op, a.survey.isStart p ∧ bank.opcode? p = some op ∧ bank.transfer? p op = some target) ∨
        ∃ slot ∈ seeds.slots ++ a.recoveredSlots, bank.pointee? slot = some target) →
      a.survey.isLabel target ∨ Analysis.Meets bank seeds fun y _ =>
        y.course.RunsOver bank target ∨ y.course.Abandons bank target := by
  obtain ⟨s, x, -, -, ha⟩ := bank.analyze?_eq_some seeds
  obtain ⟨a, ha⟩ : ∃ a, bank.analyze? seeds = some a := ⟨_, ha⟩
  refine ⟨a, ha, fun target hstart hsends => ?_⟩
  obtain ⟨x, hx, hend, ⟨words, hwords, ⟨-, horderly⟩, hattends⟩ | hmeets⟩ :=
    (Course.keptUnless_attends bank seeds (Survey.lt_of_any hstart)).exists_analyze?
  · left
    obtain rfl := Option.some.inj (ha.symm.trans hx)
    have hlabels := Survey.LabelsInto.of_labelBoundaries x.survey
    have isStart : ∀ {i}, (Analysis.ofExploration x).survey.isStart i → x.survey.isStart i := fun hi =>
      (hlabels.isStart_eq _).symm.trans hi
    have hvisited : x.course.Visited target := by
      refine hattends.visited ?_
      rcases hsends with ⟨p, op, hp, hop, htransfer⟩ | ⟨slot, hslot, hpointee⟩
      · obtain ⟨op', hintact⟩ := horderly.tidy p (isStart hp)
        obtain rfl := Option.some.inj (hop.symm.trans hintact.holds.opcode)
        exact .inl ⟨p, _, isStart hp, hintact.holds, htransfer⟩
      · exact .inr ⟨slot, .inl ((hwords slot).2 (List.mem_append.1 hslot)), hpointee⟩
    rcases hvisited with (hlabel | ⟨-, noStart, -⟩) | ⟨strand, hmem, -⟩
    · exact hlabels.isLabel target hlabel
    · exact absurd (noStart.symm.trans (isStart hstart)) Bool.false_ne_true
    · rw [Exploration.course, hend] at hmem
      exact absurd hmem List.not_mem_nil
  · exact .inr hmeets

/-- Calls to the `RTS` at `$C012`, to the byte before it, to `LDA #$A9` at `$C00C`, and into the middle of
it. Straight-line code from `$C00C` and from `$C011` runs into a byte `$02`, which is no code; the one
before `$C012` leads to the `RTS`. -/
def strandedProgram : Nat → UInt8
  | 0 | 3 | 6 | 9 => 0x20
  | 1 => 0x12
  | 4 => 0x11
  | 7 | 0x3FFA => 0x0C
  | 10 => 0x0D
  | 2 | 5 | 8 | 11 | 0x3FFB | 0x3FFD | 0x3FFF => 0xC0
  | 12 | 13 | 16 | 17 => 0xA9
  | 14 | 19 => 0x02
  | 15 | 18 => 0x60
  | 0x3FFE => 0x10
  | _ => 0

def strandedBank : Bank := ⟨Vector.ofFn fun i => strandedProgram i⟩

theorem pointee?_strandedBank {i : Nat} (h : i + 1 < Bank.size) :
    strandedBank.pointee? i = some (Bank.offsetOf
      ((strandedProgram i).toNat + 0x100 * (strandedProgram (i + 1)).toNat)) :=
  Bank.pointee?_ofFn strandedProgram h

section Moves

variable {s t : Survey Bank.size} {i start settled r p : Nat} {afterCall a : Bool}
  {waiting : List Strand}

theorem strandedBank_calls {target : Nat} (hop : Opcode.ofByte (strandedProgram i) = .jsr)
    (hlt : i + 3 < Bank.size) (hpointee : strandedBank.pointee? (i + 1) = some target)
    (data : s.isData i) (claimed : s.claim? i 3 = some t) :
    Move strandedBank ⟨s, ⟨start, i, .decode settled afterCall⟩ :: waiting, r, p, a⟩
      ⟨t, t.entering (some target) ++ ⟨start, i + 3, .decode (i + 3) true⟩ :: waiting, r, p, a⟩ := by
  have holds : strandedBank.Holds i .jsr :=
    .ofFn strandedProgram hop (by decide) (by omega) hlt.le
  have htransfer : strandedBank.transfer? i .jsr = some target := hpointee
  exact htransfer ▸ .transfer data holds rfl claimed

theorem strandedBank_loads (hop : strandedProgram i = 0xA9) (hlt : i + 2 < Bank.size)
    (data : s.isData i) (claimed : s.claim? i 2 = some t) :
    Move strandedBank ⟨s, ⟨start, i, .decode settled afterCall⟩ :: waiting, r, p, a⟩
      ⟨t, ⟨start, i + 2, .decode settled afterCall⟩ :: waiting, r, p, a⟩ := by
  obtain ⟨op, hload, hcontrol, hlength⟩ : ∃ op, Opcode.ofByte 0xA9 = op ∧ op.control = .next ∧
      op.length = 2 := ⟨_, rfl, by decide +kernel, by decide +kernel⟩
  have holds : strandedBank.Holds i op :=
    .ofFn strandedProgram (by rw [hop, hload]) (by rw [hcontrol]; decide) (by omega)
      (by rw [hlength]; exact hlt.le)
  have hmove : Move strandedBank ⟨s, ⟨start, i, .decode settled afterCall⟩ :: waiting, r, p, a⟩ _ :=
    .advance data holds (by rw [hcontrol]; rfl) (by rw [hlength]; exact claimed)
      (if_neg (by rw [hcontrol]; decide))
  rwa [hlength] at hmove

theorem strandedBank_returns (hop : strandedProgram i = 0x60) (hlt : i + 1 < Bank.size)
    (data : s.isData i) (claimed : s.claim? i 1 = some t) :
    Move strandedBank ⟨s, ⟨start, i, .decode settled afterCall⟩ :: waiting, r, p, a⟩
      ⟨t, ⟨start, i + 1, .close⟩ :: waiting, r, p, a⟩ := by
  obtain ⟨op, hret, hcontrol, hlength⟩ : ∃ op, Opcode.ofByte 0x60 = op ∧ op.control = .ret ∧
      op.length = 1 := ⟨_, rfl, by decide +kernel, by decide +kernel⟩
  have holds : strandedBank.Holds i op :=
    .ofFn strandedProgram (by rw [hop, hret]) (by rw [hcontrol]; decide) (by omega)
      (by rw [hlength]; exact hlt.le)
  have htransfer : strandedBank.transfer? i op = none := by rw [Bank.transfer?, hcontrol]
  have hmove : Move strandedBank ⟨s, ⟨start, i, .decode settled afterCall⟩ :: waiting, r, p, a⟩ _ :=
    .transfer data holds (by rw [hcontrol]; rfl) (by rw [hlength]; exact claimed)
  rwa [htransfer, hcontrol, hlength] at hmove

theorem strandedBank_abandoned (hop : strandedProgram i = 0xA9) (hnone : strandedProgram (i + 2) = 0x02)
    (hlt : i + 2 < Bank.size) (plain : s.mark? i = some .plain)
    (plain' : s.mark? (i + 2) = some .plain) :
    ∃ t, (∀ j, t.mark? j = if j = i + 1 then some .plain else s.mark? j) ∧
      ∀ waiting r p a, Relation.ReflTransGen (Move strandedBank) ⟨s, .fresh i :: waiting, r, p, a⟩
        ⟨t, waiting, r + 1, p, false⟩ := by
  obtain ⟨t₁, h₁⟩ : ∃ t, s.claim? i 2 = some t := Survey.exists_claim? (by decide) hlt.le
  obtain ⟨t₂, h₂⟩ : ∃ t, t₁.release? i (i + 2) = some t := Survey.exists_release? (by omega) hlt
  have marks₁ := fun j => Survey.mark?_of_claim? h₁ j
  have marks₂ := fun j => Survey.mark?_of_release? h₂ j
  have marks : ∀ j, t₂.mark? j = if j = i + 1 then some .plain else s.mark? j := by
    intro j
    rw [marks₂, marks₁]
    by_cases hin : i ≤ j ∧ j ≤ i + 2
    · obtain rfl | rfl | rfl : j = i ∨ j = i + 1 ∨ j = i + 2 := by omega
      · rw [if_pos hin, if_pos rfl, if_neg (by omega), plain]
        rfl
      · obtain ⟨m, hm⟩ := s.exists_mark? (by omega : i + 1 < Bank.size)
        rw [if_pos hin, if_neg (by omega), if_pos (by omega), if_pos rfl, hm]
        rfl
      · rw [if_pos hin, if_neg (by omega), if_neg (by omega), if_neg (by omega), plain']
        rfl
    · rw [if_neg hin, if_neg (by omega), if_neg (by omega), if_neg (by omega)]
  have data₀ := Survey.isData_of_plain plain
  have data₁ : t₁.isData (i + 2) := by
    rw [Survey.isData, marks₁, if_neg (by omega), if_neg (by omega), plain']
    rfl
  have refuses : strandedBank.Refuses (i + 2) 0 := by
    refine .unfit (Bank.opcode?_ofFn strandedProgram hlt) (.inl ?_)
    rw [hnone]
    decide +kernel
  have closed : t₂.close? i i = some t₂ := by
    have noCode : t₂.isCode i = false := by
      rw [Survey.isCode, marks, if_neg (Nat.lt_succ_self i).ne, plain]
      rfl
    rw [Survey.close?, noCode, bne_self_eq_false]
    rfl
  refine ⟨t₂, marks, fun waiting r p a => ?_⟩
  have move₁ : Move strandedBank ⟨s, .fresh i :: waiting, r, p, a⟩ _ :=
    strandedBank_loads hop hlt data₀ h₁
  have move₂ : Move strandedBank ⟨t₁, ⟨i, i + 2, .decode i false⟩ :: waiting, r, p, a⟩
      ⟨t₂, ⟨i, i, .close⟩ :: waiting, r + 1, p, a⟩ := .undo data₁ refuses h₂
  have move₃ : Move strandedBank ⟨t₂, ⟨i, i, .close⟩ :: waiting, r + 1, p, a⟩
      ⟨t₂, waiting, r + 1, p, i != i⟩ := .finish closed
  rw [bne_self_eq_false] at move₃
  exact .head move₁ (.head move₂ (.single move₃))

def halfwayMarks : Nat → Mark
  | 0 | 3 => { code := true, start := true }
  | 1 | 2 | 4 | 5 => { code := true }
  | _ => .plain

/-- The `RTS` is labelled, and then run over by a strand that is given up. -/
theorem strandedBank_halfway (plain : ∀ i < 20, s.mark? i = some .plain) :
    ∃ t, (∀ i < 20, t.mark? i = some (halfwayMarks i)) ∧
      Relation.ReflTransGen (Move strandedBank) ⟨s, [.fresh 0], r, p, a⟩
        ⟨t, [⟨0, 6, .decode 6 true⟩], r + 1, p, false⟩ := by
  obtain ⟨t₁, h₁⟩ : ∃ t, s.claim? 0 3 = some t := Survey.exists_claim? (by decide) (by decide)
  obtain ⟨t₂, h₂⟩ : ∃ t, t₁.claim? 18 1 = some t := Survey.exists_claim? (by decide) (by decide)
  obtain ⟨t₃, h₃⟩ : ∃ t, t₂.label? 18 = some t := Survey.exists_label? (by decide)
  obtain ⟨t₄, h₄⟩ : ∃ t, t₃.claim? 3 3 = some t := Survey.exists_claim? (by decide) (by decide)
  have marks₁ := fun i => Survey.mark?_of_claim? h₁ i
  have marks₂ := fun i => Survey.mark?_of_claim? h₂ i
  have marks₃ := fun i => Survey.mark?_of_label? h₃ i
  have marks₄ := fun i => Survey.mark?_of_claim? h₄ i
  have plain₁ : t₁.mark? 18 = some .plain := by
    rw [marks₁, plain 18 (by decide)]
    rfl
  have plain₃ : t₃.mark? 3 = some .plain := by
    rw [marks₃, marks₂, marks₁, plain 3 (by decide)]
    rfl
  have plain₄ : ∀ i, i = 17 ∨ i = 19 → t₄.mark? i = some .plain := by
    rintro i (rfl | rfl)
    · rw [marks₄, marks₃, marks₂, marks₁, plain 17 (by decide)]
      rfl
    · rw [marks₄, marks₃, marks₂, marks₁, plain 19 (by decide)]
      rfl
  obtain ⟨t₅, marks₅, abandoned⟩ := strandedBank_abandoned rfl rfl (by decide) (plain₄ 17 (.inl rfl))
    (plain₄ 19 (.inr rfl))
  refine ⟨t₅, fun i hi => ?_, ?_⟩
  · rw [marks₅, marks₄, marks₃, marks₂, marks₁, plain i hi]
    interval_cases i <;> rfl
  · have move₁ : Move strandedBank ⟨s, [.fresh 0], r, p, a⟩ _ :=
      strandedBank_calls (by decide +kernel) (by decide) (pointee?_strandedBank (by decide))
        (Survey.isData_of_plain (plain 0 (by decide))) h₁
    rw [show Bank.offsetOf _ = 18 from rfl, Survey.entering_of_plain plain₁] at move₁
    have move₂ : Move strandedBank ⟨t₁, [.fresh 18, ⟨0, 3, .decode 3 true⟩], r, p, a⟩
        ⟨t₂, [⟨18, 19, .close⟩, ⟨0, 3, .decode 3 true⟩], r, p, a⟩ :=
      strandedBank_returns rfl (by decide) (Survey.isData_of_plain plain₁) h₂
    have move₃ : Move strandedBank ⟨t₂, [⟨18, 19, .close⟩, ⟨0, 3, .decode 3 true⟩], r, p, a⟩
        ⟨t₃, [⟨0, 3, .decode 3 true⟩], r, p, true⟩ := .finish h₃
    have move₄ : Move strandedBank ⟨t₃, [⟨0, 3, .decode 3 true⟩], r, p, true⟩ _ :=
      strandedBank_calls (by decide +kernel) (by decide) (pointee?_strandedBank (by decide))
        (Survey.isData_of_plain plain₃) h₄
    rw [show Bank.offsetOf _ = 17 from rfl, Survey.entering_of_plain (plain₄ 17 (.inl rfl))] at move₄
    exact .head move₁ (.head move₂ (.head move₃ (.head move₄ (abandoned _ _ _ _))))

end Moves

def strandedMarks : Nat → Mark
  | 0 => { code := true, label := true, start := true }
  | 3 | 6 | 9 | 12 | 15 => { code := true, start := true }
  | 16 | 17 | 18 | 19 => .plain
  | _ => { code := true }

/-- The strand from the first call comes to `$C00C` when the byte behind is an operand. -/
theorem strandedBank_explored {s : Survey Bank.size} (plain : ∀ i < 20, s.mark? i = some .plain)
    (r p : Nat) : ∃ t, (∀ i < 20, t.mark? i = some (strandedMarks i)) ∧
      Relation.ReflTransGen (Move strandedBank) ⟨s, [.fresh 0], r, p, false⟩
        ⟨t, [], r + 2, p, true⟩ := by
  obtain ⟨s, marks, halfway⟩ := strandedBank_halfway (r := r) (p := p) (a := false) plain
  have plain : ∀ i, 6 ≤ i → i < 20 → s.mark? i = some .plain := by
    intro i hlo hhi
    rw [marks i hhi]
    interval_cases i <;> rfl
  obtain ⟨t₁, h₁⟩ : ∃ t, s.claim? 6 3 = some t := Survey.exists_claim? (by decide) (by decide)
  have marks₁ := fun i => Survey.mark?_of_claim? h₁ i
  have plain₁ : ∀ i, 9 ≤ i → i < 20 → t₁.mark? i = some .plain := fun i hlo hhi => by
    rw [marks₁, if_neg (by omega), if_neg (by omega), plain i (by omega) hhi]
  obtain ⟨t₂, marks₂, abandoned⟩ := strandedBank_abandoned rfl rfl (by decide)
    (plain₁ 12 (by decide) (by decide)) (plain₁ 14 (by decide) (by decide))
  have plain₂ : ∀ i, 9 ≤ i → i < 20 → t₂.mark? i = some .plain := fun i hlo hhi => by
    rw [marks₂, plain₁ i hlo hhi, ite_self]
  obtain ⟨t₃, h₃⟩ : ∃ t, t₂.claim? 9 3 = some t := Survey.exists_claim? (by decide) (by decide)
  obtain ⟨t₄, h₄⟩ : ∃ t, t₃.claim? 13 2 = some t := Survey.exists_claim? (by decide) (by decide)
  obtain ⟨t₅, h₅⟩ : ∃ t, t₄.claim? 15 1 = some t := Survey.exists_claim? (by decide) (by decide)
  obtain ⟨t₆, h₆⟩ : ∃ t, t₅.label? 13 = some t := Survey.exists_label? (by decide)
  obtain ⟨t₇, h₇⟩ : ∃ t, t₆.claim? 12 2 = some t := Survey.exists_claim? (by decide) (by decide)
  obtain ⟨t₈, h₈⟩ : ∃ t, t₇.label? 0 = some t := Survey.exists_label? (by decide)
  have marks₃ := fun i => Survey.mark?_of_claim? h₃ i
  have marks₄ := fun i => Survey.mark?_of_claim? h₄ i
  have marks₅ := fun i => Survey.mark?_of_claim? h₅ i
  have marks₆ := fun i => Survey.mark?_of_label? h₆ i
  have marks₇ := fun i => Survey.mark?_of_claim? h₇ i
  have marks₈ := fun i => Survey.mark?_of_label? h₈ i
  have plain₃ : t₃.mark? 13 = some .plain := by
    rw [marks₃, plain₂ 13 (by decide) (by decide)]
    rfl
  have plain₄ : t₄.mark? 15 = some .plain := by
    rw [marks₄, marks₃, plain₂ 15 (by decide) (by decide)]
    rfl
  have plain₆ : t₆.mark? 12 = some .plain := by
    rw [marks₆, marks₅, marks₄, marks₃, plain₂ 12 (by decide) (by decide)]
    rfl
  have stop : t₇.isData 14 = false := by
    rw [Survey.isData, marks₇, marks₆, marks₅, marks₄, marks₃, plain₂ 14 (by decide) (by decide)]
    rfl
  refine ⟨t₈, fun i hi => ?_, ?_⟩
  · rw [marks₈, marks₇, marks₆, marks₅, marks₄, marks₃, marks₂, marks₁, marks i hi]
    interval_cases i <;> rfl
  · have move₁ : Move strandedBank ⟨s, [⟨0, 6, .decode 6 true⟩], r + 1, p, false⟩ _ :=
      strandedBank_calls (by decide +kernel) (by decide) (pointee?_strandedBank (by decide))
        (Survey.isData_of_plain (plain 6 le_rfl (by decide))) h₁
    rw [show Bank.offsetOf _ = 12 from rfl,
      Survey.entering_of_plain (plain₁ 12 (by decide) (by decide))] at move₁
    have move₂ : Move strandedBank ⟨t₂, [⟨0, 9, .decode 9 true⟩], r + 2, p, false⟩ _ :=
      strandedBank_calls (by decide +kernel) (by decide) (pointee?_strandedBank (by decide))
        (Survey.isData_of_plain (plain₂ 9 le_rfl (by decide))) h₃
    rw [show Bank.offsetOf _ = 13 from rfl, Survey.entering_of_plain plain₃] at move₂
    have move₃ : Move strandedBank ⟨t₃, [.fresh 13, ⟨0, 12, .decode 12 true⟩], r + 2, p, false⟩ _ :=
      strandedBank_loads rfl (by decide) (Survey.isData_of_plain plain₃) h₄
    have move₄ : Move strandedBank
        ⟨t₄, [⟨13, 15, .decode 13 false⟩, ⟨0, 12, .decode 12 true⟩], r + 2, p, false⟩ _ :=
      strandedBank_returns rfl (by decide) (Survey.isData_of_plain plain₄) h₅
    have move₅ : Move strandedBank
        ⟨t₅, [⟨13, 16, .close⟩, ⟨0, 12, .decode 12 true⟩], r + 2, p, false⟩
        ⟨t₆, [⟨0, 12, .decode 12 true⟩], r + 2, p, true⟩ := .finish h₆
    have move₆ : Move strandedBank ⟨t₆, [⟨0, 12, .decode 12 true⟩], r + 2, p, true⟩ _ :=
      strandedBank_loads rfl (by decide) (Survey.isData_of_plain plain₆) h₇
    have move₇ : Move strandedBank ⟨t₇, [⟨0, 14, .decode 12 true⟩], r + 2, p, true⟩
        ⟨t₇, [⟨0, 14, .close⟩], r + 2, p, true⟩ := .arrive stop
    have move₈ : Move strandedBank ⟨t₇, [⟨0, 14, .close⟩], r + 2, p, true⟩
        ⟨t₈, [], r + 2, p, true⟩ := .finish h₈
    have later : Relation.ReflTransGen (Move strandedBank)
        ⟨t₂, [⟨0, 9, .decode 9 true⟩], r + 2, p, false⟩ ⟨t₈, [], r + 2, p, true⟩ :=
      .head move₂ (.head move₃ (.head move₄ (.head move₅ (.head move₆ (.head move₇
        (.single move₈))))))
    exact halfway.trans (.head move₁ ((abandoned _ _ _ _).trans later))

def lastMarks : Nat → Mark
  | 16 => { code := true, label := true, start := true }
  | 17 => { code := true }
  | 18 => { code := true, start := true }
  | i => strandedMarks i

theorem strandedBank_followed {s : Survey Bank.size}
    (marks : ∀ i < 20, s.mark? i = some (strandedMarks i)) (r p : Nat) :
    ∃ t, (∀ i < 20, t.mark? i = some (lastMarks i)) ∧
      Relation.ReflTransGen (Move strandedBank) ⟨s, [.fresh 16], r, p, false⟩
        ⟨t, [], r, p, true⟩ := by
  obtain ⟨t₁, h₁⟩ : ∃ t, s.claim? 16 2 = some t := Survey.exists_claim? (by decide) (by decide)
  obtain ⟨t₂, h₂⟩ : ∃ t, t₁.claim? 18 1 = some t := Survey.exists_claim? (by decide) (by decide)
  obtain ⟨t₃, h₃⟩ : ∃ t, t₂.label? 16 = some t := Survey.exists_label? (by decide)
  have marks₁ := fun i => Survey.mark?_of_claim? h₁ i
  have marks₂ := fun i => Survey.mark?_of_claim? h₂ i
  have marks₃ := fun i => Survey.mark?_of_label? h₃ i
  have plain₁ : t₁.mark? 18 = some .plain := by
    rw [marks₁, marks 18 (by decide)]
    rfl
  refine ⟨t₃, fun i hi => ?_, ?_⟩
  · rw [marks₃, marks₂, marks₁, marks i hi]
    interval_cases i <;> rfl
  · have move₁ : Move strandedBank ⟨s, [.fresh 16], r, p, false⟩ _ :=
      strandedBank_loads rfl (by decide) (Survey.isData_of_plain (marks 16 (by decide))) h₁
    have move₂ : Move strandedBank ⟨t₁, [⟨16, 18, .decode 16 false⟩], r, p, false⟩
        ⟨t₂, [⟨16, 19, .close⟩], r, p, false⟩ :=
      strandedBank_returns rfl (by decide) (Survey.isData_of_plain plain₁) h₂
    have move₃ : Move strandedBank ⟨t₂, [⟨16, 19, .close⟩], r, p, false⟩ ⟨t₃, [], r, p, true⟩ :=
      .finish h₃
    exact .head move₁ (.head move₂ (.single move₃))

/-- In the end two calls lead to instructions that have no label. From the first target, to which a
vector leads too, a strand was abandoned; the second was run over. -/
theorem exists_unlabelled_targets : ∃ a, strandedBank.analyze? .empty = some a ∧
    (∀ call ∈ [(6, 12), (0, 18)], a.survey.isStart call.1 ∧
      strandedBank.opcode? call.1 = some .jsr ∧ strandedBank.transfer? call.1 .jsr = some call.2 ∧
      a.survey.isStart call.2 ∧ a.survey.isLabel call.2 = false) ∧
    0x3FFA ∈ Seeds.empty.slots ∧ a.survey.isPointer 0x3FFA ∧ a.survey.isPointer 0x3FFB ∧
      strandedBank.pointee? 0x3FFA = some 12 := by
  obtain ⟨s, x, hseed, hexplores, ha⟩ := strandedBank.analyze?_eq_some .empty
  have hlast := hexplores.leads (Q := fun slots s =>
    (slots = [0x3FFA, 0x3FFC, 0x3FFE] ∨ slots = [0x3FFC, 0x3FFE]) ∧
        (∀ i < 20, s.mark? i = some .plain) ∨
      slots = [0x3FFE] ∧ (∀ i < 20, s.mark? i = some (strandedMarks i)) ∨
      slots = [] ∧ ∀ i < 20, s.mark? i = some (lastMarks i))
    (.inl ⟨.inl rfl, fun i hi => Analysis.mark?_of_seed?_empty hseed (hi.trans (by decide))⟩) ?_
  · obtain ⟨⟨⟨⟩⟩ | ⟨⟨⟩⟩, -⟩ | ⟨⟨⟩, -⟩ | ⟨-, hmarks⟩ := hlast
    have start : ∀ i < 20, (lastMarks i).start → (Analysis.ofExploration x).survey.isStart i := by
      intro i hi hstart
      refine ((Survey.LabelsInto.of_labelBoundaries x.survey).isStart_eq i).trans ?_
      rw [Survey.isStart, hmarks i hi]
      exact hstart
    have noLabel : ∀ i < 20, (lastMarks i).data = false → (lastMarks i).label = false →
        (Analysis.ofExploration x).survey.isLabel i = false := by
      intro i hi hdata hlabel
      have htaken : x.survey.Taken i := by
        refine ⟨hi.trans (by decide), ?_⟩
        rw [Survey.isData, hmarks i hi]
        exact hdata
      refine (congrArg (Option.any Mark.label)
        ((x.survey.mark?_labelBoundaries_of_taken htaken).trans (hmarks i hi))).trans hlabel
    have pointer : ∀ i, PointerTable.vectors.offset ≤ i → i < Bank.size →
        (Analysis.ofExploration x).survey.isPointer i := by
      intro i hlo hhi
      rw [Survey.isPointer, Analysis.mark?_vectors ha hlo hhi]
      rfl
    refine ⟨_, ha, ?_, List.mem_cons_self, pointer _ (by decide) (by decide),
      pointer _ (by decide) (by decide), pointee?_strandedBank (by decide)⟩
    rw [List.forall_mem_cons, List.forall_mem_singleton]
    exact ⟨⟨start 6 (by decide) rfl, Bank.opcode?_ofFn strandedProgram (by decide),
        pointee?_strandedBank (by decide), start 12 (by decide) rfl, noLabel 12 (by decide) rfl rfl⟩,
      ⟨start 0 (by decide) rfl, Bank.opcode?_ofFn strandedProgram (by decide),
        pointee?_strandedBank (by decide), start 18 (by decide) rfl, noLabel 18 (by decide) rfl rfl⟩⟩
  · rintro slot slots s r p (⟨hslots | hslots, plain⟩ | ⟨hslots, marks⟩ | ⟨hslots, -⟩) <;> cases hslots
    · -- The first vector leads to `$C00C`, which is given up.
      obtain ⟨t, ht, abandoned⟩ := strandedBank_abandoned rfl rfl (by decide) (plain 12 (by decide))
        (plain 14 (by decide))
      have hplain : ∀ i < 20, t.mark? i = some .plain := fun i hi => by
        rw [ht, plain i hi, ite_self]
      exact ⟨12, t, _, _, _, pointee?_strandedBank (by decide), .inl ⟨.inr rfl, hplain⟩,
        Survey.entering_of_plain (plain 12 (by decide)) ▸ abandoned _ _ _ _⟩
    · obtain ⟨t, ht, hmoves⟩ := strandedBank_explored plain r p
      exact ⟨0, t, _, _, _, pointee?_strandedBank (by decide), .inr (.inl ⟨rfl, ht⟩),
        Survey.entering_of_plain (plain 0 (by decide)) ▸ hmoves⟩
    · obtain ⟨t, ht, hmoves⟩ := strandedBank_followed marks r p
      exact ⟨16, t, _, _, _, pointee?_strandedBank (by decide), .inr (.inr ⟨rfl, ht⟩),
        Survey.entering_of_plain (marks 16 (by decide)) ▸ hmoves⟩

end BankTrace
