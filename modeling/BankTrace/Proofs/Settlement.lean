import BankTrace.Proofs.Spans

namespace BankTrace

variable {n : Nat}

/-- A question that instructions, labels and pointers leave answered "yes"; only giving a byte back
to data can change that. -/
structure Mark.Lasting (p : Mark → Bool) : Prop where
  asStart : ∀ m, p m → p m.asStart
  asOperand : ∀ m, p m → p m.asOperand
  labelled : ∀ m, p m.labelled = p m
  codePointer : p .codePointer

theorem Mark.lasting_code : Lasting Mark.code :=
  ⟨fun _ _ => rfl, fun _ _ => rfl, fun _ => rfl, rfl⟩

theorem Mark.lasting_pointer : Lasting Mark.pointer :=
  ⟨fun _ => id, fun _ => id, fun _ => rfl, rfl⟩

namespace Survey

variable {s t : Survey n} {p : Mark → Bool} {first last length offset i : Nat}

theorem any_claim?_of_lasting (hp : Mark.Lasting p) (claimed : s.claim? first length = some t)
    (hi : (s.mark? i).any p) : (t.mark? i).any p := by
  obtain ⟨m, hm, hpm⟩ := (Option.any_eq_true _ _).1 hi
  rw [any_of_claim? claimed, hm]
  split_ifs
  · exact hp.asStart m hpm
  · exact hp.asOperand m hpm
  · exact hpm

theorem any_point?_of_lasting (hp : Mark.Lasting p) (pointed : s.point? offset = some t)
    (hi : (s.mark? i).any p) : (t.mark? i).any p := by
  rw [mark?_of_point? pointed]
  split_ifs
  · exact hp.codePointer
  · exact hi

theorem Taken.mark?_of_release? (hi : t.Taken i) (released : s.release? first last = some t) :
    t.mark? i = s.mark? i := by
  rw [Survey.mark?_of_release? released, if_neg]
  intro hin
  exact hi.not_isData ((isData_of_release? released i).2 (.inr hin))

/-- What reads memory labels data only. -/
theorem mark?_of_annotate? {bank : Bank} {op : Opcode} (h : s.annotate? bank offset op = some t)
    (hi : s.isCode i) : t.mark? i = s.mark? i := by
  unfold annotate? at h
  split at h
  · simp only [refer?, Option.bind_eq_bind, Option.bind_eq_some_iff] at h
    obtain ⟨isCartridge, -, target, -, h⟩ := h
    split at h
    · rename_i hcond
      simp only [Bool.and_eq_true, Bool.not_eq_true'] at hcond
      have hne : i ≠ target := by
        rintro rfl
        rw [hi] at hcond
        exact Bool.false_ne_true hcond.1.2.symm
      rw [mark?_of_label? h, if_neg hne]
    · rw [Option.some.inj h]
  · rw [Option.some.inj h]

theorem mark?_of_close? {start : Nat} (h : s.close? start offset = some t) (hi : start ≠ i) :
    t.mark? i = s.mark? i := by
  unfold close? at h
  split at h
  · rw [mark?_of_label? h, if_neg hi.symm]
  · rw [Option.some.inj h]

end Survey

namespace Move

variable {bank : Bank} {c d : Course n} {p : Mark → Bool} {i : Nat}

theorem any_of_taken (h : Move bank c d) (hp : Mark.Lasting p) (hd : d.survey.Taken i)
    (hi : (c.survey.mark? i).any p) : (d.survey.mark? i).any p := by
  cases h with
  | undo data refuses released => rwa [hd.mark?_of_release? released]
  | advance data holds linear claimed annotated =>
    rw [(Survey.LabelsInto.of_annotate? annotated).any_eq i hp.labelled]
    exact Survey.any_claim?_of_lasting hp claimed hi
  | transfer data holds nonlinear claimed => exact Survey.any_claim?_of_lasting hp claimed hi
  | claim low high =>
    exact Survey.any_point?_of_lasting hp high (Survey.any_point?_of_lasting hp low hi)
  | finish closed => rwa [(Survey.LabelsInto.of_close? closed).any_eq i hp.labelled]
  | _ => exact hi

end Move

namespace Course

/-- A code byte that will not become data again. -/
structure Settled (c : Course n) (i : Nat) : Prop where
  fixed : c.Fixed i
  code : c.survey.isCode i

theorem settled_of_row {c : Course n} {first i : Nat} (steady : ∀ i, ¬ c.InDoubt i)
    (hcode : ∀ j, first ≤ j → j < first + 3 → c.survey.isCode j ∧ c.survey.isData j = false)
    (hlo : first ≤ i) (hhi : i < first + 3) : c.Settled i := by
  have held : ∀ j, first ≤ j → j < first + 3 → c.Held j := fun j hj hj' =>
    ⟨⟨Survey.isCode_lt (hcode j hj hj').1, (hcode j hj hj').2⟩, steady j⟩
  exact ⟨⟨first, hlo, hhi, held _ le_rfl (by omega), held _ (by omega) (by omega),
    held _ (by omega) (by omega)⟩, (hcode i hlo hhi).1⟩

/-- A byte that is marked as a byte of a pointer and as nothing else, and at which no strand starts. -/
structure Reserved (c : Course n) (i : Nat) : Prop where
  mark : c.survey.mark? i = some .codePointer
  noStart : ∀ strand ∈ c.strands, strand.start ≠ i

/-- A byte of a pointer that will keep its marks: it is settled, and no strand starts there. -/
structure Pinned (c : Course n) (i : Nat) : Prop where
  fixed : c.Fixed i
  mark : c.survey.mark? i = some .codePointer
  noStart : ∀ strand ∈ c.strands, strand.start ≠ i

theorem Reserved.taken {c : Course n} {i : Nat} (h : c.Reserved i) : c.survey.Taken i := by
  have hpointer : c.survey.isPointer i := by
    rw [Survey.isPointer, h.mark]
    rfl
  refine ⟨Survey.lt_of_any hpointer, ?_⟩
  rw [Survey.isData, h.mark]
  rfl

theorem Reserved.ne_of_mem_entering {s : Survey n} {i : Nat} (mark : s.mark? i = some .codePointer)
    {target : Option Nat} {strand : Strand} (hmem : strand ∈ s.entering target) :
    strand.start ≠ i := by
  obtain ⟨start, rfl, rfl⟩ := Survey.eq_fresh_of_mem_entering hmem
  rintro rfl
  have hrefused : s.entering (some (Strand.fresh start).start) = [] := by
    rw [Survey.entering, Survey.isCode, Survey.isStart, mark]
    rfl
  exact absurd (hrefused ▸ hmem) List.not_mem_nil

theorem Reserved.sent {s : Survey n} {r p i : Nat} {a : Bool}
    (h : (⟨s, [], r, p, a⟩ : Course n).Reserved i) (target : Option Nat) :
    (⟨s, s.entering target, r, p, false⟩ : Course n).Reserved i :=
  ⟨h.mark, fun _ hmem => ne_of_mem_entering h.mark hmem⟩

end Course

namespace Move

variable {bank : Bank} {c d : Course Bank.size} {i : Nat}

theorem settled (h : Move bank c d) (hst : c.Stacked) (hi : c.Settled i) : d.Settled i := by
  have hfixed := h.fixed hst hi.fixed
  exact ⟨hfixed, h.any_of_taken Mark.lasting_code hfixed.held.1 hi.code⟩

theorem settled_of_transfer (h : Move bank c d) {start offset settled : Nat} {afterCall : Bool}
    {waiting : List Strand} {op : Opcode}
    (hs : c.strands = ⟨start, offset, .decode settled afterCall⟩ :: waiting)
    (data : c.survey.isData offset) (holds : bank.Holds offset op)
    (long : op.control ∈ [.call, .jump, .jumpIndirect]) (hlo : offset ≤ i) (hhi : i < offset + 3) :
    d.Settled i := by
  simp only [List.mem_cons, List.not_mem_nil, or_false] at long
  have hregular := Bank.regular_of_opcode? holds.opcode
  have hlength : op.length = 3 := by
    rcases long with hcontrol | hcontrol | hcontrol <;>
      simpa only [Opcode.Regular, hcontrol] using hregular
  cases h with
  | arrive stop =>
    simp only [List.cons.injEq, Strand.mk.injEq] at hs
    obtain ⟨⟨-, rfl, -⟩, -⟩ := hs
    exact absurd (stop.symm.trans data) Bool.false_ne_true
  | undo data' refuses released =>
    simp only [List.cons.injEq, Strand.mk.injEq] at hs
    obtain ⟨⟨-, rfl, -⟩, -⟩ := hs
    exact absurd refuses holds.not_refuses
  | advance data' holds' linear claimed annotated =>
    simp only [List.cons.injEq, Strand.mk.injEq] at hs
    obtain ⟨⟨-, rfl, -⟩, -⟩ := hs
    obtain rfl := holds.unique holds'
    rcases long with hcontrol | hcontrol | hcontrol <;>
      exact absurd linear (by rw [hcontrol]; exact Bool.false_ne_true)
  | transfer data' holds' nonlinear claimed =>
    simp only [List.cons.injEq, Strand.mk.injEq] at hs
    obtain ⟨⟨-, rfl, -⟩, -⟩ := hs
    obtain rfl := holds.unique holds'
    refine Course.settled_of_row (fun j =>
      Course.not_inDoubt_of_entering (Strand.taskAfter_steady _ _ _) j) (fun j hj hj' => ?_) hlo hhi
    rw [hlength] at claimed
    exact ⟨(Survey.isCode_of_claim? claimed j).2 (.inr ⟨hj, hj'⟩),
      (Survey.taken_of_claim? claimed hj hj').2⟩
  | _ =>
    simp only [List.cons.injEq, Strand.mk.injEq, reduceCtorEq, and_false, false_and] at hs

/-- Only giving it back to data takes its marks from a reserved byte. -/
theorem reserved (h : Move bank c d) (hi : c.Reserved i) (hd : d.survey.Taken i) : d.Reserved i := by
  have htaken := hi.taken
  obtain ⟨mark, noStart⟩ := hi
  have hcode : c.survey.isCode i := by
    rw [Survey.isCode, mark]
    rfl
  -- To be run over by an instruction changes nothing: it would be an operand, and have no label.
  have claim : ∀ {s t : Survey Bank.size} {first length : Nat}, s.isData first → s.Taken i →
      s.mark? i = some .codePointer → s.claim? first length = some t →
        t.mark? i = some .codePointer := by
    intro s t first length data htaken hmark claimed
    rw [Survey.mark?_of_claim? claimed, if_neg (htaken.ne_of_isData data), hmark]
    split_ifs <;> rfl
  have point : ∀ {s t : Survey Bank.size} {offset : Nat}, s.mark? i = some .codePointer →
      s.point? offset = some t → t.mark? i = some .codePointer := by
    intro s t offset hmark pointed
    rw [Survey.mark?_of_point? pointed, hmark]
    split_ifs <;> rfl
  cases h with
  | arrive stop => exact ⟨mark, List.forall_mem_cons.2 (List.forall_mem_cons.1 noStart)⟩
  | undo data refuses released =>
    refine ⟨(hd.mark?_of_release? released).trans mark, ?_⟩
    rw [List.forall_mem_cons] at noStart ⊢
    refine ⟨?_, noStart.2⟩
    unfold Strand.undone
    split <;> exact noStart.1
  | advance data holds linear claimed annotated =>
    refine ⟨?_, List.forall_mem_cons.2 (List.forall_mem_cons.1 noStart)⟩
    rw [Survey.mark?_of_annotate? annotated ((Survey.isCode_of_claim? claimed i).2 (.inl hcode))]
    exact claim data htaken mark claimed
  | transfer data holds nonlinear claimed =>
    have hmark := claim data htaken mark claimed
    refine ⟨hmark, List.forall_mem_append.2 ⟨fun strand hmem => ?_,
      List.forall_mem_cons.2 (List.forall_mem_cons.1 noStart)⟩⟩
    exact Course.Reserved.ne_of_mem_entering hmark hmem
  | probe word pointee =>
    refine ⟨mark, List.forall_mem_append.2 ⟨fun strand hmem => ?_,
      List.forall_mem_cons.2 (List.forall_mem_cons.1 noStart)⟩⟩
    exact Course.Reserved.ne_of_mem_entering mark hmem
  | tableEnd noWord => exact ⟨mark, List.forall_mem_cons.2 (List.forall_mem_cons.1 noStart)⟩
  | claim low high =>
    exact ⟨point (point mark low) high, List.forall_mem_cons.2 (List.forall_mem_cons.1 noStart)⟩
  | finish closed =>
    rw [List.forall_mem_cons] at noStart
    exact ⟨(Survey.mark?_of_close? closed noStart.1).trans mark, noStart.2⟩

theorem pinned (h : Move bank c d) (hst : c.Stacked) (hi : c.Pinned i) : d.Pinned i := by
  have hfixed := h.fixed hst hi.fixed
  obtain ⟨mark, noStart⟩ := h.reserved ⟨hi.mark, hi.noStart⟩ hfixed.held.1
  exact ⟨hfixed, mark, noStart⟩

end Move

/-- Bytes of the tables in rows of three, such as those of the hardware vectors, are pinned throughout
an analysis. -/
theorem Course.kept_pinned (bank : Bank) (seeds : Seeds) :
    Course.Kept bank seeds fun c => ∀ i, seeds.Lined i → c.Pinned i where
  seeded h i hi := by
    exact ⟨fixed_of_seed? h hi, Analysis.mark?_of_covers h hi.covers, nofun⟩
  sent {s r p a slot target} _ _ h i hi := by
    obtain ⟨hfixed, mark, noStart⟩ := h i hi
    obtain ⟨mark, noStart⟩ := Reserved.sent ⟨mark, noStart⟩ (some target)
    exact ⟨hfixed.sent target, mark, noStart⟩
  moved hsound hmove h i hi := hmove.pinned hsound.stacked (h i hi)

/-- An analysis ends with the hardware vectors marked as the bytes of pointers and as nothing else. -/
theorem Analysis.mark?_vectors {bank : Bank} {seeds : Seeds} {a : Analysis}
    (ha : bank.analyze? seeds = some a) {i : Nat} (hlo : PointerTable.vectors.offset ≤ i)
    (hhi : i < Bank.size) : a.survey.mark? i = some .codePointer := by
  obtain ⟨x, hx, -, hpinned⟩ := (Course.kept_pinned bank seeds).exists_analyze?
  obtain rfl := Option.some.inj (ha.symm.trans hx)
  have hi := hpinned i (seeds.lined_of_vectors hlo hhi)
  exact (x.survey.mark?_labelBoundaries_of_taken hi.fixed.held.1).trans hi.mark

/-- The next step decodes the instruction `op` at `offset`. -/
def Exploration.Decodes (bank : Bank) (x : Exploration n) (offset : Nat) (op : Opcode) : Prop :=
  ∃ start settled afterCall waiting,
    x.strands = ⟨start, offset, .decode settled afterCall⟩ :: waiting ∧
      x.survey.isData offset ∧ bank.Holds offset op

namespace Exploration

variable {bank : Bank} {x y : Exploration Bank.size} {i k : Nat}

theorem settled_of_run? (hx : x.course.Sound bank) (hi : x.course.Settled i)
    (h : run? bank x k = some y) : y.course.Settled i :=
  keeps_of_run? (P := fun c => c.Settled i) (fun hsound hmove => hmove.settled hsound.stacked) hx hi h

/-- After the step that decodes a jump or a call, its three bytes are settled. -/
theorem settled_of_decodes {offset : Nat} {op : Opcode} (hx : x.course.Sound bank)
    (hdecodes : x.Decodes bank offset op) (long : op.control ∈ [.call, .jump, .jumpIndirect])
    (hlo : offset ≤ i) (hhi : i < offset + 3) :
    ∃ y, run? bank x 1 = some y ∧ y.course.Sound bank ∧ y.course.Settled i := by
  obtain ⟨start, settled, afterCall, waiting, hs, data, holds⟩ := hdecodes
  have hne : x.strands ≠ [] := by
    rw [hs]
    exact List.cons_ne_nil _ _
  obtain ⟨y, hstep, hmove⟩ := exists_move bank hx.inside hne
  exact ⟨y, run?_succ hne hstep 0, hmove.sound hx,
    hmove.settled_of_transfer hs data holds long hlo hhi⟩

end Exploration

/-- Settled code is permanent. Whatever is marked when an exploration is sent anywhere, as long as no
byte is code and data at once, three code bytes in a row are code after each of its steps, and the
three bytes of a jump or a call are code after the step that decodes it and after each later one. So
an analysis ends with the hardware vectors marked as the bytes of pointers and as nothing else. -/
theorem Bank.settled_throughout (bank : Bank) :
    (∀ (x : Exploration Bank.size) (start : Nat),
      (∀ i, ¬ (x.survey.isCode i ∧ x.survey.isData i)) → ∀ k, ∃ y,
        Exploration.run? bank (x.sent start) k = some y ∧
        (∀ i, x.survey.isCode i → x.survey.isCode (i + 1) → x.survey.isCode (i + 2) →
          y.survey.isCode i ∧ y.survey.isCode (i + 1) ∧ y.survey.isCode (i + 2)) ∧
        ∀ offset op, y.Decodes bank offset op → op.control ∈ [.call, .jump, .jumpIndirect] →
          ∀ j, ∃ z, Exploration.run? bank (x.sent start) (k + 1 + j) = some z ∧
            z.survey.isCode offset ∧ z.survey.isCode (offset + 1) ∧ z.survey.isCode (offset + 2)) ∧
    ∀ seeds : Seeds, ∃ a, bank.analyze? seeds = some a ∧
      ∀ i, PointerTable.vectors.offset ≤ i → i < Bank.size →
        a.survey.mark? i = some .codePointer := by
  refine ⟨fun x start exclusive k => ?_, fun seeds => ?_⟩
  · have hsound := Exploration.sound_sent bank x start
    obtain ⟨y, hy⟩ := Exploration.exists_run? hsound k
    have hysound := Exploration.sound_of_run? hsound hy
    refine ⟨y, hy, fun i h₀ h₁ h₂ => ?_, fun offset op hdecodes long j => ?_⟩
    · have hrow : ∀ j, i ≤ j → j < i + 3 → (x.sent start).course.Settled j := by
        intro j hlo hhi
        have hcode : ∀ j, i ≤ j → j < i + 3 → x.survey.isCode j ∧ x.survey.isData j = false := by
          intro j hlo hhi
          have hj : x.survey.isCode j := by
            obtain rfl | rfl | rfl : j = i ∨ j = i + 1 ∨ j = i + 2 := by omega
            · exact h₀
            · exact h₁
            · exact h₂
          exact ⟨hj, Bool.eq_false_iff.2 fun hdata => exclusive j ⟨hj, hdata⟩⟩
        rw [Exploration.course_sent]
        exact Course.settled_of_row (Course.not_inDoubt_of_sent _ _ _ _ _) hcode hlo hhi
      have hfinal : ∀ j, i ≤ j → j < i + 3 → y.survey.isCode j := fun j hlo hhi =>
        (Exploration.settled_of_run? hsound (hrow j hlo hhi) hy).code
      exact ⟨hfinal i le_rfl (by omega), hfinal _ (by omega) (by omega),
        hfinal _ (by omega) (by omega)⟩
    · obtain ⟨z, hz⟩ := Exploration.exists_run? hsound (k + 1 + j)
      have hfinal : ∀ i, offset ≤ i → i < offset + 3 → z.survey.isCode i := by
        intro i hlo hhi
        obtain ⟨w, hw, hwsound, hsettled⟩ :=
          Exploration.settled_of_decodes hysound hdecodes long hlo hhi
        -- The steps up to the decoding one, that step, and what is left.
        rw [Exploration.run?_add, Exploration.run?_add, hy, Option.bind_some, hw,
          Option.bind_some] at hz
        exact (Exploration.settled_of_run? hwsound hsettled hz).code
      exact ⟨z, hz, hfinal offset le_rfl (by omega), hfinal _ (by omega) (by omega),
        hfinal _ (by omega) (by omega)⟩
  · obtain ⟨x, ha, -, -⟩ := (Course.kept_pinned bank seeds).exists_analyze?
    exact ⟨_, ha, fun i hlo hhi => Analysis.mark?_vectors ha hlo hhi⟩

def callingBank : Bank := ⟨Vector.ofFn fun _ => 0x20⟩

/-- The hardware vectors are settled, and so is the call at `$C000` when it has been decoded. -/
theorem run?_callingBank : ∃ s, Analysis.seed? (.blank Bank.size) Seeds.empty.slots = some s ∧
    (∀ i, ¬ (s.isCode i ∧ s.isData i)) ∧ s.isCode 0x3FFA ∧ s.isCode 0x3FFB ∧ s.isCode 0x3FFC ∧
      (∀ k, ∃ y, Exploration.run? callingBank ((Exploration.ofSurvey s).sent 0) k = some y ∧
        y.survey.isCode 0x3FFA ∧ y.survey.isCode 0x3FFB ∧ y.survey.isCode 0x3FFC) ∧
      ((Exploration.ofSurvey s).sent 0).Decodes callingBank 0 (Opcode.ofByte 0x20) ∧
      ∀ j, ∃ z, Exploration.run? callingBank ((Exploration.ofSurvey s).sent 0) (0 + 1 + j) = some z ∧
        z.survey.isCode 0 ∧ z.survey.isCode 1 ∧ z.survey.isCode 2 := by
  obtain ⟨s, hs⟩ := Analysis.exists_seed? Seeds.empty.succ_slot_lt (.blank Bank.size)
  have hsealed : s.Sealed callingBank := Survey.sealed_of_seed? hs
  have exclusive : ∀ i, ¬ (s.isCode i ∧ s.isData i) := fun i h =>
    Bool.false_ne_true ((hsealed.consistent.isData_eq_false h.1).symm.trans h.2)
  have hcode : ∀ i, 0x3FFA ≤ i → i < Bank.size → s.isCode i := by
    intro i hlo hhi
    rw [Survey.isCode, Analysis.mark?_of_vectors hs hlo hhi]
    rfl
  have hplain : s.mark? 0 = some .plain := Analysis.mark?_of_seed?_empty hs (by decide)
  have hbyte : callingBank.byte? 0 = some 0x20 := Bank.byte?_ofFn (fun _ => 0x20) (by decide)
  have holds : callingBank.Holds 0 (Opcode.ofByte 0x20) :=
    ⟨Bank.opcode?_of_byte? hbyte, by decide +kernel, by decide +kernel⟩
  have hdecodes : ((Exploration.ofSurvey s).sent 0).Decodes callingBank 0 (Opcode.ofByte 0x20) := by
    have hcourse := Exploration.course_sent (Exploration.ofSurvey s) 0
    have hbegun : s.entering (some 0) = [.fresh 0] := Survey.entering_of_plain hplain
    have hsurvey : ((Exploration.ofSurvey s).sent 0).survey = s := congrArg Course.survey hcourse
    have hstrands := congrArg Course.strands hcourse
    refine ⟨0, 0, false, [], hstrands.trans hbegun, ?_, holds⟩
    rw [hsurvey]
    exact Survey.isData_of_plain hplain
  have hsettled := (Bank.settled_throughout callingBank).1 (.ofSurvey s) 0 exclusive
  refine ⟨s, hs, exclusive, hcode _ (by decide) (by decide), hcode _ (by decide) (by decide),
    hcode _ (by decide) (by decide), fun k => ?_, hdecodes, fun j => ?_⟩
  · obtain ⟨y, hy, hrow, -⟩ := hsettled k
    exact ⟨y, hy, hrow 0x3FFA (hcode _ (by decide) (by decide)) (hcode _ (by decide) (by decide))
      (hcode _ (by decide) (by decide))⟩
  · obtain ⟨y, hy, -, htransfer⟩ := hsettled 0
    obtain rfl := Option.some.inj hy
    exact htransfer 0 _ hdecodes (by decide +kernel) j

end BankTrace
