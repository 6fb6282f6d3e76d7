import BankTrace.Proofs.Determinacy
import BankTrace.Proofs.Layout
import BankTrace.Proofs.RoundTrip
import BankTrace.Proofs.Spans

namespace BankTrace

namespace Assembly

/-- The byte at the offset is printed as part of a pointer, or as an operand. -/
def hides (items : List (Nat × Item)) (offset : Nat) : Bool :=
  items.any fun (start, item) =>
    start ≤ offset && offset < start + item.size && (item.isPointer || start < offset)

section Cut

variable {bank : Bank} {s : Survey Bank.size} {start offset : Nat} {items : List (Nat × Item)}

theorem Cut.stands_of_mem (h : Cut bank s start items) {first : Nat} {item : Item}
    (hmem : (first, item) ∈ items) : Stands bank s first item := by
  induction h with
  | done => exact absurd hmem List.not_mem_nil
  | item here more ih =>
    rcases List.mem_cons.1 hmem with heq | hmem
    · obtain ⟨rfl, rfl⟩ := Prod.mk.inj heq
      exact here
    · exact ih hmem

theorem itemsFrom?_of_isStart (h : itemsFrom? bank s start = some items)
    (hpointer : s.isPointer start = false) (hstart : s.isStart start) {op : Opcode}
    (holds : bank.Holds start op) :
    ∃ argument hpos rest, items = (start, .instruction op argument hpos) :: rest ∧
      argument? bank start op.length = some argument ∧
      itemsFrom? bank s (start + op.length) = some rest := by
  obtain ⟨argument, hargument⟩ := exists_argument? bank holds.length_le holds.fits
  have hitem : item? bank s start = some (.instruction op argument holds.length_pos) := by
    obtain ⟨byte, hbyte, rfl⟩ := Option.map_eq_some_iff.1 holds.opcode
    simp [item?, hpointer, hbyte, hstart, holds.length_pos, holds.fits, hargument]
  rw [itemsFrom?, if_pos holds.lt, hitem] at h
  obtain ⟨rest, hrest, rfl⟩ := Option.map_eq_some_iff.1 h
  exact ⟨argument, holds.length_pos, rest, rfl, hargument, hrest⟩

theorem Cut.openers_eq (h : Cut bank s start items) (hle : start ≤ offset)
    (hlt : offset < Bank.size) : openers items offset = if hides items offset then 0 else 1 := by
  induction h with
  | done => omega
  | @item start item rest here more ih =>
    have hcons : hides ((start, item) :: rest) offset =
        ((start ≤ offset && offset < start + item.size && (item.isPointer || start < offset)) ||
          hides rest offset) := List.any_cons
    rw [openers_cons, hcons]
    rcases Nat.lt_or_ge offset (start + item.size) with hin | hout
    · -- All later items begin behind the byte.
      have hopeners : openers rest offset = 0 := by
        rw [openers, List.countP_eq_zero]
        rintro ⟨first, other⟩ hmem hopens
        have hfirst := more.le_of_mem hmem
        simp only [Bool.and_eq_true, beq_iff_eq] at hopens
        omega
      have hhides : hides rest offset = false := by
        rw [hides, List.any_eq_false]
        rintro ⟨first, other⟩ hmem hhidden
        have hfirst := more.le_of_mem hmem
        simp only [Bool.and_eq_true, decide_eq_true_eq] at hhidden
        omega
      rw [hopeners, hhides]
      rcases Nat.lt_or_eq_of_le hle with hbefore | rfl
      · simp [hle, hin, hbefore, hbefore.ne]
      · cases hpointer : item.isPointer <;> simp [hin]
    · have hpos := item.size_pos
      have hne : ¬ (start = offset ∧ item.isPointer = false) := by omega
      rw [ih hout, if_neg hne, Nat.add_zero]
      simp [Nat.not_lt.2 hout]

theorem Cut.count_layout (h : Cut bank s 0 items) (hlabel : s.isLabel offset) :
    (Line.origin :: .blank :: layout s items ++ [Line.finish]).count (Line.label offset) =
      if hides items offset then 0 else 1 := by
  rw [← h.openers_eq (Nat.zero_le _) (Survey.isLabel_lt hlabel), ← Assembly.count_layout hlabel]
  simp only [List.count_cons, List.count_append]
  simp

theorem Cut.hides_eq_false (h : Cut bank s 0 items) (consistent : s.Consistent)
    (tidy : s.Tidy bank) (hmark : s.isData offset ∨ s.isStart offset)
    (hbefore : s.isPointer (offset - 1) = false) : hides items offset = false := by
  have hpointer : s.isPointer offset = false := by
    rcases hmark with hdata | hstart
    · exact consistent.isPointer_eq_false hdata
    · obtain ⟨op, hintact⟩ := tidy offset hstart
      exact hintact.noPointer
  rw [hides, List.any_eq_false]
  rintro ⟨first, item⟩ hmem hhidden
  simp only [Bool.and_eq_true, Bool.or_eq_true, decide_eq_true_eq] at hhidden
  obtain ⟨⟨hle, hin⟩, hinside⟩ := hhidden
  cases h.stands_of_mem hmem with
  | pointer pointer word_eq =>
    have hsize : offset < first + 2 := hin
    rcases (by omega : offset = first ∨ offset = first + 1) with rfl | rfl
    · exact Bool.false_ne_true (hpointer.symm.trans pointer)
    · exact Bool.false_ne_true (hbefore.symm.trans pointer)
  | @instruction op argument length_pos noPointer start opcode fits argument_eq =>
    obtain ⟨op', hintact⟩ := tidy first start
    obtain rfl := Option.some.inj (hintact.holds.opcode.symm.trans opcode)
    have hfirst : first < offset := hinside.resolve_left Bool.false_ne_true
    rcases hmark with hdata | hstart
    · exact Bool.false_ne_true ((hintact.code offset hle hin).2.symm.trans hdata)
    · exact Bool.false_ne_true ((hintact.inside offset hfirst hin).symm.trans hstart)
  | orphan noPointer code byte_eq =>
    have hfirst : first < offset := hinside.resolve_left Bool.false_ne_true
    have hsize : offset < first + 1 := hin
    omega
  | value noPointer noStart noCode byte_eq =>
    have hfirst : first < offset := hinside.resolve_left Bool.false_ne_true
    have hsize : offset < first + 1 := hin
    omega

end Cut

end Assembly

open Assembly

/-- A text listing names labelled bytes only, and defines the label of such a byte once, unless the
byte is hidden. -/
theorem Bank.listing?_defines (bank : Bank) (s : Survey Bank.size) (brackets : Brackets)
    {items : List (Nat × Item)} (hitems : items? bank s = some items) (hcut : Cut bank s 0 items) :
    ∃ text, bank.listing? s ⟨.text, brackets⟩ = some text ∧
      (∀ line ∈ layout s items, line.text brackets ∈ Text.fields '\n' text.toList) ∧
      ∀ offset < Bank.size,
        (∀ line ∈ Text.fields '\n' text.toList, (symbol offset).toList <:+: line →
          s.isLabel offset) ∧
        (s.isLabel offset →
          (Text.fields '\n' text.toList).count ((symbol offset).toList ++ [':']) =
            if hides items offset then 0 else 1) := by
  have hlabel : ∀ line ∈ Line.origin :: .blank :: layout s items ++ [.finish],
      ∀ offset ∈ line.names, s.isLabel offset := by
    simp only [List.mem_cons, List.mem_append]
    rintro line ((rfl | rfl | hmem) | rfl | hmem) offset hname
    · exact absurd hname List.not_mem_nil
    · exact absurd hname List.not_mem_nil
    · exact isLabel_of_mem_layout hmem hname
    · exact absurd hname List.not_mem_nil
    · exact absurd hmem List.not_mem_nil
  have hlt : ∀ line ∈ Line.origin :: .blank :: layout s items ++ [.finish],
      ∀ offset ∈ line.names, offset < Bank.size :=
    fun line hline offset hname => Survey.isLabel_lt (hlabel line hline offset hname)
  refine ⟨render ⟨.text, brackets⟩ (.origin :: .blank :: layout s items ++ [.finish]), ?_,
    fun line hline => ?_, fun offset hoffset => ⟨fun text htext hword => ?_, fun hlabelled => ?_⟩⟩
  · rw [listing?, lines?, hitems, Option.map_some, Option.map_some]
  · rw [fields_render brackets hcut.legible]
    exact List.mem_append_left _ (List.mem_map_of_mem (by simp [hline]))
  · obtain ⟨line, hline, hname⟩ := exists_mem_names brackets hcut.legible hlt hoffset htext hword
    exact hlabel line hline offset hname
  · rw [count_fields_render brackets hcut.legible hlt hoffset, hcut.count_layout hlabelled]

/-- A disassembly defines every name that it uses exactly once, unless its byte is hidden: then it is
not defined at all. Data and instructions are not hidden, but for what a pointer before them may
take. -/
theorem Bank.disassembly?_defines (bank : Bank) (seeds : Seeds) (brackets : Brackets) :
    ∃ a items text, bank.analyze? seeds = some a ∧ items? bank a.survey = some items ∧
      bank.disassembly? seeds ⟨.text, brackets⟩ = some text ∧
      ∀ line ∈ Text.fields '\n' text.toList, ∀ offset < Bank.size,
        (symbol offset).toList <:+: line →
          a.survey.isLabel offset ∧
          (Text.fields '\n' text.toList).count ((symbol offset).toList ++ [':']) =
            (if hides items offset then 0 else 1) ∧
          (a.survey.isData offset ∨ a.survey.isStart offset →
            a.survey.isPointer (offset - 1) = false → hides items offset = false) := by
  obtain ⟨x, ha, -, -, hx⟩ := (Course.kept_orderly bank seeds).exists_analyze?
  have hlabels := Survey.LabelsInto.of_labelBoundaries x.survey
  obtain ⟨items, hitems, hcut⟩ := exists_items? bank x.survey.labelBoundaries
  obtain ⟨text, htext, -, hdefines⟩ := bank.listing?_defines _ brackets hitems hcut
  refine ⟨_, items, text, ha, hitems, ?_, fun line hline offset hoffset hword => ?_⟩
  · rw [disassembly?, ha, Option.bind_eq_bind, Option.bind_some]
    exact htext
  · obtain ⟨hnames, hcount⟩ := hdefines offset hoffset
    have hlabel := hnames line hline hword
    exact ⟨hlabel, hcount hlabel, hcut.hides_eq_false (hx.consistent.of_labelsInto hlabels)
      (hx.tidy.of_labelsInto hlabels)⟩

/-- A branch at `$0001` to the byte before it, where `STA` has both bytes of the branch for its
operand, and then a jump back to the branch. -/
def overrunProgram : Nat → UInt8
  | 0 => 0x8D
  | 1 => 0xD0
  | 2 => 0xFD
  | 3 => 0x4C
  | 4 | 0x3FFA | 0x3FFC | 0x3FFE => 0x01
  | 5 | 0x3FFB | 0x3FFD | 0x3FFF => 0xC0
  | _ => 0

def overrunBank : Bank := ⟨Vector.ofFn fun i => overrunProgram i⟩

theorem byte?_overrunBank {i : Nat} (h : i < Bank.size) :
    overrunBank.byte? i = some (overrunProgram i) :=
  Bank.byte?_ofFn overrunProgram h

theorem word?_overrunBank {i : Nat} (h : i + 1 < Bank.size) (hlow : overrunProgram i = 0x01)
    (hhigh : overrunProgram (i + 1) = 0xC0) : overrunBank.word? i = some 0xC001 := by
  refine (Bank.word?_ofFn overrunProgram h).trans ?_
  rw [hlow, hhigh]
  rfl

theorem pointee?_overrunBank {i : Nat} (h : i + 1 < Bank.size) (hlow : overrunProgram i = 0x01)
    (hhigh : overrunProgram (i + 1) = 0xC0) : overrunBank.pointee? i = some 1 := by
  rw [Bank.pointee?, word?_overrunBank h hlow hhigh]
  rfl

theorem overrunBank_holds {i : Nat} {op : Opcode} (hop : Opcode.ofByte (overrunProgram i) = op)
    (hlegal : op.control ≠ .illegal) (hfits : i + op.length < Bank.size) :
    overrunBank.Holds i op :=
  .ofFn overrunProgram hop hlegal (by omega) hfits.le

section Instructions

variable {s t : Survey Bank.size} {start settled r p : Nat} {afterCall a : Bool}
  {waiting : List Strand}

theorem overrunBank_branches (data : s.isData 1) (claimed : s.claim? 1 2 = some t) :
    Move overrunBank ⟨s, ⟨start, 1, .decode settled afterCall⟩ :: waiting, r, p, a⟩
      ⟨t, t.entering (some 0) ++ ⟨start, 3, .decode 3 false⟩ :: waiting, r, p, a⟩ := by
  obtain ⟨op, hop, hcontrol, hlength⟩ : ∃ op, Opcode.ofByte (overrunProgram 1) = op ∧
      op.control = .branch ∧ op.length = 2 := ⟨_, rfl, by decide +kernel, by decide +kernel⟩
  have holds := overrunBank_holds hop (by rw [hcontrol]; decide) (by rw [hlength]; decide)
  have htransfer : overrunBank.transfer? 1 op = some 0 := by
    rw [Bank.transfer?, hcontrol]
    exact congrArg (Option.map _) (byte?_overrunBank (by decide : 2 < Bank.size))
  have hmove : Move overrunBank ⟨s, ⟨start, 1, .decode settled afterCall⟩ :: waiting, r, p, a⟩ _ :=
    .transfer data holds (by rw [hcontrol]; rfl) (by rw [hlength]; exact claimed)
  rwa [htransfer, hcontrol, hlength] at hmove

theorem overrunBank_stores (data : s.isData 0) (claimed : s.claim? 0 3 = some t) :
    Move overrunBank ⟨s, ⟨start, 0, .decode settled afterCall⟩ :: waiting, r, p, a⟩
      ⟨t, ⟨start, 3, .decode settled afterCall⟩ :: waiting, r, p, a⟩ := by
  obtain ⟨op, hop, hcontrol, hlength⟩ : ∃ op, Opcode.ofByte (overrunProgram 0) = op ∧
      op.control = .next ∧ op.length = 3 := ⟨_, rfl, by decide +kernel, by decide +kernel⟩
  have holds := overrunBank_holds hop (by rw [hcontrol]; decide) (by rw [hlength]; decide)
  have hmove : Move overrunBank ⟨s, ⟨start, 0, .decode settled afterCall⟩ :: waiting, r, p, a⟩ _ :=
    .advance data holds (by rw [hcontrol]; rfl) (by rw [hlength]; exact claimed)
      (if_neg (by rw [hcontrol]; decide))
  rwa [hlength] at hmove

theorem overrunBank_jumps (data : s.isData 3) (claimed : s.claim? 3 3 = some t) :
    Move overrunBank ⟨s, ⟨start, 3, .decode settled afterCall⟩ :: waiting, r, p, a⟩
      ⟨t, t.entering (some 1) ++ ⟨start, 6, .close⟩ :: waiting, r, p, a⟩ := by
  obtain ⟨op, hop, hcontrol, hlength⟩ : ∃ op, Opcode.ofByte (overrunProgram 3) = op ∧
      op.control = .jump ∧ op.length = 3 := ⟨_, rfl, by decide +kernel, by decide +kernel⟩
  have holds := overrunBank_holds hop (by rw [hcontrol]; decide) (by rw [hlength]; decide)
  have htransfer : overrunBank.transfer? 3 op = some 1 := by
    rw [Bank.transfer?, hcontrol]
    exact pointee?_overrunBank (by decide) rfl rfl
  have hmove : Move overrunBank ⟨s, ⟨start, 3, .decode settled afterCall⟩ :: waiting, r, p, a⟩ _ :=
    .transfer data holds (by rw [hcontrol]; rfl) (by rw [hlength]; exact claimed)
  rwa [htransfer, hcontrol, hlength] at hmove

end Instructions

/-- The marks of the program when it has been explored. The branch has been overrun, and its first
byte labelled afterwards. -/
def overrunMarks : Nat → Mark
  | 0 => { code := true, label := true, start := true }
  | 1 => { code := true, label := true }
  | 3 => { code := true, start := true }
  | _ => { code := true }

theorem overrunBank_explored {s : Survey Bank.size} (h : ∀ i < 6, s.mark? i = some .plain) :
    ∃ t, (∀ i < 6, t.mark? i = some (overrunMarks i)) ∧
      Relation.ReflTransGen (Move overrunBank) ⟨s, [.fresh 1], 0, 0, false⟩ ⟨t, [], 0, 0, true⟩ := by
  obtain ⟨t₁, h₁⟩ : ∃ t, s.claim? 1 2 = some t := Survey.exists_claim? (by decide) (by decide)
  obtain ⟨t₂, h₂⟩ : ∃ t, t₁.claim? 0 3 = some t := Survey.exists_claim? (by decide) (by decide)
  obtain ⟨t₃, h₃⟩ : ∃ t, t₂.claim? 3 3 = some t := Survey.exists_claim? (by decide) (by decide)
  obtain ⟨t₄, h₄⟩ : ∃ t, t₃.label? 0 = some t := Survey.exists_label? (by decide)
  obtain ⟨t₅, h₅⟩ : ∃ t, t₄.label? 1 = some t := Survey.exists_label? (by decide)
  have marks₁ := fun i => Survey.mark?_of_claim? h₁ i
  have marks₂ := fun i => Survey.mark?_of_claim? h₂ i
  have marks₃ := fun i => Survey.mark?_of_claim? h₃ i
  have marks₄ := fun i => Survey.mark?_of_label? h₄ i
  have marks₅ := fun i => Survey.mark?_of_label? h₅ i
  have data₀ : s.isData 1 := Survey.isData_of_plain (h 1 (by decide))
  have data₁ : t₁.isData 0 := by
    rw [Survey.isData, marks₁, h 0 (by decide)]
    rfl
  have data₂ : t₂.isData 3 := by
    rw [Survey.isData, marks₂, marks₁, h 3 (by decide)]
    rfl
  have begun : t₁.entering (some 0) = [.fresh 0] := by
    rw [Survey.entering, Survey.isCode, marks₁, h 0 (by decide)]
    rfl
  have refused : t₃.entering (some 1) = [] := by
    rw [Survey.entering, Survey.isCode, Survey.isStart, marks₃, marks₂, marks₁, h 1 (by decide)]
    rfl
  have stop : t₄.isData 3 = false := by
    rw [Survey.isData, marks₄, marks₃, marks₂, marks₁, h 3 (by decide)]
    rfl
  refine ⟨t₅, fun i hi => ?_, ?_⟩
  · rw [marks₅, marks₄, marks₃, marks₂, marks₁, h i hi]
    interval_cases i <;> rfl
  · have move₁ : Move overrunBank ⟨s, [.fresh 1], 0, 0, false⟩ _ := overrunBank_branches data₀ h₁
    rw [begun] at move₁
    have move₂ : Move overrunBank ⟨t₁, [.fresh 0, ⟨1, 3, .decode 3 false⟩], 0, 0, false⟩ _ :=
      overrunBank_stores data₁ h₂
    have move₃ : Move overrunBank ⟨t₂, [⟨0, 3, .decode 0 false⟩, ⟨1, 3, .decode 3 false⟩], 0, 0,
        false⟩ _ := overrunBank_jumps data₂ h₃
    rw [refused] at move₃
    have move₄ : Move overrunBank ⟨t₃, [⟨0, 6, .close⟩, ⟨1, 3, .decode 3 false⟩], 0, 0, false⟩
        ⟨t₄, [⟨1, 3, .decode 3 false⟩], 0, 0, true⟩ := .finish h₄
    have move₅ : Move overrunBank ⟨t₄, [⟨1, 3, .decode 3 false⟩], 0, 0, true⟩
        ⟨t₄, [⟨1, 3, .close⟩], 0, 0, true⟩ := .arrive stop
    have move₆ : Move overrunBank ⟨t₄, [⟨1, 3, .close⟩], 0, 0, true⟩ ⟨t₅, [], 0, 0, true⟩ :=
      .finish h₅
    exact .head move₁ (.head move₂ (.head move₃ (.head move₄ (.head move₅ (.single move₆)))))

theorem analyze?_overrunBank : ∃ a, overrunBank.analyze? .empty = some a ∧
    ∀ i < 6, a.survey.mark? i = some (overrunMarks i) := by
  obtain ⟨s, x, hseed, hexplores, ha⟩ := overrunBank.analyze?_eq_some .empty
  have hslots : Seeds.empty.slots = [0x3FFA, 0x3FFC, 0x3FFE] := rfl
  have hplain : ∀ i < 6, s.mark? i = some .plain := fun i hi =>
    Analysis.mark?_of_seed?_empty hseed (hi.trans (by decide))
  obtain ⟨t, hmarks, hmoves⟩ := overrunBank_explored hplain
  have htarget : ∀ slot ∈ Seeds.empty.slots, overrunBank.pointee? slot = some 1 := by
    have hwords : ∀ slot ∈ Seeds.empty.slots, slot + 1 < Bank.size ∧ overrunProgram slot = 0x01 ∧
        overrunProgram (slot + 1) = 0xC0 := by decide +kernel
    intro slot hslot
    obtain ⟨hlt, hlow, hhigh⟩ := hwords slot hslot
    exact pointee?_overrunBank hlt hlow hhigh
  have hbegun : s.entering (some 1) = [.fresh 1] := Survey.entering_of_plain (hplain 1 (by decide))
  have hrefused : t.entering (some 1) = [] := by
    rw [Survey.entering, Survey.isCode, Survey.isStart, hmarks 1 (by decide)]
    rfl
  have hsurvey : x.survey = t := by
    rw [hslots] at hexplores htarget
    rw [List.forall_mem_cons] at htarget
    -- The first vector explores everything: where the others lead is an operand by then.
    cases hexplores with
    | @next _ y _ _ word k _ hword hrun ended rest =>
      have hoffset := htarget.1
      rw [Bank.pointee?, hword, Option.map_some, Option.some.injEq] at hoffset
      rw [hoffset] at hrun
      have hsent : Relation.ReflTransGen (Move overrunBank)
          (((Exploration.ofSurvey s).report (.seeded 0x3FFA word)).sent 1).course
          ⟨t, [], 0, 0, true⟩ := by
        rw [← hbegun] at hmoves
        rw [Exploration.course_sent]
        exact hmoves
      have hend := Exploration.course_of_run? (Exploration.sound_sent overrunBank _ 1) hsent rfl
        hrun ended
      have hy : y.survey = t := congrArg Course.survey hend
      rw [← hy]
      refine rest.survey_eq fun slot hslot target hpointee => ?_
      rw [htarget.2 slot hslot, Option.some.injEq] at hpointee
      rw [hy, ← hpointee, hrefused]
  refine ⟨_, ha, fun i hi => ?_⟩
  have hdata : x.survey.isData i = false := by
    rw [hsurvey, Survey.isData, hmarks i hi]
    interval_cases i <;> rfl
  have hboundary : ¬ x.survey.isBoundary i := by
    rw [Survey.isBoundary, hdata, Bool.and_false]
    exact Bool.false_ne_true
  have hfinal : (Analysis.ofExploration x).survey.mark? i = x.survey.mark? i :=
    (x.survey.mark?_labelBoundaries i).trans (if_neg hboundary)
  rw [hfinal, hsurvey, hmarks i hi]

/-- The listing of the overrun program jumps to `LC001`, and defines no such label. -/
theorem disassembly?_overrunBank : ∃ text,
    overrunBank.disassembly? .empty ⟨.text, .square⟩ = some text ∧
      "    JMP LC001".toList ∈ Text.fields '\n' text.toList ∧
      "LC001:".toList ∉ Text.fields '\n' text.toList := by
  obtain ⟨a, ha, hmarks⟩ := analyze?_overrunBank
  obtain ⟨items, hitems, hcut⟩ := exists_items? overrunBank a.survey
  obtain ⟨text, htext, hlines, hdefines⟩ :=
    overrunBank.listing?_defines a.survey .square hitems hcut
  have hmark : ∀ i < 6, ∀ q : Mark → Bool, (a.survey.mark? i).any q = q (overrunMarks i) := by
    intro i hi q
    rw [hmarks i hi, Option.any_some]
  obtain ⟨store, hstore, hstoreLength⟩ : ∃ op, overrunBank.Holds 0 op ∧ op.length = 3 :=
    ⟨_, overrunBank_holds rfl (by decide +kernel) (by decide +kernel), by decide +kernel⟩
  obtain ⟨jump, hjump, hjumpLength, hjumpName, hjumpMode⟩ : ∃ op, overrunBank.Holds 3 op ∧
      op.length = 3 ∧ op.mnemonic = "JMP" ∧ op.mode = .absolute :=
    ⟨_, overrunBank_holds rfl (by decide +kernel) (by decide +kernel), by decide +kernel,
      by decide +kernel, by decide +kernel⟩
  obtain ⟨_, hpos, rest, hfirst, -, hrest⟩ := itemsFrom?_of_isStart hitems
    (hmark 0 (by decide) _) (hmark 0 (by decide) _) hstore
  rw [hstoreLength] at hrest
  obtain ⟨word, hpos', rest', hsecond, hword, -⟩ := itemsFrom?_of_isStart hrest
    (hmark 3 (by decide) _) (hmark 3 (by decide) _) hjump
  have hname : (symbol 1).toList ++ [':'] = "LC001:".toList := by decide +kernel
  refine ⟨text, ?_, ?_, ?_⟩
  · rw [Bank.disassembly?, ha, Option.bind_eq_bind, Option.bind_some]
    exact htext
  · have hmem : (3, .instruction jump word hpos') ∈ items := by
      rw [hfirst, hsecond]
      exact List.mem_cons_of_mem _ List.mem_cons_self
    have hline := hlines _ (mem_layout_of_instruction hmem)
    have hargument : argument? overrunBank 3 3 = some 0xC001 :=
      word?_overrunBank (by decide : 4 + 1 < Bank.size) rfl rfl
    rw [hjumpLength] at hword
    obtain rfl := Option.some.inj (hargument.symm.trans hword)
    have hlabel : a.survey.isLabel (Bank.offsetOf 0xC001) := hmark 1 (by decide) _
    have hoperand : operandOf a.survey 3 jump 0xC001 = .absolute false (.label 1 0) .none := by
      simp only [operandOf, hjumpMode, absoluteOperand, placeOf, if_pos hlabel]
      rfl
    have htext : (Line.instruction "JMP" (.absolute false (.label 1 0) .none)).text .square =
        "    JMP LC001".toList := by decide +kernel
    rw [hjumpName, hoperand, htext] at hline
    exact hline
  · obtain ⟨-, hcount⟩ := hdefines 1 (by decide)
    have hhidden : hides items 1 := by
      rw [hides, List.any_eq_true, hfirst]
      refine ⟨_, List.mem_cons_self, ?_⟩
      simp [Item.size, hstoreLength]
    rw [← hname, ← List.count_eq_zero, hcount (hmark 1 (by decide) _), if_pos hhidden]

end BankTrace
