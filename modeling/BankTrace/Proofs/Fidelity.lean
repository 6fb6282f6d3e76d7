import BankTrace.Proofs.Alignment
import BankTrace.Proofs.Exactness
import BankTrace.Proofs.Locations

namespace BankTrace

section Marks

variable {n : Nat}

/-- A word of the list, and both its bytes are pointers. -/
structure Survey.Points (s : Survey n) (words : List Nat) (word : Nat) : Prop where
  mem : word ∈ words
  low : s.isPointer word
  high : s.isPointer (word + 1)

/-- No instruction reaches into a pointer, and no word ends with the first byte of another. -/
structure Survey.InStep (bank : Bank) (s : Survey n) (words : List Nat) : Prop where
  spans : ∀ {p op i}, s.isStart p → bank.opcode? p = some op → p < i → i < p + op.length →
    s.isPointer i = false
  words : ∀ {word}, s.Points words word → ¬ s.Points words (word + 1)

end Marks

namespace Assembly

/-- A listing prints what is marked: instructions, data and words each where they are, and at the very
end the hardware vectors. -/
structure Prints (bank : Bank) (s : Survey Bank.size) (words : List Nat) (brackets : Brackets)
    (listing : List (List Char)) : Prop where
  start : ∀ p, s.isStart p → ∃ op argument, ∃ hpos, bank.opcode? p = some op ∧
    argument? bank p op.length = some argument ∧
    (Item.instruction op argument hpos).Shown s brackets (located 0 listing) p
  data : ∀ i, s.isData i → ∃ byte, bank.byte? i = some byte ∧
    (Item.value byte).Shown s brackets (located 0 listing) i
  word : ∀ slot, s.Points words slot → ∃ word, bank.word? slot = some word ∧
    (Item.pointer word).Shown s brackets (located 0 listing) slot
  vectors : ∃ front, ∃ values : List Nat,
    PointerTable.vectors.slots.map bank.word? = values.map some ∧ listing =
      front ++ values.map (fun word => (Line.pointer (pointerPlace s word)).text brackets) ++
        [[], ".END".toList, []]

section Cut

variable {bank : Bank} {s : Survey Bank.size} {start offset : Nat} {items : List (Nat × Item)}

theorem exists_append_of_mem (h : itemsFrom? bank s start = some items) {item : Item}
    (hmem : (offset, item) ∈ items) :
    ∃ front back, items = front ++ back ∧ itemsFrom? bank s offset = some back := by
  fun_induction itemsFrom? bank s start generalizing items with
  | case1 => contradiction
  | case2 start hlt first hfirst hpos ih =>
    obtain ⟨rest, hrest, rfl⟩ := Option.map_eq_some_iff.1 h
    rcases List.mem_cons.1 hmem with heq | hmem
    · obtain ⟨rfl, rfl⟩ := Prod.mk.inj heq
      refine ⟨[], _, rfl, ?_⟩
      rw [itemsFrom?, if_pos hlt, hfirst]
      exact h
    · obtain ⟨front, back, rfl, hback⟩ := ih hrest hmem
      exact ⟨(start, first) :: front, back, rfl, hback⟩
  | case3 start hlt =>
    rw [← Option.some.inj h] at hmem
    exact absurd hmem List.not_mem_nil

theorem Cut.eq_cons_of_isPointer (h : Cut bank s offset items) (hpointer : s.isPointer offset)
    (hlt : offset + 1 < Bank.size) : ∃ word rest, bank.word? offset = some word ∧
      items = (offset, .pointer word) :: rest ∧ Cut bank s (offset + 2) rest := by
  cases h with
  | done => omega
  | @item _ item rest here more =>
    cases here with
    | pointer pointer word_eq => exact ⟨_, _, word_eq, rfl, more⟩
    | instruction _ noPointer => exact absurd (noPointer hpointer) (by omega)
    | orphan noPointer => exact absurd (noPointer hpointer) (by omega)
    | value noPointer => exact absurd (noPointer hpointer) (by omega)

theorem vectors_of_itemsFrom? (h : itemsFrom? bank s 0x3FFA = some items)
    (hvectors : ∀ slot ∈ PointerTable.vectors.slots, s.isPointer slot) :
    ∃ values : List Nat, PointerTable.vectors.slots.map bank.word? = values.map some ∧
      items.map pointerWord? = values.map some := by
  obtain ⟨_, hitems, hcut⟩ := exists_itemsFrom? bank s (by decide : 0x3FFA ≤ Bank.size)
  obtain rfl := Option.some.inj (h.symm.trans hitems)
  obtain ⟨nmi, _, hnmi, rfl, hcut₁⟩ :=
    hcut.eq_cons_of_isPointer (hvectors 0x3FFA (by decide)) (by decide)
  obtain ⟨reset, _, hreset, rfl, hcut₂⟩ :=
    hcut₁.eq_cons_of_isPointer (hvectors 0x3FFC (by decide)) (by decide)
  obtain ⟨irq, rest, hirq, rfl, hcut₃⟩ :=
    hcut₂.eq_cons_of_isPointer (hvectors 0x3FFE (by decide)) (by decide)
  have hslots : PointerTable.vectors.slots = [0x3FFA, 0x3FFC, 0x3FFE] := rfl
  obtain rfl : rest = [] := by
    cases hcut₃ with
    | done => rfl
    | @item _ item _ here =>
      have hfits := here.fits
      have hpos := item.size_pos
      have hsize : Bank.size = 0x3FFE + 2 := rfl
      omega
  refine ⟨[nmi, reset, irq], ?_, rfl⟩
  simp only [hslots, List.map_cons, List.map_nil, hnmi, hreset, hirq]

theorem Cut.shown (h : Cut bank s 0 items) (brackets : Brackets) :
    ∀ entry ∈ items, entry.2.Shown s brackets (located 0 (Text.fields '\n'
      (render ⟨.text, brackets⟩ (.origin :: .blank :: layout s items ++ [.finish])).toList))
      entry.1 := by
  have horigin : lineSize 0 (Line.origin.text brackets) = 0 := by
    rw [lineSize, Line.readLine?_text brackets .origin trivial]
    rfl
  intro entry hmem
  refine (located_layout brackets h entry hmem).mono ?_
  rw [fields_render brackets h.legible, List.cons_append, List.map_cons, List.cons_append, located,
    horigin, List.cons_append, List.map_cons, List.cons_append, located, lineSize_blank,
    List.map_append, List.append_assoc, located_append]
  exact List.subset_cons_of_subset _ (List.subset_cons_of_subset _ (List.subset_append_left _ _))

end Cut

theorem eq_none_of_spanMap {α β : Type} {f : α → Option β} {l rest : List α} {a : α}
    (h : (spanMap f l).2 = a :: rest) : f a = none := by
  induction l with
  | nil => exact absurd h.symm (List.cons_ne_nil _ _)
  | cons b l ih =>
    rw [spanMap] at h
    cases hb : f b with
    | none =>
      rw [hb] at h
      obtain ⟨rfl, -⟩ := List.cons.inj h
      exact hb
    | some result =>
      rw [hb] at h
      exact ih h

theorem suffix_of_suffix_append {α : Type} {front back last : List α} (h : last <:+ front ++ back)
    (apart : ∀ a ∈ front, a ∉ last) : last <:+ back := by
  obtain ⟨pre, hpre⟩ := h
  rcases List.append_eq_append_iff.1 hpre with ⟨mid, rfl, rfl⟩ | ⟨mid, -, rfl⟩
  · cases mid with
    | nil => exact List.suffix_refl _
    | cons a mid => exact absurd List.mem_cons_self (apart a (by simp))
  · exact List.suffix_append mid last

/-- If the last items are words, a layout ends with their lines. -/
theorem exists_layout_eq {n : Nat} {s : Survey n} {items last : List (Nat × Item)} {words : List Nat}
    (hlast : last <:+ items) (hwords : last.map pointerWord? = words.map some) (hne : words ≠ []) :
    ∃ front, layout s items =
      front ++ (words.map fun word => Line.pointer (pointerPlace s word)) ++ [.blank] := by
  have isWord : ∀ entry ∈ last, pointerWord? entry ≠ none := by
    intro entry hmem hnone
    have hmem := List.mem_map_of_mem (f := pointerWord?) hmem
    rw [hwords, hnone] at hmem
    simp at hmem
  have prepend : ∀ {rest : List Line} (lines : List Line), (∃ front, rest = front ++
      (words.map fun word => Line.pointer (pointerPlace s word)) ++ [.blank]) →
      ∃ front, lines ++ rest = front ++
        (words.map fun word => Line.pointer (pointerPlace s word)) ++ [.blank] := by
    rintro rest lines ⟨front, rfl⟩
    exact ⟨lines ++ front, by simp only [List.append_assoc]⟩
  fun_induction layout s items with
  | case1 =>
    obtain rfl := List.suffix_nil.1 hlast
    exact absurd (List.map_eq_nil_iff.1 hwords.symm) hne
  | case2 start rest word run hle ih =>
    obtain ⟨front, hrest, hrun⟩ := spanMap_append pointerWord? rest
    obtain ⟨pre, hpre⟩ := hlast
    rw [hrest, ← List.cons_append, List.append_eq_append_iff] at hpre
    rcases hpre with ⟨mid, hfront, rfl⟩ | ⟨mid, -, hback⟩
    · -- The last words reach into the run, and so nothing follows it.
      have hnil : run.2 = [] := by
        cases hrun : run.2 with
        | nil => rfl
        | cons entry back =>
          refine absurd (eq_none_of_spanMap hrun) (isWord entry (List.mem_append_right _ ?_))
          exact hrun ▸ List.mem_cons_self
      have hall : (word :: run.1).map some = pre.map pointerWord? ++ words.map some := by
        rw [← hwords, hnil, List.append_nil, ← List.map_append, ← hfront]
        exact congrArg (some word :: ·) hrun.symm
      obtain ⟨before, after, hsplit, -, hafter⟩ := List.map_eq_append_iff.1 hall
      obtain rfl := List.map_injective_iff.2 (Option.some_injective _) hafter
      rw [hnil, hsplit, List.map_append, layout]
      refine ⟨.blank :: before.map fun word => .pointer (pointerPlace s word), ?_⟩
      simp only [List.cons_append, List.append_assoc]
    · exact prepend _ (prepend [.blank] (ih ⟨mid, hback.symm⟩))
  | case3 start rest op argument hpos ih =>
    rcases List.suffix_cons_iff.1 hlast with rfl | hlast
    · exact absurd rfl (isWord _ List.mem_cons_self)
    · exact prepend _ (ih hlast)
  | case4 start rest byte ih =>
    rcases List.suffix_cons_iff.1 hlast with rfl | hlast
    · exact absurd rfl (isWord _ List.mem_cons_self)
    · exact prepend _ (prepend [.values [byte]] (ih hlast))
  | case5 start rest byte run hle ih =>
    obtain ⟨front, hrest, hrun⟩ := spanMap_append (plainByte? s) rest
    rcases List.suffix_cons_iff.1 hlast with rfl | ⟨pre, hpre⟩
    · exact absurd rfl (isWord _ List.mem_cons_self)
    have hback : last <:+ run.2 := by
      refine suffix_of_suffix_append ⟨pre, hpre.trans hrest⟩ fun entry hentry hmem => ?_
      obtain ⟨value, -, hvalue⟩ := List.mem_map.1 (hrun ▸ List.mem_map_of_mem hentry)
      refine isWord entry hmem ?_
      obtain ⟨first, item⟩ := entry
      cases item with
      | pointer word => contradiction
      | _ => rfl
    exact prepend _ (prepend [.blank] (ih hback))

section Prints

variable {bank : Bank} {s : Survey Bank.size} {words : List Nat} {items : List (Nat × Item)}

/-- Lines that print all that is marked leave no room for anything out of step. -/
theorem Prints.inStep {brackets : Brackets} {listing : List (List Char)}
    (h : Prints bank s words brackets listing) (tidy : s.Tidy bank)
    (worded : s.Worded (s.Points words)) : s.InStep bank words := by
  -- No two lines share a byte.
  have apart : ∀ {p w : Nat} {first second : List Char}, (p, first) ∈ located 0 listing →
      (w, second) ∈ located 0 listing → p < w → p + lineSize p first ≤ w := by
    intro p w first second hfirst hsecond hlt
    rcases disjoint_located hfirst hsecond (by simp [hlt.ne]) with hbefore | hbehind
    · exact hbefore
    · have hbehind : w + lineSize w second ≤ p := hbehind
      omega
  refine ⟨fun {p op i} hstart hopcode hlo hhi => ?_, fun {word} hword hnext => ?_⟩
  · rw [Bool.eq_false_iff]
    intro hpointer
    obtain ⟨slot, hslot, hi⟩ := worded.covered hpointer
    obtain ⟨op', argument, hpos, hop, hargument, hline⟩ := h.start p hstart
    obtain rfl := Option.some.inj (hop.symm.trans hopcode)
    obtain ⟨word, hword, hpointerLine⟩ := h.word slot hslot
    have hne : p ≠ slot := by
      rintro rfl
      obtain ⟨_, hintact⟩ := tidy p hstart
      exact Bool.false_ne_true (hintact.noPointer.symm.trans hslot.low)
    have hsize := lineSize_instruction (s := s) brackets hpos hop hargument
    have hsize' := lineSize_pointer (s := s) brackets hword
    rcases Nat.lt_or_ge p slot with hbefore | hbehind
    · have hle := apart hline hpointerLine hbefore
      omega
    · have hle := apart hpointerLine hline (by omega)
      omega
  · obtain ⟨first, hfirst, hline⟩ := h.word word hword
    obtain ⟨second, -, hline'⟩ := h.word (word + 1) hnext
    have hsize := lineSize_pointer (s := s) brackets hfirst
    have hle := apart hline hline' (Nat.lt_succ_self word)
    omega

section Cut

variable (worded : s.Worded (s.Points words)) {start offset : Nat}
include worded

theorem points_of_isPointer (hstart : ∀ slot, s.Points words slot → slot + 1 ≠ start)
    (hpointer : s.isPointer start) : s.Points words start := by
  obtain ⟨slot, hslot, rfl | heq⟩ := worded.covered hpointer
  · exact hslot
  · exact absurd heq.symm (hstart slot hslot)

variable (inStep : s.InStep bank words)
include inStep

theorem Stands.succ_ne {item : Item} (h : Stands bank s start item)
    (hstart : ∀ slot, s.Points words slot → slot + 1 ≠ start) :
    ∀ slot, s.Points words slot → slot + 1 ≠ start + item.size := by
  intro slot hslot heq
  have hlt : slot + 1 < Bank.size := Survey.lt_of_any hslot.high
  have hne : (s.isPointer start → Bank.size ≤ start + 1) → slot ≠ start := by
    rintro noPointer rfl
    have hle := noPointer hslot.low
    omega
  cases h with
  | pointer pointer word_eq =>
    obtain rfl : slot = start + 1 := Nat.succ.inj heq
    exact inStep.words (points_of_isPointer worded hstart pointer) hslot
  | @instruction op argument length_pos noPointer isStart opcode fits argument_eq =>
    have hne := hne noPointer
    have heq : slot + 1 = start + op.length := heq
    have hnone := inStep.spans isStart opcode (by omega : start < slot) (by omega)
    exact Bool.false_ne_true (hnone.symm.trans hslot.low)
  | orphan noPointer => exact hne noPointer (Nat.succ.inj heq)
  | value noPointer => exact hne noPointer (Nat.succ.inj heq)

theorem Cut.exists_stands {items : List (Nat × Item)} (h : Cut bank s start items)
    (hstart : ∀ slot, s.Points words slot → slot + 1 ≠ start) (hle : start ≤ offset)
    (hlt : offset < Bank.size) (hword : ∀ slot, s.Points words slot → slot + 1 ≠ offset)
    (hspan : ∀ p op, s.isStart p → bank.opcode? p = some op → p < offset → p + op.length ≤ offset) :
    ∃ item, (offset, item) ∈ items ∧ Stands bank s offset item := by
  induction h with
  | done => omega
  | @item start item rest here more ih =>
    rcases Nat.lt_or_eq_of_le hle with hbefore | rfl
    · have hreach : start + item.size ≤ offset := by
        cases here with
        | pointer pointer word_eq =>
          have hne := hword start (points_of_isPointer worded hstart pointer)
          have hsize : start + 2 ≤ offset := by omega
          exact hsize
        | instruction length_pos noPointer isStart opcode => exact hspan start _ isStart opcode hbefore
        | orphan => exact hbefore
        | value => exact hbefore
      obtain ⟨found, hmem, hstands⟩ := ih (here.succ_ne worded inStep hstart) hreach
      exact ⟨found, List.mem_cons_of_mem _ hmem, hstands⟩
    · exact ⟨item, List.mem_cons_self, here⟩

variable (h : Cut bank s 0 items)
include h

theorem Cut.exists_item (hlt : offset < Bank.size)
    (hword : ∀ slot, s.Points words slot → slot + 1 ≠ offset)
    (hspan : ∀ p op, s.isStart p → bank.opcode? p = some op → p < offset → p + op.length ≤ offset) :
    ∃ item, (offset, item) ∈ items ∧ Stands bank s offset item :=
  h.exists_stands worded inStep (fun slot _ => Nat.succ_ne_zero slot) (Nat.zero_le _) hlt hword hspan

theorem Cut.pointer_mem {slot : Nat} (hslot : s.Points words slot) :
    ∃ word, bank.word? slot = some word ∧ (slot, .pointer word) ∈ items := by
  have hlt : slot + 1 < Bank.size := Survey.lt_of_any hslot.high
  obtain ⟨item, hmem, hstands⟩ := h.exists_item worded inStep (by omega : slot < Bank.size)
    (fun other hother heq => inStep.words hother (heq ▸ hslot))
    (fun p op hstart hopcode hbefore => by
      by_contra hreach
      have hnone := inStep.spans hstart hopcode hbefore (by omega)
      exact Bool.false_ne_true (hnone.symm.trans hslot.low))
  cases hstands with
  | pointer pointer word_eq => exact ⟨_, word_eq, hmem⟩
  | instruction _ noPointer => exact absurd (noPointer hslot.low) (by omega)
  | orphan noPointer => exact absurd (noPointer hslot.low) (by omega)
  | value noPointer => exact absurd (noPointer hslot.low) (by omega)

variable (tidy : s.Tidy bank)
include tidy

theorem Cut.instruction_mem (hitems : items? bank s = some items) {p : Nat} (hstart : s.isStart p) :
    ∃ op argument, ∃ hpos, bank.opcode? p = some op ∧ argument? bank p op.length = some argument ∧
      (p, .instruction op argument hpos) ∈ items := by
  obtain ⟨op, hintact⟩ := tidy p hstart
  obtain ⟨item, hmem, -⟩ := h.exists_item worded inStep hintact.holds.lt
    (fun slot hslot heq => Bool.false_ne_true (hintact.noPointer.symm.trans (heq ▸ hslot.high)))
    (fun q op' hq hopcode hbefore => by
      by_contra hreach
      obtain ⟨other, hother⟩ := tidy q hq
      obtain rfl := Option.some.inj (hother.holds.opcode.symm.trans hopcode)
      exact Bool.false_ne_true ((hother.inside p hbefore (by omega)).symm.trans hstart))
  obtain ⟨front, back, rfl, hback⟩ := exists_append_of_mem hitems hmem
  obtain ⟨argument, hpos, rest, rfl, hargument, -⟩ :=
    itemsFrom?_of_isStart hback hintact.noPointer hstart hintact.holds
  exact ⟨op, argument, hpos, hintact.holds.opcode, hargument,
    List.mem_append_right _ List.mem_cons_self⟩

theorem Cut.value_mem (consistent : s.Consistent) {i : Nat} (hdata : s.isData i) :
    ∃ byte, bank.byte? i = some byte ∧ (i, .value byte) ∈ items := by
  have noPointer := consistent.isPointer_eq_false hdata
  have noCode : ¬ s.isCode i := fun hcode =>
    Bool.false_ne_true ((consistent.isData_eq_false hcode).symm.trans hdata)
  obtain ⟨item, hmem, hstands⟩ := h.exists_item worded inStep (Survey.isData_lt hdata)
    (fun slot hslot heq => Bool.false_ne_true (noPointer.symm.trans (heq ▸ hslot.high)))
    (fun q op hq hopcode hbefore => by
      obtain ⟨other, hother⟩ := tidy q hq
      obtain rfl := Option.some.inj (hother.holds.opcode.symm.trans hopcode)
      exact hother.le_of_isData hbefore.le hdata)
  cases hstands with
  | pointer pointer => exact absurd (noPointer.symm.trans pointer) Bool.false_ne_true
  | instruction _ _ isStart => exact absurd (consistent.isCode_of_isStart isStart) noCode
  | orphan _ code => exact absurd (code.elim consistent.isCode_of_isStart id) noCode
  | value _ _ _ byte_eq => exact ⟨_, byte_eq, hmem⟩

end Cut

theorem exists_fields_eq (hitems : items? bank s = some items) (hcut : Cut bank s 0 items)
    {word : Nat} (hmem : (0x3FFA, .pointer word) ∈ items)
    (hvectors : ∀ slot ∈ PointerTable.vectors.slots, s.isPointer slot) (brackets : Brackets) :
    ∃ front, ∃ values : List Nat, PointerTable.vectors.slots.map bank.word? = values.map some ∧
      Text.fields '\n' (render ⟨.text, brackets⟩
        (.origin :: .blank :: layout s items ++ [.finish])).toList =
      front ++ values.map (fun word => (Line.pointer (pointerPlace s word)).text brackets) ++
        [[], ".END".toList, []] := by
  obtain ⟨front, back, rfl, hback⟩ := exists_append_of_mem hitems hmem
  obtain ⟨values, hvalues, hlast⟩ := vectors_of_itemsFrom? hback hvectors
  obtain ⟨lines, hlines⟩ := exists_layout_eq (s := s) (List.suffix_append front back) hlast
    (by rintro rfl; contradiction)
  have hfinish : Line.finish.text brackets = ".END".toList := by
    simp [Line.text, Line.pieces, characters, Piece.render]
  refine ⟨(.origin :: .blank :: lines).map (Line.text brackets), values, hvalues, ?_⟩
  rw [fields_render brackets hcut.legible, hlines]
  simp only [List.map_cons, List.map_append, List.map_map, List.map_nil, hfinish, List.cons_append,
    List.append_assoc]
  rfl

/-- If nothing is out of step, a listing prints all that is marked. -/
theorem prints_of_inStep (hitems : items? bank s = some items) (hcut : Cut bank s 0 items)
    (consistent : s.Consistent) (tidy : s.Tidy bank) (worded : s.Worded (s.Points words))
    (inStep : s.InStep bank words) (hvectors : ∀ slot ∈ PointerTable.vectors.slots, s.Points words slot)
    (brackets : Brackets) :
    Prints bank s words brackets (Text.fields '\n'
      (render ⟨.text, brackets⟩ (.origin :: .blank :: layout s items ++ [.finish])).toList) where
  start p hstart := by
    obtain ⟨op, argument, hpos, hopcode, hargument, hmem⟩ :=
      hcut.instruction_mem worded inStep tidy hitems hstart
    exact ⟨op, argument, hpos, hopcode, hargument, hcut.shown brackets _ hmem⟩
  data i hdata := by
    obtain ⟨byte, hbyte, hmem⟩ := hcut.value_mem worded inStep tidy consistent hdata
    exact ⟨byte, hbyte, hcut.shown brackets _ hmem⟩
  word slot hslot := by
    obtain ⟨word, hword, hmem⟩ := hcut.pointer_mem worded inStep hslot
    exact ⟨word, hword, hcut.shown brackets _ hmem⟩
  vectors := by
    obtain ⟨nmi, -, hmem⟩ := hcut.pointer_mem worded inStep (hvectors 0x3FFA (by decide))
    exact exists_fields_eq hitems hcut hmem (fun slot hslot => (hvectors slot hslot).low) brackets

end Prints

end Assembly

open Assembly

section Analysis

variable {bank : Bank} {seeds : Seeds} {a : Analysis}

theorem Analysis.consistent_tidy (ha : bank.analyze? seeds = some a) :
    a.survey.Consistent ∧ a.survey.Tidy bank := by
  obtain ⟨x, hx, -, -, horderly⟩ := (Course.kept_orderly bank seeds).exists_analyze?
  obtain rfl := Option.some.inj (ha.symm.trans hx)
  have hlabels := Survey.LabelsInto.of_labelBoundaries x.survey
  exact ⟨horderly.consistent.of_labelsInto hlabels, horderly.tidy.of_labelsInto hlabels⟩

/-- If the tables do not overlap, the pointers are in the end the bytes of words that were seeded or
recovered. -/
theorem Analysis.worded (ha : bank.analyze? seeds = some a) (apart : seeds.Apart) :
    a.survey.Worded (a.survey.Points (seeds.slots ++ a.recoveredSlots)) := by
  obtain ⟨x, hx, -, hcovered, -⟩ := (Course.kept_covered bank apart).exists_analyze?
  obtain rfl := Option.some.inj (ha.symm.trans hx)
  have hlabels := Survey.LabelsInto.of_labelBoundaries x.survey
  have hworded := hcovered.worded
  refine ⟨fun h => h.low, fun h => h.high, fun {i} hi => ?_⟩
  obtain ⟨word, hword, heq⟩ := hworded.covered ((hlabels.isPointer_eq i).symm.trans hi)
  refine ⟨word, ⟨?_, (hlabels.isPointer_eq _).trans (hworded.low hword),
    (hlabels.isPointer_eq _).trans (hworded.high hword)⟩, heq⟩
  rcases hword with hrecovered | ⟨hslot, -⟩
  · exact List.mem_append_right _ hrecovered
  · exact List.mem_append_left _ hslot

theorem Analysis.length_recoveredSlots (ha : bank.analyze? seeds = some a) (apart : seeds.Apart) :
    a.recoveredSlots.length = a.recovered := by
  obtain ⟨x, hx, -, hcovered, -⟩ := (Course.kept_covered bank apart).exists_analyze?
  obtain rfl := Option.some.inj (ha.symm.trans hx)
  exact hcovered.count.symm

theorem Analysis.points_vectors (ha : bank.analyze? seeds = some a) :
    ∀ slot ∈ PointerTable.vectors.slots,
      a.survey.Points (seeds.slots ++ a.recoveredSlots) slot := by
  have pointer : ∀ i, PointerTable.vectors.offset ≤ i → i < Bank.size → a.survey.isPointer i := by
    intro i hlo hhi
    rw [Survey.isPointer, mark?_vectors ha hlo hhi]
    rfl
  have bounds : ∀ slot ∈ PointerTable.vectors.slots,
      PointerTable.vectors.offset ≤ slot ∧ slot + 1 < Bank.size := by decide
  intro slot hslot
  obtain ⟨hlo, hhi⟩ := bounds slot hslot
  have hmem : slot ∈ seeds.slots :=
    List.mem_flatMap.2 ⟨.vectors, List.mem_append_right _ List.mem_cons_self, hslot⟩
  exact ⟨List.mem_append_left _ hmem, pointer slot hlo (by omega),
    pointer (slot + 1) (by omega) hhi⟩

theorem Bank.disassembly?_of_items? (ha : bank.analyze? seeds = some a)
    {items : List (Nat × Item)} (hitems : items? bank a.survey = some items) (brackets : Brackets) :
    bank.disassembly? seeds ⟨.text, brackets⟩ = some
      (render ⟨.text, brackets⟩ (.origin :: .blank :: layout a.survey items ++ [.finish])) := by
  rw [disassembly?, ha, Option.bind_eq_bind, Option.bind_some, listing?, lines?, hitems,
    Option.map_some, Option.map_some]

end Analysis

/-- If the tables do not overlap, a disassembly prints what is marked exactly if no instruction reaches
into a pointer and no word, be it seeded or recovered, ends with the first byte of another. -/
theorem Bank.disassembly?_prints_iff (bank : Bank) {seeds : Seeds} (apart : seeds.Apart)
    (brackets : Brackets) :
    ∃ a text, bank.analyze? seeds = some a ∧
      bank.disassembly? seeds ⟨.text, brackets⟩ = some text ∧
      (Prints bank a.survey (seeds.slots ++ a.recoveredSlots) brackets
          (Text.fields '\n' text.toList) ↔
        a.survey.InStep bank (seeds.slots ++ a.recoveredSlots)) := by
  obtain ⟨x, ha, -⟩ := (Course.kept_orderly bank seeds).exists_analyze?
  obtain ⟨consistent, tidy⟩ := Analysis.consistent_tidy ha
  have worded := Analysis.worded ha apart
  obtain ⟨items, hitems, hcut⟩ := exists_items? bank (Analysis.ofExploration x).survey
  exact ⟨_, _, ha, disassembly?_of_items? ha hitems brackets,
    fun hprints => hprints.inStep tidy worded, fun inStep =>
    prints_of_inStep hitems hcut consistent tidy worded inStep (Analysis.points_vectors ha) brackets⟩

theorem loopingBank_inStep {a : Analysis} (ha : loopingBank.analyze? Seeds.twoWords = some a) :
    a.survey.isStart 0x2060 ∧
      a.survey.InStep loopingBank (Seeds.twoWords.slots ++ a.recoveredSlots) := by
  have low : ∀ t ∈ Seeds.twoWords.extra, t.offset + 2 * t.count ≤ 0x2060 := by decide
  have wf := loopingBank_wellFormed low
  obtain ⟨x, hx, hend, hclass⟩ := wf.exists_analyze?
  obtain rfl := Option.some.inj (ha.symm.trans hx)
  have hlabels := Survey.LabelsInto.of_labelBoundaries x.survey
  have reached := hclass.isStart_iff hend fun slot hslot t ht => ⟨slot, hslot, ht⟩
  have hrecovered : (Analysis.ofExploration x).recoveredSlots = [] :=
    List.length_eq_zero_iff.1 ((Analysis.length_recoveredSlots ha Seeds.twoWords_apart).trans
      hclass.recovered)
  rw [hrecovered, List.append_nil]
  constructor
  · have hslot : 0x1000 ∈ Seeds.twoWords.slots := by decide
    exact (hlabels.isStart_eq _).trans
      ((reached _).2 (.slot hslot (loopingBank_pointee? low hslot)))
  · refine ⟨fun {p op i} hstart hop hlo hhi => ?_, fun hword hnext =>
      Seeds.twoWords_apart.succ_notMem hword.mem hnext.mem⟩
    have hreach := (reached p).1 ((hlabels.isStart_eq p).symm.trans hstart)
    refine (hlabels.isPointer_eq i).trans (Bool.eq_false_iff.2 fun hpointer => ?_)
    exact wf.clear hreach ⟨op, hop, hlo.le, hhi⟩ ((hclass.faithful.pointer_iff i).1 hpointer)

/-- The listing of the looping bank prints what is marked, the routine among it. -/
theorem prints_loopingBank : Seeds.twoWords.Apart ∧ ∃ a text,
    loopingBank.analyze? Seeds.twoWords = some a ∧ a.survey.isStart 0x2060 ∧
    loopingBank.disassembly? Seeds.twoWords ⟨.text, .square⟩ = some text ∧
    Prints loopingBank a.survey (Seeds.twoWords.slots ++ a.recoveredSlots) .square
      (Text.fields '\n' text.toList) := by
  obtain ⟨a, text, ha, htext, hprints⟩ :=
    loopingBank.disassembly?_prints_iff Seeds.twoWords_apart .square
  obtain ⟨hstart, inStep⟩ := loopingBank_inStep ha
  exact ⟨Seeds.twoWords_apart, a, text, ha, hstart, htext, hprints.2 inStep⟩

/-- `LDA` before the vectors, with the first byte of the first vector for its operand. All vectors lead
to it. -/
def trespassingProgram : Nat → UInt8
  | 0x3FF9 => 0xA9
  | 0x3FFA | 0x3FFC | 0x3FFE => 0xF9
  | 0x3FFB | 0x3FFD | 0x3FFF => 0xFF
  | _ => 0

def trespassingBank : Bank := ⟨Vector.ofFn fun i => trespassingProgram i⟩

theorem trespassingBank_explored {s : Survey Bank.size} (plain : s.mark? 0x3FF9 = some .plain)
    (vector : s.mark? 0x3FFB = some .codePointer) (r p : Nat) :
    ∃ t, t.mark? 0x3FF9 = some { code := true, label := true, start := true } ∧
      Relation.ReflTransGen (Move trespassingBank) ⟨s, [.fresh 0x3FF9], r, p, false⟩
        ⟨t, [], r, p, true⟩ := by
  obtain ⟨t₁, h₁⟩ : ∃ t, s.claim? 0x3FF9 2 = some t := Survey.exists_claim? (by decide) (by decide)
  obtain ⟨t₂, h₂⟩ : ∃ t, t₁.label? 0x3FF9 = some t := Survey.exists_label? (by decide)
  have marks₁ := fun i => Survey.mark?_of_claim? h₁ i
  have marks₂ := fun i => Survey.mark?_of_label? h₂ i
  obtain ⟨op, hop, hcontrol, hlength⟩ : ∃ op, Opcode.ofByte 0xA9 = op ∧ op.control = .next ∧
      op.length = 2 := ⟨_, rfl, by decide +kernel, by decide +kernel⟩
  have holds : trespassingBank.Holds 0x3FF9 op :=
    .ofFn trespassingProgram hop (by rw [hcontrol]; decide) (by decide) (by rw [hlength]; decide)
  have data : s.isData 0x3FF9 := Survey.isData_of_plain plain
  have stop : t₁.isData 0x3FFB = false := by
    rw [Survey.isData, marks₁, vector]
    rfl
  refine ⟨t₂, ?_, ?_⟩
  · rw [marks₂, marks₁, plain]
    rfl
  · have move₁ : Move trespassingBank ⟨s, [.fresh 0x3FF9], r, p, false⟩ _ :=
      .advance data holds (by rw [hcontrol]; rfl) (by rw [hlength]; exact h₁)
        (if_neg (by rw [hcontrol]; decide))
    rw [hlength] at move₁
    have move₂ : Move trespassingBank ⟨t₁, [⟨0x3FF9, 0x3FFB, .decode 0x3FF9 false⟩], r, p, false⟩
        ⟨t₁, [⟨0x3FF9, 0x3FFB, .close⟩], r, p, false⟩ := .arrive stop
    have move₃ : Move trespassingBank ⟨t₁, [⟨0x3FF9, 0x3FFB, .close⟩], r, p, false⟩
        ⟨t₂, [], r, p, true⟩ := .finish h₂
    exact .head move₁ (.head move₂ (.single move₃))

theorem isStart_trespassingBank {a : Analysis} (ha : trespassingBank.analyze? .empty = some a) :
    a.survey.isStart 0x3FF9 := by
  obtain ⟨s, x, hseed, hexplores, hx⟩ := trespassingBank.analyze?_eq_some .empty
  obtain rfl := Option.some.inj (ha.symm.trans hx)
  have hpointee : ∀ slot ∈ Seeds.empty.slots, trespassingBank.pointee? slot = some 0x3FF9 := by
    have hwords : ∀ slot ∈ Seeds.empty.slots, slot + 1 < Bank.size ∧
        trespassingProgram slot = 0xF9 ∧ trespassingProgram (slot + 1) = 0xFF := by decide +kernel
    intro slot hslot
    obtain ⟨hlt, hlow, hhigh⟩ := hwords slot hslot
    rw [trespassingBank, Bank.pointee?_ofFn trespassingProgram hlt, hlow, hhigh]
    rfl
  have hlast := hexplores.leads (Q := fun slots s => slots ⊆ Seeds.empty.slots ∧
    (s.mark? 0x3FF9 = some .plain ∧ s.mark? 0x3FFB = some .codePointer ∧ slots ≠ [] ∨
      s.mark? 0x3FF9 = some { code := true, label := true, start := true }))
    ⟨List.Subset.refl _, .inl ⟨Analysis.mark?_of_seed?_empty hseed (by decide),
      Analysis.mark?_of_vectors hseed (by decide) (by decide), List.cons_ne_nil _ _⟩⟩ ?_
  · have hmark := hlast.2.resolve_left fun h => h.2.2 rfl
    refine ((Survey.LabelsInto.of_labelBoundaries x.survey).isStart_eq _).trans ?_
    rw [Survey.isStart, hmark]
    rfl
  · rintro slot slots s r p ⟨hslots, hs⟩
    obtain ⟨hslot, hslots⟩ := List.cons_subset.1 hslots
    have begun : s.entering (some 0x3FF9) = [.fresh 0x3FF9] := by
      rcases hs with ⟨plain, -⟩ | hs
      · exact Survey.entering_of_plain plain
      · rw [Survey.entering, Survey.isCode, Survey.isStart, hs]
        rfl
    rcases hs with ⟨plain, vector, -⟩ | hs
    · obtain ⟨t, ht, hmoves⟩ := trespassingBank_explored plain vector r p
      exact ⟨_, t, _, _, _, hpointee slot hslot, ⟨hslots, .inr ht⟩, begun ▸ hmoves⟩
    · -- Once the `LDA` is there, a strand that begins with it ends at once.
      have hcode : s.isCode 0x3FF9 := by
        rw [Survey.isCode, hs]
        rfl
      have hdata : s.isData 0x3FF9 = false := by
        rw [Survey.isData, hs]
        rfl
      obtain ⟨t, ht, hmoves⟩ := Move.reach_of_found trespassingBank hcode hdata r p
      refine ⟨_, t, _, _, _, hpointee slot hslot, ⟨hslots, .inr ?_⟩, begun ▸ hmoves⟩
      rw [Survey.mark?_of_label? ht, hs]
      rfl

/-- The listing of the trespassing program does not print what is marked: the line of the `LDA` has the
first byte of the vectors. -/
theorem not_prints_trespassingBank : Seeds.empty.Apart ∧ ∃ a text,
    trespassingBank.analyze? .empty = some a ∧
    trespassingBank.disassembly? .empty ⟨.text, .square⟩ = some text ∧
    ¬ Prints trespassingBank a.survey (Seeds.empty.slots ++ a.recoveredSlots) .square
      (Text.fields '\n' text.toList) := by
  have apart : Seeds.empty.Apart := List.pairwise_singleton _ _
  obtain ⟨x, ha, -⟩ := (Course.kept_orderly trespassingBank .empty).exists_analyze?
  obtain ⟨items, hitems, -⟩ := exists_items? trespassingBank (Analysis.ofExploration x).survey
  refine ⟨apart, _, _, ha, Bank.disassembly?_of_items? ha hitems .square, fun hprints => ?_⟩
  have inStep := hprints.inStep (Analysis.consistent_tidy ha).2 (Analysis.worded ha apart)
  obtain ⟨op, hop, hlength⟩ : ∃ op, trespassingBank.opcode? 0x3FF9 = some op ∧ op.length = 2 :=
    ⟨_, Bank.opcode?_ofFn trespassingProgram (by decide), by decide +kernel⟩
  have hnone := inStep.spans (isStart_trespassingBank ha) hop (by decide : 0x3FF9 < 0x3FFA)
    (by omega)
  have hpointer : (Analysis.ofExploration x).survey.isPointer 0x3FFA :=
    (Analysis.points_vectors ha 0x3FFA (by decide)).low
  exact Bool.false_ne_true (hnone.symm.trans hpointer)

end BankTrace
