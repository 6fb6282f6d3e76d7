import BankTrace.Proofs.Determinacy
import BankTrace.Proofs.Recovery

namespace BankTrace

variable {n : Nat}

def PointerTable.Covers (t : PointerTable) (i : Nat) : Prop :=
  t.offset ≤ i ∧ i < t.offset + 2 * t.count

def PointerTable.Apart (t u : PointerTable) : Prop := ∀ i, t.Covers i → ¬ u.Covers i

instance : Std.Symm PointerTable.Apart := ⟨fun _ _ h i hu ht => h i ht hu⟩

/-- No two tables overlap; the hardware vectors are one of them. -/
def Seeds.Apart (seeds : Seeds) : Prop := seeds.tables.Pairwise PointerTable.Apart

theorem Seeds.Apart.succ_notMem {seeds : Seeds} (h : seeds.Apart) {slot : Nat}
    (hslot : slot ∈ seeds.slots) : slot + 1 ∉ seeds.slots := by
  intro hsucc
  simp only [slots, List.mem_flatMap, PointerTable.slots, List.mem_map, List.mem_range] at hslot hsucc
  obtain ⟨t, ht, i, hi, rfl⟩ := hslot
  obtain ⟨u, hu, j, hj, hij⟩ := hsucc
  by_cases htu : t = u
  · -- Within one table the words have the same parity.
    subst htu
    omega
  · exact h.forall ht hu htu (t.offset + 2 * i + 1) ⟨by omega, by omega⟩ ⟨by omega, by omega⟩

/-- A table of two words beside the hardware vectors. -/
def Seeds.twoWords : Seeds := ⟨[⟨0x1000, 2⟩], by decide⟩

theorem Seeds.twoWords_apart : twoWords.Apart := by
  refine List.pairwise_pair.2 fun i hextra hvectors => ?_
  have hlast : i < 0x1000 + 2 * 2 := hextra.2
  have hfirst : 0x3FFA ≤ i := hvectors.1
  omega

namespace Survey

/-- A run of pointers that goes on to neither side. -/
structure PointerRun (s : Survey n) (first last : Nat) : Prop where
  lt : first < last
  pointer : ∀ i, first ≤ i → i < last → s.isPointer i
  before : ∀ i, i + 1 = first → s.isPointer i = false
  after : s.isPointer last = false

/-- The pointers are the bytes of the words for which `W` holds. -/
structure Worded (s : Survey n) (W : Nat → Prop) : Prop where
  low : ∀ {word}, W word → s.isPointer word
  high : ∀ {word}, W word → s.isPointer (word + 1)
  covered : ∀ {i}, s.isPointer i → ∃ word, W word ∧ (i = word ∨ i = word + 1)

namespace PointerRun

variable {s : Survey n} {W : Nat → Prop} {first last word : Nat} (h : s.PointerRun first last)
include h

theorem succ_lt (hlt : word < last) (hhigh : s.isPointer (word + 1)) : word + 1 < last := by
  refine lt_of_le_of_ne hlt fun heq => ?_
  rw [heq] at hhigh
  exact Bool.false_ne_true (h.after.symm.trans hhigh)

theorem le_of_succ (hle : first ≤ word + 1) (hlow : s.isPointer word) : first ≤ word := by
  refine Nat.le_of_lt_succ (lt_of_le_of_ne hle fun heq => ?_)
  exact Bool.false_ne_true ((h.before word heq.symm).symm.trans hlow)

section Words

variable (hW : s.Worded W)
  (single : ∀ word, W word → first ≤ word → word < last → ¬ W (word + 1))
include hW single

theorem word_at {j : Nat} (hj : first + 2 * j < last) : W (first + 2 * j) := by
  induction j with
  | zero =>
    obtain ⟨word, hword, heq | heq⟩ := hW.covered (h.pointer first le_rfl h.lt)
    · exact heq ▸ hword
    · have hle := h.le_of_succ heq.le (hW.low hword)
      omega
  | succ j ih =>
    have hprevious := ih (by omega)
    obtain ⟨word, hword, heq | heq⟩ := hW.covered (h.pointer _ (Nat.le_add_right _ _) hj)
    · exact heq ▸ hword
    · obtain rfl : word = first + 2 * j + 1 := by omega
      exact absurd hword (single _ hprevious (by omega) (by omega))

theorem even_sub_of_word (hword : W word) (hlo : first ≤ word) (hhi : word < last) :
    Even (word - first) := by
  by_contra hodd
  obtain ⟨j, hj⟩ := Nat.not_even_iff_odd.1 hodd
  have hat : W (first + 2 * j) := h.word_at hW single (by omega)
  obtain rfl : word = first + 2 * j + 1 := by omega
  exact single _ hat (by omega) (by omega) hword

theorem even_sub : Even (last - first) := by
  by_contra hodd
  obtain ⟨j, hj⟩ := Nat.not_even_iff_odd.1 hodd
  have hat : W (first + 2 * j) := h.word_at hW single (by omega)
  have hlt := h.succ_lt (by omega) (hW.high hat)
  omega

end Words

end PointerRun

/-- The word seeded at `slot` still stands, and no word recovered since begins in it. -/
structure Stands (s : Survey n) (words : List Nat) (slot : Nat) : Prop where
  low : s.isPointer slot
  high : s.isPointer (slot + 1)
  notMem : slot ∉ words
  succ_notMem : slot + 1 ∉ words

end Survey

namespace Course

/-- Where the current strand decodes, the byte from which on it may be undone is no pointer. -/
def Clear (c : Course n) : Prop :=
  match c.strands with
  | ⟨_, offset, .decode settled _⟩ :: _ => c.survey.isData offset → c.survey.isPointer settled = false
  | _ => True

/-- The words recovered, and the seeded words that still stand, account for all pointers. -/
structure Covered (seeds : Seeds) (c : Course n) (words : List Nat) : Prop where
  count : c.recovered = words.length
  claimed : ∀ word ∈ words, ∀ i, i = word ∨ i = word + 1 → c.Settled i ∧ c.survey.isPointer i
  pointers : ∀ i, c.survey.isPointer i → (∃ word ∈ words, i = word ∨ i = word + 1) ∨
    ∃ slot ∈ seeds.slots, (i = slot ∨ i = slot + 1) ∧ c.survey.Stands words slot
  /-- A word that waits to be claimed does not begin in a seeded word that still stands. -/
  waiting : ∀ strand ∈ c.strands, ∀ k, strand.task = .claim k → ∀ slot ∈ seeds.slots,
    c.survey.Stands words slot → strand.offset ≠ slot ∧ strand.offset ≠ slot + 1

theorem clear_of_steady {c : Course n} (consistent : c.survey.Consistent)
    {strand : Strand} {waiting : List Strand} (hs : c.strands = strand :: waiting)
    (steady : strand.Steady) : c.Clear := by
  obtain ⟨start, offset, task⟩ := strand
  rw [Clear, hs]
  cases task with
  | decode settled afterCall =>
    obtain rfl : settled = offset := steady
    exact consistent.isPointer_eq_false
  | _ => trivial

theorem clear_of_entering {s : Survey n} (consistent : s.Consistent) {target : Option Nat}
    {strand : Strand} {waiting : List Strand} {r p : Nat} {a : Bool} (steady : strand.Steady) :
    (⟨s, s.entering target ++ strand :: waiting, r, p, a⟩ : Course n).Clear := by
  rcases s.entering_eq target with he | ⟨start, -, he⟩
  · exact clear_of_steady consistent (by rw [he]; rfl) steady
  · exact clear_of_steady consistent (by rw [he]; rfl) (Strand.fresh_steady start)

end Course

namespace Move

variable {bank : Bank} {seeds : Seeds} {c d : Course Bank.size} {words : List Nat}

theorem clear (h : Move bank c d) (hst : c.Stacked) (consistent : c.survey.Consistent)
    (hc : c.Clear) : d.Clear := by
  have hd := h.consistent consistent
  cases h with
  | arrive stop => trivial
  | undo data refuses released =>
    exact Course.clear_of_steady hd rfl (Strand.undone_steady _ _ _ _)
  | @advance s t u start offset settled afterCall op waiting r p a data holds linear claimed
      annotated =>
    intro _
    have hsettled : s.isPointer settled = false := hc data
    rw [(Survey.LabelsInto.of_annotate? annotated).isPointer_eq, Bool.eq_false_iff, ne_eq,
      Survey.isPointer_of_claim? claimed, hsettled]
    exact Bool.false_ne_true
  | transfer data holds nonlinear claimed =>
    exact Course.clear_of_entering hd (Strand.taskAfter_steady _ _ _)
  | probe word pointee => exact Course.clear_of_entering hd (by trivial)
  | tableEnd noWord => trivial
  | claim low high => trivial
  | @finish s t start offset waiting r p a closed =>
    cases waiting with
    | nil => trivial
    | cons strand waiting =>
      exact Course.clear_of_steady hd rfl (hst strand List.mem_cons_self).steady

theorem recovered_eq (h : Move bank c d) :
    d.recovered = c.recovered + c.claiming?.toList.length := by
  cases h <;> rfl

theorem isPointer_iff_succ (h : Move bank c d) (consistent : c.survey.Consistent) (hc : c.Clear)
    {i : Nat} (hlow : c.survey.isPointer i) (hhigh : c.survey.isPointer (i + 1)) :
    d.survey.isPointer i ↔ d.survey.isPointer (i + 1) := by
  have keep : (∀ j, c.survey.isPointer j → d.survey.isPointer j) →
      (d.survey.isPointer i ↔ d.survey.isPointer (i + 1)) := fun hkeep =>
    iff_of_true (hkeep i hlow) (hkeep (i + 1) hhigh)
  cases h with
  | @undo s t start offset settled afterCall k waiting r p a data refuses released =>
    -- What is given back begins behind a byte that is no pointer, and ends with one that is none.
    have hsettled : i + 1 ≠ settled := by
      rintro rfl
      exact Bool.false_ne_true ((hc data).symm.trans hhigh)
    have hoffset : i ≠ offset := by
      rintro rfl
      exact Bool.false_ne_true ((consistent.isPointer_eq_false data).symm.trans hlow)
    rw [Survey.isPointer_of_release? released, Survey.isPointer_of_release? released]
    refine and_congr (iff_of_true hlow hhigh) (not_congr ?_)
    omega
  | advance data holds linear claimed annotated =>
    refine keep fun j hj => ?_
    rw [(Survey.LabelsInto.of_annotate? annotated).isPointer_eq]
    exact (Survey.isPointer_of_claim? claimed j).2 hj
  | transfer data holds nonlinear claimed =>
    exact keep fun j => (Survey.isPointer_of_claim? claimed j).2
  | claim low high =>
    exact keep fun j hj => Survey.any_point?_of_lasting Mark.lasting_pointer high
      (Survey.any_point?_of_lasting Mark.lasting_pointer low hj)
  | finish closed =>
    refine keep fun j hj => ?_
    rwa [(Survey.LabelsInto.of_close? closed).isPointer_eq]
  | _ => exact keep fun _ => id

section Covered

variable (h : Move bank c d) (hc : c.Covered seeds words)
include h hc

theorem stands_before (apart : seeds.Apart) {slot : Nat} (hslot : slot ∈ seeds.slots)
    (hd : d.survey.Stands (words ++ c.claiming?.toList) slot) : c.survey.Stands words slot := by
  have notMem : slot ∉ words := fun hmem => hd.notMem (List.mem_append_left _ hmem)
  have succ_notMem : slot + 1 ∉ words := fun hmem => hd.succ_notMem (List.mem_append_left _ hmem)
  have notClaimed : ∀ {word}, c.claiming? = some word → slot ≠ word ∧ slot + 1 ≠ word := by
    intro word hword
    have hmem : word ∈ words ++ c.claiming?.toList := by simp [hword]
    exact ⟨fun heq => hd.notMem (heq ▸ hmem), fun heq => hd.succ_notMem (heq ▸ hmem)⟩
  -- A word claimed does not bring its second byte back, and so it was never given back.
  have hhigh : c.survey.isPointer (slot + 1) := by
    rcases h.isPointer_before hd.high with hold | ⟨word, hword, heq | heq⟩
    · exact hold
    · exact absurd heq (notClaimed hword).2
    · exact absurd (Nat.succ.inj heq) (notClaimed hword).1
  rcases hc.pointers _ hhigh with ⟨word, hword, heq | heq⟩ | ⟨slot', hslot', heq | heq, hstands⟩
  · exact absurd (heq ▸ hword) succ_notMem
  · exact absurd (Nat.succ.inj heq ▸ hword) notMem
  · exact absurd (heq ▸ hslot') (apart.succ_notMem hslot)
  · rwa [Nat.succ.inj heq]

theorem stands_after (consistent : c.survey.Consistent) (hclear : c.Clear) {slot i : Nat}
    (hslot : slot ∈ seeds.slots) (hstands : c.survey.Stands words slot)
    (hi : i = slot ∨ i = slot + 1) (hpointer : d.survey.isPointer i) :
    d.survey.Stands (words ++ c.claiming?.toList) slot := by
  have whole := h.isPointer_iff_succ consistent hclear hstands.low hstands.high
  have notClaimed : ∀ {word}, c.claiming? = some word → word ≠ slot ∧ word ≠ slot + 1 := by
    intro word hword
    obtain ⟨start, k, waiting, hs⟩ := Course.exists_of_claiming? hword
    exact hc.waiting _ (hs ▸ List.mem_cons_self) k rfl slot hslot hstands
  have hlow : d.survey.isPointer slot := by
    rcases hi with rfl | rfl
    · exact hpointer
    · exact whole.2 hpointer
  refine ⟨hlow, whole.1 hlow, fun hmem => ?_, fun hmem => ?_⟩
  · rcases List.mem_append.1 hmem with hmem | hmem
    · exact hstands.notMem hmem
    · exact (notClaimed (Option.mem_toList.1 hmem)).1 rfl
  · rcases List.mem_append.1 hmem with hmem | hmem
    · exact hstands.succ_notMem hmem
    · exact (notClaimed (Option.mem_toList.1 hmem)).2 rfl

theorem covered (apart : seeds.Apart) (hst : c.Stacked) (consistent : c.survey.Consistent)
    (hclear : c.Clear) (htable : c.Tabular bank seeds) :
    d.Covered seeds (words ++ c.claiming?.toList) where
  count := by rw [h.recovered_eq, hc.count, List.length_append]
  claimed word hmem i hi := by
    rcases List.mem_append.1 hmem with hmem | hmem
    · obtain ⟨hsettled, hpointer⟩ := hc.claimed word hmem i hi
      have hd := h.settled hst hsettled
      exact ⟨hd, h.any_of_taken Mark.lasting_pointer hd.fixed.held.1 hpointer⟩
    · obtain ⟨call, k, rfl, hcall⟩ := h.tabulated_of_claiming? hst htable (Option.mem_toList.1 hmem)
      exact ⟨hcall.settled i (by omega) (by omega), hcall.pointer i (by omega) (by omega)⟩
  pointers i hi := by
    rcases h.isPointer_before hi with hold | ⟨word, hword, heq⟩
    · rcases hc.pointers i hold with ⟨word, hword, heq⟩ | ⟨slot, hslot, heq, hstands⟩
      · exact .inl ⟨word, List.mem_append_left _ hword, heq⟩
      · exact .inr ⟨slot, hslot, heq,
          h.stands_after hc consistent hclear hslot hstands heq hi⟩
    · exact .inl ⟨word, List.mem_append_right _ (Option.mem_toList.2 hword), heq⟩
  waiting strand hmem k htask slot hslot hstands := by
    have hbefore := h.stands_before hc apart hslot hstands
    rcases h.mem_claim_before hmem htask with hold | ⟨hword, -⟩
    · exact hc.waiting strand hold k htask slot hslot hbefore
    · have hplain := Exploration.isPointer_of_isTableWord hword
      constructor
      · intro heq
        exact Bool.false_ne_true (hplain.symm.trans (heq ▸ hbefore.low))
      · intro heq
        exact Bool.false_ne_true (hplain.symm.trans (heq ▸ hbefore.high))

end Covered

end Move

/-- The words that have been recovered account for all pointers throughout an analysis, with the
seeded words that still stand. -/
theorem Course.kept_covered (bank : Bank) {seeds : Seeds} (apart : seeds.Apart) :
    Course.KeptWith bank seeds fun c words => c.Covered seeds words ∧ c.survey.Consistent ∧
      c.Clear ∧ c.Tabular bank seeds where
  seeded {s} h := by
    have hsealed : s.Sealed bank := Survey.sealed_of_seed? h
    have pointer_iff : ∀ i, s.isPointer i ↔ ∃ slot ∈ seeds.slots, i = slot ∨ i = slot + 1 := by
      intro i
      rw [Survey.isPointer, Analysis.mark?_of_seed?_blank h]
      split_ifs with hslot <;> simp [hslot, Mark.codePointer, Mark.plain]
    refine ⟨⟨rfl, fun word hword => absurd hword List.not_mem_nil, fun i hi => .inr ?_,
      fun strand hmem => absurd hmem List.not_mem_nil⟩, hsealed.consistent, trivial,
      (kept_tabular bank seeds).seeded h⟩
    obtain ⟨slot, hslot, heq⟩ := (pointer_iff i).1 hi
    exact ⟨slot, hslot, heq, (pointer_iff _).2 ⟨slot, hslot, .inl rfl⟩,
      (pointer_iff _).2 ⟨slot, hslot, .inr rfl⟩, List.not_mem_nil, List.not_mem_nil⟩
  sent {s r p a words slot target} hslot hpointee h := by
    obtain ⟨hc, consistent, -, htable⟩ := h
    refine ⟨⟨hc.count, fun word hword i hi => ?_, hc.pointers, fun strand hmem k htask => ?_⟩,
      consistent, ?_, (kept_tabular bank seeds).sent hslot hpointee htable⟩
    · obtain ⟨hsettled, hpointer⟩ := hc.claimed word hword i hi
      exact ⟨⟨hsettled.fixed.sent target, hsettled.code⟩, hpointer⟩
    · have hmem : strand ∈ s.entering (some target) := hmem
      obtain ⟨start, -, rfl⟩ := Survey.eq_fresh_of_mem_entering hmem
      cases htask
    · rcases s.entering_eq target with he | ⟨start, -, he⟩
      · rw [Clear, he]
        trivial
      · exact clear_of_steady consistent he (Strand.fresh_steady start)
  moved hsound hmove h := by
    obtain ⟨hc, consistent, hclear, htable⟩ := h
    exact ⟨hmove.covered hc apart hsound.stacked consistent hclear htable,
      hmove.consistent consistent, hmove.clear hsound.stacked consistent hclear,
      hmove.tabular hsound.stacked htable⟩

/-- A run of pointers is a whole number of words long, and each of the words that begins in it does so
a whole number of words from its beginning. -/
def Aligned (words : List Nat) (first last : Nat) : Prop :=
  Even (last - first) ∧ ∀ word ∈ words, first ≤ word → word < last → Even (word - first)

namespace Course.Covered

variable {seeds : Seeds} {c : Course n} {words : List Nat} (hc : c.Covered seeds words)
include hc

theorem worded : c.survey.Worded fun word =>
    word ∈ words ∨ word ∈ seeds.slots ∧ c.survey.Stands words word where
  low := by
    rintro word (hword | ⟨-, hstands⟩)
    · exact (hc.claimed word hword word (.inl rfl)).2
    · exact hstands.low
  high := by
    rintro word (hword | ⟨-, hstands⟩)
    · exact (hc.claimed word hword (word + 1) (.inr rfl)).2
    · exact hstands.high
  covered := by
    intro i hi
    rcases hc.pointers i hi with ⟨word, hword, heq⟩ | ⟨slot, hslot, heq, hstands⟩
    · exact ⟨word, .inl hword, heq⟩
    · exact ⟨slot, .inr ⟨hslot, hstands⟩, heq⟩

/-- A run of pointers is aligned exactly if no word recovered in it ends with the first byte of another
word. -/
theorem aligned_iff (apart : seeds.Apart) {first last : Nat}
    (hrun : c.survey.PointerRun first last) :
    Aligned (seeds.slots ++ words) first last ↔
      ∀ word ∈ words, first ≤ word → word < last → word + 1 ∉ seeds.slots ++ words := by
  have hworded := hc.worded
  constructor
  · intro haligned word hword hlo hhi hnext
    have hlt := hrun.succ_lt hhi (hworded.high (.inl hword))
    have heven := haligned.2 word (List.mem_append_right _ hword) hlo hhi
    have hodd := haligned.2 (word + 1) hnext (by omega) hlt
    rw [Nat.even_iff] at heven hodd
    omega
  · intro hfree
    have single : ∀ word, (word ∈ words ∨ word ∈ seeds.slots ∧ c.survey.Stands words word) →
        first ≤ word → word < last →
          ¬ (word + 1 ∈ words ∨ word + 1 ∈ seeds.slots ∧ c.survey.Stands words (word + 1)) := by
      rintro word (hword | ⟨hslot, hstands⟩) hlo hhi (hnext | ⟨hnext, -⟩)
      · exact hfree word hword hlo hhi (List.mem_append_right _ hnext)
      · exact hfree word hword hlo hhi (List.mem_append_left _ hnext)
      · exact hstands.succ_notMem hnext
      · exact apart.succ_notMem hslot hnext
    refine ⟨hrun.even_sub hworded single, fun word hmem hlo hhi => ?_⟩
    rcases List.mem_append.1 hmem with hslot | hword
    · -- A seeded word may have been given back; what makes its first byte a pointer begins there too.
      obtain ⟨word', hword', rfl | rfl⟩ := hworded.covered (hrun.pointer word hlo hhi)
      · exact hrun.even_sub_of_word hworded single hword' hlo hhi
      · have hle := hrun.le_of_succ hlo (hworded.low hword')
        rcases hword' with hword' | ⟨hslot', -⟩
        · exact absurd (List.mem_append_left _ hslot) (hfree word' hword' hle (by omega))
        · exact absurd hslot (apart.succ_notMem hslot')
    · exact hrun.even_sub_of_word hworded single (.inl hword) hlo hhi

end Course.Covered

theorem Survey.LabelsInto.pointerRun {s t : Survey n} (h : s.LabelsInto t) {first last : Nat}
    (hrun : t.PointerRun first last) : s.PointerRun first last where
  lt := hrun.lt
  pointer i hlo hhi := (h.isPointer_eq i).symm.trans (hrun.pointer i hlo hhi)
  before i hi := (h.isPointer_eq i).symm.trans (hrun.before i hi)
  after := (h.isPointer_eq last).symm.trans hrun.after

/-- If the tables do not overlap, a run of pointers is aligned in the end exactly if no word recovered
in it ends with the first byte of another word, be it seeded or recovered. -/
theorem Bank.analyze?_aligned_iff (bank : Bank) {seeds : Seeds} (apart : seeds.Apart) :
    ∃ a, bank.analyze? seeds = some a ∧ a.recoveredSlots.length = a.recovered ∧
      (∀ word ∈ a.recoveredSlots, a.survey.isPointer word ∧ a.survey.isPointer (word + 1)) ∧
      ∀ first last, a.survey.PointerRun first last →
        (Aligned (seeds.slots ++ a.recoveredSlots) first last ↔
          ∀ word ∈ a.recoveredSlots, first ≤ word → word < last →
            word + 1 ∉ seeds.slots ++ a.recoveredSlots) := by
  obtain ⟨x, ha, -, hx, -, -, -⟩ := (Course.kept_covered bank apart).exists_analyze?
  have hlabels := Survey.LabelsInto.of_labelBoundaries x.survey
  refine ⟨_, ha, hx.count.symm, fun word hword => ⟨?_, ?_⟩, fun first last hrun => ?_⟩
  · exact (hlabels.isPointer_eq _).trans (hx.claimed word hword _ (.inl rfl)).2
  · exact (hlabels.isPointer_eq _).trans (hx.claimed word hword _ (.inr rfl)).2
  · exact hx.aligned_iff apart (hlabels.pointerRun hrun)

/-- A call at `$3FF6` into its own operand, and a byte that is no code between it and the vectors. The
word that begins with this byte and ends with the first byte of the vectors points to the operand. -/
def bitingProgram : Nat → UInt8
  | 0x3FF6 => 0x20
  | 0x3FF7 | 0x3FF9 => 0xF7
  | 0x3FFC => 0xF6
  | _ => 0xFF

def bitingBank : Bank := ⟨Vector.ofFn fun i => bitingProgram i⟩

theorem pointee?_bitingBank {i : Nat} (h : i + 1 < Bank.size) :
    bitingBank.pointee? i =
      some (Bank.offsetOf ((bitingProgram i).toNat + 0x100 * (bitingProgram (i + 1)).toNat)) :=
  Bank.pointee?_ofFn bitingProgram h

theorem refuses_bitingBank : bitingBank.Refuses 0x3FF9 0 :=
  .unfit (Bank.opcode?_ofFn bitingProgram (by decide)) (.inl (by decide +kernel))

def bitingMarks : Nat → Mark
  | 0x3FF6 => { code := true, label := true, start := true }
  | 0x3FF7 | 0x3FF8 => { code := true }
  | _ => .codePointer

/-- The call leads nowhere and nothing follows it, and so the word behind it is taken for a jump table
and claimed, together with the first byte of the vectors. -/
theorem bitingBank_explored {s : Survey Bank.size}
    (plain : ∀ i, 0x3FF6 ≤ i → i < 0x3FFA → s.mark? i = some .plain)
    (vectors : ∀ i, 0x3FFA ≤ i → i < Bank.size → s.mark? i = some .codePointer) (r p : Nat) :
    ∃ t, (∀ i, 0x3FF6 ≤ i → i < Bank.size → t.mark? i = some (bitingMarks i)) ∧
      Relation.ReflTransGen (Move bitingBank) ⟨s, [.fresh 0x3FF6], r, p, false⟩
        ⟨t, [], r + 1, p + 1, true⟩ := by
  obtain ⟨t₁, h₁⟩ : ∃ t, s.claim? 0x3FF6 3 = some t := Survey.exists_claim? (by decide) (by decide)
  obtain ⟨t₂, h₂⟩ : ∃ t, t₁.release? 0x3FF9 0x3FF9 = some t :=
    Survey.exists_release? (by decide) (by decide)
  obtain ⟨t₃, h₃⟩ : ∃ t, t₂.point? 0x3FF9 = some t := Survey.exists_point? (by decide)
  obtain ⟨t₄, h₄⟩ : ∃ t, t₃.point? 0x3FFA = some t := Survey.exists_point? (by decide)
  obtain ⟨t₅, h₅⟩ : ∃ t, t₄.label? 0x3FF6 = some t := Survey.exists_label? (by decide)
  have marks₁ := fun i => Survey.mark?_of_claim? h₁ i
  have marks₂ := fun i => Survey.mark?_of_release? h₂ i
  have marks₃ := fun i => Survey.mark?_of_point? h₃ i
  have marks₄ := fun i => Survey.mark?_of_point? h₄ i
  have marks₅ := fun i => Survey.mark?_of_label? h₅ i
  have holds : bitingBank.Holds 0x3FF6 Opcode.jsr :=
    .ofFn bitingProgram (by decide +kernel) (by decide) (by decide) (by decide)
  have data₀ : s.isData 0x3FF6 := Survey.isData_of_plain (plain _ (by decide) (by decide))
  have data₁ : t₁.isData 0x3FF9 := by
    rw [Survey.isData, marks₁, plain _ (by decide) (by decide)]
    rfl
  have target : bitingBank.pointee? 0x3FF7 = some 0x3FF7 := pointee?_bitingBank (by decide)
  have refused₁ : t₁.entering (some 0x3FF7) = [] := by
    rw [Survey.entering, Survey.isCode, Survey.isStart, marks₁, plain _ (by decide) (by decide)]
    rfl
  have refused₂ : t₂.entering (some 0x3FF7) = [] := by
    rw [Survey.entering, Survey.isCode, Survey.isStart, marks₂, marks₁,
      plain _ (by decide) (by decide)]
    rfl
  have word : Exploration.isTableWord t₂ bitingBank 0x3FF9 := by
    rw [Exploration.isTableWord, Survey.isPlain, marks₂, marks₁, plain _ (by decide) (by decide),
      show bitingBank.byte? (0x3FF9 + 1) = some 0xFF from Bank.byte?_ofFn bitingProgram (by decide)]
    rfl
  have noWord : Exploration.isTableWord t₄ bitingBank 0x3FFB = false := by
    rw [Exploration.isTableWord, Survey.isPlain, marks₄, marks₃, marks₂, marks₁,
      vectors _ (by decide) (by decide)]
    rfl
  refine ⟨t₅, fun i hlo hhi => ?_, ?_⟩
  · rw [marks₅, marks₄, marks₃, marks₂, marks₁]
    rcases Nat.lt_or_ge i 0x3FFA with hlt | hge
    · rw [plain i hlo hlt]
      interval_cases i <;> rfl
    · rw [vectors i hge hhi]
      have hend : i < 0x4000 := hhi
      interval_cases i <;> rfl
  · have move₁ : Move bitingBank ⟨s, [.fresh 0x3FF6], r, p, false⟩ _ :=
      .transfer data₀ holds rfl h₁
    have htransfer : bitingBank.transfer? 0x3FF6 Opcode.jsr = some 0x3FF7 := target
    rw [htransfer, refused₁] at move₁
    have move₂ : Move bitingBank ⟨t₁, [⟨0x3FF6, 0x3FF9, .decode 0x3FF9 true⟩], r, p, false⟩
        ⟨t₂, [⟨0x3FF6, 0x3FF9, .probe 0⟩], r + 1, p, false⟩ := .undo data₁ refuses_bitingBank h₂
    have move₃ : Move bitingBank ⟨t₂, [⟨0x3FF6, 0x3FF9, .probe 0⟩], r + 1, p, false⟩ _ :=
      .probe word (pointee?_bitingBank (by decide))
    rw [show Bank.offsetOf _ = 0x3FF7 from rfl, refused₂] at move₃
    have move₄ : Move bitingBank ⟨t₂, [⟨0x3FF6, 0x3FF9, .claim 0⟩], r + 1, p, false⟩
        ⟨t₄, [⟨0x3FF6, 0x3FFB, .probe 0⟩], r + 1, p + 1, false⟩ := .claim h₃ h₄
    have move₅ : Move bitingBank ⟨t₄, [⟨0x3FF6, 0x3FFB, .probe 0⟩], r + 1, p + 1, false⟩
        ⟨t₄, [⟨0x3FF6, 0x3FFB, .close⟩], r + 1, p + 1, false⟩ := .tableEnd noWord
    have move₆ : Move bitingBank ⟨t₄, [⟨0x3FF6, 0x3FFB, .close⟩], r + 1, p + 1, false⟩
        ⟨t₅, [], r + 1, p + 1, true⟩ := .finish h₅
    exact .head move₁ (.head move₂ (.head move₃ (.head move₄ (.head move₅ (.single move₆)))))

theorem pointee?_slot_bitingBank {seeds : Seeds}
    (low : ∀ t ∈ seeds.extra, t.offset + 2 * t.count ≤ 0x3FF6) {slot : Nat}
    (hslot : slot ∈ seeds.slots) :
    bitingBank.pointee? slot = some 0x3FF6 ∨ bitingBank.pointee? slot = some 0x3FFF := by
  obtain ⟨t, ht, hslot⟩ := List.mem_flatMap.1 hslot
  rcases List.mem_append.1 ht with ht | ht
  · right
    have hbound := low t ht
    obtain ⟨i, hi, rfl⟩ := List.mem_map.1 hslot
    have hi := List.mem_range.1 hi
    have erased : ∀ j < 0x3FF6, bitingProgram j = 0xFF := by
      intro j hj
      unfold bitingProgram
      split
      all_goals first | rfl | omega
    rw [pointee?_bitingBank (by unfold Bank.size; omega), erased _ (by omega), erased _ (by omega)]
    rfl
  · obtain rfl := List.mem_singleton.1 ht
    have hvectors : slot = 0x3FFA ∨ slot = 0x3FFC ∨ slot = 0x3FFE := by
      simpa [PointerTable.slots, PointerTable.vectors, List.range_succ] using hslot
    rcases hvectors with rfl | rfl | rfl
    · exact .inr (pointee?_bitingBank (by decide))
    · exact .inl (pointee?_bitingBank (by decide))
    · exact .inr (pointee?_bitingBank (by decide))

/-- What is known of the marks while the biting program is analysed: either the call has been explored,
or it has not, and its slot is still to come. -/
def BitingStage (slots : List Nat) (s : Survey Bank.size) : Prop :=
  (0x3FFC ∈ slots ∧ (∀ i, 0x3FF6 ≤ i → i < 0x3FFA → s.mark? i = some .plain) ∧
    ∀ i, 0x3FFA ≤ i → i < Bank.size → s.mark? i = some .codePointer) ∨
  ∀ i, 0x3FF6 ≤ i → i < Bank.size → s.mark? i = some (bitingMarks i)

/-- Exploring the call once more changes no mark. -/
theorem bitingBank_explored_again {s : Survey Bank.size}
    (marks : ∀ i, 0x3FF6 ≤ i → i < Bank.size → s.mark? i = some (bitingMarks i)) (r p : Nat) :
    ∃ t, (∀ i, 0x3FF6 ≤ i → i < Bank.size → t.mark? i = some (bitingMarks i)) ∧
      Relation.ReflTransGen (Move bitingBank) ⟨s, [.fresh 0x3FF6], r, p, false⟩
        ⟨t, [], r, p, false⟩ := by
  have hcall := marks 0x3FF6 le_rfl (by decide)
  have hcode : s.isCode 0x3FF6 := by
    rw [Survey.isCode, hcall]
    rfl
  have hdata : s.isData 0x3FF6 = false := by
    rw [Survey.isData, hcall]
    rfl
  obtain ⟨t, ht, hmoves⟩ := Move.reach_of_found bitingBank hcode hdata r p
  refine ⟨t, fun i hlo hhi => ?_, hmoves⟩
  rw [Survey.mark?_of_label? ht, marks i hlo hhi]
  by_cases hi : i = 0x3FF6
  · subst hi
    rfl
  · rw [if_neg hi]

theorem BitingStage.next {slot : Nat} {slots : List Nat} {s : Survey Bank.size}
    (h : BitingStage (slot :: slots) s) (hslot : bitingBank.pointee? slot = some 0x3FF6 ∨
      bitingBank.pointee? slot = some 0x3FFF) (r p : Nat) :
    ∃ target t r' p' a, bitingBank.pointee? slot = some target ∧ BitingStage slots t ∧
      Relation.ReflTransGen (Move bitingBank) ⟨s, s.entering (some target), r, p, false⟩
        ⟨t, [], r', p', a⟩ := by
  rcases hslot with hslot | hslot
  · rcases h with ⟨-, plain, vectors⟩ | marks
    · obtain ⟨t, hmarks, hmoves⟩ := bitingBank_explored plain vectors r p
      rw [← Survey.entering_of_plain (plain 0x3FF6 le_rfl (by decide))] at hmoves
      exact ⟨_, t, _, _, _, hslot, .inr hmarks, hmoves⟩
    · have begun : s.entering (some 0x3FF6) = [.fresh 0x3FF6] := by
        rw [Survey.entering, Survey.isCode, Survey.isStart, marks _ le_rfl (by decide)]
        rfl
      obtain ⟨t, hmarks, hmoves⟩ := bitingBank_explored_again marks r p
      rw [← begun] at hmoves
      exact ⟨_, t, _, _, _, hslot, .inr hmarks, hmoves⟩
  · have last : s.mark? 0x3FFF = some .codePointer := by
      rcases h with ⟨-, -, vectors⟩ | marks
      · exact vectors _ (by decide) (by decide)
      · exact marks _ (by decide) (by decide)
    have refused : s.entering (some 0x3FFF) = [] := by
      rw [Survey.entering, Survey.isCode, Survey.isStart, last]
      rfl
    refine ⟨_, s, r, p, false, hslot, h.imp_left fun hbefore => ⟨?_, hbefore.2⟩, refused ▸ .refl⟩
    -- The slot of the call is another one, as it leads elsewhere.
    refine (List.mem_cons.1 hbefore.1).resolve_left fun heq => ?_
    have hcall : bitingBank.pointee? 0x3FFC = some 0x3FF6 := pointee?_bitingBank (by decide)
    rw [← heq, hcall] at hslot
    exact absurd (Option.some.inj hslot) (by decide)

/-- With the tables out of the way of the call, the analysis of the biting program ends with a run of
seven pointers. -/
theorem exists_analyze?_bitingBank (seeds : Seeds)
    (low : ∀ t ∈ seeds.extra, t.offset + 2 * t.count ≤ 0x3FF6) :
    ∃ a, bitingBank.analyze? seeds = some a ∧ a.survey.PointerRun 0x3FF9 Bank.size := by
  obtain ⟨s, x, hseed, hexplores, ha⟩ := bitingBank.analyze?_eq_some seeds
  have hcall : 0x3FFC ∈ seeds.slots :=
    List.mem_flatMap.2 ⟨.vectors, List.mem_append_right _ List.mem_cons_self, by decide⟩
  have begun : BitingStage seeds.slots s := by
    refine .inl ⟨hcall, fun i hlo hhi => ?_, fun _ hlo hhi => Analysis.mark?_of_vectors hseed hlo hhi⟩
    refine Analysis.mark?_of_not_covers hseed (hhi.trans (by decide)) ?_
    rintro ⟨t, ht, hfirst, hlast⟩
    rcases List.mem_append.1 ht with ht | ht
    · have := low t ht
      omega
    · obtain rfl := List.mem_singleton.1 ht
      have hfirst : 0x3FFA ≤ i := hfirst
      omega
  have hlast := hexplores.leads
    (Q := fun slots s => (∀ slot ∈ slots, slot ∈ seeds.slots) ∧ BitingStage slots s)
    ⟨fun _ hmem => hmem, begun⟩ ?_
  · have marks := hlast.2.resolve_left fun h => List.not_mem_nil h.1
    have hlabels := Survey.LabelsInto.of_labelBoundaries x.survey
    have pointer : ∀ i, 0x3FF6 ≤ i → i < Bank.size →
        (Analysis.ofExploration x).survey.isPointer i = (bitingMarks i).pointer := by
      intro i hlo hhi
      refine (hlabels.isPointer_eq i).trans ?_
      rw [Survey.isPointer, marks i hlo hhi, Option.any_some]
    refine ⟨_, ha, by decide, fun i hlo hhi => ?_, fun i hi => ?_, ?_⟩
    · rw [pointer i (by omega) hhi]
      have hend : i < 0x4000 := hhi
      interval_cases i <;> rfl
    · obtain rfl : i = 0x3FF8 := Nat.succ.inj hi
      exact pointer _ (by decide) (by decide)
    · rw [Bool.eq_false_iff]
      exact fun h => absurd (Survey.lt_of_any h) (lt_irrefl _)
  · rintro slot slots s r p ⟨hslots, hs⟩
    rw [List.forall_mem_cons] at hslots
    obtain ⟨target, t, r', p', a, hpointee, ht, hmoves⟩ :=
      hs.next (pointee?_slot_bitingBank low hslots.1) r p
    exact ⟨target, t, r', p', a, hpointee, ⟨hslots.2, ht⟩, hmoves⟩

/-- The run of pointers that ends with the vectors of the biting program has an odd length. -/
theorem not_even_pointerRun_bitingBank : Seeds.empty.Apart ∧
    ∃ a first last, bitingBank.analyze? .empty = some a ∧ a.survey.PointerRun first last ∧
      ¬ Even (last - first) := by
  obtain ⟨a, ha, hrun⟩ := exists_analyze?_bitingBank .empty nofun
  exact ⟨List.pairwise_singleton _ _, a, _, _, ha, hrun, by decide⟩

/-- In the run of pointers that ends with the vectors of the biting program, some word that was
recovered ends with the first byte of another, also if there is a table beside the vectors. -/
theorem exists_biting_word : Seeds.twoWords.Apart ∧
    ∃ a, bitingBank.analyze? Seeds.twoWords = some a ∧ ∃ word ∈ a.recoveredSlots, 0x3FF9 ≤ word ∧
      word < Bank.size ∧ word + 1 ∈ Seeds.twoWords.slots ++ a.recoveredSlots := by
  have apart := Seeds.twoWords_apart
  obtain ⟨a, ha, -, -, haligned⟩ := bitingBank.analyze?_aligned_iff apart
  obtain ⟨b, hb, hrun⟩ := exists_analyze?_bitingBank Seeds.twoWords (by decide)
  obtain rfl := Option.some.inj (ha.symm.trans hb)
  refine ⟨apart, a, ha, ?_⟩
  by_contra hnone
  have hfree : ∀ word ∈ a.recoveredSlots, 0x3FF9 ≤ word → word < Bank.size →
      word + 1 ∉ Seeds.twoWords.slots ++ a.recoveredSlots := fun word hword hlo hhi hnext =>
    hnone ⟨word, hword, hlo, hhi, hnext⟩
  exact absurd ((haligned _ _ hrun).2 hfree).1 (by decide)

end BankTrace
