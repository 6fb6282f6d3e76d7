import BankTrace.Proofs.Marks
import BankTrace.Proofs.Progress

namespace BankTrace

def Control.goesOn : Control → Bool
  | next | reference | branch | call => true
  | _ => false

def Seeds.Covers (seeds : Seeds) (i : Nat) : Prop :=
  ∃ t ∈ seeds.tables, t.offset ≤ i ∧ i < t.offset + 2 * t.count

namespace Bank

/-- The offsets that control can reach from the words of the pointer tables. -/
inductive Reaches (bank : Bank) (seeds : Seeds) : Nat → Prop
  | slot {slot target : Nat} (mem : slot ∈ seeds.slots)
      (pointee : bank.pointee? slot = some target) : Reaches bank seeds target
  | onward {offset : Nat} {op : Opcode} (reached : Reaches bank seeds offset)
      (opcode : bank.opcode? offset = some op) (goesOn : op.control.goesOn) :
      Reaches bank seeds (offset + op.length)
  | transfer {offset target : Nat} {op : Opcode} (reached : Reaches bank seeds offset)
      (opcode : bank.opcode? offset = some op) (sent : bank.transfer? offset op = some target) :
      Reaches bank seeds target

def Spans (bank : Bank) (offset i : Nat) : Prop :=
  ∃ op, bank.opcode? offset = some op ∧ offset ≤ i ∧ i < offset + op.length

structure WellFormed (bank : Bank) (seeds : Seeds) : Prop where
  holds : ∀ {offset}, bank.Reaches seeds offset → ∃ op, bank.Holds offset op
  apart : ∀ {a b i}, bank.Reaches seeds a → bank.Reaches seeds b →
    bank.Spans a i → bank.Spans b i → a = b
  clear : ∀ {offset i}, bank.Reaches seeds offset → bank.Spans offset i → ¬ seeds.Covers i

variable {bank : Bank} {seeds : Seeds} {offset i : Nat} {op : Opcode}

theorem Holds.spans_iff (h : bank.Holds offset op) :
    bank.Spans offset i ↔ offset ≤ i ∧ i < offset + op.length := by
  constructor
  · rintro ⟨op', hop', hi⟩
    obtain rfl := Option.some.inj (h.opcode.symm.trans hop')
    exact hi
  · intro hi
    exact ⟨op, h.opcode, hi⟩

namespace WellFormed

variable (wf : bank.WellFormed seeds)
include wf

theorem spans_self (h : bank.Reaches seeds offset) : bank.Spans offset offset := by
  obtain ⟨op, hop⟩ := wf.holds h
  have hpos := hop.length_pos
  rw [hop.spans_iff]
  omega

/-- What control reaches is the first byte of any instruction that it reaches and that spans it. -/
theorem eq_of_spans {a b : Nat} (ha : bank.Reaches seeds a) (hb : bank.Reaches seeds b)
    (h : bank.Spans a b) : a = b :=
  wf.apart ha hb h (wf.spans_self hb)

theorem lt (h : bank.Reaches seeds offset) : offset < Bank.size := by
  obtain ⟨op, hop⟩ := wf.holds h
  exact hop.lt

theorem isLabel_of_claim? {s t : Survey Bank.size} (hr : bank.Reaches seeds offset)
    (holds : bank.Holds offset op) (claimed : s.claim? offset op.length = some t)
    (hi : bank.Reaches seeds i) (hl : s.isLabel i) : t.isLabel i := by
  rw [Survey.isLabel_of_claim? claimed]
  refine ⟨hl, fun hin => ?_⟩
  have hspan : bank.Spans offset i := holds.spans_iff.2 ⟨hin.1.le, hin.2⟩
  have heq := wf.eq_of_spans hr hi hspan
  omega

end WellFormed

end Bank

/-- A survey with nothing marked but the bytes of pointer tables and of instructions in reach. -/
structure Survey.Faithful (bank : Bank) (seeds : Seeds) (s : Survey Bank.size) : Prop where
  data_iff : ∀ {i}, i < Bank.size → (s.isData i ↔ ¬ s.isCode i)
  reached : ∀ {i}, s.isStart i → bank.Reaches seeds i
  code_iff : ∀ i, s.isCode i ↔ seeds.Covers i ∨ ∃ o, s.isStart o ∧ bank.Spans o i
  pointer_iff : ∀ i, s.isPointer i ↔ seeds.Covers i

namespace Survey.Faithful

variable {bank : Bank} {seeds : Seeds} {s t : Survey Bank.size} {offset i : Nat} {op : Opcode}

theorem of_labelsInto (h : s.Faithful bank seeds) (hl : s.LabelsInto t) : t.Faithful bank seeds where
  data_iff hi := by rw [hl.isData_eq, hl.isCode_eq, h.data_iff hi]
  reached hi := h.reached (by rwa [hl.isStart_eq] at hi)
  code_iff i := by simp only [hl.isCode_eq, hl.isStart_eq, h.code_iff]
  pointer_iff i := by rw [hl.isPointer_eq, h.pointer_iff]

section WellFormed

variable (h : s.Faithful bank seeds) (wf : bank.WellFormed seeds)
include h wf

theorem isStart_of_isCode (hr : bank.Reaches seeds i) (hc : s.isCode i) : s.isStart i := by
  rcases (h.code_iff i).1 hc with hcov | ⟨o, ho, hspan⟩
  · exact absurd hcov (wf.clear hr (wf.spans_self hr))
  · have heq := wf.eq_of_spans (h.reached ho) hr hspan
    rwa [← heq]

theorem isStart_of_not_isData (hr : bank.Reaches seeds i) (hd : s.isData i = false) :
    s.isStart i := by
  apply h.isStart_of_isCode wf hr
  have hiff := h.data_iff (wf.lt hr)
  simpa [hd] using hiff

theorem isCode_of_isStart (hs : s.isStart i) : s.isCode i :=
  (h.code_iff i).2 (.inr ⟨i, hs, wf.spans_self (h.reached hs)⟩)

/-- Every strand for an offset in reach is begun. -/
theorem entering_eq (hr : bank.Reaches seeds i) : s.entering i = [.fresh i] := by
  apply if_neg
  intro hin
  simp only [Bool.and_eq_true, Bool.not_eq_true'] at hin
  have hstart := h.isStart_of_isCode wf hr hin.1
  simp [hstart] at hin

variable (hr : bank.Reaches seeds offset) (holds : bank.Holds offset op)
  (claimed : s.claim? offset op.length = some t)
include hr holds claimed

theorem isStart_of_claim? (hs : s.isStart i) : t.isStart i := by
  rw [Survey.isStart_of_claim? claimed]
  by_cases hi : i = offset
  · exact .inl hi
  · refine .inr ⟨hs, fun hin => hi ?_⟩
    have hspan : bank.Spans offset i := holds.spans_iff.2 ⟨hin.1.le, hin.2⟩
    exact (wf.eq_of_spans hr (h.reached hs) hspan).symm

theorem of_claim? : t.Faithful bank seeds where
  data_iff {i} hi := by
    have hiff := h.data_iff hi
    have hdata := Survey.isData_of_claim? claimed i
    have hcode := Survey.isCode_of_claim? claimed i
    tauto
  reached {i} hi := by
    rcases (Survey.isStart_of_claim? claimed i).1 hi with rfl | hold
    · exact hr
    · exact h.reached hold.1
  code_iff i := by
    rw [Survey.isCode_of_claim? claimed, ← holds.spans_iff]
    constructor
    · rintro (hc | hspan)
      · rcases (h.code_iff i).1 hc with hcov | ⟨o, ho, hspan⟩
        · exact .inl hcov
        · exact .inr ⟨o, h.isStart_of_claim? wf hr holds claimed ho, hspan⟩
      · exact .inr ⟨offset, (Survey.isStart_of_claim? claimed offset).2 (.inl rfl), hspan⟩
    · rintro (hcov | ⟨o, ho, hspan⟩)
      · exact .inl ((h.code_iff i).2 (.inl hcov))
      · rcases (Survey.isStart_of_claim? claimed o).1 ho with rfl | hold
        · exact .inr hspan
        · exact .inl ((h.code_iff i).2 (.inr ⟨o, hold.1, hspan⟩))
  pointer_iff i := by rw [Survey.isPointer_of_claim? claimed, h.pointer_iff]

end WellFormed

end Survey.Faithful

end BankTrace
