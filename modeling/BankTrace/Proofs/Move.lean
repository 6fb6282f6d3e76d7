import BankTrace.Exploration.Step
import BankTrace.Proofs.Decoding

namespace BankTrace

variable {n : Nat}

namespace Survey

/-- The strand that is begun for a target: none in the middle of an instruction. -/
def entering (s : Survey n) : Option Nat → List Strand
  | none => []
  | some target => if s.isCode target && !s.isStart target then [] else [.fresh target]

theorem isData_of_plain {s : Survey n} {i : Nat} (h : s.mark? i = some .plain) : s.isData i := by
  rw [isData, h]
  rfl

theorem entering_of_plain {s : Survey n} {i : Nat} (h : s.mark? i = some .plain) :
    s.entering (some i) = [.fresh i] := by
  rw [entering, isCode, h]
  rfl

def refer? (s : Survey n) (bank : Bank) (operand : Nat) : Option (Survey n) := do
  let isCartridge ← bank.isCartridge? operand
  let target ← bank.pointee? operand
  if isCartridge && !s.isCode target && !Exploration.nearDataLabel s target then s.label? target
  else some s

/-- Labels the data that the instruction `op` at `offset` names, if it is one that reads memory. -/
def annotate? (s : Survey n) (bank : Bank) (offset : Nat) (op : Opcode) : Option (Survey n) :=
  if op.control = .reference then s.refer? bank (offset + 1) else some s

/-- Labels the first byte of a strand that ended at `offset`, if it went anywhere or began at code. -/
def close? (s : Survey n) (start offset : Nat) : Option (Survey n) :=
  if offset != start || s.isCode start then s.label? start else some s

end Survey

/-- What a strand does after an instruction that is not straight-line, when its target has been
explored. -/
def Control.taskAfter (next : Nat) : Control → Task
  | branch => .decode next false
  | call => .decode next true
  | _ => .close

/-- Where the instruction `op` at `offset` transfers control to. The pointer of an indirect jump is
followed only in the cartridge and inside the bank. -/
def Bank.transfer? (bank : Bank) (offset : Nat) (op : Opcode) : Option Nat :=
  match op.control with
  | .branch => (bank.byte? (offset + 1)).map (branchOffset offset)
  | .jump | .call => bank.pointee? (offset + 1)
  | .jumpIndirect => do
    let isCartridge ← bank.isCartridge? (offset + 1)
    let pointer ← bank.pointee? (offset + 1)
    if isCartridge && pointer + 1 < Bank.size then bank.pointee? pointer else none
  | _ => none

def Strand.undone (start settled : Nat) (afterCall : Bool) (refused : Nat) : Strand :=
  if afterCall then ⟨start, settled, .probe refused⟩ else ⟨start, settled + refused, .close⟩

/-- What the steps of an exploration work on; the rest of its state only keeps record of them. -/
@[ext] structure Course (n : Nat) where
  survey : Survey n
  strands : List Strand
  rollbacks : Nat
  recovered : Nat
  advanced : Bool

def Exploration.course (x : Exploration n) : Course n :=
  ⟨x.survey, x.strands, x.rollbacks, x.recovered, x.advanced⟩

/-- What one step of the current strand can be. -/
inductive Move (bank : Bank) : Course n → Course n → Prop
  | arrive {s : Survey n} {start offset settled afterCall waiting r p a}
      (stop : s.isData offset = false) :
      Move bank ⟨s, ⟨start, offset, .decode settled afterCall⟩ :: waiting, r, p, a⟩
        ⟨s, ⟨start, offset, .close⟩ :: waiting, r, p, a⟩
  | undo {s t : Survey n} {start offset settled afterCall k waiting r p a}
      (data : s.isData offset) (refuses : bank.Refuses offset k)
      (released : s.release? settled offset = some t) :
      Move bank ⟨s, ⟨start, offset, .decode settled afterCall⟩ :: waiting, r, p, a⟩
        ⟨t, .undone start settled afterCall k :: waiting, r + 1, p, a⟩
  | advance {s t u : Survey n} {start offset settled afterCall op waiting r p a}
      (data : s.isData offset) (holds : bank.Holds offset op) (linear : op.control.isLinear)
      (claimed : s.claim? offset op.length = some t)
      (annotated : t.annotate? bank offset op = some u) :
      Move bank ⟨s, ⟨start, offset, .decode settled afterCall⟩ :: waiting, r, p, a⟩
        ⟨u, ⟨start, offset + op.length, .decode settled afterCall⟩ :: waiting, r, p, a⟩
  | transfer {s t : Survey n} {start offset settled afterCall op waiting r p a}
      (data : s.isData offset) (holds : bank.Holds offset op)
      (nonlinear : op.control.isLinear = false) (claimed : s.claim? offset op.length = some t) :
      Move bank ⟨s, ⟨start, offset, .decode settled afterCall⟩ :: waiting, r, p, a⟩
        ⟨t, t.entering (bank.transfer? offset op) ++
          ⟨start, offset + op.length, op.control.taskAfter (offset + op.length)⟩ :: waiting, r, p, a⟩
  | probe {s : Survey n} {start offset k target waiting r p a}
      (word : Exploration.isTableWord s bank offset)
      (pointee : bank.pointee? offset = some target) :
      Move bank ⟨s, ⟨start, offset, .probe k⟩ :: waiting, r, p, a⟩
        ⟨s, s.entering target ++ ⟨start, offset, .claim k⟩ :: waiting, r, p, a⟩
  | tableEnd {s : Survey n} {start offset k waiting r p a}
      (noWord : Exploration.isTableWord s bank offset = false) :
      Move bank ⟨s, ⟨start, offset, .probe k⟩ :: waiting, r, p, a⟩
        ⟨s, ⟨start, offset + k, .close⟩ :: waiting, r, p, a⟩
  | claim {s t u : Survey n} {start offset k waiting r p a}
      (low : s.point? offset = some t) (high : t.point? (offset + 1) = some u) :
      Move bank ⟨s, ⟨start, offset, .claim k⟩ :: waiting, r, p, a⟩
        ⟨u, ⟨start, offset + 2, .probe k⟩ :: waiting, r, p + 1, a⟩
  | finish {s t : Survey n} {start offset waiting r p a} (closed : s.close? start offset = some t) :
      Move bank ⟨s, ⟨start, offset, .close⟩ :: waiting, r, p, a⟩
        ⟨t, waiting, r, p, offset != start⟩

namespace Exploration

theorem lt_of_isTableWord {bank : Bank} {s : Survey n} {slot : Nat} (h : isTableWord s bank slot) :
    slot + 1 < Bank.size := by
  simp only [isTableWord, Bool.and_eq_true] at h
  cases hbyte : bank.byte? (slot + 1) with
  | none => simp [hbyte] at h
  | some byte => exact Bank.lt_of_byte? hbyte

end Exploration

def Strand.Inside (n : Nat) (strand : Strand) : Prop :=
  match strand.task with
  | .decode settled _ =>
    strand.start ≤ settled ∧ settled ≤ strand.offset ∧ (strand.offset = strand.start ∨ strand.start < n)
  | .probe _ => strand.start < n
  | .claim _ => strand.start < n ∧ strand.offset + 1 < n
  | .close => strand.offset = strand.start ∨ strand.start < n

def Course.Inside (c : Course n) : Prop := ∀ strand ∈ c.strands, strand.Inside n

theorem Strand.fresh_inside (start : Nat) : (Strand.fresh start).Inside n :=
  ⟨le_rfl, le_rfl, .inl rfl⟩

theorem Survey.eq_fresh_of_mem_entering {s : Survey n} {target : Option Nat} {strand : Strand}
    (h : strand ∈ s.entering target) : ∃ start, target = some start ∧ strand = .fresh start := by
  cases target with
  | none => simp [entering] at h
  | some start =>
    simp only [entering] at h
    split at h
    · simp at h
    · exact ⟨start, rfl, List.mem_singleton.1 h⟩

theorem Move.inside {bank : Bank} {c d : Course Bank.size} (h : Move bank c d) (hc : c.Inside) :
    d.Inside := by
  cases h with
  | arrive stop =>
    simp only [Course.Inside, List.forall_mem_cons] at hc ⊢
    exact ⟨hc.1.2.2, hc.2⟩
  | undo data refuses released =>
    simp only [Course.Inside, List.forall_mem_cons] at hc ⊢
    refine ⟨?_, hc.2⟩
    have hlt := Survey.isData_lt data
    have hstart : _ ≤ _ := hc.1.1.trans hc.1.2.1
    unfold Strand.undone
    split
    · exact hstart.trans_lt hlt
    · exact .inr (hstart.trans_lt hlt)
  | advance data holds linear claimed annotated =>
    simp only [Course.Inside, List.forall_mem_cons] at hc ⊢
    exact ⟨⟨hc.1.1, hc.1.2.1.trans (Nat.le_add_right _ _),
      .inr ((hc.1.1.trans hc.1.2.1).trans_lt holds.lt)⟩, hc.2⟩
  | @transfer s t start offset settled afterCall op waiting r p a data holds nonlinear claimed =>
    simp only [Course.Inside, List.forall_mem_cons, List.forall_mem_append] at hc ⊢
    have hle : start ≤ offset := hc.1.1.trans hc.1.2.1
    have hlt : start < Bank.size := hle.trans_lt holds.lt
    refine ⟨?_, ?_, hc.2⟩
    · intro strand hmem
      obtain ⟨target, -, rfl⟩ := Survey.eq_fresh_of_mem_entering hmem
      exact Strand.fresh_inside target
    · cases op.control <;>
        first
        | exact ⟨hle.trans (Nat.le_add_right _ _), le_rfl, .inr hlt⟩
        | exact .inr hlt
  | probe word pointee =>
    simp only [Course.Inside, List.forall_mem_cons, List.forall_mem_append] at hc ⊢
    refine ⟨?_, ⟨hc.1, Exploration.lt_of_isTableWord word⟩, hc.2⟩
    intro strand hmem
    obtain ⟨target, -, rfl⟩ := Survey.eq_fresh_of_mem_entering hmem
    exact Strand.fresh_inside target
  | tableEnd noWord =>
    simp only [Course.Inside, List.forall_mem_cons] at hc ⊢
    exact ⟨.inr hc.1, hc.2⟩
  | claim low high =>
    simp only [Course.Inside, List.forall_mem_cons] at hc ⊢
    exact ⟨hc.1.1, hc.2⟩
  | finish closed =>
    simp only [Course.Inside, List.forall_mem_cons] at hc ⊢
    exact hc.2

end BankTrace
