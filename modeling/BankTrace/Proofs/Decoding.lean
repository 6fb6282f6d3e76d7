import BankTrace.Bank
import BankTrace.Opcode.Table
import Mathlib.Logic.Relation
import Mathlib.Tactic

namespace BankTrace

namespace Bank

theorem byte?_eq_some (bank : Bank) {offset : Nat} (h : offset < size) :
    ∃ byte, bank.byte? offset = some byte :=
  ⟨bank.bytes[offset], by simp [byte?, h]⟩

theorem lt_of_byte? {bank : Bank} {offset : Nat} {byte : UInt8}
    (h : bank.byte? offset = some byte) : offset < size := by
  by_contra hge
  simp [byte?, Nat.not_lt.1 hge] at h

theorem byte?_ofFn (f : Nat → UInt8) {offset : Nat} (h : offset < size) :
    (⟨Vector.ofFn fun i => f i⟩ : Bank).byte? offset = some (f offset) := by
  simp [byte?, h]

theorem word?_eq_some (bank : Bank) {offset : Nat} (h : offset + 1 < size) :
    ∃ word, bank.word? offset = some word := by
  obtain ⟨low, hlow⟩ := byte?_eq_some bank (by omega : offset < size)
  obtain ⟨high, hhigh⟩ := byte?_eq_some bank h
  exact ⟨_, by simp [word?, hlow, hhigh]; rfl⟩

theorem word?_ofFn (f : Nat → UInt8) {offset : Nat} (h : offset + 1 < size) :
    (⟨Vector.ofFn fun i => f i⟩ : Bank).word? offset =
      some ((f offset).toNat + 0x100 * (f (offset + 1)).toNat) := by
  rw [word?, byte?_ofFn f (by omega), byte?_ofFn f h]
  rfl

theorem pointee?_ofFn (f : Nat → UInt8) {offset : Nat} (h : offset + 1 < size) :
    (⟨Vector.ofFn fun i => f i⟩ : Bank).pointee? offset =
      some (offsetOf ((f offset).toNat + 0x100 * (f (offset + 1)).toNat)) := by
  rw [pointee?, word?_ofFn f h, Option.map_some]

theorem byte?_of_word? {bank : Bank} {offset word : Nat} (h : bank.word? offset = some word) :
    ∃ low high, bank.byte? offset = some low ∧ bank.byte? (offset + 1) = some high ∧
      word = low.toNat + 0x100 * high.toNat := by
  simp only [word?, Option.bind_eq_bind, Option.bind_eq_some_iff] at h
  obtain ⟨low, hlow, high, hhigh, hword⟩ := h
  exact ⟨low, high, hlow, hhigh, (Option.some.inj hword).symm⟩

theorem pointee?_eq_some (bank : Bank) {offset : Nat} (h : offset + 1 < size) :
    ∃ target, bank.pointee? offset = some target := by
  obtain ⟨word, hword⟩ := word?_eq_some bank h
  exact ⟨_, by rw [pointee?, hword]; rfl⟩

theorem isCartridge?_eq_some (bank : Bank) {offset : Nat} (h : offset + 1 < size) :
    ∃ b, bank.isCartridge? offset = some b := by
  obtain ⟨high, hhigh⟩ := byte?_eq_some bank h
  exact ⟨_, by rw [isCartridge?, hhigh]; rfl⟩

theorem le_word_of_isCartridge? {bank : Bank} {offset word : Nat}
    (hword : bank.word? offset = some word) (hhigh : bank.isCartridge? offset = some true) :
    0x8000 ≤ word := by
  obtain ⟨low, high, -, hbyte, rfl⟩ := byte?_of_word? hword
  rw [isCartridge?, hbyte, Option.map_some, Option.some.injEq, decide_eq_true_eq,
    UInt8.le_iff_toNat_le] at hhigh
  have hle : 0x80 ≤ high.toNat := hhigh
  omega

theorem offsetOf_lt (address : Nat) : offsetOf address < size :=
  Nat.mod_lt _ (by decide)

theorem pointee?_lt {bank : Bank} {offset target : Nat} (h : bank.pointee? offset = some target) :
    target < size := by
  obtain ⟨word, -, rfl⟩ := Option.map_eq_some_iff.1 h
  exact offsetOf_lt word

def opcode? (bank : Bank) (offset : Nat) : Option Opcode := (bank.byte? offset).map Opcode.ofByte

theorem opcode?_of_byte? {bank : Bank} {offset : Nat} {byte : UInt8}
    (h : bank.byte? offset = some byte) : bank.opcode? offset = some (Opcode.ofByte byte) := by
  rw [opcode?, h, Option.map_some]

theorem opcode?_ofFn (f : Nat → UInt8) {offset : Nat} (h : offset < size) :
    (⟨Vector.ofFn fun i => f i⟩ : Bank).opcode? offset = some (Opcode.ofByte (f offset)) :=
  opcode?_of_byte? (byte?_ofFn f h)

theorem lt_of_opcode? {bank : Bank} {offset : Nat} {op : Opcode}
    (h : bank.opcode? offset = some op) : offset < size := by
  obtain ⟨byte, hbyte, -⟩ := Option.map_eq_some_iff.1 h
  exact lt_of_byte? hbyte

end Bank

theorem branchOffset_lt (offset : Nat) (byte : UInt8) : branchOffset offset byte < Bank.size := by
  have hpos : (0 : Int) < Bank.size := by decide
  have h₀ := Int.emod_nonneg (offset + 2 + displacement byte) hpos.ne'
  have h₁ := Int.emod_lt_of_pos (offset + 2 + displacement byte) hpos
  unfold branchOffset
  omega

namespace Opcode

/-- What the decode table promises of each entry. -/
def Regular (op : Opcode) : Prop :=
  match op.control with
  | .illegal => op.length ≤ 1
  | .next => 0 < op.length ∧ op.length ≤ 3
  | .reference => op.mode.isAbsolute ∧ op.length = 3
  | .branch => op.length = 2
  | .jump | .jumpIndirect | .call => op.length = 3
  | .ret => op.length = 1

instance (op : Opcode) : Decidable op.Regular := by
  unfold Regular
  split <;> infer_instance

theorem table_regular : ∀ op ∈ table.toList, op.Regular := by decide +kernel

theorem ofByte_regular (byte : UInt8) : (ofByte byte).Regular := by
  apply table_regular
  rw [Vector.mem_toList_iff]
  exact Vector.getElem_mem byte.toNat_lt

theorem Regular.length_le {op : Opcode} (h : op.Regular) : op.length ≤ 3 := by
  unfold Regular at h
  split at h <;> omega

end Opcode

/-- Straight-line code goes on after such an instruction, and nowhere else. -/
def Control.isLinear : Control → Bool
  | next | reference => true
  | _ => false

namespace Bank

variable {bank : Bank} {a b e offset k : Nat} {op : Opcode}

theorem regular_of_opcode? (h : bank.opcode? offset = some op) : op.Regular := by
  obtain ⟨byte, -, rfl⟩ := Option.map_eq_some_iff.1 h
  exact Opcode.ofByte_regular byte

structure Holds (bank : Bank) (offset : Nat) (op : Opcode) : Prop where
  opcode : bank.opcode? offset = some op
  legal : op.control ≠ .illegal
  fits : offset + op.length ≤ size

/-- The byte at `offset` starts no instruction; a strand that gives up there steps over `k` bytes. -/
inductive Refuses (bank : Bank) (offset : Nat) : Nat → Prop
  /-- The byte has no length, or the instruction is cut off by the end of the bank. -/
  | unfit {op : Opcode} (opcode : bank.opcode? offset = some op)
      (cut : op.length = 0 ∨ size < offset + op.length) : Refuses bank offset 0
  | illegal {op : Opcode} (opcode : bank.opcode? offset = some op)
      (illegal : op.control = .illegal) (length : op.length = 1) : Refuses bank offset 1

namespace Holds

theorem length_pos (h : bank.Holds offset op) : 0 < op.length := by
  have hr := regular_of_opcode? h.opcode
  have hl := h.legal
  unfold Opcode.Regular at hr
  split at hr <;> first | contradiction | omega

theorem length_le (h : bank.Holds offset op) : op.length ≤ 3 :=
  (regular_of_opcode? h.opcode).length_le

theorem lt (h : bank.Holds offset op) : offset < size := lt_of_opcode? h.opcode

theorem not_cut (h : bank.Holds offset op) : ¬ (op.length = 0 ∨ size < offset + op.length) := by
  have hpos := h.length_pos
  have hfits := h.fits
  omega

theorem exists_byte? (h : bank.Holds offset op) (hlength : op.length = 2) :
    ∃ byte, bank.byte? (offset + 1) = some byte := by
  apply byte?_eq_some
  have hfits := h.fits
  omega

theorem exists_pointee? (h : bank.Holds offset op) (hlength : op.length = 3) :
    ∃ target, bank.pointee? (offset + 1) = some target := by
  apply pointee?_eq_some
  have hfits := h.fits
  omega

theorem exists_isCartridge? (h : bank.Holds offset op) (hlength : op.length = 3) :
    ∃ b, bank.isCartridge? (offset + 1) = some b := by
  apply isCartridge?_eq_some
  have hfits := h.fits
  omega

theorem unique {op' : Opcode} (h : bank.Holds offset op) (h' : bank.Holds offset op') : op = op' :=
  Option.some.inj (h.opcode.symm.trans h'.opcode)

theorem ofFn (f : Nat → UInt8) (hop : Opcode.ofByte (f offset) = op) (legal : op.control ≠ .illegal)
    (hlt : offset < size) (fits : offset + op.length ≤ size) :
    (⟨Vector.ofFn fun i => f i⟩ : Bank).Holds offset op :=
  ⟨hop ▸ opcode?_ofFn f hlt, legal, fits⟩

theorem not_refuses (h : bank.Holds offset op) : ¬ bank.Refuses offset k := by
  rintro (⟨hop, hcut⟩ | ⟨hop, hillegal, -⟩)
  · obtain rfl := Option.some.inj (h.opcode.symm.trans hop)
    have := h.length_pos
    have := h.fits
    omega
  · obtain rfl := Option.some.inj (h.opcode.symm.trans hop)
    exact h.legal hillegal

end Holds

/-- Control falls from the instruction at `a` through to `b`, with no transfer. -/
def FallsTo (bank : Bank) (a b : Nat) : Prop :=
  ∃ op, bank.Holds a op ∧ op.control.isLinear ∧ b = a + op.length

def LinearTo (bank : Bank) : Nat → Nat → Prop := Relation.ReflTransGen bank.FallsTo

/-- Straight-line code from `a` runs into a byte that is refused. -/
def Doomed (bank : Bank) (a : Nat) : Prop := ∃ e k, bank.LinearTo a e ∧ bank.Refuses e k

theorem fallsTo_rightUnique (bank : Bank) : Relator.RightUnique bank.FallsTo := by
  rintro a _ _ ⟨op, hop, -, rfl⟩ ⟨op', hop', -, rfl⟩
  rw [hop.unique hop']

theorem Doomed.refuses_or_isLinear (h : bank.Doomed a) (hline : bank.LinearTo a b) :
    (∃ k, bank.Refuses b k) ∨ ∃ op, bank.Holds b op ∧ op.control.isLinear := by
  obtain ⟨e, k, he, hk⟩ := h
  rcases Relation.ReflTransGen.total_of_right_unique bank.fallsTo_rightUnique hline he with hbe | heb
  · rcases Relation.ReflTransGen.cases_head hbe with rfl | ⟨_, ⟨op, hop, hlin, -⟩, -⟩
    · exact .inl ⟨k, hk⟩
    · exact .inr ⟨op, hop, hlin⟩
  · rcases Relation.ReflTransGen.cases_head heb with rfl | ⟨_, ⟨op, hop, -, -⟩, -⟩
    · exact .inl ⟨k, hk⟩
    · exact absurd hk hop.not_refuses

end Bank

end BankTrace
