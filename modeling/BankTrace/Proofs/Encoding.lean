import BankTrace.Assembly.Line
import BankTrace.Proofs.Decoding
import BankTrace.Proofs.Legibility

namespace BankTrace

open Assembly

namespace Opcode

/-- What makes the opcode `op` of `byte` be found again from what is printed. -/
structure Distinct (op : Opcode) (byte : UInt8) : Prop where
  length : op.length = op.mode.length
  mnemonic : op.mnemonic.toList.length = 3 ∧ '\n' ∉ op.mnemonic.toList
  found : opcodeByte? op.mnemonic op.mode = some byte
  undefined : op.mode = .undefined → opcodeByte? op.mnemonic .implied = none
  direct : op.mode.isAbsolute ∨ op.mode ∈ [Mode.zeroPage, .zeroPageX, .zeroPageY] →
    opcodeByte? op.mnemonic .relative = none
  narrow : ∀ index ∈ [Index.none, .x, .y], op.mode = index.absolute → op.wide = false →
    opcodeByte? op.mnemonic index.zeroPage = none

instance (op : Opcode) (byte : UInt8) : Decidable (op.Distinct byte) :=
  decidable_of_iff
    (op.length = op.mode.length ∧
      (op.mnemonic.toList.length = 3 ∧ '\n' ∉ op.mnemonic.toList) ∧
      opcodeByte? op.mnemonic op.mode = some byte ∧
      (op.mode = .undefined → opcodeByte? op.mnemonic .implied = none) ∧
      (op.mode.isAbsolute ∨ op.mode ∈ [Mode.zeroPage, .zeroPageX, .zeroPageY] →
        opcodeByte? op.mnemonic .relative = none) ∧
      ∀ index ∈ [Index.none, .x, .y], op.mode = index.absolute → op.wide = false →
        opcodeByte? op.mnemonic index.zeroPage = none)
    ⟨fun ⟨a, b, c, d, e, f⟩ => ⟨a, b, c, d, e, f⟩, fun ⟨a, b, c, d, e, f⟩ => ⟨a, b, c, d, e, f⟩⟩

theorem table_distinct :
    ∀ entry ∈ table.toList.zipIdx, entry.1.length = 0 ∨ entry.1.Distinct entry.2.toUInt8 := by
  decide +kernel

theorem ofByte_distinct {byte : UInt8} (h : (ofByte byte).length ≠ 0) :
    (ofByte byte).Distinct byte := by
  have hmem : (ofByte byte, byte.toNat) ∈ table.toList.zipIdx := by
    rw [List.mem_zipIdx_iff_getElem?, Vector.getElem?_toList]
    exact Vector.getElem?_eq_getElem byte.toNat_lt
  have hdistinct := (table_distinct _ hmem).resolve_left h
  simpa using hdistinct

end Opcode

theorem displacement_bounds (byte : UInt8) : -0x80 ≤ displacement byte ∧ displacement byte < 0x80 := by
  have hlt := byte.toNat_lt
  unfold displacement
  split_ifs with h
  · rw [UInt8.lt_iff_toNat_lt] at h
    exact ⟨by omega, by simpa using h⟩
  · rw [UInt8.lt_iff_toNat_lt] at h
    have hge : 0x80 ≤ byte.toNat := by simpa using h
    omega

namespace Assembly

theorem byteOf?_toNat (byte : UInt8) : byteOf? byte.toNat = some [byte] := by
  have hlt := byte.toNat_lt
  rw [byteOf?, if_pos (by omega)]
  simp

theorem wordOf?_word (low high : UInt8) :
    wordOf? ((low.toNat + 0x100 * high.toNat : Nat) : Int) = some [low, high] := by
  have hlow := low.toNat_lt
  have hhigh := high.toNat_lt
  have hmod : (low.toNat + 0x100 * high.toNat) % 0x100 = low.toNat := by omega
  have hdiv : (low.toNat + 0x100 * high.toNat) / 0x100 = high.toNat := by omega
  rw [wordOf?, if_pos (by omega), Int.toNat_natCast, hmod, hdiv]
  simp

theorem toUInt8_or : ∀ high : Fin 256, (0xC0 + high.val % 0x40).toUInt8 = high.val.toUInt8 ||| 0xC0 := by
  decide +kernel

theorem wordOf?_addressOf (low high : UInt8) :
    wordOf? (Bank.addressOf (Bank.offsetOf (low.toNat + 0x100 * high.toNat))) =
      some [low, high ||| 0xC0] := by
  have hlow := low.toNat_lt
  have hhigh := high.toNat_lt
  have haddress : Bank.addressOf (Bank.offsetOf (low.toNat + 0x100 * high.toNat)) =
      low.toNat + 0x100 * (0xC0 + high.toNat % 0x40) := by
    rw [Bank.addressOf_of_lt (Bank.offsetOf_lt _)]
    unfold Bank.offsetOf Bank.origin Bank.size
    omega
  have hmod : (low.toNat + 0x100 * (0xC0 + high.toNat % 0x40)) % 0x100 = low.toNat := by omega
  have hdiv : (low.toNat + 0x100 * (0xC0 + high.toNat % 0x40)) / 0x100 =
      0xC0 + high.toNat % 0x40 := by omega
  have hor := toUInt8_or high.toFin
  rw [wordOf?, haddress, if_pos (by omega), Int.toNat_natCast, hmod, hdiv]
  simpa using hor

theorem displacementOf?_displacement (byte : UInt8) :
    displacementOf? (displacement byte) = some [byte] := by
  have hlt := byte.toNat_lt
  have hbounds := displacement_bounds byte
  have hmod : (displacement byte % 0x100).toNat = byte.toNat := by
    unfold displacement
    split_ifs <;> omega
  rw [displacementOf?, if_pos hbounds, hmod]
  simp

theorem branchDistance_addressOf (offset : Nat) (byte : UInt8) :
    branchDistance (Bank.origin + offset) (Bank.addressOf (branchOffset offset byte)) =
      displacement byte := by
  have hbounds := displacement_bounds byte
  have haddress := Bank.addressOf_of_lt (branchOffset_lt offset byte)
  have hbranch : (branchOffset offset byte : Int) = (offset + 2 + displacement byte) % 0x4000 := by
    unfold branchOffset Bank.size
    omega
  rw [haddress]
  unfold branchDistance Bank.size
  push_cast
  rw [hbranch]
  split_ifs <;> omega

/-- The operand is a full address that is printed through a label. -/
def Operand.throughLabel : Operand → Bool
  | absolute _ place _ => place.isLabel
  | _ => false

section Encode

variable {op : Opcode} {byte : UInt8} (h : op.Distinct byte)
include h

theorem encodeAs?_eq {mode : Mode} (hmode : op.mode = mode) (operand : List UInt8) :
    encodeAs? op.mnemonic mode (some operand) = some (byte :: operand) := by
  rw [← hmode, encodeAs?, h.found]
  rfl

theorem encode?_none (hmode : op.mode.length = 1) (location : Int) :
    encode? location op.mnemonic .none = some [byte] := by
  have hcases : op.mode = .undefined ∨ op.mode = .implied := by
    revert hmode
    cases op.mode <;> decide
  rcases hcases with hundefined | himplied
  · rw [encode?, encodeAs?, h.undefined hundefined, encodeAs?_eq h hundefined]
    rfl
  · rw [encode?, encodeAs?_eq h himplied]
    rfl

theorem encodeDirect?_zeroPage (index : Index) (hmode : op.mode = index.zeroPage) (location : Int)
    (operand : UInt8) :
    encodeDirect? location op.mnemonic false operand.toNat index = some [byte, operand] := by
  have hlt := operand.toNat_lt
  have hrelative : opcodeByte? op.mnemonic .relative = none := by
    apply h.direct
    rw [hmode]
    cases index <;> simp [Index.zeroPage]
  have hfound : opcodeByte? op.mnemonic index.zeroPage = some byte := hmode ▸ h.found
  rw [encodeDirect?, hrelative, hfound, byteOf?_toNat, encodeAs?_eq h hmode, if_neg (by simp),
    if_pos (by simp; omega)]

theorem encodeDirect?_absolute (index : Index) (hmode : op.mode = index.absolute) (location : Int)
    {value : Int} {wide : Bool} {operand : List UInt8}
    (hwide : value < 0x100 → wide ∨ op.wide = false) (hword : wordOf? value = some operand) :
    encodeDirect? location op.mnemonic wide value index = some (byte :: operand) := by
  have hrelative : opcodeByte? op.mnemonic .relative = none := by
    apply h.direct
    rw [hmode]
    cases index <;> simp [Index.absolute, Mode.isAbsolute]
  have hnarrow : ¬ (value < 0x100 ∧ (opcodeByte? op.mnemonic index.zeroPage).isSome ∧ ¬ wide) := by
    rintro ⟨hvalue, hsome, hnot⟩
    have hopWide := (hwide hvalue).resolve_left hnot
    rw [h.narrow index (by cases index <;> simp) hmode hopWide] at hsome
    contradiction
  rw [encodeDirect?, hrelative, if_neg (by simp), if_neg hnarrow, hword, encodeAs?_eq h hmode]

theorem encode?_absolute (index : Index) (hmode : op.mode = index.absolute) (location : Int)
    (s : Survey Bank.size) (low high : UInt8) :
    encode? location op.mnemonic
        (absoluteOperand s op (low.toNat + 0x100 * high.toNat) index).argument =
      some [byte, low,
        if (absoluteOperand s op (low.toNat + 0x100 * high.toNat) index).throughLabel then
          high ||| 0xC0 else high] := by
  have hword := wordOf?_word low high
  have hlabel := wordOf?_addressOf low high
  generalize low.toNat + 0x100 * high.toNat = word at hword hlabel ⊢
  by_cases hlow : word < 0x8000
  · rw [absoluteOperand, if_pos hlow]
    refine encodeDirect?_absolute h index hmode location (fun hpage => ?_) hword
    have hpage : (word : Int) < 0x100 := hpage
    cases op.wide <;> simp
    omega
  · rw [absoluteOperand, if_neg hlow]
    have hvalue := value_placeOf s word
    -- Through a label or not, the value is far above page zero.
    have hfar : ¬ (placeOf s word).value < 0x100 := by
      rw [hvalue]
      unfold Bank.addressOf Bank.origin
      split_ifs <;> omega
    apply encodeDirect?_absolute h index hmode location (fun hpage => absurd hpage hfar)
    rw [hvalue]
    show wordOf? _ = some [low, if (placeOf s word).isLabel then high ||| 0xC0 else high]
    split_ifs
    · exact hlabel
    · exact hword

theorem encode?_short (hmode : op.mode.length = 2) (s : Survey Bank.size) (offset : Nat)
    (operand : UInt8) :
    encode? (Bank.origin + offset) op.mnemonic (operandOf s offset op operand.toNat).argument =
      some [byte, operand] := by
  unfold operandOf
  cases hcase : op.mode with
  | immediate | indirectX | indirectY =>
    simp only [Operand.argument, encode?, byteOf?_toNat, encodeAs?_eq h hcase]
  | zeroPage => exact encodeDirect?_zeroPage h .none hcase _ operand
  | zeroPageX => exact encodeDirect?_zeroPage h .x hcase _ operand
  | zeroPageY => exact encodeDirect?_zeroPage h .y hcase _ operand
  | relative =>
    have hoperand : operand.toNat.toUInt8 = operand := by simp
    have hfound : opcodeByte? op.mnemonic .relative = some byte := hcase ▸ h.found
    simp only [hoperand, relativeOperand]
    split_ifs
    · simp only [Operand.argument, encode?, encodeDirect?, hfound, Option.isSome_some, ↓reduceIte,
        branchDistance_addressOf, displacementOf?_displacement, encodeAs?_eq h hcase]
    · simp only [Operand.argument, encode?, Int.add_sub_cancel, displacementOf?_displacement,
        encodeAs?_eq h hcase]
  | _ => simp [hcase, Mode.length] at hmode

theorem encode?_long (hmode : op.mode.length = 3) (s : Survey Bank.size) (offset : Nat)
    (low high : UInt8) (location : Int) :
    encode? location op.mnemonic
        (operandOf s offset op (low.toNat + 0x100 * high.toNat)).argument =
      some [byte, low,
        if (operandOf s offset op (low.toNat + 0x100 * high.toNat)).throughLabel then
          high ||| 0xC0 else high] := by
  unfold operandOf
  cases hcase : op.mode with
  | absolute => exact encode?_absolute h .none hcase location s low high
  | absoluteX => exact encode?_absolute h .x hcase location s low high
  | absoluteY => exact encode?_absolute h .y hcase location s low high
  | indirect =>
    simp only [Operand.argument, Operand.throughLabel, encode?, wordOf?_word,
      encodeAs?_eq h hcase, Bool.false_eq_true, ↓reduceIte]
  | _ => simp [hcase, Mode.length] at hmode

end Encode

end Assembly

end BankTrace
