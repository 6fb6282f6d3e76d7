import BankTrace.Proofs.Styles

namespace BankTrace.Assembly

variable {n : Nat}

/-- What an operand is read as in a listing of the given style, markup aside. -/
def Operand.read? (style : Style) (operand : Operand) : Option Argument :=
  readArgument? <| match style.medium with
    | .text => spell style operand.pieces
    | .html => Html.unmarked false (spell style operand.pieces)

theorem Operand.read?_eq (style : Style) (operand : Operand) :
    operand.read? style = some operand.argument := by
  obtain ⟨medium, brackets⟩ := style
  have hread := readArgument?_characters brackets operand
  cases medium with
  | text => exact hread
  | html =>
    have hplain := unmarked_spell brackets operand.plain []
    rw [List.append_nil, Html.unmarked, List.append_nil] at hplain
    rw [read?, hplain]
    exact hread

theorem read?_operandOf {op : Opcode} {index : Index} {word : Nat}
    (hmode : op.mode = index.absolute) (hword : 0x8000 ≤ word) (s : Survey n) (start : Nat)
    (style : Style) :
    (operandOf s start op word).read? style =
      some (.direct false (placeOf s word).value index) := by
  have hoperand : operandOf s start op word = .absolute false (placeOf s word) index := by
    rw [operandOf, hmode]
    cases index <;> exact if_neg (by omega)
  rw [Operand.read?_eq, hoperand]
  rfl

/-- What the place of an address denotes: through a label the address of the target, or one a bank
below if the label is borrowed from behind the bank, and else the address itself. -/
theorem value_placeOf_cases (s : Survey n) (word : Nat) :
    let target := Bank.offsetOf word
    (s.isLabel target → (placeOf s word).value = Bank.origin + target) ∧
    (∀ offset adjustment, ¬ s.isLabel target → borrowed? s target = some (offset, adjustment) →
      (placeOf s word).value =
        if offset < Bank.size then (Bank.origin + target : Int)
        else Bank.origin + target - Bank.size) ∧
    (¬ s.isLabel target → borrowed? s target = none → (placeOf s word).value = word) := by
  intro target
  have htarget : target < Bank.size := Bank.offsetOf_lt word
  have haddress := Bank.addressOf_of_lt htarget
  refine ⟨fun hlabel => ?_, fun offset adjustment hlabel hborrowed => ?_,
    fun hlabel hborrowed => ?_⟩
  · rw [placeOf_of_isLabel hlabel, Place.value, haddress]
    push_cast
    exact add_zero _
  · have hvalue := (lends_of_borrowed? hborrowed).addressOf_add htarget
    rw [haddress] at hvalue
    rw [placeOf_of_borrowed? hlabel hborrowed]
    exact_mod_cast hvalue
  · rw [placeOf_of_none hlabel hborrowed, Place.value]

/-- Borrowed labels are the nearest, and exact. For a survey of any length a label is borrowed
exactly if there is one in reach; it is the closest one, the lower of two, and comes with what leads
from it to the target. In every style an absolute operand in the cartridge is read as the address of
its target if the target has a label or borrows one, and else as the word that it is; only a label
borrowed from behind the end of the bank leads to the address a bank below. -/
theorem borrowed?_nearest {n : Nat} (s : Survey n) :
    (∀ target,
      ((borrowed? s target).isSome ↔ ∃ offset, s.isLabel offset ∧
        1 ≤ Nat.dist offset target ∧ Nat.dist offset target ≤ 15) ∧
      ∀ offset adjustment,
        borrowed? s target = some (offset, adjustment) ↔ Lends s target offset adjustment) ∧
    ∀ {bank : Bank} {op : Opcode} {index : Index} {start word : Nat}, op.mode = index.absolute →
      bank.word? (start + 1) = some word → bank.isCartridge? (start + 1) = some true →
      ∃ value : Int,
        (∀ style, (operandOf s start op word).read? style = some (.direct false value index)) ∧
        (s.isLabel (Bank.offsetOf word) → value = Bank.origin + Bank.offsetOf word) ∧
        (∀ offset adjustment, ¬ s.isLabel (Bank.offsetOf word) →
          borrowed? s (Bank.offsetOf word) = some (offset, adjustment) →
          value = if offset < Bank.size then (Bank.origin + Bank.offsetOf word : Int)
            else Bank.origin + Bank.offsetOf word - Bank.size) ∧
        (¬ s.isLabel (Bank.offsetOf word) → borrowed? s (Bank.offsetOf word) = none →
          value = word) := by
  refine ⟨fun target => ⟨borrowed?_isSome_iff, fun offset adjustment => borrowed?_eq_some_iff⟩, ?_⟩
  intro bank op index start word hmode hword hhigh
  exact ⟨(placeOf s word).value,
    read?_operandOf hmode (Bank.le_word_of_isCartridge? hword hhigh) s start,
    value_placeOf_cases s word⟩

/-- A bank that begins with `LDA $C102` and `LDA $FFFF`. -/
def readingProgram : Nat → UInt8
  | 0 | 3 => 0xAD
  | 1 => 0x02
  | 2 => 0xC1
  | _ => 0xFF

def readingBank : Bank := ⟨Vector.ofFn fun i => readingProgram i⟩

theorem word?_readingBank {offset : Nat} (h : offset + 1 < Bank.size) :
    readingBank.word? offset =
      some ((readingProgram offset).toNat + 0x100 * (readingProgram (offset + 1)).toNat) :=
  Bank.word?_ofFn readingProgram h

theorem isCartridge?_readingBank {offset : Nat} (h : offset + 1 < Bank.size) :
    readingBank.isCartridge? offset = some (decide (0x80 ≤ readingProgram (offset + 1))) := by
  have hhigh : readingBank.byte? (offset + 1) = some (readingProgram (offset + 1)) :=
    Bank.byte?_ofFn readingProgram h
  rw [Bank.isCartridge?, hhigh, Option.map_some]

theorem mode_load : (Opcode.ofByte 0xAD).mode = Index.none.absolute := by decide +kernel

def labelledAt (n : Nat) (offsets : List Nat) : Survey n :=
  ⟨Vector.ofFn fun i => if i.val ∈ offsets then Mark.plain.labelled else .plain⟩

theorem isLabel_labelledAt {n : Nat} {offsets : List Nat} {i : Nat} :
    (labelledAt n offsets).isLabel i ↔ i < n ∧ i ∈ offsets := by
  by_cases hi : i < n
  · simp only [Survey.isLabel, Survey.mark?, labelledAt, hi, Vector.getElem?_eq_getElem,
      Vector.getElem_ofFn, Option.any_some, true_and]
    split_ifs with hmem <;> simp [hmem, Mark.plain, Mark.labelled]
  · simp [Survey.isLabel, Survey.mark?, hi]

theorem lends_labelledAt {n : Nat} {offsets : List Nat} {target offset : Nat} {adjustment : Int}
    (hlabel : offset < n ∧ offset ∈ offsets)
    (hreach : 1 ≤ Nat.dist offset target ∧ Nat.dist offset target ≤ labelReach)
    (hleads : offset + adjustment = target)
    (hclosest : ∀ other ∈ offsets, other ≠ target → Nat.dist offset target ≤ Nat.dist other target)
    (hlower : ∀ other ∈ offsets, Nat.dist other target = Nat.dist offset target → offset ≤ other) :
    Lends (labelledAt n offsets) target offset adjustment where
  isLabel := isLabel_labelledAt.2 hlabel
  inReach := hreach
  leads := hleads
  closest other hother := hclosest other (isLabel_labelledAt.1 hother).2
  lower other hother := hlower other (isLabel_labelledAt.1 hother).2

/-- Of two labels that are equally close to `$C102` the lower one is borrowed. -/
theorem borrowed?_between_labels :
    (Opcode.ofByte 0xAD).mode = Index.none.absolute ∧
    readingBank.word? (0 + 1) = some 0xC102 ∧ readingBank.isCartridge? (0 + 1) = some true ∧
    borrowed? (labelledAt 0x200 [0x104, 0x100]) 0x102 = some (0x100, 2) ∧
    ∀ style,
      (operandOf (labelledAt 0x200 [0x104, 0x100]) 0 (Opcode.ofByte 0xAD) 0xC102).read? style =
        some (.direct false 0xC102 .none) := by
  have hword : readingBank.word? (0 + 1) = some 0xC102 := word?_readingBank (by decide)
  have hhigh : readingBank.isCartridge? (0 + 1) = some true := isCartridge?_readingBank (by decide)
  obtain ⟨hnearest, hread⟩ := borrowed?_nearest (labelledAt 0x200 [0x104, 0x100])
  have hborrowed := ((hnearest 0x102).2 0x100 2).2
    (lends_labelledAt (by decide) (by decide) (by decide) (by decide) (by decide))
  obtain ⟨value, hvalue, -, hlent, -⟩ := hread mode_load hword hhigh
  have hunlabelled : ¬ (labelledAt 0x200 [0x104, 0x100]).isLabel (Bank.offsetOf 0xC102) := by
    rw [isLabel_labelledAt]
    decide
  obtain rfl : value = 0xC102 := hlent 0x100 2 hunlabelled hborrowed
  exact ⟨mode_load, hword, hhigh, hborrowed, hvalue⟩

/-- For `$FFFF` a label right behind the bank is borrowed, and what is printed denotes `$BFFF`. -/
theorem read?_behind_bank :
    readingBank.word? (3 + 1) = some 0xFFFF ∧ readingBank.isCartridge? (3 + 1) = some true ∧
    borrowed? (labelledAt (Bank.size + 1) [Bank.size]) 0x3FFF = some (Bank.size, -1) ∧
    (∀ style,
      (operandOf (labelledAt (Bank.size + 1) [Bank.size]) 3 (Opcode.ofByte 0xAD) 0xFFFF).read?
        style = some (.direct false 0xBFFF .none)) ∧
    (0xBFFF : Int) ≠ Bank.origin + 0x3FFF := by
  have hborrowed :
      borrowed? (labelledAt (Bank.size + 1) [Bank.size]) 0x3FFF = some (Bank.size, -1) :=
    borrowed?_eq_some_iff.2
      (lends_labelledAt (by decide) (by decide) (by decide) (by decide) (by decide))
  have hunlabelled :
      ¬ (labelledAt (Bank.size + 1) [Bank.size]).isLabel (Bank.offsetOf 0xFFFF) := by
    rw [isLabel_labelledAt]
    decide
  have hread := read?_operandOf mode_load (by decide : 0x8000 ≤ 0xFFFF)
    (labelledAt (Bank.size + 1) [Bank.size]) 3
  rw [placeOf_of_borrowed? hunlabelled hborrowed] at hread
  exact ⟨word?_readingBank (by decide), isCartridge?_readingBank (by decide), hborrowed, hread,
    by decide⟩

end BankTrace.Assembly
