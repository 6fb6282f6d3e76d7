import BankTrace.Assembly.Item
import BankTrace.Proofs.Decoding

namespace BankTrace.Assembly

/-- What stands at an offset, and which marks make it so. -/
inductive Stands (bank : Bank) (s : Survey Bank.size) (offset : Nat) : Item → Prop
  | pointer {word : Nat} (pointer : s.isPointer offset) (word_eq : bank.word? offset = some word) :
      Stands bank s offset (.pointer word)
  | instruction {op : Opcode} {argument : Nat} (length_pos : 0 < op.length)
      (noPointer : s.isPointer offset → Bank.size ≤ offset + 1) (start : s.isStart offset)
      (opcode : bank.opcode? offset = some op) (fits : offset + op.length ≤ Bank.size)
      (argument_eq : argument? bank offset op.length = some argument) :
      Stands bank s offset (.instruction op argument length_pos)
  | orphan {byte : UInt8} (noPointer : s.isPointer offset → Bank.size ≤ offset + 1)
      (code : s.isStart offset ∨ s.isCode offset) (byte_eq : bank.byte? offset = some byte) :
      Stands bank s offset (.orphan byte)
  | value {byte : UInt8} (noPointer : s.isPointer offset → Bank.size ≤ offset + 1)
      (noStart : s.isStart offset = false) (noCode : s.isCode offset = false)
      (byte_eq : bank.byte? offset = some byte) : Stands bank s offset (.value byte)

variable {bank : Bank} {s : Survey Bank.size} {offset : Nat} {item : Item}

theorem Stands.fits (h : Stands bank s offset item) : offset + item.size ≤ Bank.size := by
  cases h with
  | pointer pointer word_eq =>
    obtain ⟨_, _, -, hhigh, -⟩ := Bank.byte?_of_word? word_eq
    exact Bank.lt_of_byte? hhigh
  | instruction length_pos noPointer start opcode fits argument_eq => exact fits
  | orphan noPointer code byte_eq => exact Bank.lt_of_byte? byte_eq
  | value noPointer noStart noCode byte_eq => exact Bank.lt_of_byte? byte_eq

theorem exists_argument? (bank : Bank) {offset length : Nat} (hlength : length ≤ 3)
    (h : offset + length ≤ Bank.size) : ∃ argument, argument? bank offset length = some argument := by
  obtain rfl | rfl | rfl | rfl : length = 0 ∨ length = 1 ∨ length = 2 ∨ length = 3 := by omega
  · exact ⟨0, rfl⟩
  · exact ⟨0, rfl⟩
  · obtain ⟨byte, hbyte⟩ := bank.byte?_eq_some (by omega : offset + 1 < Bank.size)
    exact ⟨byte.toNat, by rw [argument?, hbyte]; rfl⟩
  · exact bank.word?_eq_some (by omega : offset + 1 + 1 < Bank.size)

theorem exists_item? (bank : Bank) (s : Survey Bank.size) (h : offset < Bank.size) :
    ∃ item, item? bank s offset = some item ∧ Stands bank s offset item := by
  obtain ⟨byte, hbyte⟩ := bank.byte?_eq_some h
  have hopcode := Bank.opcode?_of_byte? hbyte
  have hlength := (Opcode.ofByte_regular byte).length_le
  unfold item?
  by_cases hpointer : s.isPointer offset && offset + 1 < Bank.size
  · rw [if_pos hpointer]
    rw [Bool.and_eq_true, decide_eq_true_eq] at hpointer
    obtain ⟨word, hword⟩ := bank.word?_eq_some hpointer.2
    exact ⟨_, by rw [hword]; rfl, .pointer hpointer.1 hword⟩
  · rw [if_neg hpointer]
    have hno : s.isPointer offset → Bank.size ≤ offset + 1 := by
      intro hp
      simpa [hp] using hpointer
    simp only [hbyte, Option.bind_eq_bind, Option.bind_some]
    by_cases hstart : s.isStart offset
    · rw [if_pos hstart]
      by_cases hfits : 0 < (Opcode.ofByte byte).length ∧
          offset + (Opcode.ofByte byte).length ≤ Bank.size
      · obtain ⟨argument, hargument⟩ := exists_argument? bank hlength hfits.2
        rw [dif_pos hfits, hargument]
        exact ⟨_, rfl, .instruction hfits.1 hno hstart hopcode hfits.2 hargument⟩
      · rw [dif_neg hfits]
        exact ⟨_, rfl, .orphan hno (.inl hstart) hbyte⟩
    · rw [if_neg hstart]
      by_cases hcode : s.isCode offset
      · rw [if_pos hcode]
        exact ⟨_, rfl, .orphan hno (.inr hcode) hbyte⟩
      · rw [if_neg hcode]
        exact ⟨_, rfl, .value hno (by simpa using hstart) (by simpa using hcode) hbyte⟩

/-- Items that stand one after the other from an offset to the end of the bank. -/
inductive Cut (bank : Bank) (s : Survey Bank.size) : Nat → List (Nat × Item) → Prop
  | done : Cut bank s Bank.size []
  | item {offset : Nat} {item : Item} {rest : List (Nat × Item)} (here : Stands bank s offset item)
      (more : Cut bank s (offset + item.size) rest) : Cut bank s offset ((offset, item) :: rest)

theorem exists_itemsFrom? (bank : Bank) (s : Survey Bank.size) (h : offset ≤ Bank.size) :
    ∃ items, itemsFrom? bank s offset = some items ∧ Cut bank s offset items := by
  induction hleft : Bank.size - offset using Nat.strong_induction_on generalizing offset with
  | _ left ih =>
    rw [itemsFrom?]
    by_cases hlt : offset < Bank.size
    · obtain ⟨item, hitem, hstands⟩ := exists_item? bank s hlt
      have hpos := item.size_pos
      obtain ⟨items, hitems, hcut⟩ := ih _ (by omega) hstands.fits rfl
      rw [if_pos hlt, hitem]
      exact ⟨(offset, item) :: items, by simp only [hitems, Option.map_some], .item hstands hcut⟩
    · obtain rfl : offset = Bank.size := by omega
      rw [if_neg hlt]
      exact ⟨[], rfl, .done⟩

theorem exists_items? (bank : Bank) (s : Survey Bank.size) :
    ∃ items, items? bank s = some items ∧ Cut bank s 0 items :=
  exists_itemsFrom? bank s (Nat.zero_le _)

end BankTrace.Assembly
