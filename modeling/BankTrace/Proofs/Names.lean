import BankTrace.Proofs.Legibility

namespace BankTrace

theorem Text.infix_of_infix_append_cons {α : Type} {separator : α} {word front back : List α}
    (h : separator ∉ word) (hword : word <:+: front ++ separator :: back) :
    word <:+: front ∨ word <:+: back := by
  have head : ∀ part, part <+: separator :: back → separator ∉ part → part = [] := by
    intro part hpart hnot
    rcases List.prefix_cons_iff.1 hpart with rfl | ⟨rest, rfl, -⟩
    · rfl
    · exact absurd List.mem_cons_self hnot
  rcases List.infix_append_iff.1 hword with hfront | hback | ⟨first, last, rfl, hfirst, hlast⟩
  · exact .inl hfront
  · rcases List.infix_cons_iff.1 hback with hprefix | hback
    · rw [head word hprefix h]
      exact .inl List.nil_infix
    · exact .inr hback
  · -- A part of the word at the start of `separator :: back` is empty.
    rw [head last hlast fun hmem => h (List.mem_append_right _ hmem), List.append_nil]
    exact .inl hfirst.isInfix

namespace Assembly

theorem length_symbol (offset : Nat) : (symbol offset).toList.length = 5 := by
  rw [toList_symbol, List.length_cons,
    Text.length_hexUpper (by decide) (Bank.addressOf_lt offset)]

theorem initial_not_mem_hexUpper (width value : Nat) :
    'L' ∉ (Text.hexUpper width value).toList :=
  Text.not_mem_hexUpper (by decide) width value

theorem initial_not_mem_toDigits (value : Nat) : 'L' ∉ Nat.toDigits 10 value :=
  Text.not_mem_toDigits (by decide) value

theorem not_mem_symbol {c : Char} (hdigit : Numeral.digit? 16 c = none) (hc : c ≠ 'L')
    (offset : Nat) : c ∉ (symbol offset).toList := by
  rw [toList_symbol, List.mem_cons, not_or]
  exact ⟨hc, Text.not_mem_hexUpper hdigit 4 _⟩

theorem symbol_injOn : Set.InjOn symbol {offset | offset < Bank.size} := by
  intro a ha b hb h
  have hdigits := congrArg String.toList h
  rw [toList_symbol, toList_symbol, List.cons.injEq] at hdigits
  have haddress := Text.digits?_hexUpper 4 (Bank.addressOf a)
  rw [hdigits.2, Text.digits?_hexUpper, Option.some.injEq, Bank.addressOf_of_lt ha,
    Bank.addressOf_of_lt hb] at haddress
  omega

def Piece.named? : Piece → Option Nat
  | define offset | refer offset => some offset
  | _ => none

def names (pieces : List Piece) : List Nat := pieces.filterMap Piece.named?

theorem names_cons (piece : Piece) (pieces : List Piece) :
    names (piece :: pieces) = piece.named?.toList ++ names pieces := by
  cases hpiece : piece.named? with
  | none => exact List.filterMap_cons_none hpiece
  | some offset => exact List.filterMap_cons_some hpiece

theorem names_append (front back : List Piece) :
    names (front ++ back) = names front ++ names back :=
  List.filterMap_append

/-- No name occurs in the text but those of the offsets. -/
def Spells (text : List Char) (offsets : List Nat) : Prop :=
  ∀ offset, (symbol offset).toList <:+: text → ∃ other ∈ offsets, symbol other = symbol offset

namespace Spells

variable {text front back : List Char} {offsets more : List Nat}

theorem of_length_lt (h : text.length < 5) : Spells text [] := by
  intro offset hword
  have hle := hword.length_le
  rw [length_symbol] at hle
  omega

theorem of_not_mem (h : 'L' ∉ text) : Spells text [] := by
  intro offset hword
  rw [toList_symbol] at hword
  exact absurd (hword.subset List.mem_cons_self) h

theorem symbol (offset : Nat) : Spells (Assembly.symbol offset).toList [offset] := by
  intro other hword
  refine ⟨offset, List.mem_singleton_self _, String.toList_injective ?_⟩
  exact (hword.eq_of_length (by rw [length_symbol, length_symbol])).symm

theorem append_cons {c : Char} (hdigit : Numeral.digit? 16 c = none) (hc : c ≠ 'L')
    (hfront : Spells front offsets) (hback : Spells back more) :
    Spells (front ++ c :: back) (offsets ++ more) := by
  intro offset hword
  rcases Text.infix_of_infix_append_cons (not_mem_symbol hdigit hc offset) hword with h | h
  · obtain ⟨other, hmem, heq⟩ := hfront offset h
    exact ⟨other, List.mem_append_left _ hmem, heq⟩
  · obtain ⟨other, hmem, heq⟩ := hback offset h
    exact ⟨other, List.mem_append_right _ hmem, heq⟩

theorem followed {c : Char} (hdigit : Numeral.digit? 16 c = none) (hc : c ≠ 'L')
    (h : Spells text offsets) (hback : 'L' ∉ back) : Spells (text ++ c :: back) offsets := by
  have hboth := h.append_cons hdigit hc (of_not_mem hback)
  rwa [List.append_nil] at hboth

theorem space (hfront : front.length < 5) (h : Spells text offsets) :
    Spells (front ++ ' ' :: text) offsets :=
  (of_length_lt hfront).append_cons (by decide) (by decide) h

end Spells

section Lines

variable (brackets : Brackets)

theorem Place.names_label (offset : Nat) (adjustment : Int) :
    names (label offset adjustment).pieces = [offset] := by
  rw [pieces, names_cons]
  split_ifs <;> rfl

theorem Operand.names_absolute (wide : Bool) (place : Place) (index : Index) :
    names (absolute wide place index).pieces = names place.pieces := by
  rw [pieces, List.cons_append, names_cons, names_append]
  exact List.append_nil _

theorem Place.spells (place : Place) :
    Spells (characters brackets place.pieces) (names place.pieces) := by
  cases place with
  | word value =>
    rw [characters_word]
    exact .of_not_mem (by simp [initial_not_mem_hexUpper])
  | label offset adjustment =>
    rw [characters_label, names_label]
    split_ifs
    · rw [List.append_nil]
      exact .symbol offset
    · have hdigits := initial_not_mem_toDigits adjustment.natAbs
      rw [toList_signed]
      split_ifs
      · exact (Spells.symbol offset).followed (by decide) (by decide) hdigits
      · exact (Spells.symbol offset).followed (by decide) (by decide) hdigits

theorem Index.not_mem_text (index : Index) : 'L' ∉ index.text.toList := by
  cases index <;> simp [text]

theorem Spells.indexed {text : List Char} {offsets : List Nat} (h : Spells text offsets)
    (index : Index) : Spells (text ++ index.text.toList) offsets := by
  cases index with
  | none => simpa [Index.text] using h
  | x =>
    rw [(by rfl : Index.x.text.toList = [',', 'X'])]
    exact h.followed (by decide) (by decide) (by decide)
  | y =>
    rw [(by rfl : Index.y.text.toList = [',', 'Y'])]
    exact h.followed (by decide) (by decide) (by decide)

theorem Operand.spells {mnemonic : List Char} (h : mnemonic.length < 5) (operand : Operand) :
    Spells (mnemonic ++ characters brackets operand.pieces) (names operand.pieces) := by
  have hhex := initial_not_mem_hexUpper
  have hleft : 'L' ≠ brackets.left := by cases brackets <;> decide
  have hright : 'L' ≠ brackets.right := by cases brackets <;> decide
  cases operand with
  | none =>
    rw [(by rfl : characters brackets Operand.none.pieces = []), List.append_nil]
    exact .of_length_lt h
  | immediate value =>
    rw [characters_immediate]
    exact .space h (.of_not_mem (by simp [hhex]))
  | zeroPage value index =>
    rw [characters_zeroPage]
    exact .space h (.of_not_mem (by simp [hhex, index.not_mem_text]))
  | absolute wide place index =>
    have hplace := (place.spells brackets).indexed index
    rw [names_absolute]
    cases wide with
    | true =>
      rw [characters_wide]
      exact (Spells.of_length_lt h).append_cons (by decide) (by decide)
        (.space (by decide : ['W'].length < 5) hplace)
    | false =>
      rw [characters_absolute]
      exact .space h hplace
  | indirect address =>
    rw [characters_indirect]
    exact .space h (.of_not_mem (by simp [hhex, hleft, hright]))
  | indirectX value =>
    rw [characters_indirectX]
    exact .space h (.of_not_mem (by simp [hhex, hleft, hright]))
  | indirectY value =>
    rw [characters_indirectY]
    exact .space h (.of_not_mem (by simp [hhex, hleft, hright]))
  | branch target =>
    rw [characters_branch]
    exact .space h (.symbol target)
  | skip distance =>
    have hdigits := initial_not_mem_toDigits distance.natAbs
    rw [characters_skip, toList_signed]
    split_ifs
    · exact .space h (.of_not_mem (by simp [hdigits]))
    · exact .space h (.of_not_mem (by simp [hdigits]))

namespace Line

def names (line : Line) : List Nat := Assembly.names line.pieces

theorem names_pointer (place : Place) :
    (pointer place).names = Assembly.names place.pieces := by
  rw [names, pieces, List.cons_append, names_cons, names_append]
  exact List.append_nil _

theorem names_instruction (mnemonic : String) (operand : Operand) :
    (instruction mnemonic operand).names = Assembly.names operand.pieces := by
  rw [names, pieces, List.cons_append, names_cons, List.cons_append, names_cons, names_append]
  exact List.append_nil _

theorem spells (line : Line) (h : line.Legible) : Spells (line.text brackets) line.names := by
  have hhex := initial_not_mem_hexUpper
  cases line with
  | blank => exact .of_not_mem List.not_mem_nil
  | origin =>
    exact .of_not_mem (by simp [text, pieces, characters, Piece.render, toList_hexWord, hhex])
  | finish => exact .of_not_mem (by simp [text, pieces, characters, Piece.render])
  | label offset =>
    rw [text_label]
    exact (Spells.symbol offset).followed (by decide) (by decide) List.not_mem_nil
  | pointer place =>
    rw [text_pointer, names_pointer]
    exact .space (by decide : ['.', 'D', 'W'].length < 5) (place.spells brackets)
  | values bytes =>
    rw [text_values]
    refine .of_not_mem ?_
    simp only [List.mem_cons, not_or]
    refine ⟨by decide, by decide, by decide, by decide, ?_⟩
    apply Text.not_mem_intercalate (by decide)
    intro piece hmem
    obtain ⟨byte, -, rfl⟩ := List.mem_map.1 hmem
    simp [hhex]
  | instruction mnemonic operand =>
    have hlength : mnemonic.toList.length < 5 := by
      rw [h.1]
      decide
    have hempty : ∀ {text : List Char} {offsets}, Spells text offsets →
        Spells (' ' :: text) offsets := fun h => .space (by decide : [].length < 5) h
    rw [text_instruction, names_instruction]
    exact hempty (hempty (hempty (hempty (operand.spells brackets hlength))))

theorem text_eq_iff (line : Line) (h : line.Legible) (offset : Nat) :
    line.text brackets = (symbol offset).toList ++ [':'] ↔
      ∃ other, line = .label other ∧ symbol other = symbol offset := by
  rw [← text_label]
  constructor
  · intro heq
    -- Only blank lines and labels read back as `nothing`.
    have hread := line.readLine?_text brackets h
    rw [heq, readLine?_text brackets (.label offset) trivial, Option.some.injEq] at hread
    cases line with
    | blank =>
      rw [text_label] at heq
      exact absurd heq.symm (by simp [text, pieces, characters])
    | label other =>
      rw [text_label, text_label, List.append_cancel_right_eq] at heq
      exact ⟨other, rfl, String.toList_injective heq⟩
    | _ => contradiction
  · rintro ⟨other, rfl, heq⟩
    rw [text_label, text_label, heq]

end Line

theorem fields_render {lines : List Line} (h : ∀ line ∈ lines, line.Legible) :
    Text.fields '\n' (render ⟨.text, brackets⟩ lines).toList =
      lines.map (Line.text brackets) ++ [[]] := by
  rw [toList_render, Text.fields_flatMap fun line hmem =>
    line.newline_not_mem_text brackets (h line hmem)]

variable {lines : List Line} (h : ∀ line ∈ lines, line.Legible)
  (hlt : ∀ line ∈ lines, ∀ offset ∈ line.names, offset < Bank.size) {offset : Nat}
  (hoffset : offset < Bank.size)
include h hlt hoffset

theorem exists_mem_names {text : List Char}
    (htext : text ∈ Text.fields '\n' (render ⟨.text, brackets⟩ lines).toList)
    (hword : (symbol offset).toList <:+: text) : ∃ line ∈ lines, offset ∈ line.names := by
  rw [fields_render brackets h, List.mem_append, List.mem_map, List.mem_singleton] at htext
  rcases htext with ⟨line, hline, rfl⟩ | rfl
  · obtain ⟨other, hother, heq⟩ := line.spells brackets (h line hline) offset hword
    exact ⟨line, hline, symbol_injOn (hlt line hline other hother) hoffset heq ▸ hother⟩
  · have hle := hword.length_le
    rw [length_symbol] at hle
    contradiction

/-- A text listing defines a label as often as its lines do. -/
theorem count_fields_render :
    (Text.fields '\n' (render ⟨.text, brackets⟩ lines).toList).count
      ((symbol offset).toList ++ [':']) = lines.count (.label offset) := by
  have hempty : [([] : List Char)].count ((symbol offset).toList ++ [':']) = 0 := by
    simp
  rw [fields_render brackets h, List.count_append, hempty, Nat.add_zero, List.count_eq_countP,
    List.count_eq_countP, List.countP_map]
  refine List.countP_congr fun line hline => ?_
  rw [Function.comp_apply, beq_iff_eq, beq_iff_eq, line.text_eq_iff brackets (h line hline)]
  constructor
  · rintro ⟨other, rfl, heq⟩
    rw [symbol_injOn (hlt _ hline other (by simp [Line.names, names, Line.pieces, Piece.named?]))
      hoffset heq]
  · intro heq
    exact ⟨offset, heq, rfl⟩

end Lines

end Assembly

end BankTrace
