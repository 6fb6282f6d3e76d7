import BankTrace.Assembly.Written
import BankTrace.Proofs.Digits
import BankTrace.Proofs.Places
import BankTrace.Proofs.Reader

namespace BankTrace

namespace Brackets

def left : Brackets → Char
  | square => '['
  | round => '('

def right : Brackets → Char
  | square => ']'
  | round => ')'

theorem right_ne_comma (brackets : Brackets) : brackets.right ≠ ',' := by
  cases brackets <;> decide

theorem toList_left (brackets : Brackets) :
    (Assembly.Piece.openBracket.render ⟨.text, brackets⟩).toList = [brackets.left] := by
  cases brackets <;> simp [Assembly.Piece.render, left]

theorem toList_right (brackets : Brackets) :
    (Assembly.Piece.closeBracket.render ⟨.text, brackets⟩).toList = [brackets.right] := by
  cases brackets <;> simp [Assembly.Piece.render, right]

end Brackets

namespace Assembly

def Operand.argument : Operand → Argument
  | none => .none
  | immediate value => .immediate value
  | zeroPage value index => .direct false value index
  | absolute wide place index => .direct wide place.value index
  | indirect address => .indirect address
  | indirectX value => .indirectX value
  | indirectY value => .indirectY value
  | branch target => .direct false (Bank.addressOf target) .none
  | skip distance => .skip distance

def Line.statement : Line → Statement
  | blank | label _ => .nothing
  | origin => .origin Bank.origin
  | finish => .finish
  | pointer place => .words [place.value]
  | values bytes => .bytes (bytes.map fun byte => (byte.toNat : Int))
  | instruction mnemonic operand => .instruction mnemonic operand.argument

theorem mapM_map_eq_some {α β γ : Type} {write : α → β} {read : β → Option γ} {value : α → γ}
    {l : List α} (h : ∀ a ∈ l, read (write a) = some (value a)) :
    (l.map write).mapM read = some (l.map value) := by
  induction l with
  | nil => rfl
  | cons a l ih =>
    rw [List.forall_mem_cons] at h
    rw [List.map_cons, List.mapM_cons, h.1, ih h.2]
    rfl

theorem Piece.render_text (style : Style) (text : String) : (Piece.text text).render style = text :=
  rfl

section Characters

variable (brackets : Brackets)

def characters (pieces : List Piece) : List Char :=
  pieces.flatMap fun piece => (piece.render ⟨.text, brackets⟩).toList

theorem characters_cons (piece : Piece) (pieces : List Piece) :
    characters brackets (piece :: pieces) =
      (piece.render ⟨.text, brackets⟩).toList ++ characters brackets pieces :=
  List.flatMap_cons

theorem characters_append (front back : List Piece) :
    characters brackets (front ++ back) = characters brackets front ++ characters brackets back :=
  List.flatMap_append

def Line.text (line : Line) : List Char := characters brackets line.pieces.dropLast

theorem Line.pieces_eq (line : Line) : line.pieces = line.pieces.dropLast ++ [.lineEnd] := by
  cases line with
  | pointer place => rw [pieces, List.dropLast_concat]
  | instruction mnemonic operand => rw [pieces, List.dropLast_concat]
  | _ => rfl

theorem characters_lineEnd : characters brackets [.lineEnd] = ['\n'] := by
  simp [characters, Piece.render]

theorem Line.characters_pieces (line : Line) :
    characters brackets line.pieces = line.text brackets ++ ['\n'] := by
  rw [text, ← characters_lineEnd brackets, ← characters_append, ← pieces_eq]

theorem toList_render (lines : List Line) :
    (render ⟨.text, brackets⟩ lines).toList =
      lines.flatMap fun line => line.text brackets ++ ['\n'] := by
  have hall : characters brackets (lines.flatMap Line.pieces) =
      lines.flatMap fun line => line.text brackets ++ ['\n'] := by
    rw [characters, List.flatMap_assoc]
    exact List.flatMap_congr fun line _ => line.characters_pieces brackets
  rw [render, String.toList_append, String.toList_join, List.flatMap_cons, List.flatMap_map,
    ← hall]
  simp [opening, closing, characters]

end Characters

theorem toList_hexByte (value : Nat) :
    (hexByte value).toList = '$' :: (Text.hexUpper 2 value).toList := by
  rw [hexByte, String.toList_append]
  rfl

theorem toList_hexWord (value : Nat) :
    (hexWord value).toList = '$' :: (Text.hexUpper 4 value).toList := by
  rw [hexWord, String.toList_append]
  rfl

theorem toList_symbol (offset : Nat) :
    (symbol offset).toList = 'L' :: (Text.hexUpper 4 (Bank.addressOf offset)).toList := by
  rw [symbol, String.toList_append]
  rfl

theorem toList_signed (value : Int) :
    (signed value).toList =
      (if value < 0 then '-' else '+') :: Nat.toDigits 10 value.natAbs := by
  unfold signed
  rw [Int.toString_eq_repr, Int.repr_eq_if]
  split_ifs with hneg hpos
  · omega
  · rw [String.toList_append, Nat.toList_repr, (by omega : (-value).toNat = value.natAbs)]
    rfl
  · rw [String.toList_append, Nat.toList_repr, (by omega : value.toNat = value.natAbs)]
    rfl
  · omega

theorem readValue?_hex (width value : Nat) :
    readValue? ('$' :: (Text.hexUpper width value).toList) = some (value : Int) := by
  rw [readValue?, Text.natural?_hexUpper]
  rfl

theorem readSigned?_signed (value : Int) : readSigned? (signed value).toList = some value := by
  rw [toList_signed]
  split_ifs with hneg
  · rw [readSigned?, Text.natural?_toDigits, Option.map_some, Int.ofNat_eq_natCast]
    congr 1
    omega
  · rw [readSigned?, Text.natural?_toDigits, Option.map_some, Int.ofNat_eq_natCast]
    congr 1
    omega

theorem readAdjustment?_signed (value : Int) :
    readAdjustment? (if value = 0 then [] else (signed value).toList) = some value := by
  split_ifs with hzero
  · rw [hzero]
    rfl
  · have hread := readSigned?_signed value
    rw [toList_signed] at hread ⊢
    rw [readAdjustment?, hread]
    exact List.cons_ne_nil _ _

/-- A character that separates numbers and places, and so does not occur in them. -/
def Separates (c : Char) : Prop :=
  Numeral.digit? 16 c = none ∧ c ≠ '$' ∧ c ≠ 'L' ∧ c ≠ '+' ∧ c ≠ '-'

instance (c : Char) : Decidable (Separates c) := by
  unfold Separates
  infer_instance

section Separates

variable {c : Char} (h : Separates c)
include h

theorem Separates.not_mem_hex (width value : Nat) :
    c ∉ '$' :: (Text.hexUpper width value).toList := by
  rw [List.mem_cons, not_or]
  exact ⟨h.2.1, Text.not_mem_hexUpper h.1 width value⟩

theorem Separates.not_mem_symbol (offset : Nat) : c ∉ (symbol offset).toList := by
  rw [toList_symbol, List.mem_cons, not_or]
  exact ⟨h.2.2.1, Text.not_mem_hexUpper h.1 4 _⟩

theorem Separates.not_mem_signed (value : Int) : c ∉ (signed value).toList := by
  rw [toList_signed, List.mem_cons, not_or]
  constructor
  · split_ifs
    · exact h.2.2.2.2
    · exact h.2.2.2.1
  · exact Text.not_mem_toDigits h.1 _

end Separates

namespace Place

variable (brackets : Brackets)

theorem characters_word (value : Nat) :
    characters brackets (word value).pieces = '$' :: (Text.hexUpper 4 value).toList := by
  rw [pieces, characters_cons, Piece.render, toList_hexWord]
  exact List.append_nil _

theorem characters_label (offset : Nat) (adjustment : Int) :
    characters brackets (label offset adjustment).pieces =
      (symbol offset).toList ++ if adjustment = 0 then [] else (signed adjustment).toList := by
  rw [pieces, characters_cons, Piece.render]
  split_ifs
  · rfl
  · rw [characters_cons, Piece.render]
    simp [characters]

theorem not_mem_characters {c : Char} (h : Separates c) (place : Place) :
    c ∉ characters brackets place.pieces := by
  cases place with
  | word value =>
    rw [characters_word]
    exact h.not_mem_hex 4 value
  | label offset adjustment =>
    rw [characters_label, List.mem_append, not_or]
    refine ⟨h.not_mem_symbol offset, ?_⟩
    split_ifs
    · exact List.not_mem_nil
    · exact h.not_mem_signed adjustment

/-- A place is read as its value. -/
theorem readValue?_characters (place : Place) :
    readValue? (characters brackets place.pieces) = some place.value := by
  cases place with
  | word value =>
    rw [characters_word]
    exact readValue?_hex 4 value
  | label offset adjustment =>
    have hlen := Text.length_hexUpper (by decide) (Bank.addressOf_lt offset)
    rw [characters_label, toList_symbol, List.cons_append, readValue?, List.take_left' hlen,
      List.drop_left' hlen, Text.natural?_hexUpper, readAdjustment?_signed]
    rfl

end Place

theorem separates_comma : Separates ',' := by decide

theorem separates_newline : Separates '\n' := by decide

theorem readIndexed?_append {text : List Char} {value : Int} (hcomma : ',' ∉ text)
    (hvalue : readValue? text = some value) (index : Index) :
    readIndexed? (text ++ index.text.toList) = some (value, index) := by
  unfold readIndexed?
  cases index with
  | none =>
    rw [(by rfl : Index.none.text.toList = []), List.append_nil, Text.fields_of_not_mem hcomma]
    simp only [hvalue, Option.map_some]
  | x =>
    rw [(by rfl : Index.x.text.toList = [',', 'X']), Text.fields_append_cons _ hcomma]
    simp [Text.fields, hvalue]
  | y =>
    rw [(by rfl : Index.y.text.toList = [',', 'Y']), Text.fields_append_cons _ hcomma]
    simp [Text.fields, hvalue]

section Bracketed

variable {bracket : Char} {text : List Char} {value : Int} (hbracket : bracket ≠ ',')
  (hcomma : ',' ∉ text) (hvalue : readValue? text = some value)
include hbracket hcomma hvalue

theorem readBracketed?_indirect :
    readBracketed? bracket (text ++ [bracket]) = some (.indirect value) := by
  have hall : ',' ∉ text ++ [bracket] := by simpa [hcomma] using hbracket.symm
  rw [readBracketed?, Text.fields_of_not_mem hall]
  simp [hvalue]

theorem readBracketed?_indirectX :
    readBracketed? bracket (text ++ [',', 'X', bracket]) = some (.indirectX value) := by
  rw [readBracketed?, Text.fields_append_cons _ hcomma]
  simp [Text.fields, hbracket, hvalue]

theorem readBracketed?_indirectY :
    readBracketed? bracket (text ++ [bracket, ',', 'Y']) = some (.indirectY value) := by
  have hall : ',' ∉ text ++ [bracket] := by simpa [hcomma] using hbracket.symm
  have hsplit : text ++ [bracket, ',', 'Y'] = (text ++ [bracket]) ++ ',' :: ['Y'] := by simp
  rw [readBracketed?, hsplit, Text.fields_append_cons _ hall]
  simp [Text.fields, hvalue]

end Bracketed

theorem readArgument?_left (brackets : Brackets) (text : List Char) :
    readArgument? (' ' :: brackets.left :: text) = readBracketed? brackets.right text := by
  cases brackets <;> rfl

/-- A text that begins as a place does, and as no other operand does. -/
def Bare (text : List Char) : Prop :=
  (∃ rest, text = 'L' :: rest) ∨ ∃ c rest, text = '$' :: c :: rest ∧ c ≠ '+' ∧ c ≠ '-'

theorem readArgument?_of_bare {text : List Char} (h : Bare text) :
    readArgument? (' ' :: text) =
      (readIndexed? text).map fun (value, index) => .direct false value index := by
  rcases h with ⟨rest, rfl⟩ | ⟨c, rest, rfl, hplus, hminus⟩
  · rfl
  · simp [readArgument?, hplus, hminus]

theorem bare_hex (width value : Nat) (rest : List Char) :
    Bare ('$' :: (Text.hexUpper width value).toList ++ rest) := by
  right
  cases hdigits : (Text.hexUpper width value).toList with
  | nil =>
    have hread := Text.natural?_hexUpper width value
    rw [hdigits] at hread
    contradiction
  | cons c digits =>
    have hplus := Text.not_mem_hexUpper (by decide : Numeral.digit? 16 '+' = none) width value
    have hminus := Text.not_mem_hexUpper (by decide : Numeral.digit? 16 '-' = none) width value
    rw [hdigits, List.mem_cons, not_or] at hplus hminus
    exact ⟨c, digits ++ rest, rfl, Ne.symm hplus.1, Ne.symm hminus.1⟩

theorem Place.bare_characters (brackets : Brackets) (place : Place) (rest : List Char) :
    Bare (characters brackets place.pieces ++ rest) := by
  cases place with
  | word value =>
    rw [characters_word]
    exact bare_hex 4 value rest
  | label offset adjustment =>
    rw [characters_label, toList_symbol]
    exact .inl ⟨_, rfl⟩

namespace Operand

variable (brackets : Brackets)

theorem characters_immediate (value : Nat) :
    characters brackets (immediate value).pieces =
      ' ' :: '#' :: '$' :: (Text.hexUpper 2 value).toList := by
  simp [pieces, characters, Piece.render, toList_hexByte]

theorem characters_zeroPage (value : Nat) (index : Index) :
    characters brackets (zeroPage value index).pieces =
      ' ' :: ('$' :: (Text.hexUpper 2 value).toList ++ index.text.toList) := by
  simp [pieces, characters, Piece.render, toList_hexByte]

theorem characters_wide (place : Place) (index : Index) :
    characters brackets (absolute true place index).pieces =
      '.' :: 'W' :: ' ' :: (characters brackets place.pieces ++ index.text.toList) := by
  simp [pieces, characters, Piece.render]

theorem characters_absolute (place : Place) (index : Index) :
    characters brackets (absolute false place index).pieces =
      ' ' :: (characters brackets place.pieces ++ index.text.toList) := by
  simp [pieces, characters, Piece.render]

theorem characters_indirect (address : Nat) :
    characters brackets (indirect address).pieces =
      ' ' :: brackets.left :: ('$' :: (Text.hexUpper 4 address).toList ++ [brackets.right]) := by
  simp [pieces, characters, Piece.render_text, toList_hexWord, brackets.toList_left,
    brackets.toList_right]

theorem characters_indirectX (value : Nat) :
    characters brackets (indirectX value).pieces =
      ' ' :: brackets.left ::
        ('$' :: (Text.hexUpper 2 value).toList ++ [',', 'X', brackets.right]) := by
  simp [pieces, characters, Piece.render_text, toList_hexByte, brackets.toList_left,
    brackets.toList_right]

theorem characters_indirectY (value : Nat) :
    characters brackets (indirectY value).pieces =
      ' ' :: brackets.left ::
        ('$' :: (Text.hexUpper 2 value).toList ++ [brackets.right, ',', 'Y']) := by
  simp [pieces, characters, Piece.render_text, toList_hexByte, brackets.toList_left,
    brackets.toList_right]

theorem characters_branch (target : Nat) :
    characters brackets (branch target).pieces = ' ' :: (symbol target).toList := by
  simp [pieces, characters, Piece.render]

theorem characters_skip (distance : Int) :
    characters brackets (skip distance).pieces = ' ' :: '$' :: (signed distance).toList := by
  simp [pieces, characters, Piece.render]

/-- An operand is read by its shape. -/
theorem readArgument?_characters (operand : Operand) :
    readArgument? (characters brackets operand.pieces) = some operand.argument := by
  cases operand with
  | none => rfl
  | immediate value =>
    rw [characters_immediate, readArgument?, readValue?_hex]
    rfl
  | zeroPage value index =>
    rw [characters_zeroPage, readArgument?_of_bare (bare_hex 2 value _),
      readIndexed?_append (separates_comma.not_mem_hex 2 value) (readValue?_hex 2 value)]
    rfl
  | absolute wide place index =>
    have hread := readIndexed?_append (place.not_mem_characters brackets separates_comma)
      (place.readValue?_characters brackets) index
    cases wide with
    | true =>
      rw [characters_wide, readArgument?, hread]
      rfl
    | false =>
      rw [characters_absolute, readArgument?_of_bare (place.bare_characters brackets _), hread]
      rfl
  | indirect address =>
    rw [characters_indirect, readArgument?_left, readBracketed?_indirect brackets.right_ne_comma
      (separates_comma.not_mem_hex 4 address) (readValue?_hex 4 address)]
    rfl
  | indirectX value =>
    rw [characters_indirectX, readArgument?_left, readBracketed?_indirectX brackets.right_ne_comma
      (separates_comma.not_mem_hex 2 value) (readValue?_hex 2 value)]
    rfl
  | indirectY value =>
    rw [characters_indirectY, readArgument?_left, readBracketed?_indirectY brackets.right_ne_comma
      (separates_comma.not_mem_hex 2 value) (readValue?_hex 2 value)]
    rfl
  | branch target =>
    have hplace : (symbol target).toList =
        characters brackets (Place.label target 0).pieces ++ Index.none.text.toList := by
      simp [Place.characters_label, Index.text]
    rw [characters_branch, hplace, readArgument?_of_bare (Place.bare_characters brackets _ _),
      readIndexed?_append (Place.not_mem_characters brackets separates_comma _)
        (Place.readValue?_characters brackets _)]
    simp [Place.value, argument]
  | skip distance =>
    have hread := readSigned?_signed distance
    rw [toList_signed] at hread
    rw [characters_skip, toList_signed]
    split_ifs at hread ⊢ with hneg
    · rw [readArgument?, hread]
      rfl
    · rw [readArgument?, hread]
      rfl

theorem newline_not_mem_characters (operand : Operand) :
    '\n' ∉ characters brackets operand.pieces := by
  have hhex := fun width value => Text.not_mem_hexUpper separates_newline.1 width value
  have hindex : ∀ index : Index, '\n' ∉ index.text.toList := by
    intro index
    cases index <;> simp [Index.text]
  have hleft : '\n' ≠ brackets.left := by cases brackets <;> decide
  have hright : '\n' ≠ brackets.right := by cases brackets <;> decide
  cases operand with
  | none => exact List.not_mem_nil
  | immediate value => simp [characters_immediate, hhex]
  | zeroPage value index => simp [characters_zeroPage, hhex, hindex]
  | absolute wide place index =>
    have hplace := place.not_mem_characters brackets separates_newline
    cases wide with
    | true => simp [characters_wide, hplace, hindex]
    | false => simp [characters_absolute, hplace, hindex]
  | indirect address => simp [characters_indirect, hhex, hleft, hright]
  | indirectX value => simp [characters_indirectX, hhex, hleft, hright]
  | indirectY value => simp [characters_indirectY, hhex, hleft, hright]
  | branch target => simp [characters_branch, separates_newline.not_mem_symbol target]
  | skip distance => simp [characters_skip, separates_newline.not_mem_signed distance]

end Operand

namespace Line

/-- What a line of a listing promises of its text: a mnemonic of three characters, and values. -/
def Legible : Line → Prop
  | values bytes => bytes ≠ []
  | instruction mnemonic _ => mnemonic.toList.length = 3 ∧ '\n' ∉ mnemonic.toList
  | _ => True

variable (brackets : Brackets)

theorem text_values (bytes : List UInt8) :
    (values bytes).text brackets = '.' :: 'D' :: 'B' :: ' ' ::
      [','].intercalate (bytes.map fun byte => '$' :: (Text.hexUpper 2 byte.toNat).toList) := by
  have hbytes : (fun byte : UInt8 => (hexByte byte.toNat).toList) =
      fun byte => '$' :: (Text.hexUpper 2 byte.toNat).toList := by
    funext byte
    exact toList_hexByte byte.toNat
  simp [text, pieces, characters, Piece.render, Function.comp_def, hbytes]

theorem text_pointer (place : Place) :
    (pointer place).text brackets =
      '.' :: 'D' :: 'W' :: ' ' :: characters brackets place.pieces := by
  rw [text, pieces, List.dropLast_concat, characters_cons, Piece.render_text]
  rfl

theorem text_instruction (mnemonic : String) (operand : Operand) :
    (instruction mnemonic operand).text brackets =
      ' ' :: ' ' :: ' ' :: ' ' :: (mnemonic.toList ++ characters brackets operand.pieces) := by
  have hindent : (Piece.indent.render ⟨.text, brackets⟩).toList = [' ', ' ', ' ', ' '] := by
    simp [Piece.render]
  rw [text, pieces, List.dropLast_concat, characters_cons, characters_cons, Piece.render_text,
    hindent]
  rfl

theorem text_label (offset : Nat) :
    (label offset).text brackets = (symbol offset).toList ++ [':'] := by
  simp [text, pieces, characters, Piece.render]

theorem readLine?_text (line : Line) (h : line.Legible) :
    readLine? (line.text brackets) = some line.statement := by
  cases line with
  | blank => rfl
  | origin =>
    have htext : origin.text brackets =
        '.' :: 'O' :: 'R' :: 'G' :: ' ' :: '$' :: (Text.hexUpper 4 Bank.origin).toList := by
      simp [text, pieces, characters, Piece.render, toList_hexWord]
    rw [htext, readLine?, readValue?_hex]
    rfl
  | finish =>
    have htext : finish.text brackets = ['.', 'E', 'N', 'D'] := by
      simp [text, pieces, characters, Piece.render]
    rw [htext]
    rfl
  | label offset =>
    rw [text_label, toList_symbol, List.cons_append, readLine?, if_pos (List.getLast?_concat ..)]
    rfl
  | pointer place =>
    have hcomma := place.not_mem_characters brackets separates_comma
    rw [text_pointer, readLine?, Text.fields_of_not_mem hcomma]
    simp [place.readValue?_characters brackets, statement]
  | values bytes =>
    have hpieces : ∀ piece ∈ bytes.map fun byte => '$' :: (Text.hexUpper 2 byte.toNat).toList,
        ',' ∉ piece := by
      intro piece hmem
      obtain ⟨byte, -, rfl⟩ := List.mem_map.1 hmem
      exact separates_comma.not_mem_hex 2 _
    have hne : bytes ≠ [] := h
    have hread : ∀ byte : UInt8,
        readValue? ('$' :: (Text.hexUpper 2 byte.toNat).toList) = some (byte.toNat : Int) :=
      fun byte => readValue?_hex 2 byte.toNat
    rw [text_values, readLine?, Text.fields_intercalate (by simpa using hne) hpieces,
      mapM_map_eq_some fun byte _ => hread byte]
    rfl
  | instruction mnemonic operand =>
    rw [text_instruction, readLine?, List.take_left' h.1, List.drop_left' h.1,
      operand.readArgument?_characters brackets, String.ofList_toList]
    rfl

theorem newline_not_mem_text (line : Line) (h : line.Legible) : '\n' ∉ line.text brackets := by
  have hhex := fun width value => Text.not_mem_hexUpper separates_newline.1 width value
  cases line with
  | blank => exact List.not_mem_nil
  | origin => simp [text, pieces, characters, Piece.render, toList_hexWord, hhex]
  | finish => simp [text, pieces, characters, Piece.render]
  | label offset =>
    rw [text_label]
    simpa using separates_newline.not_mem_symbol offset
  | pointer place =>
    rw [text_pointer]
    simpa using place.not_mem_characters brackets separates_newline
  | values bytes =>
    rw [text_values]
    simp only [List.mem_cons, not_or]
    refine ⟨by decide, by decide, by decide, by decide, ?_⟩
    apply Text.not_mem_intercalate (by decide)
    intro piece hmem
    obtain ⟨byte, -, rfl⟩ := List.mem_map.1 hmem
    exact separates_newline.not_mem_hex 2 _
  | instruction mnemonic operand =>
    rw [text_instruction]
    have hoperand := operand.newline_not_mem_characters brackets
    simp [h.2, hoperand]

end Line

/-- A text listing is read line by line as it was written. -/
theorem readLines_render (brackets : Brackets) {lines : List Line}
    (h : ∀ line ∈ lines, line.Legible) :
    (Text.fields '\n' (render ⟨.text, brackets⟩ lines).toList).mapM readLine? =
      some (lines.map Line.statement ++ [.nothing]) := by
  rw [toList_render, Text.fields_flatMap fun line hmem =>
    line.newline_not_mem_text brackets (h line hmem), List.mapM_append,
    mapM_map_eq_some fun line hmem => line.readLine?_text brackets (h line hmem)]
  rfl

end Assembly

end BankTrace
