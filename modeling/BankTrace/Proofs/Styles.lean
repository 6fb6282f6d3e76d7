import BankTrace.Proofs.Layout
import BankTrace.Proofs.Reassembly
import Mathlib.Data.List.DropRight

namespace BankTrace

namespace Text

def lines (text : List Char) : List (List Char) := (fields '\n' text).dropLast

theorem lines_flatMap {lines : List (List Char)} (h : ∀ line ∈ lines, '\n' ∉ line) :
    Text.lines (lines.flatMap (· ++ ['\n'])) = lines := by
  rw [Text.lines, fields_flatMap h, List.map_id', List.dropLast_concat]

def rounded : Char → Char
  | '[' => '('
  | ']' => ')'
  | c => c

theorem map_rounded {text : List Char} (hopen : '[' ∉ text) (hclose : ']' ∉ text) :
    text.map rounded = text := by
  have hsame : ∀ c ∈ text, rounded c = c := by
    intro c hc
    unfold rounded
    split
    · exact absurd hc hopen
    · exact absurd hc hclose
    · rfl
  rw [List.map_congr_left hsame, List.map_id']

end Text

namespace Html

/-- A line without its anchors, links and final `<BR>`, and with spaces for `&nbsp;`; within an opening
tag everything up to its end is skipped. -/
def unmarked : (inTag : Bool) → List Char → List Char
  | _, [] => []
  | true, c :: rest => unmarked (c != '>') rest
  | false, ['<', 'B', 'R', '>'] => []
  | false, '<' :: '/' :: 'A' :: '>' :: rest => unmarked false rest
  | false, '<' :: 'A' :: ' ' :: 'N' :: 'A' :: 'M' :: 'E' :: '=' :: rest => unmarked true rest
  | false, '<' :: 'A' :: ' ' :: 'H' :: 'R' :: 'E' :: 'F' :: '=' :: rest => unmarked true rest
  | false, '&' :: 'n' :: 'b' :: 's' :: 'p' :: ';' :: rest => ' ' :: unmarked false rest
  | false, c :: rest => c :: unmarked false rest

/-- The text of a document: three lines before it and three after it are dropped, and the markup is
taken out of each of the others. -/
def plain (document : String) : String :=
  .ofList ((((Text.lines document.toList).drop 3).rdrop 3).flatMap fun line =>
    unmarked false line ++ ['\n'])

theorem unmarked_append {text : List Char} (htag : '<' ∉ text) (hentity : '&' ∉ text)
    (rest : List Char) : unmarked false (text ++ rest) = text ++ unmarked false rest := by
  induction text with
  | nil => rfl
  | cons c text ih =>
    rw [List.mem_cons, not_or] at htag hentity
    rw [List.cons_append, unmarked.eq_def, List.cons_append, ← ih htag.2 hentity.2]
    split <;> simp_all

theorem unmarked_tag {text : List Char} (h : '>' ∉ text) (rest : List Char) :
    unmarked true (text ++ '>' :: rest) = unmarked false rest := by
  induction text with
  | nil => rfl
  | cons c text ih =>
    rw [List.mem_cons, not_or] at h
    rw [List.cons_append, unmarked, bne_iff_ne.2 (Ne.symm h.1), ih h.2]

end Html

namespace Assembly

def reserved : List Char := ['\n', '<', '&', '[', ']']

theorem separates_of_reserved : ∀ c ∈ reserved, Separates c :=
  List.forall_iff_forall_mem.1 (by decide)

def Unreserved (s : String) : Prop := ∀ c ∈ reserved, c ∉ s.toList

instance (s : String) : Decidable (Unreserved s) :=
  List.decidableBAll _ _

theorem Unreserved.append {s t : String} (hs : Unreserved s) (ht : Unreserved t) :
    Unreserved (s ++ t) := by
  intro c hc
  rw [String.toList_append, List.mem_append, not_or]
  exact ⟨hs c hc, ht c hc⟩

theorem Unreserved.intercalate {between : String} {parts : List String} (hbetween : Unreserved between)
    (h : ∀ s ∈ parts, Unreserved s) : Unreserved (between.intercalate parts) := by
  intro c hc
  rw [String.toList_intercalate]
  refine Text.not_mem_intercalate (hbetween c hc) fun piece hpiece => ?_
  obtain ⟨s, hs, rfl⟩ := List.mem_map.1 hpiece
  exact h s hs c hc

theorem unreserved_hexByte (value : Nat) : Unreserved (hexByte value) := by
  intro c hc
  rw [toList_hexByte]
  exact (separates_of_reserved c hc).not_mem_hex 2 value

theorem unreserved_hexWord (value : Nat) : Unreserved (hexWord value) := by
  intro c hc
  rw [toList_hexWord]
  exact (separates_of_reserved c hc).not_mem_hex 4 value

theorem unreserved_signed (value : Int) : Unreserved (signed value) := fun c hc =>
  (separates_of_reserved c hc).not_mem_signed value

theorem unreserved_symbol (offset : Nat) : Unreserved (symbol offset) := fun c hc =>
  (separates_of_reserved c hc).not_mem_symbol offset

theorem Index.unreserved (index : Index) : Unreserved index.text := by
  cases index <;> decide

/-- The piece stands within a line, and its text is not taken for markup. -/
def Piece.Plain : Piece → Prop
  | text s => Unreserved s
  | lineEnd => False
  | _ => True

theorem Place.plain (place : Place) : ∀ piece ∈ place.pieces, piece.Plain := by
  cases place with
  | word value =>
    rw [pieces, List.forall_mem_singleton]
    exact unreserved_hexWord value
  | label offset adjustment =>
    rw [pieces, List.forall_mem_cons]
    refine ⟨trivial, ?_⟩
    split_ifs
    · exact List.forall_mem_nil _
    · rw [List.forall_mem_singleton]
      exact unreserved_signed adjustment

theorem Operand.plain (operand : Operand) : ∀ piece ∈ operand.pieces, piece.Plain := by
  have space : Unreserved " " := by decide
  cases operand with
  | none => exact List.forall_mem_nil _
  | immediate value =>
    rw [pieces, List.forall_mem_singleton]
    exact .append (by decide) (unreserved_hexByte value)
  | zeroPage value index =>
    rw [pieces, List.forall_mem_singleton]
    exact (space.append (unreserved_hexByte value)).append index.unreserved
  | absolute wide place index =>
    rw [pieces, List.forall_mem_append, List.forall_mem_cons, List.forall_mem_singleton]
    refine ⟨⟨?_, place.plain⟩, index.unreserved⟩
    cases wide
    · exact space
    · exact (by decide : Unreserved ".W ")
  | indirect address =>
    simp only [pieces, List.forall_mem_cons]
    exact ⟨space, trivial, unreserved_hexWord address, trivial, List.forall_mem_nil _⟩
  | indirectX value =>
    simp only [pieces, List.forall_mem_cons]
    exact ⟨space, trivial, (unreserved_hexByte value).append (by decide), trivial,
      List.forall_mem_nil _⟩
  | indirectY value =>
    simp only [pieces, List.forall_mem_cons]
    exact ⟨space, trivial, unreserved_hexByte value, trivial, (by decide : Unreserved ",Y"),
      List.forall_mem_nil _⟩
  | branch target =>
    simp only [pieces, List.forall_mem_cons]
    exact ⟨space, trivial, List.forall_mem_nil _⟩
  | skip distance =>
    rw [pieces, List.forall_mem_singleton]
    exact .append (by decide) (unreserved_signed distance)

namespace Line

def Plain : Line → Prop
  | instruction mnemonic _ => Unreserved mnemonic
  | _ => True

/-- Nothing in a line is taken for markup, and only its last piece ends it. -/
theorem Plain.pieces {line : Line} (h : line.Plain) : ∀ piece ∈ line.pieces.dropLast, piece.Plain := by
  cases line with
  | blank => exact List.forall_mem_nil _
  | origin =>
    rw [Line.pieces, List.dropLast_cons_cons, List.dropLast_singleton, List.forall_mem_singleton]
    exact .append (by decide) (unreserved_hexWord _)
  | finish =>
    rw [Line.pieces, List.dropLast_cons_cons, List.dropLast_singleton, List.forall_mem_singleton]
    exact (by decide : Unreserved ".END")
  | label offset =>
    simp only [Line.pieces, List.dropLast, List.forall_mem_cons]
    exact ⟨trivial, (by decide : Unreserved ":"), List.forall_mem_nil _⟩
  | pointer place =>
    rw [Line.pieces, List.dropLast_concat, List.forall_mem_cons]
    exact ⟨(by decide : Unreserved ".DW "), place.plain⟩
  | values bytes =>
    rw [Line.pieces, List.dropLast_cons_cons, List.dropLast_singleton, List.forall_mem_singleton]
    refine .append (by decide) (.intercalate (by decide) fun s hs => ?_)
    obtain ⟨byte, -, rfl⟩ := List.mem_map.1 hs
    exact unreserved_hexByte _
  | instruction mnemonic operand =>
    rw [Line.pieces, List.dropLast_concat, List.forall_mem_cons, List.forall_mem_cons]
    exact ⟨trivial, h, operand.plain⟩

end Line

def spell (style : Style) (pieces : List Piece) : List Char :=
  pieces.flatMap fun piece => (piece.render style).toList

section Spell

variable {piece : Piece} {pieces : List Piece}

theorem unmarked_render (brackets : Brackets) (h : piece.Plain) (rest : List Char) :
    Html.unmarked false ((piece.render ⟨.html, brackets⟩).toList ++ rest) =
      (piece.render ⟨.text, brackets⟩).toList ++ Html.unmarked false rest := by
  have named : ∀ offset rest, Html.unmarked false ((symbol offset).toList ++ rest) =
      (symbol offset).toList ++ Html.unmarked false rest := fun offset =>
    Html.unmarked_append (unreserved_symbol offset '<' (by decide))
      (unreserved_symbol offset '&' (by decide))
  have hclose : ∀ offset, '>' ∉ (symbol offset).toList :=
    (by decide : Separates '>').not_mem_symbol
  cases piece with
  | text s => exact Html.unmarked_append (h '<' (by decide)) (h '&' (by decide)) rest
  | indent => simp [Piece.render, Html.unmarked]
  | define offset =>
    have hskip := Html.unmarked_tag (hclose offset) ((symbol offset).toList ++ rest)
    rw [named] at hskip
    simpa [Piece.render, Html.unmarked] using hskip
  | refer offset =>
    have hlink : '>' ∉ '"' :: '#' :: ((symbol offset).toList ++ ['"']) := by
      simp [hclose]
    have hskip := Html.unmarked_tag hlink
      ((symbol offset).toList ++ '<' :: '/' :: 'A' :: '>' :: rest)
    rw [named, Html.unmarked] at hskip
    simpa [Piece.render, Html.unmarked] using hskip
  | openBracket => cases brackets <;> rfl
  | closeBracket => cases brackets <;> rfl
  | lineEnd => exact absurd h id

theorem unmarked_spell (brackets : Brackets) (h : ∀ piece ∈ pieces, piece.Plain) (rest : List Char) :
    Html.unmarked false (spell ⟨.html, brackets⟩ pieces ++ rest) =
      spell ⟨.text, brackets⟩ pieces ++ Html.unmarked false rest := by
  induction pieces with
  | nil => rfl
  | cons piece pieces ih =>
    rw [List.forall_mem_cons] at h
    rw [spell, spell, List.flatMap_cons, List.flatMap_cons, List.append_assoc, List.append_assoc,
      ← spell, ← spell, ← ih h.2, unmarked_render brackets h.1]

theorem map_rounded_render (medium : Medium) (h : piece.Plain ∨ piece = .lineEnd) :
    (piece.render ⟨medium, .square⟩).toList.map Text.rounded =
      (piece.render ⟨medium, .round⟩).toList := by
  have named : ∀ offset, (symbol offset).toList.map Text.rounded = (symbol offset).toList :=
    fun offset => Text.map_rounded (unreserved_symbol offset _ (by decide))
      (unreserved_symbol offset _ (by decide))
  rcases h with h | rfl
  · cases piece with
    | text s => exact Text.map_rounded (h _ (by decide)) (h _ (by decide))
    | indent => cases medium <;> rfl
    | define offset => cases medium <;> simp [Piece.render, named, Text.rounded]
    | refer offset => cases medium <;> simp [Piece.render, named, Text.rounded]
    | openBracket => simp [Piece.render, Text.rounded]
    | closeBracket => simp [Piece.render, Text.rounded]
    | lineEnd => exact absurd h id
  · cases medium <;> rfl

end Spell

namespace Line

theorem spell_pieces (style : Style) (line : Line) :
    spell style line.pieces =
      spell style line.pieces.dropLast ++ (Piece.lineEnd.render style).toList := by
  conv_lhs => rw [line.pieces_eq]
  rw [spell, spell, List.flatMap_append, List.flatMap_singleton]

def hypertext (brackets : Brackets) (line : Line) : List Char :=
  spell ⟨.html, brackets⟩ line.pieces.dropLast ++ ['<', 'B', 'R', '>']

variable {line : Line} (h : line.Plain) (brackets : Brackets)
include h

theorem unmarked_hypertext :
    Html.unmarked false (line.hypertext brackets) = line.text brackets := by
  rw [hypertext, unmarked_spell brackets h.pieces, text, characters, spell]
  exact List.append_nil _

theorem newline_not_mem_spell (style : Style) : '\n' ∉ spell style line.pieces.dropLast := by
  obtain ⟨medium, brackets⟩ := style
  rw [spell, List.mem_flatMap]
  rintro ⟨piece, hpiece, hmem⟩
  have hplain := h.pieces piece hpiece
  have hname : ∀ offset, '\n' ∉ (symbol offset).toList := fun offset =>
    unreserved_symbol offset '\n' (by decide)
  cases piece with
  | text s => exact hplain '\n' (by decide) hmem
  | indent => cases medium <;> simp [Piece.render] at hmem
  | define offset => cases medium <;> simp [Piece.render, hname] at hmem
  | refer offset => cases medium <;> simp [Piece.render, hname] at hmem
  | openBracket => cases brackets <;> simp [Piece.render] at hmem
  | closeBracket => cases brackets <;> simp [Piece.render] at hmem
  | lineEnd => exact hplain

theorem newline_not_mem_hypertext : '\n' ∉ line.hypertext brackets :=
  List.not_mem_append (newline_not_mem_spell h _) (by decide)

end Line

section Render

theorem toList_render_eq (style : Style) (lines : List Line) :
    (render style lines).toList = (opening style.medium).toList ++
      (lines.flatMap (spell style ·.pieces) ++ (closing style.medium).toList) := by
  have hlines : (lines.flatMap Line.pieces).flatMap (fun piece => (piece.render style).toList) =
      lines.flatMap (spell style ·.pieces) := List.flatMap_assoc
  rw [render, String.toList_append, String.toList_join, List.flatMap_cons, List.flatMap_map, hlines,
    List.append_assoc]

theorem map_rounded_render_lines (medium : Medium) {lines : List Line}
    (h : ∀ line ∈ lines, line.Plain) :
    (render ⟨medium, .square⟩ lines).toList.map Text.rounded =
      (render ⟨medium, .round⟩ lines).toList := by
  have hopening : (opening medium).toList.map Text.rounded = (opening medium).toList := by
    cases medium <;> rfl
  have hclosing : (closing medium).toList.map Text.rounded = (closing medium).toList := by
    cases medium <;> rfl
  have hline : ∀ line ∈ lines, (spell ⟨medium, .square⟩ line.pieces).map Text.rounded =
      spell ⟨medium, .round⟩ line.pieces := by
    intro line hmem
    rw [spell, spell, List.map_flatMap]
    refine List.flatMap_congr fun piece hpiece => ?_
    rw [line.pieces_eq, List.mem_append, List.mem_singleton] at hpiece
    exact map_rounded_render medium (hpiece.imp_left ((h line hmem).pieces piece))
  rw [toList_render_eq, toList_render_eq, List.map_append, List.map_append, hopening, hclosing,
    List.map_flatMap, List.flatMap_congr hline]

def openingLines : List (List Char) :=
  ["<HTML>".toList, "<BODY>".toList, "<FONT FACE=\"Courier\">".toList]

def closingLines : List (List Char) := ["</FONT>".toList, "</BODY>".toList, "</HTML>".toList]

/-- The lines of an HTML listing are those of the text listing with their markup, between those that
open the document and those that close it. -/
theorem lines_render_html (brackets : Brackets) {lines : List Line} (h : ∀ line ∈ lines, line.Plain) :
    Text.lines (render ⟨.html, brackets⟩ lines).toList =
      openingLines ++ (lines.map (Line.hypertext brackets) ++ closingLines) := by
  have hline : ∀ line : Line, spell ⟨.html, brackets⟩ line.pieces =
      line.hypertext brackets ++ ['\n'] := by
    intro line
    rw [line.spell_pieces, Line.hypertext, List.append_assoc]
    simp [Piece.render]
  have hflat : (render ⟨.html, brackets⟩ lines).toList =
      (openingLines ++ (lines.map (Line.hypertext brackets) ++ closingLines)).flatMap
        (· ++ ['\n']) := by
    have hopening : (opening .html).toList = openingLines.flatMap (· ++ ['\n']) := by decide
    have hclosing : (closing .html).toList = closingLines.flatMap (· ++ ['\n']) := by decide
    rw [toList_render_eq, List.flatMap_append, List.flatMap_append, List.flatMap_map, hopening,
      hclosing]
    simp only [hline]
  rw [hflat, Text.lines_flatMap]
  simp only [List.mem_append, List.mem_map]
  rintro line (hmem | ⟨line, hmem, rfl⟩ | hmem)
  · exact (by decide : ∀ line ∈ openingLines, '\n' ∉ line) line hmem
  · exact Line.newline_not_mem_hypertext (h line hmem) brackets
  · exact (by decide : ∀ line ∈ closingLines, '\n' ∉ line) line hmem

/-- Taking the markup out of a line that stands between those that open an HTML document and those
that close it, and ends in `<BR>`, leaves a line of the text listing. -/
theorem exists_marked_lines (brackets : Brackets) {lines : List Line}
    (h : ∀ line ∈ lines, line.Plain) :
    ∃ marked : List (List Char),
      Text.lines (render ⟨.html, brackets⟩ lines).toList =
        openingLines ++ (marked.map (· ++ "<BR>".toList) ++ closingLines) ∧
      marked.map (Html.unmarked false) = Text.lines (render ⟨.text, brackets⟩ lines).toList := by
  refine ⟨lines.map fun line => spell ⟨.html, brackets⟩ line.pieces.dropLast, ?_, ?_⟩
  · rw [lines_render_html brackets h, List.map_map]
    rfl
  · have hflat : (lines.flatMap fun line => line.text brackets ++ ['\n']) =
        (lines.map (Line.text brackets)).flatMap (· ++ ['\n']) := by
      rw [List.flatMap_map]
    have hbreak : ∀ text ∈ lines.map (Line.text brackets), '\n' ∉ text := by
      intro text hmem
      obtain ⟨line, hline, rfl⟩ := List.mem_map.1 hmem
      exact Line.newline_not_mem_spell (h line hline) ⟨.text, brackets⟩
    rw [toList_render, hflat, Text.lines_flatMap hbreak, List.map_map]
    refine List.map_congr_left fun line hline => ?_
    have hunmarked := unmarked_spell brackets (Line.Plain.pieces (h line hline)) []
    rw [List.append_nil] at hunmarked
    exact hunmarked.trans (List.append_nil _)

theorem plain_render_html (brackets : Brackets) {lines : List Line} (h : ∀ line ∈ lines, line.Plain) :
    Html.plain (render ⟨.html, brackets⟩ lines) = render ⟨.text, brackets⟩ lines := by
  have hbody : ((openingLines ++ (lines.map (Line.hypertext brackets) ++ closingLines)).drop 3).rdrop 3 =
      lines.map (Line.hypertext brackets) := by
    have hfront : ((openingLines ++ (lines.map (Line.hypertext brackets) ++ closingLines)).drop
        openingLines.length) = lines.map (Line.hypertext brackets) ++ closingLines :=
      List.drop_left
    have hback : (lines.map (Line.hypertext brackets) ++ closingLines).rdrop closingLines.length =
        lines.map (Line.hypertext brackets) := by
      rw [List.rdrop, List.length_append, Nat.add_sub_cancel, List.take_left]
    rw [← hfront] at hback
    exact hback
  rw [Html.plain, lines_render_html brackets h, hbody, List.flatMap_map]
  refine String.toList_injective ?_
  rw [String.toList_ofList, toList_render]
  exact List.flatMap_congr fun line hmem => by rw [Line.unmarked_hypertext (h line hmem)]

end Render

theorem unreserved_mnemonic (byte : UInt8) : Unreserved (Opcode.ofByte byte).mnemonic := by
  have htable : ∀ op ∈ Opcode.table.toList, Unreserved op.mnemonic := by decide +kernel
  exact htable _ (Vector.mem_toList_iff.2 (Vector.getElem_mem byte.toNat_lt))

def Item.Decoded : Item → Prop
  | instruction op _ _ => ∃ byte, op = Opcode.ofByte byte
  | _ => True

variable {n : Nat}

theorem exists_item?_decoded (bank : Bank) (s : Survey n) {offset : Nat} (h : offset < Bank.size) :
    ∃ item, item? bank s offset = some item ∧ item.Decoded := by
  obtain ⟨byte, hbyte⟩ := bank.byte?_eq_some h
  have hlength := (Opcode.ofByte_regular byte).length_le
  unfold item?
  simp only [hbyte, Option.bind_eq_bind, Option.bind_some]
  split_ifs with hpointer hstart hfits hcode
  · rw [Bool.and_eq_true, decide_eq_true_eq] at hpointer
    obtain ⟨word, hword⟩ := bank.word?_eq_some hpointer.2
    exact ⟨.pointer word, by rw [hword]; rfl, trivial⟩
  · obtain ⟨argument, hargument⟩ := exists_argument? bank hlength hfits.2
    exact ⟨.instruction _ argument hfits.1, by rw [hargument]; rfl, ⟨byte, rfl⟩⟩
  · exact ⟨.orphan byte, rfl, trivial⟩
  · exact ⟨.orphan byte, rfl, trivial⟩
  · exact ⟨.value byte, rfl, trivial⟩

theorem exists_itemsFrom?_decoded (bank : Bank) (s : Survey n) (offset : Nat) :
    ∃ items, itemsFrom? bank s offset = some items ∧ ∀ entry ∈ items, entry.2.Decoded := by
  induction hleft : Bank.size - offset using Nat.strong_induction_on generalizing offset with
  | _ left ih =>
    rw [itemsFrom?]
    by_cases hlt : offset < Bank.size
    · obtain ⟨item, hitem, hdecoded⟩ := exists_item?_decoded bank s hlt
      have hpos := item.size_pos
      obtain ⟨items, hitems, hall⟩ := ih _ (by omega) (offset + item.size) rfl
      rw [if_pos hlt, hitem]
      exact ⟨(offset, item) :: items, by simp only [hitems, Option.map_some],
        List.forall_mem_cons.2 ⟨hdecoded, hall⟩⟩
    · rw [if_neg hlt]
      exact ⟨[], rfl, List.forall_mem_nil _⟩

theorem plain_layout (s : Survey n) {items : List (Nat × Item)}
    (h : ∀ entry ∈ items, entry.2.Decoded) : ∀ line ∈ layout s items, line.Plain := by
  have label : ∀ offset, ∀ line ∈ labelLines s offset, line.Plain := by
    intro offset line hmem
    unfold labelLines at hmem
    split_ifs at hmem
    · rw [List.mem_singleton.1 hmem]
      trivial
    · exact absurd hmem List.not_mem_nil
  have rest : ∀ {β : Type} (f : Nat × Item → Option β) {items : List (Nat × Item)},
      (∀ entry ∈ items, entry.2.Decoded) → ∀ entry ∈ (spanMap f items).2, entry.2.Decoded := by
    intro β f items h entry hmem
    obtain ⟨front, hitems, -⟩ := spanMap_append f items
    exact h entry (hitems ▸ List.mem_append_right _ hmem)
  fun_induction layout s items with
  | case1 => exact List.forall_mem_nil _
  | case2 start items word run hle ih =>
    rw [List.forall_mem_cons] at h
    simp only [List.mem_cons, List.mem_append, List.mem_map]
    rintro line ((rfl | ⟨word, -, rfl⟩) | rfl | hmem)
    · trivial
    · trivial
    · trivial
    · exact ih (rest _ h.2) line hmem
  | case3 start items op argument hpos ih =>
    rw [List.forall_mem_cons] at h
    obtain ⟨byte, rfl⟩ := h.1
    simp only [List.mem_cons, List.mem_append]
    rintro line ((hmem | rfl | hmem) | hmem)
    · exact label start line hmem
    · exact unreserved_mnemonic byte
    · split_ifs at hmem
      · rw [List.mem_singleton.1 hmem]
        trivial
      · exact absurd hmem List.not_mem_nil
    · exact ih h.2 line hmem
  | case4 start items byte ih =>
    rw [List.forall_mem_cons] at h
    simp only [List.mem_cons, List.mem_append]
    rintro line (hmem | rfl | hmem)
    · exact label start line hmem
    · trivial
    · exact ih h.2 line hmem
  | case5 start items byte run hle ih =>
    rw [List.forall_mem_cons] at h
    simp only [List.mem_cons, List.mem_append]
    rintro line ((hmem | hmem) | rfl | hmem)
    · exact label start line hmem
    · obtain ⟨bytes, rfl⟩ := mem_dataLines hmem
      trivial
    · trivial
    · exact ih (rest _ h.2) line hmem

theorem exists_lines? (bank : Bank) (s : Survey n) :
    ∃ lines, lines? bank s = some lines ∧ ∀ line ∈ lines, line.Plain := by
  obtain ⟨items, hitems, hdecoded⟩ := exists_itemsFrom?_decoded bank s 0
  refine ⟨.origin :: .blank :: layout s items ++ [.finish], ?_, ?_⟩
  · rw [lines?, items?, hitems, Option.map_some]
  · simp only [List.mem_cons, List.mem_append]
    rintro line ((rfl | rfl | hmem) | rfl | hmem)
    · trivial
    · trivial
    · exact plain_layout s hdecoded line hmem
    · trivial
    · exact absurd hmem List.not_mem_nil

end Assembly

/-- All styles carry the same listing, for a survey of any length: without its markup an HTML listing
is the text listing with the same brackets, line by line between the lines that open and close the
document; and with round brackets for square ones a listing with square brackets is that with round
brackets. -/
theorem Bank.listing?_styles (bank : Bank) {n : Nat} (s : Survey n) :
    ∃ listing : Style → String, (∀ style, bank.listing? s style = some (listing style)) ∧
      (∀ brackets, Html.plain (listing ⟨.html, brackets⟩) = listing ⟨.text, brackets⟩ ∧
        ∃ marked : List (List Char),
          Text.lines (listing ⟨.html, brackets⟩).toList = Assembly.openingLines ++
            (marked.map (· ++ "<BR>".toList) ++ Assembly.closingLines) ∧
          marked.map (Html.unmarked false) = Text.lines (listing ⟨.text, brackets⟩).toList) ∧
      ∀ medium, (listing ⟨medium, .square⟩).map Text.rounded = listing ⟨medium, .round⟩ := by
  obtain ⟨lines, hlines, hplain⟩ := Assembly.exists_lines? bank s
  refine ⟨(Assembly.render · lines), fun style => ?_, fun brackets =>
    ⟨Assembly.plain_render_html brackets hplain, Assembly.exists_marked_lines brackets hplain⟩,
    fun medium => ?_⟩
  · rw [listing?, hlines, Option.map_some]
  · refine String.toList_injective ?_
    rw [String.toList_map]
    exact Assembly.map_rounded_render_lines medium hplain

end BankTrace
