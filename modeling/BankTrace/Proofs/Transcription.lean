import BankTrace.Proofs.PointerFiles
import BankTrace.Proofs.Spellings

namespace BankTrace.PointerTable

/-- A natural number in any notation, possibly with a plus sign and with blanks around it. -/
def Writes (n : Nat) (text : List Char) : Prop :=
  ∃ core, Numeral.Magnitude core n ∧ (Text.Padded core text ∨ Text.Padded ('+' :: core) text)

/-- The numbers of a table with a separator between them. -/
def WritesTable (separator : Char) (t : PointerTable) (text : List Char) : Prop :=
  ∃ offset count, Writes t.offset offset ∧ Writes t.count count ∧
    text = offset ++ separator :: count

def lineEnds : List (List Char) := [['\n'], ['\r', '\n']]

/-- Lines that hold tables in order, or nothing; the last may lack its end. -/
inductive Transcript : List PointerTable → List Char → Prop
  | nil : Transcript [] []
  | blank {ts : List PointerTable} {line lineEnd text : List Char}
      (blank : line.all Text.isBlank) (single : '\n' ∉ line) (ended : lineEnd ∈ lineEnds)
      (rest : Transcript ts text) : Transcript ts (line ++ lineEnd ++ text)
  | table {t : PointerTable} {ts : List PointerTable} {line lineEnd text : List Char}
      (written : WritesTable '|' t line) (single : '\n' ∉ line) (ended : lineEnd ∈ lineEnds)
      (rest : Transcript ts text) : Transcript (t :: ts) (line ++ lineEnd ++ text)
  | lastBlank {line : List Char} (blank : line.all Text.isBlank) (single : '\n' ∉ line) :
      Transcript [] line
  | lastTable {t : PointerTable} {line : List Char} (written : WritesTable '|' t line)
      (single : '\n' ∉ line) : Transcript [t] line

/-- A heading, and lines that hold tables. -/
inductive WritesFile : List PointerTable → List Char → Prop
  | heading {heading : List Char} (single : '\n' ∉ heading) : WritesFile [] heading
  | lines {ts : List PointerTable} {heading lineEnd text : List Char} (single : '\n' ∉ heading)
      (ended : lineEnd ∈ lineEnds) (rest : Transcript ts text) :
      WritesFile ts (heading ++ lineEnd ++ text)

section Numbers

variable {n : Nat} {c : Char} {text after : List Char}

theorem Writes.read?_eq (h : Writes n text) (small : n < 2 ^ 63) :
    Numeral.read? text = some (n : Int) := by
  obtain ⟨core, magnitude, padded | padded⟩ := h
  · have written := Numeral.Written.bare magnitude small
    exact written.read?_eq (Numeral.trim_eq_of_padded padded (.inl written))
  · have written := Numeral.Written.plus magnitude small
    exact written.read?_eq (Numeral.trim_eq_of_padded padded (.inl written))

theorem Writes.not_mem (h : Writes n text) (hc : Numeral.Foreign c)
    (hblank : Text.isBlank c = false) : c ∉ text := by
  obtain ⟨core, magnitude, padded⟩ := h
  have hcore : c ∉ core := magnitude.not_mem hc.digit hc.mark
  have hplus : c ∉ '+' :: core :=
    List.not_mem_cons_of_ne_of_not_mem (fun he => hc.sign (he ▸ by decide)) hcore
  exact padded.elim (·.not_mem hblank hcore) (·.not_mem hblank hplus)

theorem Writes.append (h : Writes n text) (hafter : after.all Text.isBlank) :
    Writes n (text ++ after) := by
  obtain ⟨core, magnitude, padded⟩ := h
  exact ⟨core, magnitude, padded.imp (·.append hafter) (·.append hafter)⟩

end Numbers

theorem foreign_bar : Numeral.Foreign '|' := ⟨by decide, by decide, by decide⟩

theorem foreign_colon : Numeral.Foreign ':' := ⟨by decide, by decide, by decide⟩

section Lines

variable {t : PointerTable} {ts : List PointerTable} {line lineEnd text : List Char}

theorem WritesTable.append {separator : Char} {after : List Char} (h : WritesTable separator t line)
    (hafter : after.all Text.isBlank) : WritesTable separator t (line ++ after) := by
  obtain ⟨offset, count, hoffset, hcount, rfl⟩ := h
  exact ⟨offset, count ++ after, hoffset, hcount.append hafter, by simp⟩

theorem WritesTable.describes (h : WritesTable '|' t line) (fits : t.Fits) :
    ¬ line.all Text.isBlank ∧ Describes line t := by
  have hsize : Bank.size < 2 ^ 63 := by decide
  have hfits : t.offset + 2 * t.count ≤ Bank.size := fits
  obtain ⟨offset, count, hoffset, hcount, rfl⟩ := h
  have hfields : Text.fields '|' (offset ++ '|' :: count) = [offset, count] := by
    rw [Text.fields_append_cons _ (hoffset.not_mem foreign_bar (by decide)),
      Text.fields_of_not_mem (hcount.not_mem foreign_bar (by decide))]
  constructor
  · intro hblank
    have := List.all_eq_true.1 hblank '|' (by simp)
    contradiction
  · constructor
    · rw [number?, hfields]
      exact hoffset.read?_eq (by omega)
    · rw [number?, hfields]
      exact hcount.read?_eq (by omega)
    · exact fits

theorem fields_line (single : '\n' ∉ line) (ended : lineEnd ∈ lineEnds) (text : List Char) :
    ∃ after, after.all Text.isBlank ∧
      Text.fields '\n' (line ++ lineEnd ++ text) = (line ++ after) :: Text.fields '\n' text := by
  simp only [lineEnds, List.mem_cons, List.not_mem_nil, or_false] at ended
  rcases ended with rfl | rfl
  · refine ⟨[], rfl, ?_⟩
    rw [List.append_assoc, List.append_nil]
    exact Text.fields_append_cons text single
  · have hreturn : '\n' ∉ line ++ ['\r'] := List.not_mem_append single (by decide)
    refine ⟨['\r'], rfl, ?_⟩
    rw [← Text.fields_append_cons text hreturn]
    simp

/-- Of the lines of a transcript those that are not blank describe its tables. -/
theorem Transcript.forall₂_describes (h : Transcript ts text) (fits : ∀ t ∈ ts, t.Fits) :
    List.Forall₂ Describes
      ((Text.fields '\n' text).filter fun line => !line.all Text.isBlank) ts := by
  induction h with
  | nil => exact .nil
  | blank blank single ended rest ih =>
    obtain ⟨after, hafter, hfields⟩ := fields_line single ended _
    rw [hfields, List.filter_cons_of_neg]
    · exact ih fits
    · rw [List.all_append, blank, hafter]
      decide
  | table written single ended rest ih =>
    rw [List.forall_mem_cons] at fits
    obtain ⟨after, hafter, hfields⟩ := fields_line single ended _
    obtain ⟨hblank, describes⟩ := (written.append hafter).describes fits.1
    rw [hfields, List.filter_cons_of_pos (by rwa [Bool.not_eq_true', Bool.eq_false_iff])]
    exact .cons describes (ih fits.2)
  | lastBlank blank single =>
    rw [Text.fields_of_not_mem single, List.filter_cons_of_neg]
    · exact .nil
    · rw [blank]
      decide
  | lastTable written single =>
    obtain ⟨hblank, describes⟩ := written.describes (fits _ List.mem_cons_self)
    rw [Text.fields_of_not_mem single, List.filter_cons_of_pos (by simpa using hblank)]
    exact .cons describes .nil

theorem WritesFile.ofFile_eq {a : Arithmetic} {text : String} (h : WritesFile ts text.toList)
    (fits : ∀ t ∈ ts, t.Fits) : ofFile a text = .ok ts := by
  unfold ofFile
  generalize text.toList = written at h
  cases h with
  | heading single =>
    rw [Text.fields_of_not_mem single]
    rfl
  | lines single ended rest =>
    obtain ⟨after, -, hfields⟩ := fields_line single ended _
    rw [hfields, List.drop_one, List.tail_cons, ofLines_eq_ok_iff]
    exact rest.forall₂_describes fits

theorem WritesTable.ofArgument_eq {a : Arithmetic} {argument : String}
    (h : WritesTable ':' t argument.toList) (hoffset : t.offset < 2 ^ 63)
    (hcount : t.count < 2 ^ 63) : ofArgument a argument = .ok t := by
  obtain ⟨offset, count, offsetWritten, countWritten, hargument⟩ := h
  exact ofArgument_eq_ok_iff.2 ⟨offset, count, hargument,
    offsetWritten.not_mem foreign_colon (by decide), offsetWritten.read?_eq hoffset,
    countWritten.read?_eq hcount⟩

end Lines

/-- The tables of a pointer file are read, however it is written, and so is that of an argument. -/
theorem reads_written (a : Arithmetic) :
    (∀ ts (text : String), (∀ t ∈ ts, t.offset + 2 * t.count ≤ Bank.size) →
      WritesFile ts text.toList → ofFile a text = .ok ts) ∧
    ∀ t (argument : String), t.offset < 2 ^ 63 → t.count < 2 ^ 63 →
      WritesTable ':' t argument.toList → ofArgument a argument = .ok t :=
  ⟨fun _ _ fits h => h.ofFile_eq fits, fun _ _ hoffset hcount h => h.ofArgument_eq hoffset hcount⟩

/-- A file in all notations, with both line ends, a line of blanks and an open last line. -/
def mixedFile : String := "offset|count\r\n0x1F00 |+4\n \t\n$00fF|017"

theorem writesFile_mixedFile : WritesFile [⟨0x1F00, 4⟩, ⟨255, 15⟩] mixedFile.toList := by
  have first : WritesTable '|' ⟨0x1F00, 4⟩ "0x1F00 |+4".toList :=
    ⟨"0x1F00 ".toList, "+4".toList,
      ⟨"0x1F00".toList, .hexadecimal (by decide : ['0', 'x'] ∈ Numeral.hexLeads)
        ((Numeral.natural?_eq_some_iff (by decide)).1 rfl), .inl ⟨[], [' '], rfl, rfl, rfl⟩⟩,
      ⟨['4'], .decimal (.single (by decide)) (by decide), .inr (Text.padded_self _)⟩, rfl⟩
  have second : WritesTable '|' ⟨255, 15⟩ "$00fF|017".toList :=
    ⟨"$00fF".toList, "017".toList,
      ⟨"$00fF".toList, .hexadecimal (by decide : ['$'] ∈ Numeral.hexLeads)
        ((Numeral.natural?_eq_some_iff (by decide)).1 rfl), .inl (Text.padded_self _)⟩,
      ⟨"017".toList, .octal ((Numeral.natural?_eq_some_iff (by decide)).1 rfl),
        .inl (Text.padded_self _)⟩, rfl⟩
  have rest : Transcript [⟨0x1F00, 4⟩, ⟨255, 15⟩] "0x1F00 |+4\n \t\n$00fF|017".toList :=
    .table first (by decide) (by decide : ['\n'] ∈ lineEnds)
      (.blank (rfl : [' ', '\t'].all Text.isBlank) (by decide) (by decide : ['\n'] ∈ lineEnds)
        (.lastTable second (by decide)))
  exact .lines (by decide : '\n' ∉ "offset|count".toList) (by decide : ['\r', '\n'] ∈ lineEnds) rest

theorem writesTable_mixedArgument :
    WritesTable ':' ⟨0x3FFF, 2 ^ 62⟩ " +#3fff:0x4000000000000000\n".toList :=
  ⟨" +#3fff".toList, "0x4000000000000000\n".toList,
    ⟨"#3fff".toList, .hexadecimal (by decide : ['#'] ∈ Numeral.hexLeads)
      ((Numeral.natural?_eq_some_iff (by decide)).1 rfl), .inr ⟨[' '], [], rfl, rfl, rfl⟩⟩,
    ⟨"0x4000000000000000".toList, .hexadecimal (by decide : ['0', 'x'] ∈ Numeral.hexLeads)
      ((Numeral.natural?_eq_some_iff (by decide)).1 rfl), .inl ⟨[], ['\n'], rfl, rfl, rfl⟩⟩, rfl⟩

theorem ofFile_mixedFile :
    WritesFile [⟨0x1F00, 4⟩, ⟨255, 15⟩] mixedFile.toList ∧
      ofFile .checked mixedFile = .ok [⟨0x1F00, 4⟩, ⟨255, 15⟩] ∧
      WritesTable ':' ⟨0x3FFF, 2 ^ 62⟩ " +#3fff:0x4000000000000000\n".toList ∧
      ofArgument .checked " +#3fff:0x4000000000000000\n" = .ok ⟨0x3FFF, 2 ^ 62⟩ :=
  ⟨writesFile_mixedFile, (reads_written .checked).1 _ _ (by decide) writesFile_mixedFile,
    writesTable_mixedArgument,
    (reads_written .checked).2 _ _ (by decide) (by decide) writesTable_mixedArgument⟩

end BankTrace.PointerTable
