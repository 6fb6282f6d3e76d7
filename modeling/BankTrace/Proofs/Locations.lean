import BankTrace.Proofs.Definitions

namespace BankTrace.Assembly

def lineSize (offset : Nat) (line : List Char) : Nat :=
  (((readLine? line).bind (Statement.assemble? (Bank.origin + offset))).getD []).length

def locationAfter (offset : Nat) : List (List Char) → Nat
  | [] => offset
  | line :: rest => locationAfter (offset + lineSize offset line) rest

/-- Lines from `offset` on, each with the offset at which it stands. -/
def located (offset : Nat) : List (List Char) → List (Nat × List Char)
  | [] => []
  | line :: rest => (offset, line) :: located (offset + lineSize offset line) rest

section Located

variable {offset start : Nat} {front back lines : List (List Char)} {line : List Char}

theorem located_append :
    located offset (front ++ back) =
      located offset front ++ located (locationAfter offset front) back := by
  induction front generalizing offset with
  | nil => rfl
  | cons line front ih => exact congrArg ((offset, line) :: ·) ih

theorem le_of_mem_located (h : (start, line) ∈ located offset lines) : offset ≤ start := by
  induction lines generalizing offset with
  | nil => exact absurd h List.not_mem_nil
  | cons first lines ih =>
    rcases List.mem_cons.1 h with heq | h
    · exact (congrArg Prod.fst heq).ge
    · exact (Nat.le_add_right _ _).trans (ih h)

theorem pairwise_located (offset : Nat) (lines : List (List Char)) :
    (located offset lines).Pairwise fun a b => a.1 + lineSize a.1 a.2 ≤ b.1 := by
  induction lines generalizing offset with
  | nil => exact .nil
  | cons line lines ih => exact .cons (fun _ hmem => le_of_mem_located hmem) (ih _)

theorem disjoint_located {a b : Nat × List Char} (ha : a ∈ located offset lines)
    (hb : b ∈ located offset lines) (hne : a ≠ b) :
    a.1 + lineSize a.1 a.2 ≤ b.1 ∨ b.1 + lineSize b.1 b.2 ≤ a.1 := by
  let apart : Nat × List Char → Nat × List Char → Prop := fun a b =>
    a.1 + lineSize a.1 a.2 ≤ b.1 ∨ b.1 + lineSize b.1 b.2 ≤ a.1
  have : Std.Symm apart := ⟨fun _ _ => Or.symm⟩
  have hpairwise : (located offset lines).Pairwise apart :=
    (pairwise_located offset lines).imp .inl
  exact hpairwise.forall ha hb hne

end Located

/-- Among lines with their offsets, one at `start` shows the item; of data it may show more. -/
def Item.Shown (s : Survey Bank.size) (brackets : Brackets) (places : List (Nat × List Char))
    (start : Nat) : Item → Prop
  | pointer word => (start, (Line.pointer (pointerPlace s word)).text brackets) ∈ places
  | instruction op argument _ =>
    (start, (Line.instruction op.mnemonic (operandOf s start op argument)).text brackets) ∈ places
  | orphan byte => (start, (Line.values [byte]).text brackets) ∈ places
  | value byte => ∃ first bytes, (first, (Line.values bytes).text brackets) ∈ places ∧ first ≤ start ∧
      bytes[start - first]? = some byte

theorem Item.Shown.mono {s : Survey Bank.size} {brackets : Brackets} {start : Nat} {item : Item}
    {places places' : List (Nat × List Char)} (h : item.Shown s brackets places start)
    (hsub : places ⊆ places') : item.Shown s brackets places' start := by
  cases item with
  | value byte =>
    obtain ⟨first, bytes, hmem, hrest⟩ := h
    exact ⟨first, bytes, hsub hmem, hrest⟩
  | _ => exact hsub h

section Layout

variable {bank : Bank} {s : Survey Bank.size} {offset : Nat} (brackets : Brackets)

theorem lineSize_text (line : Line) (h : line.Legible) {bytes : List UInt8}
    (hassemble : line.statement.assemble? (Bank.origin + offset) = some bytes) :
    lineSize offset (line.text brackets) = bytes.length := by
  rw [lineSize, line.readLine?_text brackets h, Option.bind_some, hassemble]
  rfl

theorem lineSize_blank : lineSize offset (Line.blank.text brackets) = 0 :=
  lineSize_text brackets .blank trivial rfl

theorem lineSize_values {bytes : List UInt8} (h : bytes ≠ []) :
    lineSize offset ((Line.values bytes).text brackets) = bytes.length :=
  lineSize_text brackets (.values bytes) h (assemble?_values _ bytes)

theorem lineSize_pointer {word : Nat} (h : bank.word? offset = some word) :
    lineSize offset ((Line.pointer (pointerPlace s word)).text brackets) = 2 := by
  rw [lineSize_text brackets (.pointer _) trivial (assemble?_pointer h _), Item.length_reread]
  rfl

theorem lineSize_instruction {op : Opcode} {argument : Nat} (hpos : 0 < op.length)
    (hopcode : bank.opcode? offset = some op)
    (hargument : argument? bank offset op.length = some argument) :
    lineSize offset ((Line.instruction op.mnemonic (operandOf s offset op argument)).text brackets) =
      op.length := by
  have hlegible : (Line.instruction op.mnemonic (operandOf s offset op argument)).Legible := by
    obtain ⟨byte, -, rfl⟩ := Option.map_eq_some_iff.1 hopcode
    exact (Opcode.ofByte_distinct hpos.ne').mnemonic
  rw [lineSize_text brackets _ hlegible (assemble?_instruction hpos hopcode hargument),
    Item.length_reread]
  rfl

theorem located_blank (offset : Nat) (lines : List Line) :
    located offset ((.blank :: lines).map (Line.text brackets)) =
      (offset, Line.blank.text brackets) :: located offset (lines.map (Line.text brackets)) := by
  rw [List.map_cons, located, lineSize_blank, Nat.add_zero]

theorem located_subset_labelLines (s : Survey Bank.size) (start offset : Nat) (lines : List Line) :
    located offset (lines.map (Line.text brackets)) ⊆
      located offset ((labelLines s start ++ lines).map (Line.text brackets)) := by
  unfold labelLines
  split_ifs
  · have hsize : lineSize offset ((Line.label start).text brackets) = 0 :=
      lineSize_text brackets (.label start) trivial rfl
    rw [List.singleton_append, List.map_cons, located, hsize]
    exact List.subset_cons_self _ _
  · exact List.Subset.refl _

theorem located_pointers {front back : List (Nat × Item)} {words : List Nat}
    (h : Cut bank s offset (front ++ back)) (hwords : front.map pointerWord? = words.map some) :
    Cut bank s (locationAfter offset
        (words.map fun word => (Line.pointer (pointerPlace s word)).text brackets)) back ∧
      ∀ entry ∈ front, entry.2.Shown s brackets (located offset
        (words.map fun word => (Line.pointer (pointerPlace s word)).text brackets)) entry.1 := by
  induction front generalizing offset words with
  | nil =>
    obtain rfl : words = [] := by simpa using hwords.symm
    exact ⟨h, List.forall_mem_nil _⟩
  | cons first front ih =>
    cases words with
    | nil => simp at hwords
    | cons word words =>
      rw [List.map_cons, List.map_cons, List.cons.injEq] at hwords
      cases h with
      | @item _ item _ here more =>
        cases here with
        | @pointer found pointer word_eq =>
          obtain rfl : found = word := Option.some.inj hwords.1
          obtain ⟨hback, hfront⟩ := ih more hwords.2
          have hsize := lineSize_pointer (s := s) brackets word_eq
          rw [List.map_cons, locationAfter, located, hsize, List.forall_mem_cons]
          exact ⟨hback, List.mem_cons_self, fun entry hmem =>
            (hfront entry hmem).mono (List.subset_cons_self _ _)⟩
        | _ => simp [pointerWord?] at hwords

theorem located_dataLines (offset : Nat) {bytes : List UInt8} (h : bytes ≠ []) :
    locationAfter offset ((dataLines bytes).map (Line.text brackets)) = offset + bytes.length ∧
      ∀ k byte, bytes[k]? = some byte → (Item.value byte).Shown s brackets
        (located offset ((dataLines bytes).map (Line.text brackets))) (offset + k) := by
  fun_induction dataLines bytes generalizing offset with
  | case1 bytes rest =>
    rename_i hempty
    rw [List.map_singleton, locationAfter, located, lineSize_values brackets h]
    refine ⟨rfl, fun k byte hbyte => ⟨offset, bytes, List.mem_cons_self, Nat.le_add_right _ _, ?_⟩⟩
    rwa [Nat.add_sub_cancel_left]
  | case2 bytes rest hmore =>
    rename_i ih
    have htake : bytes.take valuesPerLine ≠ [] := by
      simpa [valuesPerLine] using h
    have hlong : valuesPerLine < bytes.length := by
      simpa [rest] using hmore
    have hlength : (bytes.take valuesPerLine).length = valuesPerLine :=
      List.length_take_of_le hlong.le
    obtain ⟨hafter, hshown⟩ := ih (offset + valuesPerLine) (by simpa using hmore)
    rw [List.map_cons, locationAfter, located, lineSize_values brackets htake, hlength]
    refine ⟨?_, fun k byte hbyte => ?_⟩
    · rw [hafter, List.length_drop]
      omega
    · rcases Nat.lt_or_ge k valuesPerLine with hlt | hge
      · refine ⟨offset, bytes.take valuesPerLine, List.mem_cons_self, Nat.le_add_right _ _, ?_⟩
        rwa [Nat.add_sub_cancel_left, List.getElem?_take_of_lt hlt]
      · obtain ⟨j, rfl⟩ := Nat.exists_eq_add_of_le hge
        rw [← Nat.add_assoc]
        exact (hshown j byte (by rwa [List.getElem?_drop])).mono (List.subset_cons_self _ _)

theorem value_of_plain {front back : List (Nat × Item)} {bytes : List UInt8}
    (h : Cut bank s offset (front ++ back)) (hbytes : front.map (plainByte? s) = bytes.map some) :
    ∀ entry ∈ front, ∃ k byte, entry = (offset + k, .value byte) ∧ bytes[k]? = some byte := by
  induction front generalizing offset bytes with
  | nil => exact List.forall_mem_nil _
  | cons first front ih =>
    cases bytes with
    | nil => simp at hbytes
    | cons byte bytes =>
      rw [List.map_cons, List.map_cons, List.cons.injEq] at hbytes
      cases h with
      | @item _ item _ here more =>
        cases here with
        | @value found noPointer noStart noCode byte_eq =>
          obtain ⟨-, rfl⟩ : s.isPlain offset = true ∧ found = byte := by
            simpa [plainByte?] using hbytes.1
          rw [List.forall_mem_cons]
          refine ⟨⟨0, found, rfl, rfl⟩, fun entry hmem => ?_⟩
          obtain ⟨k, other, heq, hget⟩ := ih more hbytes.2 entry hmem
          refine ⟨k + 1, other, heq.trans ?_, hget⟩
          rw [Item.size, Nat.add_assoc, Nat.add_comm 1]
        | _ => simp [plainByte?] at hbytes

/-- In a layout a line stands where the item begins that it shows. -/
theorem located_layout {items : List (Nat × Item)} (h : Cut bank s offset items) :
    ∀ entry ∈ items, entry.2.Shown s brackets
      (located offset ((layout s items).map (Line.text brackets))) entry.1 := by
  fun_induction layout s items generalizing offset with
  | case1 => exact List.forall_mem_nil _
  | case2 start rest word run hle =>
    rename_i ih
    obtain ⟨front, hrest, hwords⟩ := spanMap_append pointerWord? rest
    have hcut : Cut bank s offset (((start, .pointer word) :: front) ++ run.2) := by
      rwa [List.cons_append, ← hrest]
    have hall : ((start, Item.pointer word) :: front).map pointerWord? =
        (word :: run.1).map some := by
      rw [List.map_cons, hwords]
      rfl
    obtain ⟨hback, hfront⟩ := located_pointers brackets hcut hall
    rw [List.cons_append, located_blank, List.map_append, located_append,
      located_blank, hrest, ← List.cons_append, List.forall_mem_append, List.map_map]
    refine ⟨fun entry hmem => (hfront entry hmem).mono ?_, fun entry hmem =>
      (ih hback entry hmem).mono ?_⟩
    · exact List.subset_cons_of_subset _ (List.subset_append_left _ _)
    · exact List.subset_cons_of_subset _
        (List.subset_append_of_subset_right _ (List.subset_cons_self _ _))
  | case3 start rest op argument hpos ih =>
    cases h with
    | item here more =>
      cases here with
      | instruction length_pos noPointer isStart opcode fits argument_eq =>
        have hsize := lineSize_instruction (s := s) brackets hpos opcode argument_eq
        have hlabel := located_subset_labelLines brackets s start start
          (.instruction op.mnemonic (operandOf s start op argument) ::
            (if op.control.isFinal then [.blank] else []) ++ layout s rest)
        rw [List.append_assoc]
        refine fun entry hmem => Item.Shown.mono ?_ hlabel
        rw [List.cons_append, List.map_cons, located, hsize]
        rcases List.mem_cons.1 hmem with rfl | hmem
        · exact List.mem_cons_self
        · refine (ih more entry hmem).mono (List.subset_cons_of_subset _ ?_)
          split_ifs
          · rw [List.singleton_append, located_blank]
            exact List.subset_cons_self _ _
          · exact List.Subset.refl _
  | case4 start rest byte ih =>
    cases h with
    | item here more =>
      have hsize : lineSize start ((Line.values [byte]).text brackets) = 1 :=
        lineSize_values brackets (List.cons_ne_nil byte [])
      have hlabel := located_subset_labelLines brackets s start start
        (.values [byte] :: layout s rest)
      refine fun entry hmem => Item.Shown.mono ?_ hlabel
      rw [List.map_cons, located, hsize]
      rcases List.mem_cons.1 hmem with rfl | hmem
      · exact List.mem_cons_self
      · exact (ih more entry hmem).mono (List.subset_cons_self _ _)
  | case5 start rest byte run hle =>
    rename_i ih
    obtain ⟨front, hrest, hbytes⟩ := spanMap_append (plainByte? s) rest
    cases h with
    | item here more =>
      rw [hrest] at more
      obtain ⟨-, hback⟩ := rereadAll_of_plain more hbytes
      obtain ⟨hafter, hdata⟩ := located_dataLines (s := s) brackets start (List.cons_ne_nil byte run.1)
      have hlabel := located_subset_labelLines brackets s start start
        (dataLines (byte :: run.1) ++ .blank :: layout s run.2)
      rw [List.append_assoc]
      refine fun entry hmem => Item.Shown.mono ?_ hlabel
      rw [List.map_append, located_append, hafter, located_blank]
      rw [hrest, List.mem_cons, List.mem_append] at hmem
      rcases hmem with rfl | hmem | hmem
      · exact (hdata 0 byte rfl).mono (List.subset_append_left _ _)
      · obtain ⟨k, value, rfl, hvalue⟩ := value_of_plain more hbytes entry hmem
        rw [Item.size, Nat.add_assoc, Nat.add_comm 1]
        exact (hdata (k + 1) value hvalue).mono (List.subset_append_left _ _)
      · rw [List.length_cons, Nat.add_comm run.1.length, ← Nat.add_assoc]
        exact (ih hback entry hmem).mono
          (List.subset_append_of_subset_right _ (List.subset_cons_self _ _))

end Layout

end BankTrace.Assembly
