import BankTrace.Proofs.Encoding
import BankTrace.Proofs.Items

namespace BankTrace.Assembly

def Item.throughLabel (s : Survey Bank.size) (offset : Nat) : Item → Bool
  | .pointer word => (pointerPlace s word).isLabel
  | .instruction op argument _ => (operandOf s offset op argument).throughLabel
  | _ => false

def Item.reread (bank : Bank) (s : Survey Bank.size) (offset : Nat) (item : Item) : List UInt8 :=
  (List.range item.size).map fun k =>
    let byte := (bank.byte? (offset + k)).getD 0
    if item.throughLabel s offset && k + 1 == item.size then byte ||| 0xC0 else byte

theorem Item.length_reread (bank : Bank) (s : Survey Bank.size) (offset : Nat) (item : Item) :
    (item.reread bank s offset).length = item.size := by
  rw [reread, List.length_map, List.length_range]

def rereadAll (bank : Bank) (s : Survey Bank.size) (items : List (Nat × Item)) : List UInt8 :=
  items.flatMap fun (offset, item) => item.reread bank s offset

/-- The statements put `bytes` at `location`, whatever follows them. -/
def Assembles (location : Int) (statements : List Statement) (bytes : List UInt8) : Prop :=
  ∀ rest, assembleFrom? location (statements ++ rest) =
    (assembleFrom? (location + bytes.length) rest).map (bytes ++ ·)

namespace Assembles

variable {location : Int} {front back : List Statement} {first more : List UInt8}

theorem nil (location : Int) : Assembles location [] [] := by
  intro rest
  simp

theorem append (hfront : Assembles location front first)
    (hback : Assembles (location + first.length) back more) :
    Assembles location (front ++ back) (first ++ more) := by
  intro rest
  rw [List.append_assoc, hfront, hback, List.length_append, Nat.cast_add, Int.add_assoc,
    Option.map_map]
  congr 1
  funext bytes
  exact (List.append_assoc first more bytes).symm

theorem single {statement : Statement} (h : statement.assemble? location = some first) :
    Assembles location [statement] first := by
  intro rest
  cases statement with
  | finish => exact absurd h (by simp [Statement.assemble?])
  | _ =>
    rw [List.singleton_append, assembleFrom?, h]
    · simp only [Option.bind_eq_bind, Option.bind_some]
      cases assembleFrom? (location + first.length) rest <;> rfl
    · simp

theorem cons {statement : Statement} (h : statement.assemble? location = some first)
    (hback : Assembles (location + first.length) back more) :
    Assembles location (statement :: back) (first ++ more) :=
  (single h).append hback

theorem skip (hback : Assembles location back more) :
    Assembles location (.nothing :: back) more := by
  have hnothing : Assembles location [.nothing] [] := single rfl
  have h := hnothing.append (by simpa using hback)
  rwa [List.nil_append] at h

end Assembles

section Stands

variable {bank : Bank} {s : Survey Bank.size} {offset : Nat}

theorem throughLabel_operandOf {op : Opcode} {argument : Nat}
    (h : (operandOf s offset op argument).throughLabel) : op.mode.length = 3 := by
  unfold operandOf at h
  cases hmode : op.mode with
  | absolute | absoluteX | absoluteY | indirect => rfl
  | relative =>
    simp only [hmode, relativeOperand] at h
    split_ifs at h <;> contradiction
  | _ =>
    rw [hmode] at h
    contradiction

theorem assemble?_pointer {word : Nat} (h : bank.word? offset = some word) (location : Int) :
    (Line.pointer (pointerPlace s word)).statement.assemble? location =
      some ((Item.pointer word).reread bank s offset) := by
  obtain ⟨low, high, hlow, hhigh, rfl⟩ := Bank.byte?_of_word? h
  have hword : wordOf? (pointerPlace s (low.toNat + 0x100 * high.toNat)).value = some [low,
      if (pointerPlace s (low.toNat + 0x100 * high.toNat)).isLabel then high ||| 0xC0
      else high] := by
    rw [value_pointerPlace]
    split_ifs
    · exact wordOf?_addressOf low high
    · exact wordOf?_word low high
  rw [Line.statement, Statement.assemble?, List.mapM_cons, hword]
  simp [Item.reread, Item.size, Item.throughLabel, List.range_succ, hlow, hhigh]

theorem assemble?_values (location : Int) (bytes : List UInt8) :
    (Line.values bytes).statement.assemble? location = some bytes := by
  rw [Line.statement, Statement.assemble?, mapM_map_eq_some fun byte _ => byteOf?_toNat byte,
    Option.map_some, ← List.flatMap_def, List.flatMap_singleton']

theorem argument_operandOf {op : Opcode} {argument : Nat} (h : op.mode.length = 1) :
    operandOf s offset op argument = .none := by
  unfold operandOf
  cases hmode : op.mode with
  | undefined | implied => rfl
  | _ => simp [hmode, Mode.length] at h

theorem assemble?_instruction {op : Opcode} {argument : Nat} (hpos : 0 < op.length)
    (hopcode : bank.opcode? offset = some op)
    (hargument : argument? bank offset op.length = some argument) :
    (Line.instruction op.mnemonic (operandOf s offset op argument)).statement.assemble?
        (Bank.origin + offset) =
      some ((Item.instruction op argument hpos).reread bank s offset) := by
  obtain ⟨byte, hbyte, rfl⟩ := Option.map_eq_some_iff.1 hopcode
  have hdistinct := Opcode.ofByte_distinct hpos.ne'
  have hle := (Opcode.ofByte_regular byte).length_le
  generalize Opcode.ofByte byte = op at *
  rw [Line.statement, Statement.assemble?]
  obtain hlength | hlength | hlength : op.length = 1 ∨ op.length = 2 ∨ op.length = 3 := by omega
  · have hmode : op.mode.length = 1 := hdistinct.length ▸ hlength
    rw [argument_operandOf hmode, Operand.argument, encode?_none hdistinct hmode]
    simp [Item.reread, Item.size, Item.throughLabel, argument_operandOf hmode,
      Operand.throughLabel, List.range_succ, hlength, hbyte]
  · have hmode : op.mode.length = 2 := hdistinct.length ▸ hlength
    rw [hlength, argument?, Option.map_eq_some_iff] at hargument
    obtain ⟨operand, hoperand, rfl⟩ := hargument
    have hthrough : (operandOf s offset op operand.toNat).throughLabel = false := by
      rw [Bool.eq_false_iff]
      intro h
      have hthree := throughLabel_operandOf h
      omega
    rw [encode?_short hdistinct hmode]
    simp [Item.reread, Item.size, Item.throughLabel, hthrough, List.range_succ, hlength, hbyte,
      hoperand]
  · have hmode : op.mode.length = 3 := hdistinct.length ▸ hlength
    have hword : bank.word? (offset + 1) = some argument := by
      rw [hlength] at hargument
      exact hargument
    obtain ⟨low, high, hlow, hhigh, rfl⟩ := Bank.byte?_of_word? hword
    rw [encode?_long hdistinct hmode]
    simp [Item.reread, Item.size, Item.throughLabel, List.range_succ, hlength, hbyte, hlow, hhigh]

end Stands

theorem assembles_dataLines (location : Int) (bytes : List UInt8) :
    Assembles location ((dataLines bytes).map Line.statement) bytes := by
  fun_induction dataLines bytes generalizing location with
  | case1 bytes rest hempty => exact .single (assemble?_values location bytes)
  | case2 bytes rest hmore ih =>
    rw [List.map_cons]
    have h := Assembles.cons (assemble?_values location (bytes.take valuesPerLine)) (ih _)
    rwa [List.take_append_drop] at h

theorem spanMap_append {α β : Type} (f : α → Option β) (l : List α) :
    ∃ front, l = front ++ (spanMap f l).2 ∧ front.map f = (spanMap f l).1.map some := by
  induction l with
  | nil => exact ⟨[], rfl, rfl⟩
  | cons a l ih =>
    cases ha : f a with
    | none => exact ⟨[], by simp [spanMap, ha], by simp [spanMap, ha]⟩
    | some b =>
      obtain ⟨front, hfront, hmap⟩ := ih
      refine ⟨a :: front, ?_, ?_⟩
      · simpa [spanMap, ha] using hfront
      · simpa [spanMap, ha] using hmap

section Layout

variable {bank : Bank} {s : Survey Bank.size} {offset : Nat} {front back : List (Nat × Item)}

theorem rereadAll_cons (item : Item) (rest : List (Nat × Item)) :
    rereadAll bank s ((offset, item) :: rest) =
      item.reread bank s offset ++ rereadAll bank s rest :=
  List.flatMap_cons

theorem rereadAll_append :
    rereadAll bank s (front ++ back) = rereadAll bank s front ++ rereadAll bank s back :=
  List.flatMap_append

theorem assembles_pointers {words : List Nat} (h : Cut bank s offset (front ++ back))
    (hwords : front.map pointerWord? = words.map some) (location : Int) :
    Assembles location ((words.map fun word => Line.pointer (pointerPlace s word)).map Line.statement)
        (rereadAll bank s front) ∧
      Cut bank s (offset + (rereadAll bank s front).length) back := by
  induction front generalizing offset words location with
  | nil =>
    obtain rfl : words = [] := by simpa using hwords.symm
    exact ⟨.nil location, h⟩
  | cons first front ih =>
    cases words with
    | nil => simp at hwords
    | cons word words =>
      rw [List.map_cons, List.map_cons, List.cons.injEq] at hwords
      cases h with
      | @item _ item _ here more =>
        cases here with
        | @pointer found pointer word_eq =>
          obtain rfl : found = word := Option.some.inj hwords.1
          have hhere := assemble?_pointer (s := s) word_eq location
          have hlength := Item.length_reread bank s offset (.pointer found)
          obtain ⟨hfront, hback⟩ := ih more hwords.2
            (location + ((Item.pointer found).reread bank s offset).length)
          rw [rereadAll_cons, List.length_append, hlength, ← Nat.add_assoc]
          exact ⟨.cons hhere hfront, hback⟩
        | _ => simp [pointerWord?] at hwords

theorem reread_of_byte? {byte : UInt8} {item : Item} (hbyte : bank.byte? offset = some byte)
    (hsize : item.size = 1) (hthrough : item.throughLabel s offset = false) :
    item.reread bank s offset = [byte] := by
  simp [Item.reread, hsize, hthrough, List.range_succ, hbyte]

theorem rereadAll_of_plain {bytes : List UInt8} (h : Cut bank s offset (front ++ back))
    (hbytes : front.map (plainByte? s) = bytes.map some) :
    rereadAll bank s front = bytes ∧ Cut bank s (offset + bytes.length) back := by
  induction front generalizing offset bytes with
  | nil =>
    obtain rfl : bytes = [] := by simpa using hbytes.symm
    exact ⟨rfl, h⟩
  | cons first front ih =>
    cases bytes with
    | nil => simp at hbytes
    | cons byte bytes =>
      rw [List.map_cons, List.map_cons, List.cons.injEq] at hbytes
      cases h with
      | @item _ item _ here more =>
        cases here with
        | @value found noPointer noStart noCode byte_eq =>
          obtain ⟨-, rfl⟩ : s.isPlain offset = true ∧ found = byte := by
            simpa [plainByte?] using hbytes.1
          obtain ⟨hfront, hback⟩ := ih more hbytes.2
          rw [rereadAll_cons, reread_of_byte? byte_eq rfl rfl, hfront, List.length_cons,
            Nat.add_comm bytes.length, ← Nat.add_assoc]
          exact ⟨rfl, hback⟩
        | _ => simp [plainByte?] at hbytes

theorem Assembles.labelLines {location : Int} {more : List Statement} {bytes : List UInt8}
    (h : Assembles location more bytes) (s : Survey Bank.size) (offset : Nat) :
    Assembles location ((labelLines s offset).map Line.statement ++ more) bytes := by
  unfold Assembly.labelLines
  split_ifs
  · exact h.skip
  · exact h

/-- The lines of all items give their bytes. -/
theorem assembles_layout {items : List (Nat × Item)} (h : Cut bank s offset items) :
    Assembles (Bank.origin + offset) ((layout s items).map Line.statement)
      (rereadAll bank s items) := by
  fun_induction layout s items generalizing offset with
  | case1 => exact .nil _
  | case2 start rest word run hle =>
    rename_i ih
    obtain ⟨front, hrest, hwords⟩ := spanMap_append pointerWord? rest
    have hcut : Cut bank s offset (((start, .pointer word) :: front) ++ run.2) := by
      rwa [List.cons_append, ← hrest]
    have hall : ((start, Item.pointer word) :: front).map pointerWord? =
        (word :: run.1).map some := by
      rw [List.map_cons, hwords]
      rfl
    obtain ⟨hfront, hback⟩ := assembles_pointers hcut hall (Bank.origin + offset)
    have hmore := (ih hback).skip
    rw [Nat.cast_add, ← Int.add_assoc] at hmore
    have hboth := (hfront.append hmore).skip
    rw [← rereadAll_append, List.cons_append, ← hrest] at hboth
    simpa [Line.statement] using hboth
  | case3 start rest op argument hpos ih =>
    cases h with
    | item here more =>
      cases here with
      | instruction length_pos noPointer isStart opcode fits argument_eq =>
        have hhere := assemble?_instruction (s := s) hpos opcode argument_eq
        have hlength := Item.length_reread bank s start (.instruction op argument hpos)
        have hmore := ih more
        rw [Nat.cast_add, ← Int.add_assoc, ← hlength] at hmore
        rw [rereadAll_cons]
        by_cases hfinal : op.control.isFinal
        · have hline := (Assembles.cons hhere hmore.skip).labelLines s start
          simpa [hfinal, Line.statement] using hline
        · have hline := (Assembles.cons hhere hmore).labelLines s start
          simpa [hfinal, Line.statement] using hline
  | case4 start rest byte ih =>
    cases h with
    | item here more =>
      cases here with
      | orphan noPointer code byte_eq =>
        have hmore := ih more
        rw [Nat.cast_add, ← Int.add_assoc] at hmore
        have hbyte := assemble?_values (Bank.origin + start) [byte]
        have hline := (Assembles.cons hbyte hmore).labelLines s start
        rw [rereadAll_cons, reread_of_byte? byte_eq rfl rfl]
        simpa using hline
  | case5 start rest byte run hle =>
    rename_i ih
    obtain ⟨front, hrest, hbytes⟩ := spanMap_append (plainByte? s) rest
    cases h with
    | item here more =>
      cases here with
      | value noPointer noStart noCode byte_eq =>
        rw [hrest] at more
        obtain ⟨hfront, hback⟩ := rereadAll_of_plain more hbytes
        have hdata := assembles_dataLines (Bank.origin + start) (byte :: run.1)
        have hmore := (ih hback).skip
        have hlocation : (Bank.origin + start + (byte :: run.1).length : Int) =
            Bank.origin + ((start + (Item.value byte).size + run.1.length : Nat) : Int) := by
          rw [List.length_cons, Item.size]
          push_cast
          ring
        rw [← hlocation] at hmore
        have hline := (hdata.append hmore).labelLines s start
        rw [rereadAll_cons, reread_of_byte? byte_eq rfl rfl, hrest, rereadAll_append, hfront]
        simpa [Line.statement] using hline

end Layout

end BankTrace.Assembly
