import BankTrace.Proofs.Reassembly

namespace BankTrace

namespace Assembly

variable {bank : Bank} {s : Survey Bank.size} {offset : Nat} {items : List (Nat × Item)}

/-- The byte at `i` is the high byte of a word that is printed through a label. -/
def isLabelHigh (s : Survey Bank.size) (items : List (Nat × Item)) (i : Nat) : Bool :=
  items.any fun (offset, item) => item.throughLabel s offset && i + 1 == offset + item.size

theorem isLabelHigh_cons (item : Item) (rest : List (Nat × Item)) (i : Nat) :
    isLabelHigh s ((offset, item) :: rest) i =
      ((item.throughLabel s offset && i + 1 == offset + item.size) || isLabelHigh s rest i) :=
  List.any_cons

theorem Cut.le_of_mem (h : Cut bank s offset items) {start : Nat} {item : Item}
    (hmem : (start, item) ∈ items) : offset ≤ start := by
  induction h with
  | done => exact absurd hmem List.not_mem_nil
  | item here more ih =>
    rcases List.mem_cons.1 hmem with heq | hmem
    · exact (congrArg Prod.fst heq).ge
    · exact (Nat.le_add_right _ _).trans (ih hmem)

theorem Cut.length_rereadAll (h : Cut bank s offset items) :
    offset + (rereadAll bank s items).length = Bank.size := by
  induction h with
  | done => rfl
  | @item offset item rest here more ih =>
    rw [rereadAll_cons, List.length_append, Item.length_reread, ← Nat.add_assoc]
    exact ih

/-- Every byte is read back in its place. -/
theorem Cut.getElem?_rereadAll (h : Cut bank s offset items) {i : Nat} {byte : UInt8}
    (hle : offset ≤ i) (hbyte : bank.byte? i = some byte) :
    (rereadAll bank s items)[i - offset]? =
      some (if isLabelHigh s items i then byte ||| 0xC0 else byte) := by
  induction h with
  | done => exact absurd (Bank.lt_of_byte? hbyte) (by omega)
  | @item offset item rest here more ih =>
    have hlength := Item.length_reread bank s offset item
    rw [rereadAll_cons]
    rcases Nat.lt_or_ge i (offset + item.size) with hlt | hge
    · have hrest : isLabelHigh s rest i = false := by
        rw [isLabelHigh, List.any_eq_false]
        rintro ⟨start, other⟩ hmem hhigh
        have hstart := more.le_of_mem hmem
        have hpos := other.size_pos
        simp only [Bool.and_eq_true, beq_iff_eq] at hhigh
        omega
      have hlast : (i - offset + 1 == item.size) = (i + 1 == offset + item.size) := by
        rw [Bool.eq_iff_iff, beq_iff_eq, beq_iff_eq]
        omega
      have hall : isLabelHigh s ((offset, item) :: rest) i =
          (item.throughLabel s offset && i + 1 == offset + item.size) := by
        rw [isLabelHigh_cons, hrest, Bool.or_false]
      rw [List.getElem?_append_left (by omega), Item.reread, List.getElem?_map,
        List.getElem?_range (by omega), Option.map_some, Nat.add_sub_cancel' hle, hbyte, hall,
        hlast]
      rfl
    · have hall : isLabelHigh s ((offset, item) :: rest) i = isLabelHigh s rest i := by
        have hne : (i + 1 == offset + item.size) = false := by
          rw [beq_eq_false_iff_ne]
          omega
        rw [isLabelHigh_cons, hne, Bool.and_false, Bool.false_or]
      rw [List.getElem?_append_right (by omega), hlength, Nat.sub_sub, hall]
      exact ih hge

theorem legible_dataLines {bytes : List UInt8} (h : bytes ≠ []) :
    ∀ line ∈ dataLines bytes, line.Legible := by
  fun_induction dataLines bytes with
  | case1 bytes rest hempty =>
    intro line hmem
    rw [List.mem_singleton.1 hmem]
    exact h
  | case2 bytes rest hmore ih =>
    intro line hmem
    rcases List.mem_cons.1 hmem with rfl | hmem
    · have htake : bytes.take valuesPerLine ≠ [] := by
        simpa [valuesPerLine] using h
      exact htake
    · exact ih (by simpa using hmore) line hmem

theorem legible_labelLines (s : Survey Bank.size) (offset : Nat) :
    ∀ line ∈ labelLines s offset, line.Legible := by
  intro line hmem
  unfold labelLines at hmem
  split_ifs at hmem
  · rw [List.mem_singleton.1 hmem]
    trivial
  · exact absurd hmem List.not_mem_nil

theorem legible_layout (h : Cut bank s offset items) :
    ∀ line ∈ layout s items, line.Legible := by
  fun_induction layout s items generalizing offset with
  | case1 => simp
  | case2 start rest word run hle =>
    rename_i ih
    obtain ⟨front, hrest, hwords⟩ := spanMap_append pointerWord? rest
    cases h with
    | item here more =>
      rw [hrest] at more
      obtain ⟨-, hback⟩ := assembles_pointers more hwords 0
      have hmore := ih hback
      simp only [List.mem_cons, List.mem_append, List.mem_map, List.map_cons]
      rintro line ((rfl | rfl | ⟨word, -, rfl⟩) | rfl | hmem)
      · trivial
      · trivial
      · trivial
      · trivial
      · exact hmore line hmem
  | case3 start rest op argument hpos ih =>
    cases h with
    | item here more =>
      cases here with
      | instruction length_pos noPointer isStart opcode fits argument_eq =>
        obtain ⟨byte, -, rfl⟩ := Option.map_eq_some_iff.1 opcode
        have hdistinct := Opcode.ofByte_distinct hpos.ne'
        simp only [List.mem_cons, List.mem_append]
        rintro line ((hmem | rfl | hmem) | hmem)
        · exact legible_labelLines s start line hmem
        · exact hdistinct.mnemonic
        · split_ifs at hmem
          · rw [List.mem_singleton.1 hmem]
            trivial
          · exact absurd hmem List.not_mem_nil
        · exact ih more line hmem
  | case4 start rest byte ih =>
    cases h with
    | item here more =>
      simp only [List.mem_cons, List.mem_append]
      rintro line (hmem | rfl | hmem)
      · exact legible_labelLines s start line hmem
      · exact List.cons_ne_nil _ _
      · exact ih more line hmem
  | case5 start rest byte run hle =>
    rename_i ih
    obtain ⟨front, hrest, hbytes⟩ := spanMap_append (plainByte? s) rest
    cases h with
    | item here more =>
      rw [hrest] at more
      obtain ⟨-, hback⟩ := rereadAll_of_plain more hbytes
      simp only [List.mem_cons, List.mem_append]
      rintro line ((hmem | hmem) | rfl | hmem)
      · exact legible_labelLines s start line hmem
      · exact legible_dataLines (List.cons_ne_nil _ _) line hmem
      · trivial
      · exact ih hback line hmem

theorem Cut.legible (h : Cut bank s 0 items) :
    ∀ line ∈ Line.origin :: .blank :: layout s items ++ [.finish], line.Legible := by
  simp only [List.mem_cons, List.mem_append]
  rintro line ((rfl | rfl | hmem) | rfl | hmem)
  · trivial
  · trivial
  · exact legible_layout h line hmem
  · trivial
  · exact absurd hmem List.not_mem_nil

/-- The lines of a listing from its origin to its end give the bytes of its items. -/
theorem assemble?_render (h : Cut bank s 0 items) (brackets : Brackets) :
    assemble? (render ⟨.text, brackets⟩ (.origin :: .blank :: layout s items ++ [.finish])) =
      some (rereadAll bank s items) := by
  have hlayout := (assembles_layout h).skip [.finish, .nothing]
  have hend (location : Int) : assembleFrom? location [.finish, .nothing] = some [] := by
    rw [assembleFrom?]
  rw [hend, Option.map_some, List.append_nil, Nat.cast_zero, Int.add_zero] at hlayout
  rw [assemble?, readLines_render brackets h.legible]
  simpa [Line.statement] using hlayout

end Assembly

/-- A text listing assembles back to the bank it was made from, whatever has been marked: all bytes
are there and in order, and only words that are printed through a label have their two top bits set. -/
theorem Bank.listing?_assembles (bank : Bank) (s : Survey Bank.size) (brackets : Brackets) :
    ∃ items text bytes, Assembly.items? bank s = some items ∧
      bank.listing? s ⟨.text, brackets⟩ = some text ∧ Assembly.assemble? text = some bytes ∧
      bytes.length = Bank.size ∧
      ∀ i byte, bank.byte? i = some byte →
        bytes[i]? = some (if Assembly.isLabelHigh s items i then byte ||| 0xC0 else byte) := by
  obtain ⟨items, hitems, hcut⟩ := Assembly.exists_items? bank s
  have hlength := hcut.length_rereadAll
  refine ⟨items, _, Assembly.rereadAll bank s items, hitems, ?_,
    Assembly.assemble?_render hcut brackets, by omega, ?_⟩
  · rw [listing?, Assembly.lines?, hitems, Option.map_some, Option.map_some]
  · intro i byte hbyte
    exact hcut.getElem?_rereadAll (Nat.zero_le i) hbyte

end BankTrace
