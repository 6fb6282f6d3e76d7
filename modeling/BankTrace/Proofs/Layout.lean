import BankTrace.Proofs.Names

namespace BankTrace.Assembly

def Item.isPointer : Item → Bool
  | pointer _ => true
  | _ => false

def openers (items : List (Nat × Item)) (offset : Nat) : Nat :=
  items.countP fun (start, item) => start == offset && !item.isPointer

section SpanMap

variable {α β : Type} {f : α → Option β}

theorem mem_spanMap {l : List α} {a : α} (ha : f a = none) (h : a ∈ l) : a ∈ (spanMap f l).2 := by
  induction l with
  | nil => exact h
  | cons b l ih =>
    rw [spanMap]
    cases hb : f b with
    | none => exact h
    | some result =>
      rcases List.mem_cons.1 h with rfl | h
      · rw [ha] at hb
        contradiction
      · exact ih h

theorem countP_spanMap {p : α → Bool} (h : ∀ a, (f a).isSome → p a = false) (l : List α) :
    (spanMap f l).2.countP p = l.countP p := by
  induction l with
  | nil => rfl
  | cons a l ih =>
    rw [spanMap]
    cases ha : f a with
    | none => rfl
    | some result =>
      have hfalse : p a = false := h a (by rw [ha]; rfl)
      simp only [List.countP_cons, hfalse, ih]
      rfl

end SpanMap

variable {n : Nat} {s : Survey n} {offset : Nat}

theorem isLabel_of_mem_placeOf {word : Nat} (h : offset ∈ names (placeOf s word).pieces) :
    s.isLabel offset := by
  simp only [placeOf] at h
  split_ifs at h with hlabel
  · rw [Place.names_label, List.mem_singleton] at h
    rwa [h]
  · cases hborrowed : borrowed? s (Bank.offsetOf word) with
    | none =>
      rw [hborrowed] at h
      exact absurd h List.not_mem_nil
    | some found =>
      rw [hborrowed, Place.names_label, List.mem_singleton] at h
      rw [h]
      exact (lends_of_borrowed? hborrowed).isLabel

theorem isLabel_of_mem_pointerPlace {word : Nat}
    (h : offset ∈ names (pointerPlace s word).pieces) : s.isLabel offset := by
  unfold pointerPlace at h
  split_ifs at h with hlabel
  · rw [Place.names_label, List.mem_singleton] at h
    rwa [h]
  · exact absurd h List.not_mem_nil

theorem isLabel_of_mem_operandOf {start argument : Nat} {op : Opcode}
    (h : offset ∈ names (operandOf s start op argument).pieces) : s.isLabel offset := by
  have habsolute : ∀ index, offset ∈ names (absoluteOperand s op argument index).pieces →
      s.isLabel offset := by
    intro index hmem
    unfold absoluteOperand at hmem
    split_ifs at hmem
    · rw [Operand.names_absolute] at hmem
      exact absurd hmem List.not_mem_nil
    · rw [Operand.names_absolute] at hmem
      exact isLabel_of_mem_placeOf hmem
  unfold operandOf at h
  cases hmode : op.mode with
  | absolute => exact habsolute .none (by simpa only [hmode] using h)
  | absoluteX => exact habsolute .x (by simpa only [hmode] using h)
  | absoluteY => exact habsolute .y (by simpa only [hmode] using h)
  | relative =>
    simp only [hmode, relativeOperand] at h
    split_ifs at h with hlabel
    · rwa [List.mem_singleton.1 h]
    · exact absurd h List.not_mem_nil
  | _ =>
    rw [hmode] at h
    exact absurd h List.not_mem_nil

theorem mem_dataLines {bytes : List UInt8} {line : Line} (h : line ∈ dataLines bytes) :
    ∃ some, line = .values some := by
  fun_induction dataLines bytes with
  | case1 bytes rest hempty => exact ⟨_, List.mem_singleton.1 h⟩
  | case2 bytes rest hmore ih =>
    rcases List.mem_cons.1 h with rfl | h
    · exact ⟨_, rfl⟩
    · exact ih h

theorem isLabel_of_mem_layout {items : List (Nat × Item)} {line : Line} (h : line ∈ layout s items)
    (hname : offset ∈ line.names) : s.isLabel offset := by
  have hlabelLines : ∀ start, line ∈ labelLines s start → s.isLabel offset := by
    intro start hmem
    unfold labelLines at hmem
    split_ifs at hmem with hlabel
    · rw [List.mem_singleton.1 hmem] at hname
      rwa [List.mem_singleton.1 hname]
    · exact absurd hmem List.not_mem_nil
  fun_induction layout s items with
  | case1 => exact absurd h List.not_mem_nil
  | case2 start rest word run hle ih =>
    simp only [List.mem_cons, List.mem_append, List.mem_map] at h
    rcases h with (rfl | ⟨word', -, rfl⟩) | rfl | h
    · exact absurd hname List.not_mem_nil
    · rw [Line.names_pointer] at hname
      exact isLabel_of_mem_pointerPlace hname
    · exact absurd hname List.not_mem_nil
    · exact ih h
  | case3 start rest op argument hpos ih =>
    simp only [List.mem_cons, List.mem_append] at h
    rcases h with (h | rfl | h) | h
    · exact hlabelLines start h
    · rw [Line.names_instruction] at hname
      exact isLabel_of_mem_operandOf hname
    · split_ifs at h
      · rw [List.mem_singleton.1 h] at hname
        exact absurd hname List.not_mem_nil
      · exact absurd h List.not_mem_nil
    · exact ih h
  | case4 start rest byte ih =>
    simp only [List.mem_cons, List.mem_append] at h
    rcases h with h | rfl | h
    · exact hlabelLines start h
    · exact absurd hname List.not_mem_nil
    · exact ih h
  | case5 start rest byte run hle ih =>
    simp only [List.mem_cons, List.mem_append] at h
    rcases h with (h | h) | rfl | h
    · exact hlabelLines start h
    · obtain ⟨bytes, rfl⟩ := mem_dataLines h
      exact absurd hname List.not_mem_nil
    · exact absurd hname List.not_mem_nil
    · exact ih h

theorem count_labelLines (hlabel : s.isLabel offset) (start : Nat) :
    (labelLines s start).count (.label offset) = if start = offset then 1 else 0 := by
  unfold labelLines
  split_ifs with hstart heq heq
  · simp [heq]
  · simp [heq]
  · rw [heq] at hstart
    contradiction
  · rfl

theorem openers_cons (start : Nat) (item : Item) (rest : List (Nat × Item)) :
    openers ((start, item) :: rest) offset =
      openers rest offset + if start = offset ∧ item.isPointer = false then 1 else 0 := by
  rw [openers, List.countP_cons]
  simp [openers]

theorem count_dataLines (bytes : List UInt8) : (dataLines bytes).count (.label offset) = 0 := by
  rw [List.count_eq_zero]
  intro hmem
  obtain ⟨values, hvalues⟩ := mem_dataLines hmem
  contradiction

theorem openers_spanMap_pointerWord? (items : List (Nat × Item)) :
    openers (spanMap pointerWord? items).2 offset = openers items offset := by
  refine countP_spanMap (fun entry hsome => ?_) items
  obtain ⟨start, item⟩ := entry
  cases item with
  | pointer word => exact Bool.and_false _
  | _ => contradiction

theorem openers_spanMap_plainByte? (hlabel : s.isLabel offset) (items : List (Nat × Item)) :
    openers (spanMap (plainByte? s) items).2 offset = openers items offset := by
  refine countP_spanMap (fun entry hsome => ?_) items
  obtain ⟨start, item⟩ := entry
  cases item with
  | value byte =>
    have hplain : s.mark? start = some .plain := by
      simp only [plainByte?] at hsome
      split_ifs at hsome with hplain
      · exact beq_iff_eq.1 hplain
      · contradiction
    have hne : start ≠ offset := by
      rintro rfl
      rw [Survey.isLabel, hplain] at hlabel
      contradiction
    simp [hne]
  | _ => contradiction

/-- The label of a byte is defined for each item that begins there and is no pointer. -/
theorem count_layout (hlabel : s.isLabel offset) (items : List (Nat × Item)) :
    (layout s items).count (.label offset) = openers items offset := by
  have hlines := count_labelLines hlabel
  -- A run of pointers or plain data is laid out at once; nothing that it skips opens anything.
  fun_induction layout s items with
  | case1 => rfl
  | case2 start rest word run hle ih =>
    have hpointers : (run.1.map (Line.pointer <| pointerPlace s ·)).count (.label offset) = 0 := by
      rw [List.count_eq_zero, List.mem_map]
      rintro ⟨_, -, h⟩
      contradiction
    rw [openers_cons, ← openers_spanMap_pointerWord? rest, ← ih]
    simp [hpointers, Item.isPointer]
  | case3 start rest op argument hpos ih =>
    have hblank : (if op.control.isFinal then [Line.blank] else []).count (.label offset) = 0 := by
      split_ifs <;> simp
    rw [openers_cons, ← ih]
    simp only [List.count_append, List.count_cons, hlines, hblank, Item.isPointer, beq_iff_eq,
      reduceCtorEq, ↓reduceIte, and_true]
    omega
  | case4 start rest byte ih =>
    rw [openers_cons, ← ih]
    simp only [List.count_append, List.count_cons, hlines, Item.isPointer, beq_iff_eq,
      reduceCtorEq, ↓reduceIte, and_true]
    omega
  | case5 start rest byte run hle ih =>
    rw [openers_cons, ← openers_spanMap_plainByte? hlabel rest, ← ih]
    simp only [List.count_append, List.count_cons, hlines, count_dataLines, Item.isPointer,
      beq_iff_eq, reduceCtorEq, ↓reduceIte, and_true]
    omega

theorem mem_layout_of_instruction {items : List (Nat × Item)} {start argument : Nat} {op : Opcode}
    {hpos : 0 < op.length} (h : (start, .instruction op argument hpos) ∈ items) :
    .instruction op.mnemonic (operandOf s start op argument) ∈ layout s items := by
  fun_induction layout s items with
  | case1 => exact absurd h List.not_mem_nil
  | case2 first rest word run hle ih =>
    have hrest := (List.mem_cons.1 h).resolve_left (by simp)
    simp [ih (mem_spanMap rfl hrest)]
  | case3 first rest op' argument' hpos' ih =>
    rcases List.mem_cons.1 h with heq | h
    · obtain ⟨rfl, hitem⟩ := Prod.mk.inj heq
      obtain ⟨rfl, rfl⟩ := Item.instruction.inj hitem
      simp
    · simp [ih h]
  | case4 first rest byte ih =>
    have hrest := (List.mem_cons.1 h).resolve_left (by simp)
    simp [ih hrest]
  | case5 first rest byte run hle ih =>
    have hrest := (List.mem_cons.1 h).resolve_left (by simp)
    simp [ih (mem_spanMap rfl hrest)]

end BankTrace.Assembly
