namespace BankTrace

@[ext] structure Mark where
  code : Bool := false
  data : Bool := false
  label : Bool := false
  /-- One half of a code pointer. -/
  pointer : Bool := false
  start : Bool := false
deriving DecidableEq, Repr

namespace Mark

def plain : Mark := { data := true }

def codePointer : Mark := { code := true, pointer := true }

def labelled (m : Mark) : Mark := { m with label := true }

def asStart (m : Mark) : Mark := { m with code := true, data := false, start := true }

/-- An operand byte loses its label: nothing is printed there. -/
def asOperand (m : Mark) : Mark :=
  { m with code := true, data := false, label := false, start := false }

/-- A byte given back to data keeps its label, so that what refers to it still finds it. -/
def asData (m : Mark) : Mark :=
  { m with code := false, data := true, pointer := false, start := false }

def names (m : Mark) : List String :=
  [(m.code, "CODE"), (m.data, "DATA"), (m.label, "LABEL"), (m.pointer, "POINTER"),
    (m.start, "INSTRUCTION")].filterMap fun (isSet, name) => if isSet then some name else none

end Mark

@[ext] structure Survey (n : Nat) where
  marks : Vector Mark n
deriving DecidableEq

namespace Survey

variable {n : Nat}

def blank (n : Nat) : Survey n := ⟨Vector.replicate n .plain⟩

def mark? (s : Survey n) (offset : Nat) : Option Mark := s.marks[offset]?

def isCode (s : Survey n) (offset : Nat) : Bool := (s.mark? offset).any Mark.code

def isData (s : Survey n) (offset : Nat) : Bool := (s.mark? offset).any Mark.data

def isLabel (s : Survey n) (offset : Nat) : Bool := (s.mark? offset).any Mark.label

def isPointer (s : Survey n) (offset : Nat) : Bool := (s.mark? offset).any Mark.pointer

def isStart (s : Survey n) (offset : Nat) : Bool := (s.mark? offset).any Mark.start

def isPlain (s : Survey n) (offset : Nat) : Bool := s.mark? offset == some .plain

def alter (s : Survey n) (offset : Nat) (f : Mark → Mark) : Survey n :=
  match s with
  | ⟨marks⟩ => ⟨if h : offset < n then marks.set offset (f marks[offset]) else marks⟩

def alterSpan (s : Survey n) (offset : Nat) (f : Mark → Mark) : Nat → Survey n
  | 0 => s
  | count + 1 => (s.alter offset f).alterSpan (offset + 1) f count

def label? (s : Survey n) (offset : Nat) : Option (Survey n) :=
  if offset < n then some (s.alter offset .labelled) else none

/-- Claims `length` bytes as one instruction. -/
def claim? (s : Survey n) (first length : Nat) : Option (Survey n) :=
  if 0 < length ∧ first + length ≤ n then
    some ((s.alter first .asStart).alterSpan (first + 1) .asOperand (length - 1))
  else none

def point? (s : Survey n) (offset : Nat) : Option (Survey n) :=
  if offset < n then some (s.alter offset fun _ => .codePointer) else none

/-- Gives the bytes from `first` to `last`, both included, back to data. An empty span has
`last + 1 = first`. -/
def release? (s : Survey n) (first last : Nat) : Option (Survey n) :=
  if first ≤ last + 1 ∧ last < n then
    some (s.alterSpan first .asData (last + 1 - first))
  else none

theorem mark?_eq_none_iff (s : Survey n) (i : Nat) : s.mark? i = none ↔ n ≤ i := by
  simp [mark?]

theorem exists_mark? (s : Survey n) {i : Nat} (h : i < n) : ∃ m, s.mark? i = some m :=
  ⟨s.marks[i], by simp [mark?, h]⟩

theorem lt_of_any {s : Survey n} {p : Mark → Bool} {i : Nat} (h : (s.mark? i).any p) : i < n := by
  apply Nat.lt_of_not_le
  intro hge
  rw [(s.mark?_eq_none_iff i).2 hge] at h
  contradiction

theorem isCode_lt {s : Survey n} {i : Nat} (h : s.isCode i) : i < n := lt_of_any h

theorem isData_lt {s : Survey n} {i : Nat} (h : s.isData i) : i < n := lt_of_any h

theorem isLabel_lt {s : Survey n} {i : Nat} (h : s.isLabel i) : i < n := lt_of_any h

theorem ext_mark? {s t : Survey n} (h : ∀ i, s.mark? i = t.mark? i) : s = t := by
  ext i hi : 2
  simpa [mark?, hi] using h i

@[simp] theorem mark?_blank (i : Nat) :
    (blank n).mark? i = if i < n then some .plain else none := by
  simp [mark?, blank, Vector.getElem?_replicate]

theorem mark?_alter (s : Survey n) (offset : Nat) (f : Mark → Mark) (i : Nat) :
    (s.alter offset f).mark? i = if i = offset then (s.mark? i).map f else s.mark? i := by
  unfold alter mark?
  by_cases h : offset < n
  · simp only [h, ↓reduceDIte, Vector.getElem?_set, eq_comm (a := offset)]
    split
    · subst i; simp [h]
    · rfl
  · simp only [h, ↓reduceDIte]
    split
    · subst i; simp [h]
    · rfl

theorem mark?_alterSpan (s : Survey n) (offset : Nat) (f : Mark → Mark) (count i : Nat) :
    (s.alterSpan offset f count).mark? i =
      if offset ≤ i ∧ i < offset + count then (s.mark? i).map f else s.mark? i := by
  induction count generalizing s offset with
  | zero => simp [alterSpan, show ¬ (offset ≤ i ∧ i < offset) by omega]
  | succ count ih =>
    rw [alterSpan, ih, mark?_alter]
    grind

theorem label?_eq_some_iff {s t : Survey n} {offset : Nat} :
    s.label? offset = some t ↔ offset < n ∧ t = s.alter offset .labelled := by
  simp [label?, eq_comm]

theorem point?_eq_some_iff {s t : Survey n} {offset : Nat} :
    s.point? offset = some t ↔ offset < n ∧ t = s.alter offset fun _ => .codePointer := by
  simp [point?, eq_comm]

theorem mark?_of_claim? {s t : Survey n} {first length : Nat} (h : s.claim? first length = some t)
    (i : Nat) :
    t.mark? i =
      if i = first then (s.mark? i).map .asStart
      else if first < i ∧ i < first + length then (s.mark? i).map .asOperand
      else s.mark? i := by
  simp only [claim?, Option.ite_none_right_eq_some, Option.some.injEq] at h
  obtain ⟨⟨hpos, -⟩, rfl⟩ := h
  rw [mark?_alterSpan, mark?_alter]
  by_cases h₁ : i = first
  · subst i
    rw [if_neg (by omega), if_pos rfl, if_pos rfl]
  · have : (first + 1 ≤ i ∧ i < first + 1 + (length - 1)) ↔ (first < i ∧ i < first + length) := by
      omega
    simp only [h₁, this, ↓reduceIte]

theorem claim?_isSome_iff {s : Survey n} {first length : Nat} :
    (s.claim? first length).isSome ↔ 0 < length ∧ first + length ≤ n := by
  simp [claim?]

theorem mark?_of_release? {s t : Survey n} {first last : Nat} (h : s.release? first last = some t)
    (i : Nat) :
    t.mark? i = if first ≤ i ∧ i ≤ last then (s.mark? i).map .asData else s.mark? i := by
  simp only [release?, Option.ite_none_right_eq_some, Option.some.injEq] at h
  obtain ⟨⟨hle, -⟩, rfl⟩ := h
  rw [mark?_alterSpan]
  have : (first ≤ i ∧ i < first + (last + 1 - first)) ↔ (first ≤ i ∧ i ≤ last) := by omega
  simp only [this]

theorem release?_isSome_iff {s : Survey n} {first last : Nat} :
    (s.release? first last).isSome ↔ first ≤ last + 1 ∧ last < n := by
  simp [release?]

end Survey

end BankTrace
