import BankTrace.Assembly.Line
import BankTrace.Exploration.Step
import BankTrace.PointerTable
import BankTrace.Proofs.Decoding

namespace BankTrace

section Searches

variable {α β : Type} {l : List α}

theorem anyM_eq_some {p : α → Option Bool} {q : α → Bool} (h : ∀ a ∈ l, p a = some (q a)) :
    l.anyM p = some (l.any q) := by
  induction l with
  | nil => rfl
  | cons a l ih =>
    rw [List.forall_mem_cons] at h
    rw [List.anyM, h.1, List.any_cons, ih h.2]
    cases q a <;> rfl

theorem findSomeM?_eq_some {f : α → Option (Option β)} {g : α → Option β}
    (h : ∀ a ∈ l, f a = some (g a)) : l.findSomeM? f = some (l.findSome? g) := by
  induction l with
  | nil => rfl
  | cons a l ih =>
    rw [List.forall_mem_cons] at h
    rw [List.findSomeM?, h.1, List.findSome?_cons, ih h.2]
    cases g a <;> rfl

theorem mapM_eq_some_map {f : α → Option β} {g : α → β} (h : ∀ a ∈ l, f a = some (g a)) :
    l.mapM f = some (l.map g) := by
  induction l with
  | nil => rfl
  | cons a l ih =>
    rw [List.forall_mem_cons] at h
    rw [List.mapM_cons, h.1, ih h.2]
    rfl

end Searches

namespace Exploration

variable {n : Nat}

/-- The sums of offsets taken to decode `op` at `offset`: where its operand stands and the
instruction ends, what is given back and stepped over if it is refused, and what lies behind the
byte that the operand names. -/
def decodeSums (bank : Bank) (offset settled : Nat) (op : Opcode) : List Nat :=
  [offset + 1, offset + 2, offset + op.length, offset + (op.length - 1) + 1, settled + op.length] ++
    (bank.pointee? (offset + 1)).toList.flatMap fun target =>
      (List.range labelSlack).map fun i => target + (i + 1)

/-- The sums of offsets that the next step takes. -/
def sums (bank : Bank) (x : Exploration n) : List Nat :=
  match x.strands with
  | [] => []
  | ⟨_, offset, task⟩ :: _ => match task with
    | .decode settled _ =>
      if x.survey.isData offset then
        (bank.opcode? offset).toList.flatMap (decodeSums bank offset settled)
      else []
    | .probe refused => [offset + 1, offset + refused]
    | .claim _ => [offset + 1, offset + 2]
    | .close => []

end Exploration

/-- The sums and products of offsets taken to go through the words of a table. -/
def PointerTable.sums (t : PointerTable) : List Nat :=
  (List.range t.count).flatMap fun i => [2 * i, t.offset + 2 * i, t.offset + 2 * i + 1]

/-- The sums of offsets taken to print the item at `offset`: where its bytes stand and the next item
begins, and where a label may be borrowed for its operand. -/
def Assembly.sums (offset : Nat) (item : Item) : List Nat :=
  [offset + 1, offset + 2, offset + 3, offset + item.size] ++
    match item with
    | .instruction _ argument _ =>
      (List.range labelReach).map fun i => Bank.offsetOf argument + (i + 1)
    | _ => []

namespace Checked

open Exploration Assembly

variable {n : Nat} {i j offset target : Nat} {bank : Bank} {s : Survey n}

/-- A sum within 64 bits; there is no result if it does not fit. -/
def sum? (i j : Nat) : Option Nat := if i + j < 2 ^ 64 then some (i + j) else none

theorem sum?_eq (h : i + j < 2 ^ 64) : sum? i j = some (i + j) := if_pos h

def word? (bank : Bank) (offset : Nat) : Option Nat := do
  let low ← bank.byte? offset
  let high ← bank.byte? (← sum? offset 1)
  return low.toNat + 0x100 * high.toNat

def pointee? (bank : Bank) (offset : Nat) : Option Nat := (word? bank offset).map Bank.offsetOf

def isCartridge? (bank : Bank) (offset : Nat) : Option Bool := do
  let high ← bank.byte? (← sum? offset 1)
  return 0x80 ≤ high

def claim? (s : Survey n) (first length : Nat) : Option (Survey n) := do
  let _ ← sum? first length
  s.claim? first length

def release? (s : Survey n) (first last : Nat) : Option (Survey n) := do
  let _ ← sum? last 1
  s.release? first last

def nearDataLabel? (s : Survey n) (target : Nat) : Option Bool :=
  (List.range labelSlack).anyM fun i => do
    let above ← sum? target (i + 1)
    return (i + 1 ≤ target && isDataLabel s (target - (i + 1))) || isDataLabel s above

def refer? (x : Exploration n) (bank : Bank) (operand : Nat) : Option (Exploration n) := do
  let isCartridge ← isCartridge? bank operand
  let target ← pointee? bank operand
  if isCartridge && !x.survey.isCode target then
    if ← nearDataLabel? x.survey target then some x else x.change? (·.label? target)
  else some x

def undo? (x : Exploration n) (bank : Bank) (start offset settled : Nat) (afterCall : Bool)
    (refused : Nat) (waiting : List Strand) : Option (Exploration n) := do
  let byte ← bank.byte? offset
  let last ← sum? offset (refused - 1)
  let x ← (x.report (.undone byte offset settled last)).change? (release? · settled last)
  let skipped ← sum? settled refused
  let strand : Strand :=
    if afterCall then ⟨start, settled, .probe refused⟩ else ⟨start, skipped, .close⟩
  return { x with strands := strand :: waiting, rollbacks := x.rollbacks + 1 }

def proceed? (x : Exploration n) (bank : Bank) (start offset settled : Nat) (afterCall : Bool)
    (op : Opcode) (waiting : List Strand) : Option (Exploration n) := do
  let next ← sum? offset op.length
  let operand ← sum? offset 1
  let onward (x : Exploration n) (task : Task) : Exploration n :=
    { x with strands := ⟨start, next, task⟩ :: waiting }
  match op.control with
  | .next => some (onward x (.decode settled afterCall))
  | .reference => do
    let x ← if op.mode.isAbsolute then refer? x bank operand else some x
    return onward x (.decode settled afterCall)
  | .branch => do
    let byte ← bank.byte? operand
    return (onward x (.decode next false)).visit (branchOffset offset byte)
  | .jump => do
    let target ← pointee? bank operand
    return (onward x .close).visit target
  | .jumpIndirect => do
    let isCartridge ← isCartridge? bank operand
    let pointer ← pointee? bank operand
    let behind ← sum? pointer 1
    if isCartridge && behind < Bank.size then
      let target ← pointee? bank pointer
      return (onward x .close).visit target
    else return onward x .close
  | .call => do
    let target ← pointee? bank operand
    return (onward x (.decode next true)).visit target
  | .ret => some (onward x .close)
  | .illegal => undo? x bank start offset settled afterCall op.length waiting

def decode? (x : Exploration n) (bank : Bank) (start offset settled : Nat) (afterCall : Bool)
    (waiting : List Strand) : Option (Exploration n) := do
  let op := Opcode.ofByte (← bank.byte? offset)
  let behind ← sum? offset op.length
  if op.length = 0 ∨ Bank.size < behind then
    undo? x bank start offset settled afterCall 0 waiting
  else
    let x ← x.change? (claim? · offset op.length)
    proceed? (x.report (.decoded offset op)) bank start offset settled afterCall op waiting

def probe? (x : Exploration n) (bank : Bank) (start offset refused : Nat)
    (waiting : List Strand) : Option (Exploration n) := do
  let behind ← sum? offset 1
  if x.survey.isPlain offset && (bank.byte? behind).any (jumpTableHighByte ≤ ·) then
    let target ← pointee? bank offset
    return { x with strands := ⟨start, offset, .claim refused⟩ :: waiting }.visit target
  else return { x with strands := ⟨start, ← sum? offset refused, .close⟩ :: waiting }

def claimWord? (x : Exploration n) (bank : Bank) (start offset refused : Nat)
    (waiting : List Strand) : Option (Exploration n) := do
  let word ← word? bank offset
  let x ← (x.report (.jumpTableWord offset word)).change? (·.point? offset)
  let behind ← sum? offset 1
  let x ← x.change? (·.point? behind)
  return { x with
    strands := ⟨start, ← sum? offset 2, .probe refused⟩ :: waiting
    recovered := x.recovered + 1 }

/-- One step of an exploration in which every sum of offsets has to fit into 64 bits. -/
def step? (bank : Bank) (x : Exploration n) : Option (Exploration n) :=
  match x.strands with
  | [] => some x
  | ⟨start, offset, task⟩ :: waiting => match task with
    | .decode settled afterCall =>
      if x.survey.isData offset then decode? x bank start offset settled afterCall waiting
      else some { x with strands := ⟨start, offset, .close⟩ :: waiting }
    | .probe refused => probe? x bank start offset refused waiting
    | .claim refused => claimWord? x bank start offset refused waiting
    | .close => x.close? start offset waiting

def slots? (t : PointerTable) : Option (List Nat) :=
  (List.range t.count).mapM fun i => do
    let slot ← sum? t.offset (← sum? i i)
    let _ ← sum? slot 1
    return slot

def argument? (bank : Bank) (offset length : Nat) : Option Nat :=
  match length with
  | 0 | 1 => some 0
  | 2 => do
    let byte ← bank.byte? (← sum? offset 1)
    return byte.toNat
  | _ => do word? bank (← sum? offset 1)

/-- The item that begins at `offset`, and where the next one begins. -/
def item? (bank : Bank) (s : Survey n) (offset : Nat) : Option (Item × Nat) := do
  let behind ← sum? offset 1
  if s.isPointer offset && behind < Bank.size then
    return (.pointer (← word? bank offset), ← sum? offset 2)
  else
    let byte ← bank.byte? offset
    if s.isStart offset then
      let op := Opcode.ofByte byte
      let next ← sum? offset op.length
      if h : 0 < op.length ∧ next ≤ Bank.size then
        return (.instruction op (← argument? bank offset op.length) h.1, next)
      else return (.orphan byte, behind)
    else if s.isCode offset then return (.orphan byte, behind)
    else return (.value byte, behind)

def borrowed? (s : Survey n) (target : Nat) : Option (Option (Nat × Int)) :=
  (List.range labelReach).findSomeM? fun i => do
    let distance := i + 1
    let above ← sum? target distance
    if distance ≤ target && s.isLabel (target - distance) then
      return some (target - distance, (distance : Int))
    else if s.isLabel above then return some (above, -(distance : Int))
    else return none

def placeOf? (s : Survey n) (word : Nat) : Option Place := do
  let target := Bank.offsetOf word
  if s.isLabel target then return .label target 0
  else match ← borrowed? s target with
    | some (offset, adjustment) => return .label offset adjustment
    | none => return .word word

section Reading

variable (h : offset + 1 < 2 ^ 64)
include h

theorem word?_eq : word? bank offset = bank.word? offset := by
  simp [word?, Bank.word?, sum?_eq h]

theorem pointee?_eq : pointee? bank offset = bank.pointee? offset := by
  rw [pointee?, word?_eq h, Bank.pointee?]

theorem isCartridge?_eq : isCartridge? bank offset = bank.isCartridge? offset := by
  simp [isCartridge?, Bank.isCartridge?, sum?_eq h, Option.map_eq_bind]

end Reading

theorem claim?_eq {length : Nat} (h : offset + length < 2 ^ 64) :
    claim? s offset length = s.claim? offset length := by
  simp [claim?, sum?_eq h]

theorem release?_eq {first last : Nat} (h : last + 1 < 2 ^ 64) :
    release? s first last = s.release? first last := by
  simp [release?, sum?_eq h]

theorem nearDataLabel?_eq (h : target + labelSlack < 2 ^ 64) :
    nearDataLabel? s target = some (nearDataLabel s target) := by
  refine anyM_eq_some fun i hi => ?_
  have hi := List.mem_range.1 hi
  rw [sum?_eq (by omega)]
  rfl

variable {x : Exploration n} {start settled refused : Nat} {afterCall : Bool} {op : Opcode}
  {waiting : List Strand}

theorem refer?_eq {operand : Nat} (h : operand + 1 < 2 ^ 64)
    (htarget : ∀ target, bank.pointee? operand = some target → target + labelSlack < 2 ^ 64) :
    refer? x bank operand = x.refer? bank operand := by
  unfold refer? Exploration.refer?
  rw [isCartridge?_eq h, pointee?_eq h]
  cases bank.isCartridge? operand with
  | none => rfl
  | some isCartridge =>
    cases hpointee : bank.pointee? operand with
    | none => rfl
    | some target =>
      simp only [Option.bind_eq_bind, Option.bind_some, nearDataLabel?_eq (htarget target hpointee)]
      cases isCartridge <;> cases x.survey.isCode target <;>
        cases nearDataLabel x.survey target <;> rfl

theorem undo?_eq (h : offset + (refused - 1) + 1 < 2 ^ 64) (hskip : settled + refused < 2 ^ 64) :
    undo? x bank start offset settled afterCall refused waiting =
      x.undo? bank start offset settled afterCall refused waiting := by
  unfold undo? Exploration.undo?
  simp only [sum?_eq (Nat.lt_of_succ_lt h), sum?_eq hskip, Option.bind_eq_bind, Option.bind_some,
    release?_eq h]

/-- The sums of offsets taken to decode `op` at `offset` fit into 64 bits. -/
structure Fits (bank : Bank) (offset settled : Nat) (op : Opcode) : Prop where
  word : offset + 2 < 2 ^ 64
  next : offset + op.length < 2 ^ 64
  released : offset + (op.length - 1) + 1 < 2 ^ 64
  skipped : settled + op.length < 2 ^ 64
  around : ∀ target, bank.pointee? (offset + 1) = some target → target + labelSlack < 2 ^ 64

theorem proceed?_eq (h : Fits bank offset settled op) :
    proceed? x bank start offset settled afterCall op waiting =
      x.proceed? bank start offset settled afterCall op waiting := by
  have hoperand : offset + 1 < 2 ^ 64 := Nat.lt_of_succ_lt h.word
  unfold proceed? Exploration.proceed?
  simp only [sum?_eq h.next, sum?_eq hoperand, Option.bind_eq_bind, Option.bind_some,
    pointee?_eq h.word, isCartridge?_eq h.word, refer?_eq h.word h.around,
    undo?_eq h.released h.skipped]
  cases op.control with
  | jumpIndirect =>
    cases bank.isCartridge? (offset + 1) with
    | none => rfl
    | some isCartridge =>
      cases hpointer : bank.pointee? (offset + 1) with
      | none => rfl
      | some pointer =>
        have hbehind : pointer + 1 < 2 ^ 64 := by
          have := h.around pointer hpointer
          have : labelSlack = 3 := rfl
          omega
        simp only [Option.bind_some, sum?_eq hbehind, pointee?_eq hbehind]
  | _ => rfl

theorem decode?_eq
    (h : ∀ op, bank.opcode? offset = some op → Fits bank offset settled op) :
    decode? x bank start offset settled afterCall waiting =
      x.decode? bank start offset settled afterCall waiting := by
  unfold decode? Exploration.decode?
  cases hbyte : bank.byte? offset with
  | none => rfl
  | some byte =>
    have fits := h (Opcode.ofByte byte) (Bank.opcode?_of_byte? hbyte)
    have hrefused : offset + (0 - 1) + 1 < 2 ^ 64 := Nat.lt_of_succ_lt fits.word
    have hskipped : settled + 0 < 2 ^ 64 := Nat.lt_of_le_of_lt (Nat.le_add_right _ _) fits.skipped
    simp only [Option.bind_eq_bind, Option.bind_some, sum?_eq fits.next,
      undo?_eq hrefused hskipped, claim?_eq fits.next, proceed?_eq fits]

theorem probe?_eq (h : offset + 1 < 2 ^ 64) (hskip : offset + refused < 2 ^ 64) :
    probe? x bank start offset refused waiting = x.probe? bank start offset refused waiting := by
  unfold probe? Exploration.probe? isTableWord
  simp only [sum?_eq h, sum?_eq hskip, Option.bind_eq_bind, Option.bind_some, pointee?_eq h]
  rfl

theorem claimWord?_eq (h : offset + 2 < 2 ^ 64) :
    claimWord? x bank start offset refused waiting =
      x.claimWord? bank start offset refused waiting := by
  unfold claimWord? Exploration.claimWord?
  simp only [sum?_eq h, sum?_eq (Nat.lt_of_succ_lt h), Option.bind_eq_bind, Option.bind_some,
    word?_eq (Nat.lt_of_succ_lt h)]

theorem fits_of_decodeSums (h : ∀ v ∈ decodeSums bank offset settled op, v < 2 ^ 64) :
    Fits bank offset settled op where
  word := h _ (by simp [decodeSums])
  next := h _ (by simp [decodeSums])
  released := h _ (by simp [decodeSums])
  skipped := h _ (by simp [decodeSums])
  around := fun target htarget => h _ (List.mem_append_right _ <| by
    simp [htarget, labelSlack])

/-- A step whose sums are small takes each of them within 64 bits. -/
theorem step?_eq (h : ∀ v ∈ x.sums bank, v < 2 ^ 64) : step? bank x = Exploration.step? bank x := by
  unfold step? Exploration.step?
  unfold Exploration.sums at h
  cases hs : x.strands with
  | nil => rfl
  | cons strand waiting =>
    obtain ⟨start, offset, task⟩ := strand
    simp only [hs] at h
    cases task with
    | decode settled afterCall =>
      cases hdata : x.survey.isData offset with
      | false => simp only [hdata, Bool.false_eq_true, if_false]
      | true =>
        simp only [hdata, if_true] at h ⊢
        refine decode?_eq fun op hop => fits_of_decodeSums fun v hv => h v ?_
        exact List.mem_flatMap.2 ⟨op, Option.mem_toList.2 hop, hv⟩
    | probe refused => exact probe?_eq (h _ (by simp)) (h _ (by simp))
    | claim refused => exact claimWord?_eq (h _ (by simp))
    | close => rfl

theorem slots?_eq {t : PointerTable} (h : ∀ v ∈ t.sums, v < 2 ^ 64) : slots? t = some t.slots := by
  refine mapM_eq_some_map fun i hi => ?_
  have hsum : t.offset + 2 * i + 1 < 2 ^ 64 := h _ (List.mem_flatMap.2 ⟨i, hi, by simp⟩)
  have hdouble : sum? i i = some (2 * i) := by
    rw [sum?_eq (by omega), Nat.two_mul]
  rw [hdouble, Option.bind_eq_bind, Option.bind_some, sum?_eq (by omega), Option.bind_some,
    sum?_eq hsum]
  rfl

theorem argument?_eq {length : Nat} (h : offset + 2 < 2 ^ 64) :
    argument? bank offset length = Assembly.argument? bank offset length := by
  unfold argument? Assembly.argument?
  simp only [sum?_eq (Nat.lt_of_succ_lt h), Option.bind_eq_bind, Option.bind_some, word?_eq h,
    Option.map_eq_bind]
  rfl

theorem item?_eq_map (h : offset + 3 < 2 ^ 64) :
    item? bank s offset =
      (Assembly.item? bank s offset).map fun item => (item, offset + item.size) := by
  have htwo : offset + 2 < 2 ^ 64 := Nat.lt_of_succ_lt h
  have hone : offset + 1 < 2 ^ 64 := Nat.lt_of_succ_lt htwo
  unfold item? Assembly.item?
  simp only [sum?_eq hone, sum?_eq htwo, word?_eq hone, argument?_eq htwo, Option.bind_eq_bind,
    Option.bind_some]
  cases s.isPointer offset && decide (offset + 1 < Bank.size) with
  | true => cases bank.word? offset <;> rfl
  | false =>
    cases bank.byte? offset with
    | none => rfl
    | some byte =>
      have hlength := (Opcode.ofByte_regular byte).length_le
      have hnext : offset + (Opcode.ofByte byte).length < 2 ^ 64 := by omega
      simp only [Bool.false_eq_true, if_false, Option.bind_some, sum?_eq hnext]
      split_ifs
      · cases Assembly.argument? bank offset (Opcode.ofByte byte).length <;> rfl
      all_goals rfl

theorem item?_eq {item : Item} (hitem : Assembly.item? bank s offset = some item)
    (h : ∀ v ∈ Assembly.sums offset item, v < 2 ^ 64) :
    item? bank s offset = some (item, offset + item.size) := by
  have hthree : offset + 3 < 2 ^ 64 := h _ (by simp [Assembly.sums])
  rw [item?_eq_map hthree, hitem, Option.map_some]

theorem borrowed?_eq (h : target + labelReach < 2 ^ 64) :
    borrowed? s target = some (Assembly.borrowed? s target) := by
  refine findSomeM?_eq_some fun i hi => ?_
  have hi := List.mem_range.1 hi
  have hsum : sum? target (i + 1) = some (target + (i + 1)) := sum?_eq (by omega)
  simp only [hsum, Option.bind_eq_bind, Option.bind_some]
  split_ifs <;> rfl

theorem placeOf?_eq {word : Nat} {hpos : 0 < op.length}
    (h : ∀ v ∈ Assembly.sums offset (.instruction op word hpos), v < 2 ^ 64) :
    placeOf? s word = some (placeOf s word) := by
  have hfar : Bank.offsetOf word + labelReach < 2 ^ 64 :=
    h _ (List.mem_append_right _ (List.mem_map.2 ⟨14, by decide, rfl⟩))
  unfold placeOf? placeOf
  simp only [borrowed?_eq hfar, Option.bind_eq_bind, Option.bind_some]
  split_ifs
  · rfl
  · cases Assembly.borrowed? s (Bank.offsetOf word) with
    | none => rfl
    | some label => rfl

end Checked

end BankTrace
