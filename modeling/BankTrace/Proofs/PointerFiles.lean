import BankTrace.PointerTable.Written
import BankTrace.Proofs.Files
import BankTrace.Proofs.Numerals

namespace BankTrace.PointerTable

def number? (line : List Char) (field : Nat) : Option Int :=
  (Text.fields '|' line)[field]?.bind Numeral.read?

/-- The first two fields of a line are the numbers of a table that lies in the bank. -/
structure Describes (line : List Char) (t : PointerTable) : Prop where
  offset : number? line 0 = some (t.offset : Int)
  count : number? line 1 = some (t.count : Int)
  fits : t.offset + 2 * t.count ≤ Bank.size

def overflowsAt (line : List Char) (field : Nat) : Bool :=
  (Text.fields '|' line)[field]?.any Numeral.overflows

/-- Arithmetic is checked, and a field of the line that is read overflows. The second one is read
only if there is a number in the first. -/
structure Overflows (a : Arithmetic) (line : List Char) : Prop where
  checked : a = .checked
  field : overflowsAt line 0 ∨ (number? line 0).isSome ∧ overflowsAt line 1

/-- What is wrong with a line that describes no table and has the given number in the file. -/
inductive Spoils (a : Arithmetic) (number : Nat) (line : List Char) : SetupFailure → Prop
  | offset (missing : number? line 0 = none) :
      Spoils a number line (.badLine number .offset (String.ofList (Text.trim line)))
  | count {offset : Int} (calm : ¬ Overflows a line) (found : number? line 0 = some offset)
      (missing : number? line 1 = none) :
      Spoils a number line (.badLine number .count (String.ofList (Text.trim line)))
  | range {offset count : Int} (calm : ¬ Overflows a line) (first : number? line 0 = some offset)
      (second : number? line 1 = some count)
      (outside : offset < 0 ∨ count < 0 ∨ Bank.size < offset + 2 * count) :
      Spoils a number line (.tableOutOfRange ⟨offset.toNat, count.toNat⟩)
  | overflow (overflows : Overflows a line) : Spoils a number line .overflow

section Line

variable {a : Arithmetic} {number field : Nat} {line : List Char} {t : PointerTable}
  {cause : SetupFailure}

theorem number?_of_overflowsAt (h : overflowsAt line field) :
    number? line field = some (-2 ^ 63) := by
  obtain ⟨text, htext, hoverflows⟩ := (Option.any_eq_true _ _).1 h
  rw [number?, htext, Option.bind_some, Numeral.read?_of_overflows hoverflows]

theorem Overflows.number?_ne_none (h : Overflows a line) : number? line 0 ≠ none := by
  rcases h.field with h | ⟨h, -⟩
  · simp [number?_of_overflowsAt h]
  · exact Option.isSome_iff_ne_none.1 h

theorem Describes.not_overflows (h : Describes line t) : ¬ Overflows a line := by
  rintro ⟨-, hoverflows | ⟨-, hoverflows⟩⟩
  · have := h.offset.symm.trans (number?_of_overflowsAt hoverflows)
    simp only [Option.some.injEq] at this
    omega
  · have := h.count.symm.trans (number?_of_overflowsAt hoverflows)
    simp only [Option.some.injEq] at this
    omega

theorem numberAt_trim (line : List Char) (field : Nat) :
    numberAt a (Text.fields '|' (Text.trim line)) field =
      if a = .checked ∧ overflowsAt line field then .error .overflow
      else .ok (number? line field) := by
  have hnumber : ∀ text, numberIn a (Text.trim text) = numberIn a text := by
    intro text
    unfold numberIn Numeral.read? Numeral.overflows
    rw [← (Text.padded_trim text).trim_eq]
  have hfields : ∀ pieces : List (List Char), numberAt a pieces field =
      numberAt a (pieces.map Text.trim) field := by
    intro pieces
    unfold numberAt
    rw [List.getElem?_map]
    cases pieces[field]? with
    | none => rfl
    | some piece => exact (hnumber piece).symm
  rw [hfields, Text.map_trim_fields (by decide), ← hfields, numberAt, number?, overflowsAt]
  cases (Text.fields '|' line)[field]? with
  | none => simp
  | some text => simp [numberIn]

def checked (offset count : Int) : Except SetupFailure PointerTable :=
  if 0 ≤ offset ∧ 0 ≤ count ∧ offset + 2 * count ≤ Bank.size then .ok ⟨offset.toNat, count.toNat⟩
  else .error (.tableOutOfRange ⟨offset.toNat, count.toNat⟩)

theorem ofNumbers_bind_inRange (offset count : Int) :
    (do
      let table ← ofNumbers offset count
      if table.inRange then .ok table else .error (.tableOutOfRange table)) =
    checked offset count := by
  have hfits : (⟨offset.toNat, count.toNat⟩ : PointerTable).inRange ↔
      offset.toNat + 2 * count.toNat ≤ Bank.size := inRange_iff_fits _
  unfold ofNumbers checked
  by_cases hsign : 0 ≤ offset ∧ 0 ≤ count
  · have hrange : offset.toNat + 2 * count.toNat ≤ Bank.size ↔
        offset + 2 * count ≤ Bank.size := by omega
    simp [hsign, hfits, hrange, bind, Except.bind]
  · have hout : ¬ (0 ≤ offset ∧ 0 ≤ count ∧ offset + 2 * count ≤ Bank.size) :=
      fun h => hsign ⟨h.1, h.2.1⟩
    simp [hsign, hout, bind, Except.bind]

theorem ofLine_of_overflows (h : Overflows a line) :
    ofLine a number (Text.trim line) = .error .overflow := by
  unfold ofLine
  simp only [numberAt_trim, h.checked, true_and]
  rcases h.field with hfirst | ⟨hfound, hsecond⟩
  · rw [if_pos hfirst]
    rfl
  · obtain ⟨offset, hoffset⟩ := Option.isSome_iff_exists.1 hfound
    rw [if_pos hsecond, hoffset]
    split_ifs <;> rfl

theorem ofLine_of_calm (h : ¬ Overflows a line) :
    ofLine a number (Text.trim line) =
      match number? line 0, number? line 1 with
      | none, _ => .error (.badLine number .offset (String.ofList (Text.trim line)))
      | some _, none => .error (.badLine number .count (String.ofList (Text.trim line)))
      | some offset, some count => checked offset count := by
  have hfirst : ¬ (a = .checked ∧ overflowsAt line 0) := fun ⟨ha, hfield⟩ => h ⟨ha, .inl hfield⟩
  unfold ofLine
  simp only [numberAt_trim, if_neg hfirst]
  cases hoffset : number? line 0 with
  | none => rfl
  | some offset =>
    have hsecond : ¬ (a = .checked ∧ overflowsAt line 1) :=
      fun ⟨ha, hfield⟩ => h ⟨ha, .inr ⟨hoffset ▸ rfl, hfield⟩⟩
    simp only [if_neg hsecond]
    cases number? line 1 with
    | none => rfl
    | some count => exact ofNumbers_bind_inRange offset count

theorem checked_eq_ok_iff {offset count : Int} :
    checked offset count = .ok t ↔
      offset = t.offset ∧ count = t.count ∧ t.offset + 2 * t.count ≤ Bank.size := by
  obtain ⟨o, c⟩ := t
  unfold checked
  split_ifs with h
  · simp only [Except.ok.injEq, PointerTable.mk.injEq]
    omega
  · simp only [false_iff]
    omega

theorem checked_eq_error_iff {offset count : Int} :
    checked offset count = .error cause ↔
      (offset < 0 ∨ count < 0 ∨ Bank.size < offset + 2 * count) ∧
        cause = .tableOutOfRange ⟨offset.toNat, count.toNat⟩ := by
  have hout : ¬ (0 ≤ offset ∧ 0 ≤ count ∧ offset + 2 * count ≤ Bank.size) ↔
      offset < 0 ∨ count < 0 ∨ Bank.size < offset + 2 * count := by omega
  unfold checked
  rw [← hout]
  split_ifs with h
  · simp [h]
  · simp [h, eq_comm]

theorem ofLine_eq_ok_iff : ofLine a number (Text.trim line) = .ok t ↔ Describes line t := by
  constructor
  · intro h
    by_cases hoverflows : Overflows a line
    · rw [ofLine_of_overflows hoverflows] at h
      contradiction
    rw [ofLine_of_calm hoverflows] at h
    split at h
    · contradiction
    · contradiction
    · obtain ⟨rfl, rfl, hfits⟩ := checked_eq_ok_iff.1 h
      exact ⟨‹_›, ‹_›, hfits⟩
  · intro h
    rw [ofLine_of_calm h.not_overflows, h.offset, h.count]
    exact checked_eq_ok_iff.2 ⟨rfl, rfl, h.fits⟩

theorem ofLine_eq_error_iff :
    ofLine a number (Text.trim line) = .error cause ↔ Spoils a number line cause := by
  constructor
  · intro h
    by_cases hoverflows : Overflows a line
    · rw [ofLine_of_overflows hoverflows] at h
      obtain rfl := Except.error.inj h
      exact .overflow hoverflows
    rw [ofLine_of_calm hoverflows] at h
    split at h
    · obtain rfl := Except.error.inj h
      exact .offset ‹_›
    · obtain rfl := Except.error.inj h
      exact .count hoverflows ‹_› ‹_›
    · obtain ⟨outside, rfl⟩ := checked_eq_error_iff.1 h
      exact .range hoverflows ‹_› ‹_› outside
  · intro h
    cases h with
    | offset missing => rw [ofLine_of_calm fun h => h.number?_ne_none missing, missing]
    | count calm found missing => rw [ofLine_of_calm calm, found, missing]
    | range calm first second outside =>
      rw [ofLine_of_calm calm, first, second]
      exact checked_eq_error_iff.2 ⟨outside, rfl⟩
    | overflow overflows => exact ofLine_of_overflows overflows

/-- A line has one fault at most, and none if it describes a table. -/
theorem Spoils.unique {fault : SetupFailure} (h : Spoils a number line fault)
    (h' : Spoils a number line cause) : fault = cause :=
  Except.error.inj ((ofLine_eq_error_iff.2 h).symm.trans (ofLine_eq_error_iff.2 h'))

theorem Spoils.checked_of_overflow (h : Spoils a number line .overflow) : a = .checked := by
  cases h with
  | overflow overflows => exact overflows.checked

theorem Describes.not_spoils (h : Describes line t) : ¬ Spoils a number line cause := by
  intro spoils
  have hok : ofLine a number (Text.trim line) = .ok t := ofLine_eq_ok_iff.2 h
  rw [ofLine_eq_error_iff.2 spoils] at hok
  contradiction

end Line

section Lines

variable {a : Arithmetic} {number : Nat} {lines : List (List Char)} {ts : List PointerTable}
  {cause : SetupFailure}

theorem ofLines_cons_blank {line : List Char} (h : line.all Text.isBlank) :
    ofLines a number (line :: lines) = ofLines a (number + 1) lines := by
  rw [ofLines, Text.trim_eq_nil_iff.2 h]
  rfl

theorem ofLines_cons {line : List Char} (h : ¬ line.all Text.isBlank) :
    ofLines a number (line :: lines) = (do
      return (← ofLine a number (Text.trim line)) :: (← ofLines a (number + 1) lines)) := by
  rw [ofLines, if_neg]
  rwa [List.isEmpty_iff, Text.trim_eq_nil_iff]

theorem ofLines_eq_ok_iff :
    ofLines a number lines = .ok ts ↔
      List.Forall₂ Describes (lines.filter fun line => !line.all Text.isBlank) ts := by
  induction lines generalizing number ts with
  | nil => simp [ofLines, eq_comm]
  | cons line lines ih =>
    by_cases hblank : line.all Text.isBlank
    · rw [ofLines_cons_blank hblank, ih, List.filter_cons_of_neg (by simpa using hblank)]
    · rw [ofLines_cons hblank, List.filter_cons_of_pos (by simpa using hblank),
        List.forall₂_cons_left_iff]
      simp only [bind_eq_ok, pure_eq_ok, ofLine_eq_ok_iff, ih]
      constructor
      · rintro ⟨t, describes, rest, hrest, rfl⟩
        exact ⟨t, rest, describes, hrest, rfl⟩
      · rintro ⟨t, rest, describes, hrest, rfl⟩
        exact ⟨t, describes, rest, hrest, rfl⟩

def Fine (line : List Char) : Prop := line.all Text.isBlank ∨ ∃ t, Describes line t

/-- Of lines that are numbered from `number` on, the first that is not fine has this fault. -/
def FirstSpoiled (a : Arithmetic) (number : Nat) (lines : List (List Char))
    (cause : SetupFailure) : Prop :=
  ∃ before line after, lines = before ++ line :: after ∧ (∀ earlier ∈ before, Fine earlier) ∧
    ¬ line.all Text.isBlank ∧ Spoils a (number + before.length) line cause

theorem firstSpoiled_cons_of_fine {line : List Char} (fine : Fine line) :
    FirstSpoiled a number (line :: lines) cause ↔ FirstSpoiled a (number + 1) lines cause := by
  constructor
  · rintro ⟨before, bad, after, hlines, hbefore, hbad, spoils⟩
    cases before with
    | nil =>
      obtain ⟨rfl, -⟩ := List.cons.inj hlines
      rcases fine with hblank | ⟨t, describes⟩
      · exact absurd hblank hbad
      · exact absurd spoils describes.not_spoils
    | cons first before =>
      obtain ⟨rfl, rfl⟩ := List.cons.inj hlines
      rw [List.length_cons, Nat.add_comm before.length, ← Nat.add_assoc] at spoils
      exact ⟨before, bad, after, rfl, (List.forall_mem_cons.1 hbefore).2, hbad, spoils⟩
  · rintro ⟨before, bad, after, rfl, hbefore, hbad, spoils⟩
    refine ⟨line :: before, bad, after, rfl, List.forall_mem_cons.2 ⟨fine, hbefore⟩, hbad, ?_⟩
    rwa [List.length_cons, Nat.add_comm before.length, ← Nat.add_assoc]

theorem firstSpoiled_cons {line : List Char} {fault : SetupFailure}
    (hblank : ¬ line.all Text.isBlank) (spoils : Spoils a number line fault) :
    FirstSpoiled a number (line :: lines) cause ↔ fault = cause := by
  constructor
  · rintro ⟨before, bad, after, hlines, hbefore, -, hbad⟩
    cases before with
    | nil =>
      obtain ⟨rfl, -⟩ := List.cons.inj hlines
      exact spoils.unique hbad
    | cons first before =>
      obtain ⟨rfl, -⟩ := List.cons.inj hlines
      rcases (List.forall_mem_cons.1 hbefore).1 with h | ⟨t, describes⟩
      · exact absurd h hblank
      · exact absurd spoils describes.not_spoils
  · rintro rfl
    exact ⟨[], line, lines, rfl, List.forall_mem_nil _, hblank, spoils⟩

/-- Reading lines fails at the first that is not fine. -/
theorem ofLines_eq_error_iff :
    ofLines a number lines = .error cause ↔ FirstSpoiled a number lines cause := by
  induction lines generalizing number with
  | nil => simp [ofLines, FirstSpoiled]
  | cons line lines ih =>
    by_cases hblank : line.all Text.isBlank
    · rw [ofLines_cons_blank hblank, ih, firstSpoiled_cons_of_fine (.inl hblank)]
    · rw [ofLines_cons hblank]
      cases hline : ofLine a number (Text.trim line) with
      | error fault =>
        rw [firstSpoiled_cons hblank (ofLine_eq_error_iff.1 hline)]
        exact ⟨Except.error.inj, congrArg Except.error⟩
      | ok t =>
        rw [firstSpoiled_cons_of_fine (.inr ⟨t, ofLine_eq_ok_iff.1 hline⟩), ← ih]
        cases ofLines a (number + 1) lines <;> simp [bind, Except.bind, pure, Except.pure]

end Lines

theorem checked_of_ofFile {a : Arithmetic} {text : String}
    (h : ofFile a text = .error .overflow) : a = .checked := by
  obtain ⟨_, _, _, _, _, _, spoils⟩ := ofLines_eq_error_iff.1 h
  exact spoils.checked_of_overflow

end BankTrace.PointerTable
