import BankTrace.CommandLine.Request
import BankTrace.Proofs.Files
import BankTrace.Proofs.Numerals

namespace BankTrace

namespace Medium

def word : Medium → String
  | text => "text"
  | html => "html"

/-- A name is that of a medium, its ASCII letters being in either case. -/
def Named (m : Medium) (name : String) : Prop := name.toList.map Char.toLower = m.word.toList

theorem ofName_eq_ok_iff {name : String} {m : Medium} : ofName name = .ok m ↔ m.Named name := by
  unfold ofName Named
  constructor
  · intro h
    split at h
    · rename_i hname
      rw [← Except.ok.inj h, word, ← hname, String.toList_ofList]
    · rename_i hname
      rw [← Except.ok.inj h, word, ← hname, String.toList_ofList]
    · contradiction
  · intro h
    rw [h, String.ofList_toList]
    cases m <;> rfl

theorem ofName_ne_overflow (name : String) : ofName name ≠ .error .overflow := by
  unfold ofName
  split <;> simp

end Medium

namespace CommandLine.Flag

def spellings : Flag → List String
  | .switch .html => ["--html"]
  | .switch .roundBrackets => ["--round-brackets"]
  | .switch .summary => ["--stats"]
  | .switch .help => ["-h", "--help"]
  | .setting .dialect => ["--dialect"]
  | .setting .pointerFile => ["--codepointers"]
  | .setting .table => ["--table"]
  | .setting .settingsFile => ["--config"]
  | .setting .output => ["--output"]

theorem ofText?_eq_some_iff {argument : String} {flag : Flag} :
    ofText? argument = some flag ↔ argument ∈ flag.spellings := by
  constructor
  · intro h
    unfold ofText? at h
    split at h <;> first | contradiction | (rw [← Option.some.inj h]; decide)
  · intro h
    cases flag with
    | switch s =>
      cases s with
      | help =>
        simp only [spellings, List.mem_cons, List.not_mem_nil, or_false] at h
        rcases h with rfl | rfl <;> rfl
      | _ => rw [List.mem_singleton.1 h, ofText?]
    | setting s => cases s <;> rw [List.mem_singleton.1 h, ofText?]

end CommandLine.Flag

namespace PointerTable

variable {a : Arithmetic} {n : Nat} {text front back : List Char} {argument : String}
  {t : PointerTable}

theorem numberIn_of_read? (h : Numeral.read? text = some (n : Int)) :
    numberIn a text = .ok (some (n : Int)) := by
  have hcalm : ¬ Numeral.overflows text := by
    intro hoverflows
    rw [Numeral.read?_of_overflows hoverflows, Option.some.injEq] at h
    omega
  simp [numberIn, hcalm, h]

theorem splitColon?_eq_some_iff :
    splitColon? text = some (front, back) ↔ text = front ++ ':' :: back ∧ ':' ∉ front := by
  fun_induction splitColon? text generalizing front with
  | case1 => simp
  | case2 rest =>
    cases front with
    | nil => simp
    | cons c front => simp +contextual [eq_comm]
  | case3 c rest hc ih =>
    cases front with
    | nil => simpa [eq_comm] using fun h => absurd h hc
    | cons d front =>
      simp only [Option.map_eq_some_iff, Prod.exists, Prod.mk.injEq, List.cons.injEq,
        List.cons_append, List.mem_cons, not_or]
      constructor
      · rintro ⟨before, after, h, ⟨rfl, rfl⟩, rfl⟩
        obtain ⟨rfl, hfront⟩ := ih.1 h
        exact ⟨⟨rfl, rfl⟩, Ne.symm hc, hfront⟩
      · rintro ⟨⟨rfl, rfl⟩, -, hfront⟩
        exact ⟨front, back, ih.2 ⟨rfl, hfront⟩, ⟨rfl, rfl⟩, rfl⟩

/-- The numbers of a table stand before and after the first colon of an argument. -/
def NamesTable (argument : String) (t : PointerTable) : Prop :=
  ∃ front back, argument.toList = front ++ ':' :: back ∧ ':' ∉ front ∧
    Numeral.read? front = some (t.offset : Int) ∧ Numeral.read? back = some (t.count : Int)

/-- A number that is read of an argument overflows. The second one is read only if there is a
first. -/
def OverflowsArgument (argument : String) : Prop :=
  ∃ front back, argument.toList = front ++ ':' :: back ∧ ':' ∉ front ∧
    (Numeral.overflows front ∨ (Numeral.read? front).isSome ∧ Numeral.overflows back)

theorem ofNumbers_eq_ok_iff {offset count : Int} :
    ofNumbers offset count = .ok t ↔ offset = t.offset ∧ count = t.count := by
  obtain ⟨o, c⟩ := t
  unfold ofNumbers
  split_ifs with h
  · simp only [Except.ok.injEq, PointerTable.mk.injEq]
    omega
  · simp only [false_iff]
    omega

theorem ofNumbers_ne_overflow (offset count : Int) :
    ofNumbers offset count ≠ .error .overflow := by
  unfold ofNumbers
  split_ifs <;> simp

theorem numberIn_eq_ok_iff {value : Option Int} : numberIn a text = .ok value ↔
    ¬ (a = .checked ∧ Numeral.overflows text) ∧ Numeral.read? text = value := by
  unfold numberIn
  split_ifs with h <;> simp [h]

theorem numberIn_eq_error_iff {cause : SetupFailure} : numberIn a text = .error cause ↔
    (a = .checked ∧ Numeral.overflows text) ∧ cause = .overflow := by
  unfold numberIn
  split_ifs with h
  · simp only [h, true_and, Except.error.injEq, eq_comm]
  · simp [h]

theorem ofArgument_eq_ok_iff : ofArgument a argument = .ok t ↔ NamesTable argument t := by
  unfold ofArgument
  constructor
  · intro h
    split at h
    · rename_i front back hsplit
      obtain ⟨hargument, hfront⟩ := splitColon?_eq_some_iff.1 hsplit
      obtain ⟨first, hfirst, h⟩ := bind_eq_ok.1 h
      cases first with
      | none => contradiction
      | some offset =>
        obtain ⟨second, hsecond, h⟩ := bind_eq_ok.1 h
        cases second with
        | none => contradiction
        | some count =>
          obtain ⟨rfl, rfl⟩ := ofNumbers_eq_ok_iff.1 h
          exact ⟨front, back, hargument, hfront, (numberIn_eq_ok_iff.1 hfirst).2,
            (numberIn_eq_ok_iff.1 hsecond).2⟩
    · contradiction
  · rintro ⟨front, back, hargument, hfront, hoffset, hcount⟩
    rw [splitColon?_eq_some_iff.2 ⟨hargument, hfront⟩]
    simp only [numberIn_of_read? hoffset, numberIn_of_read? hcount, bind, Except.bind]
    exact ofNumbers_eq_ok_iff.2 ⟨rfl, rfl⟩

theorem ofArgument_eq_overflow_iff :
    ofArgument a argument = .error .overflow ↔ a = .checked ∧ OverflowsArgument argument := by
  constructor
  · intro h
    unfold ofArgument at h
    split at h
    · rename_i front back hsplit
      obtain ⟨hargument, hfront⟩ := splitColon?_eq_some_iff.1 hsplit
      rcases bind_eq_error.1 h with h | ⟨first, hfirst, h⟩
      · obtain ⟨⟨checked, hoverflows⟩, -⟩ := numberIn_eq_error_iff.1 h
        exact ⟨checked, front, back, hargument, hfront, .inl hoverflows⟩
      cases first with
      | none => exact nomatch Except.error.inj h
      | some offset =>
        obtain ⟨-, hoffset⟩ := numberIn_eq_ok_iff.1 hfirst
        rcases bind_eq_error.1 h with h | ⟨second, -, h⟩
        · obtain ⟨⟨checked, hoverflows⟩, -⟩ := numberIn_eq_error_iff.1 h
          exact ⟨checked, front, back, hargument, hfront, .inr ⟨hoffset ▸ rfl, hoverflows⟩⟩
        cases second with
        | none => exact nomatch Except.error.inj h
        | some count => exact absurd h (ofNumbers_ne_overflow _ _)
    · exact nomatch Except.error.inj h
  · rintro ⟨rfl, front, back, hargument, hfront, hoverflows⟩
    unfold ofArgument
    rw [splitColon?_eq_some_iff.2 ⟨hargument, hfront⟩]
    by_cases hfirst : Numeral.overflows front
    · exact bind_eq_error.2 (.inl (numberIn_eq_error_iff.2 ⟨⟨rfl, hfirst⟩, rfl⟩))
    obtain ⟨hfound, hsecond⟩ := hoverflows.resolve_left hfirst
    obtain ⟨offset, hoffset⟩ := Option.isSome_iff_exists.1 hfound
    refine bind_eq_error.2 (.inr ⟨_, numberIn_eq_ok_iff.2 ⟨fun h => hfirst h.2, hoffset⟩, ?_⟩)
    exact bind_eq_error.2 (.inl (numberIn_eq_error_iff.2 ⟨⟨rfl, hsecond⟩, rfl⟩))

theorem OverflowsArgument.not_namesTable (h : OverflowsArgument argument) :
    ¬ NamesTable argument t := by
  intro names
  have hok : ofArgument .checked argument = .ok t := ofArgument_eq_ok_iff.2 names
  rw [ofArgument_eq_overflow_iff.2 ⟨rfl, h⟩] at hok
  contradiction

def named? (argument : String) : Option PointerTable := (ofArgument .wrapping argument).toOption

theorem named?_eq_some_iff : named? argument = some t ↔ NamesTable argument t := by
  rw [← ofArgument_eq_ok_iff (a := .wrapping), named?]
  cases ofArgument .wrapping argument <;> simp [Except.toOption]

/-- Which table an argument names does not depend on arithmetic. -/
theorem toOption_ofArgument (a : Arithmetic) (argument : String) :
    (ofArgument a argument).toOption = named? argument := by
  ext t
  rw [named?_eq_some_iff, ← ofArgument_eq_ok_iff (a := a)]
  cases ofArgument a argument <;> simp [Except.toOption]

end PointerTable

end BankTrace
