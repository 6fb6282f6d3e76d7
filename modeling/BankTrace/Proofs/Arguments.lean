import BankTrace.Proofs.Spellings

namespace BankTrace.CommandLine

inductive Token
  | switch (s : Switch)
  | setting (s : Setting) (value : String)
  /-- An option at the end of the list that wants a value. -/
  | valueless (s : Setting)
  | other (argument : String)
deriving DecidableEq

/-- The pieces of an argument list. An option with a value takes the next argument, whatever it
looks like. -/
def tokens : List String → List Token
  | [] => []
  | argument :: rest =>
    match Flag.ofText? argument with
    | none => .other argument :: tokens rest
    | some (.switch s) => .switch s :: tokens rest
    | some (.setting s) =>
      match rest with
      | [] => [.valueless s]
      | value :: rest => .setting s value :: tokens rest

namespace Token

/-- A piece that cannot be accepted after those before it: an unknown option, a second image, an
option without its value or with a bad one. -/
def Faulty (before : List Token) : Token → Prop
  | switch _ => False
  | setting .dialect value => ∀ medium : Medium, ¬ medium.Named value
  | setting .table value => ∀ table, ¬ PointerTable.NamesTable value table
  | setting .pointerFile _ | setting .settingsFile _ | setting .output _ => False
  | valueless _ => True
  | other argument => argument.toList.head? = some '-' ∨ ∃ earlier, other earlier ∈ before

/-- A table argument whose numbers overflow when they are read. -/
def Overflows : Token → Prop
  | setting .table value => PointerTable.OverflowsArgument value
  | _ => False

theorem Overflows.faulty {t : Token} (h : t.Overflows) (before : List Token) : t.Faulty before := by
  match t, h with
  | setting .table _, h => exact fun _ => h.not_namesTable

def argument? : Token → Option String
  | other argument => some argument
  | _ => none

def value? (s : Setting) : Token → Option String
  | setting s' value => if s' = s then some value else none
  | _ => none

def medium? : Token → Option Medium
  | switch .html => some .html
  | setting .dialect value => (Medium.ofName value).toOption
  | _ => none

theorem medium?_eq_some_iff {t : Token} {medium : Medium} :
    t.medium? = some medium ↔ t = switch .html ∧ medium = .html ∨
      ∃ value, t = setting .dialect value ∧ medium.Named value := by
  cases t with
  | switch s => cases s <;> simp [medium?, eq_comm]
  | setting s value =>
    simp only [← Medium.ofName_eq_ok_iff]
    cases s with
    | dialect => cases h : Medium.ofName value <;> simp [medium?, h, Except.toOption]
    | _ => simp [medium?]
  | _ => simp [medium?]

end Token

def values (s : Setting) (ts : List Token) : List String := ts.filterMap (Token.value? s)

/-- What pieces ask for: the first image, the last medium and files, and all tables. -/
def Request.ofTokens (ts : List Token) : Request where
  image := (ts.filterMap Token.argument?).head?
  medium := (ts.filterMap Token.medium?).getLast?
  roundBrackets := .switch .roundBrackets ∈ ts
  pointerFile := (values .pointerFile ts).getLast?
  tables := (values .table ts).filterMap PointerTable.named?
  settingsFile := (values .settingsFile ts).getLast?
  output := (values .output ts).getLast?
  summary := .switch .summary ∈ ts

def Request.ofArguments (arguments : List String) : Request := .ofTokens (tokens arguments)

def Sound (ts : List Token) : Prop :=
  ∀ before t after, ts = before ++ t :: after → ¬ t.Faulty before

/-- A request for help stands in an argument list, and no fault before it. -/
def HelpReached (arguments : List String) : Prop :=
  ∃ before after, tokens arguments = before ++ .switch .help :: after ∧ Sound before

/-- A fault stands in an argument list, and no request for help before it. -/
def FaultReached (arguments : List String) : Prop :=
  ∃ before t after, tokens arguments = before ++ t :: after ∧ t.Faulty before ∧
    .switch .help ∉ before

/-- The first fault in an argument list overflows, and no request for help stands before it. -/
def OverflowReached (arguments : List String) : Prop :=
  ∃ before t after, tokens arguments = before ++ t :: after ∧ Sound before ∧
    .switch .help ∉ before ∧ t.Overflows

section Sound

variable {ts : List Token} {t : Token}

theorem sound_nil : Sound [] := by
  intro before t after h
  simp at h

theorem Sound.concat (h : Sound ts) (ht : ¬ t.Faulty ts) : Sound (ts ++ [t]) := by
  intro before u after hsplit
  rcases List.eq_nil_or_concat after with rfl | ⟨rest, last, rfl⟩
  · obtain ⟨rfl, heq⟩ := List.append_inj' hsplit rfl
    rwa [← (List.cons.inj heq).1]
  · rw [List.concat_eq_append, ← List.cons_append, ← List.append_assoc] at hsplit
    obtain ⟨hts, -⟩ := List.append_inj' hsplit rfl
    exact h before u rest hts

theorem Sound.not_faulty {before after : List Token} (h : Sound ts)
    (split : ts = before ++ t :: after) : ¬ t.Faulty before := h before t after split

theorem Sound.forall₂_namesTable (h : Sound ts) :
    List.Forall₂ PointerTable.NamesTable (values .table ts) (Request.ofTokens ts).tables := by
  have accepted : ∀ value ∈ values .table ts, ∃ t, PointerTable.NamesTable value t := by
    intro value hvalue
    obtain ⟨t, ht, hvalue⟩ := List.mem_filterMap.1 hvalue
    obtain ⟨before, after, split⟩ := List.append_of_mem ht
    have hfaulty := h before t after split
    cases t with
    | setting s given =>
      simp only [Token.value?, Option.ite_none_right_eq_some, Option.some.injEq] at hvalue
      obtain ⟨rfl, rfl⟩ := hvalue
      simpa [Token.Faulty] using hfaulty
    | _ => contradiction
  unfold Request.ofTokens
  generalize values .table ts = given at accepted ⊢
  induction given with
  | nil => exact .nil
  | cons value rest ih =>
    obtain ⟨t, ht⟩ := accepted value List.mem_cons_self
    rw [List.filterMap_cons_some (PointerTable.named?_eq_some_iff.2 ht)]
    exact .cons ht (ih fun value hvalue => accepted value (List.mem_cons_of_mem _ hvalue))

end Sound

namespace Request

variable {a : Arithmetic} {r : Request}

theorem ofTokens_concat (ts : List Token) (t : Token) :
    ofTokens (ts ++ [t]) = {
      image := (ofTokens ts).image.or t.argument?
      medium := t.medium?.or (ofTokens ts).medium
      roundBrackets := (ofTokens ts).roundBrackets || decide (t = .switch .roundBrackets)
      pointerFile := (t.value? .pointerFile).or (ofTokens ts).pointerFile
      tables := (ofTokens ts).tables ++
        ((t.value? .table).bind PointerTable.named?).toList
      settingsFile := (t.value? .settingsFile).or (ofTokens ts).settingsFile
      output := (t.value? .output).or (ofTokens ts).output
      summary := (ofTokens ts).summary || decide (t = .switch .summary) } := by
  have last : ∀ {α : Type} (f : Token → Option α),
      ((ts ++ [t]).filterMap f).getLast? = (f t).or (ts.filterMap f).getLast? := by
    intro α f
    cases hf : f t <;> simp [hf]
  have first : ∀ {α : Type} (f : Token → Option α),
      ((ts ++ [t]).filterMap f).head? = (ts.filterMap f).head?.or (f t) := by
    intro α f
    cases hf : f t <;> simp [hf]
  have mem : ∀ u, decide (u ∈ ts ++ [t]) = (decide (u ∈ ts) || decide (t = u)) := by
    intro u
    simp [Bool.decide_or, eq_comm]
  have tables : ((ts ++ [t]).filterMap (Token.value? .table)).filterMap PointerTable.named? =
      (ts.filterMap (Token.value? .table)).filterMap PointerTable.named? ++
        ((t.value? .table).bind PointerTable.named?).toList := by
    cases hv : t.value? .table with
    | none => simp [hv]
    | some value => cases ht : PointerTable.named? value <;> simp [hv, ht]
  simp only [ofTokens, values, last, first, mem, tables]

theorem turnOn_ofTokens (ts : List Token) (s : Switch) :
    (ofTokens ts).turnOn s = ofTokens (ts ++ [.switch s]) := by
  rw [ofTokens_concat]
  cases s <;> simp [turnOn, Token.argument?, Token.medium?, Token.value?]

theorem set_ofTokens (ts : List Token) (s : Setting) (value : String) :
    (ofTokens ts).set a value s = .ok r ↔
      ¬ Token.Faulty ts (.setting s value) ∧ r = ofTokens (ts ++ [.setting s value]) := by
  rw [ofTokens_concat]
  cases s with
  | dialect =>
    simp only [Token.Faulty, ← Medium.ofName_eq_ok_iff]
    cases h : Medium.ofName value <;>
      simp [set, Token.argument?, Token.medium?, Token.value?, h, Except.toOption, eq_comm]
  | table =>
    simp only [Token.Faulty, ← PointerTable.ofArgument_eq_ok_iff (a := a), Token.value?,
      Option.bind_some, if_true, ← PointerTable.toOption_ofArgument a]
    cases h : PointerTable.ofArgument a value <;>
      simp [set, Token.argument?, Token.medium?, h, Except.toOption, eq_comm]
  | pointerFile | settingsFile | output =>
    simp [set, Token.argument?, Token.medium?, Token.value?, Token.Faulty, eq_comm]

theorem set_eq_overflow_iff (value : String) (s : Setting) :
    r.set a value s = .error .overflow ↔ a = .checked ∧ Token.Overflows (.setting s value) := by
  cases s with
  | dialect => simp [set, Token.Overflows, map_eq_error, Medium.ofName_ne_overflow]
  | table => simp [set, Token.Overflows, map_eq_error, PointerTable.ofArgument_eq_overflow_iff]
  | pointerFile | settingsFile | output => simp [set, Token.Overflows]

theorem image_ofTokens_eq_none {ts : List Token} :
    (ofTokens ts).image = none ↔ ∀ argument, .other argument ∉ ts := by
  simp only [ofTokens, List.head?_eq_none_iff, List.filterMap_eq_nil_iff]
  constructor
  · intro h argument hmem
    simpa [Token.argument?] using h _ hmem
  · intro h t ht
    cases t <;> simp_all [Token.argument?]

theorem position_ofTokens (ts : List Token) (argument : String) :
    (ofTokens ts).position argument = .ok r ↔
      ¬ Token.Faulty ts (.other argument) ∧ r = ofTokens (ts ++ [.other argument]) := by
  have faulty : ¬ Token.Faulty ts (.other argument) ↔
      argument.toList.head? ≠ some '-' ∧ (ofTokens ts).image = none := by
    simp [Token.Faulty, image_ofTokens_eq_none]
  rw [faulty, ofTokens_concat]
  by_cases h : argument.toList.head? ≠ some '-' ∧ (ofTokens ts).image = none
  · simp [position, Token.argument?, Token.medium?, Token.value?, h, @eq_comm _ _ r]
  · simp [position, h]

theorem position_ne_overflow (argument : String) : r.position argument ≠ .error .overflow := by
  unfold position
  split_ifs <;> simp

end Request

/-- How reading the pieces `ts` ends, after those in `front`. -/
inductive Reading (a : Arithmetic) (front ts : List Token) : Except SetupFailure Order → Prop
  | help (before after : List Token) (split : ts = before ++ .switch .help :: after)
      (sound : Sound (front ++ before)) : Reading a front ts (.ok .help)
  | fault (before : List Token) (t : Token) (after : List Token) {cause : SetupFailure}
      (split : ts = before ++ t :: after) (sound : Sound (front ++ before))
      (faulty : t.Faulty (front ++ before)) (helpless : .switch .help ∉ before)
      (overflow : cause = .overflow ↔ a = .checked ∧ t.Overflows) :
      Reading a front ts (.error cause)
  | request (sound : Sound (front ++ ts)) (helpless : .switch .help ∉ ts) :
      Reading a front ts (.ok (.disassemble (.ofTokens (front ++ ts))))

namespace Reading

variable {a : Arithmetic} {front ts : List Token} {t : Token} {outcome : Except SetupFailure Order}

theorem cons (ht : t ≠ .switch .help) (h : Reading a (front ++ [t]) ts outcome) :
    Reading a front (t :: ts) outcome := by
  cases h with
  | help before after split sound =>
    exact .help (t :: before) after (by rw [split]; rfl) (by simpa using sound)
  | fault before u after split sound faulty helpless overflow =>
    exact .fault (t :: before) u after (by rw [split]; rfl) (by simpa using sound)
      (by simpa using faulty) (by simp [ht.symm, helpless]) overflow
  | request sound helpless =>
    rw [List.append_assoc, List.singleton_append] at sound ⊢
    exact .request sound (by simp [ht.symm, helpless])

theorem bind {step : Except SetupFailure Request} {rest : Request → Except SetupFailure Order}
    (hfront : Sound front) (ht : t ≠ .switch .help)
    (hstep : ∀ r, step = .ok r ↔ ¬ t.Faulty front ∧ r = .ofTokens (front ++ [t]))
    (hoverflow : step = .error .overflow ↔ a = .checked ∧ t.Overflows)
    (hrest : Sound (front ++ [t]) →
      Reading a (front ++ [t]) ts (rest (.ofTokens (front ++ [t])))) :
    Reading a front (t :: ts) (step >>= rest) := by
  cases step with
  | error cause =>
    refine .fault [] t ts rfl (by simpa using hfront) ?_ (by simp) ?_
    · by_contra hfaulty
      simpa using (hstep _).2 ⟨by simpa using hfaulty, rfl⟩
    · rw [← hoverflow, Except.error.injEq]
  | ok r =>
    obtain ⟨hfaulty, rfl⟩ := (hstep r).1 rfl
    exact (hrest (hfront.concat hfaulty)).cons ht

end Reading

theorem Order.reading_ofArguments (a : Arithmetic) (arguments : List String) (front : List Token)
    (hfront : Sound front) :
    Reading a front (tokens arguments) (Order.ofArguments a (.ofTokens front) arguments) := by
  -- Each piece that is read goes to the end of `front`, which so tells what was asked up to there.
  fun_induction tokens arguments generalizing front with
  | case1 =>
    have reading := Reading.request (a := a) (by simpa using hfront) List.not_mem_nil
    rwa [List.append_nil] at reading
  | case2 argument rest hflag ih =>
    unfold Order.ofArguments
    simp only [hflag]
    refine Reading.bind hfront (by simp) (fun _ => Request.position_ofTokens front argument) ?_
      (ih _)
    simp [Request.position_ne_overflow, Token.Overflows]
  | case3 argument rest s hflag ih =>
    unfold Order.ofArguments
    simp only [hflag]
    by_cases hs : s = .help
    · subst hs
      exact .help [] _ rfl (by simpa using hfront)
    · have switch := (ih _ (hfront.concat (t := .switch s) id)).cons (by simpa using hs)
      rw [← Request.turnOn_ofTokens] at switch
      cases s <;> first | exact switch | exact absurd rfl hs
  | case4 argument s hflag =>
    unfold Order.ofArguments
    simp only [hflag]
    exact .fault [] _ [] rfl (by simpa using hfront) trivial List.not_mem_nil
      (by simp [Token.Overflows])
  | case5 argument s hflag value rest ih =>
    unfold Order.ofArguments
    simp only [hflag]
    exact Reading.bind hfront (by simp) (fun _ => Request.set_ofTokens front s value)
      (Request.set_eq_overflow_iff value s) (ih _)

theorem split_cases {α : Type} {x y : α} {before before' after after' : List α}
    (h : before ++ x :: after = before' ++ y :: after') :
    (before = before' ∧ x = y) ∨ (∃ between, before' = before ++ x :: between) ∨
      ∃ between, before = before' ++ y :: between := by
  rcases List.append_eq_append_iff.1 h with
    ⟨_ | ⟨z, between⟩, hbefore, hafter⟩ | ⟨_ | ⟨z, between⟩, hbefore, hafter⟩
  · exact .inl ⟨by simpa using hbefore.symm, (List.cons.inj hafter).1⟩
  · rw [List.cons_append] at hafter
    obtain ⟨rfl, -⟩ := List.cons.inj hafter
    exact .inr (.inl ⟨between, hbefore⟩)
  · exact .inl ⟨by simpa using hbefore, (List.cons.inj hafter).1.symm⟩
  · rw [List.cons_append] at hafter
    obtain ⟨rfl, -⟩ := List.cons.inj hafter
    exact .inr (.inr ⟨between, hbefore⟩)

section Reached

variable {arguments : List String}

theorem FaultReached.not_helpReached (h : FaultReached arguments) : ¬ HelpReached arguments := by
  rintro ⟨front, rest, hhelp, sound⟩
  obtain ⟨before, t, after, hfault, faulty, helpless⟩ := h
  rcases split_cases (hhelp.symm.trans hfault) with
    ⟨rfl, rfl⟩ | ⟨between, rfl⟩ | ⟨between, rfl⟩
  · exact faulty
  · exact helpless (by simp)
  · exact sound.not_faulty rfl faulty

theorem OverflowReached.faultReached (h : OverflowReached arguments) : FaultReached arguments := by
  obtain ⟨before, t, after, split, -, helpless, overflows⟩ := h
  exact ⟨before, t, after, split, overflows.faulty before, helpless⟩

theorem OverflowReached.overflows {before after : List Token} {t : Token}
    (h : OverflowReached arguments) (split : tokens arguments = before ++ t :: after)
    (sound : Sound before) (faulty : t.Faulty before) : t.Overflows := by
  obtain ⟨before', u, after', split', sound', -, overflows⟩ := h
  rcases split_cases (split.symm.trans split') with
    ⟨-, rfl⟩ | ⟨between, rfl⟩ | ⟨between, rfl⟩
  · exact overflows
  · exact absurd faulty (sound'.not_faulty rfl)
  · exact absurd (overflows.faulty _) (sound.not_faulty rfl)

end Reached

/-- An argument list asks for help, has a fault, or else asks for what its pieces say. -/
theorem Order.ofArguments_cases (a : Arithmetic) (arguments : List String) :
    (HelpReached arguments ∧ Order.ofArguments a {} arguments = .ok .help) ∨
    (FaultReached arguments ∧ ∃ cause, Order.ofArguments a {} arguments = .error cause ∧
      (cause = .overflow ↔ a = .checked ∧ OverflowReached arguments)) ∨
    (¬ HelpReached arguments ∧ ¬ FaultReached arguments ∧ Sound (tokens arguments) ∧
      Order.ofArguments a {} arguments = .ok (.disassemble (.ofArguments arguments))) := by
  have reading := reading_ofArguments a arguments [] sound_nil
  rw [show Request.ofTokens [] = {} from rfl] at reading
  generalize Order.ofArguments a {} arguments = outcome at reading ⊢
  cases reading with
  | help before after split sound => exact .inl ⟨⟨before, after, split, sound⟩, rfl⟩
  | fault before t after split sound faulty helpless overflow =>
    refine .inr (.inl ⟨⟨before, t, after, split, faulty, helpless⟩, _, rfl, ?_⟩)
    rw [overflow]
    exact and_congr_right fun _ => ⟨fun h => ⟨before, t, after, split, sound, helpless, h⟩,
      fun h => h.overflows split sound faulty⟩
  | request sound helpless =>
    refine .inr (.inr ⟨?_, ?_, sound, rfl⟩)
    · rintro ⟨before, after, split, -⟩
      exact helpless (by simp [split])
    · rintro ⟨before, t, after, split, faulty, -⟩
      exact sound before t after split faulty

-- A value may look like an option.
example : Order.ofArguments .wrapping {} ["--output", "--help", "rom"] =
    .ok (.disassemble { image := some "rom", output := some "--help" }) := rfl

end BankTrace.CommandLine
