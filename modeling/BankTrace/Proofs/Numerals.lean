import BankTrace.Proofs.Blanks

namespace BankTrace.Numeral

def IsDigit (radix : Nat) (c : Char) (d : Nat) : Prop :=
  d < radix ∧ (c = d.digitChar ∨ c = d.digitChar.toUpper)

instance (radix : Nat) (c : Char) (d : Nat) : Decidable (IsDigit radix c d) :=
  inferInstanceAs (Decidable (_ ∧ _))

/-- One or more digits, the most significant one first, and the number they denote. -/
inductive Digits (radix : Nat) : List Char → Nat → Prop
  | single {c : Char} {d : Nat} (digit : IsDigit radix c d) : Digits radix [c] d
  | snoc {text : List Char} {c : Char} {n d : Nat} (front : Digits radix text n)
      (digit : IsDigit radix c d) : Digits radix (text ++ [c]) (radix * n + d)

/-- What may stand in front of hexadecimal digits. -/
def hexLeads : List (List Char) := [['0', 'x'], ['0', 'X'], ['#'], ['$']]

/-- A number without a sign, in one of the notations of pointer files. -/
inductive Magnitude : List Char → Nat → Prop
  | hexadecimal {lead text : List Char} {n : Nat} (led : lead ∈ hexLeads)
      (digits : Digits 16 text n) : Magnitude (lead ++ text) n
  | octal {text : List Char} {n : Nat} (digits : Digits 8 text n) : Magnitude ('0' :: text) n
  | decimal {text : List Char} {n : Nat} (digits : Digits 10 text n)
      (zero : text.head? = some '0' → text = ['0']) : Magnitude text n

/-- A number of at most 63 bits with an optional sign. -/
inductive Written : List Char → Int → Prop
  | bare {text : List Char} {n : Nat} (magnitude : Magnitude text n) (small : n < 2 ^ 63) :
      Written text n
  | plus {text : List Char} {n : Nat} (magnitude : Magnitude text n) (small : n < 2 ^ 63) :
      Written ('+' :: text) n
  | minus {text : List Char} {n : Nat} (magnitude : Magnitude text n) (small : n < 2 ^ 63) :
      Written ('-' :: text) (-n)

/-- Digits with a sign in front, within 64 bits. -/
inductive Signed (radix : Nat) : List Char → Int → Prop
  | plus {text : List Char} {n : Nat} (digits : Digits radix text n) (small : n < 2 ^ 63) :
      Signed radix ('+' :: text) n
  | minus {text : List Char} {n : Nat} (digits : Digits radix text n) (small : n ≤ 2 ^ 63) :
      Signed radix ('-' :: text) (-n)

/-- Signed digits behind the characters that tell their radix. -/
inductive InnerSigned : List Char → Int → Prop
  | hexadecimal {lead text : List Char} {v : Int} (led : lead ∈ hexLeads)
      (signed : Signed 16 text v) : InnerSigned (lead ++ text) v
  | octal {text : List Char} {v : Int} (signed : Signed 8 text v) : InnerSigned ('0' :: text) v

/-- A number with a sign in front of its digits that is not the first character, or not the only
sign. A number that is negative twice is negated within 64 bits. -/
inductive DoublySigned : List Char → Int → Prop
  | bare {text : List Char} {v : Int} (inner : InnerSigned text v) : DoublySigned text v
  | plus {text : List Char} {v : Int} (inner : InnerSigned text v ∨ Signed 10 text v) :
      DoublySigned ('+' :: text) v
  | minus {text : List Char} {v : Int} (inner : InnerSigned text v ∨ Signed 10 text v) :
      DoublySigned ('-' :: text) (Int.bmod (-v) (2 ^ 64))

def signs : List Char := ['+', '-']

def marks : List Char := ['x', 'X', '#', '$']

section Reading

variable {radix n d : Nat} {c : Char} {text : List Char} {v w : Int}

def radixes : List Nat := [8, 10, 16]

theorem digit?_eq_none (h : 128 ≤ c.toNat) (radix : Nat) : digit? radix c = none := by
  have above : ∀ bound : Char, bound.toNat < 128 → ¬ c ≤ bound := by
    intro bound hbound hle
    have : c.toNat ≤ bound.toNat := hle
    omega
  simp [digit?, above]

theorem digit?_eq_some_iff (hradix : radix ∈ radixes) :
    digit? radix c = some d ↔ IsDigit radix c d := by
  constructor
  · intro h
    have ascii : ∀ radix ∈ radixes, ∀ n < 128, ∀ d ∈ digit? radix (Char.ofNat n),
        d < radix ∧ (Char.ofNat n = d.digitChar ∨ Char.ofNat n = d.digitChar.toUpper) := by decide
    have hlt : c.toNat < 128 := by
      by_contra hge
      rw [digit?_eq_none (not_lt.1 hge)] at h
      contradiction
    have := ascii radix hradix c.toNat hlt d
    rw [Char.ofNat_toNat] at this
    exact this h
  · rintro ⟨hlt, hc⟩
    have letters : ∀ radix ∈ radixes, ∀ d < radix,
        digit? radix d.digitChar = some d ∧ digit? radix d.digitChar.toUpper = some d := by decide
    rcases hc with rfl | rfl
    · exact (letters radix hradix d hlt).1
    · exact (letters radix hradix d hlt).2

theorem Digits.ne_nil (h : Digits radix text n) : text ≠ [] := by
  cases h <;> simp

theorem Digits.digits?_eq (hradix : radix ∈ radixes) (h : Digits radix text n) :
    digits? radix text = some n := by
  induction h with
  | single digit => simp [digits?, (digit?_eq_some_iff hradix).2 digit]
  | snoc front digit ih =>
    rw [digits?_append, ih, Option.bind_some, (digit?_eq_some_iff hradix).2 digit]
    rfl

theorem digits_of_digits? (hradix : radix ∈ radixes) (hne : text ≠ [])
    (h : digits? radix text = some n) : Digits radix text n := by
  induction text using List.reverseRecOn generalizing n with
  | nil => exact absurd rfl hne
  | append_singleton front c ih =>
    rw [digits?_append, Option.bind_eq_some_iff] at h
    obtain ⟨m, hfront, hlast⟩ := h
    obtain ⟨d, hd, rfl⟩ := Option.map_eq_some_iff.1 hlast
    have digit := (digit?_eq_some_iff hradix).1 hd
    by_cases hempty : front = []
    · subst hempty
      obtain rfl : 0 = m := Option.some.inj hfront
      simpa using Digits.single digit
    · exact .snoc (ih hempty hfront) digit

theorem natural?_eq_some_iff (hradix : radix ∈ radixes) :
    natural? radix text = some n ↔ Digits radix text n := by
  constructor
  · intro h
    unfold natural? at h
    split_ifs at h with hempty
    exact digits_of_digits? hradix (by simpa using hempty) h
  · exact fun h => natural?_eq h.ne_nil (h.digits?_eq hradix)

theorem Digits.not_mem (hradix : radix ∈ radixes) (h : Digits radix text n)
    (hc : digit? 16 c = none) : c ∉ text := by
  intro hmem
  have hsome := isSome_digit?_of_mem (h.digits?_eq hradix) hmem
  obtain ⟨d, hd⟩ := Option.isSome_iff_exists.1 hsome
  obtain ⟨hlt, hletter⟩ := (digit?_eq_some_iff hradix).1 hd
  have hle : ∀ radix ∈ radixes, radix ≤ 16 := by decide
  have : IsDigit 16 c d := ⟨hlt.trans_le (hle radix hradix), hletter⟩
  rw [← digit?_eq_some_iff (by decide), hc] at this
  contradiction

theorem bind_within64?_eq_some_iff (hradix : radix ∈ radixes) (sign : Nat → Int) :
    ((natural? radix text).bind fun n => within64? (sign n)) = some v ↔
      ∃ n, Digits radix text n ∧ sign n = v ∧ -2 ^ 63 ≤ v ∧ v < 2 ^ 63 := by
  rw [Option.bind_eq_some_iff]
  refine exists_congr fun n => and_congr (natural?_eq_some_iff hradix) ?_
  simp only [within64?, Option.ite_none_right_eq_some, Option.some.injEq]
  constructor
  · rintro ⟨hrange, rfl⟩
    exact ⟨rfl, hrange⟩
  · rintro ⟨rfl, hrange⟩
    exact ⟨hrange, rfl⟩

theorem integer?_eq_some_iff (hradix : radix ∈ radixes) :
    integer? radix text = some v ↔
      (∃ n : Nat, Digits radix text n ∧ n < 2 ^ 63 ∧ v = n) ∨ Signed radix text v := by
  constructor
  · intro h
    unfold integer? at h
    split at h
    · obtain ⟨n, digits, rfl, hmin, -⟩ := (bind_within64?_eq_some_iff hradix _).1 h
      exact .inr (.minus digits (by omega))
    · obtain ⟨n, digits, rfl, -, hmax⟩ := (bind_within64?_eq_some_iff hradix _).1 h
      exact .inr (.plus digits (by omega))
    · obtain ⟨n, digits, rfl, -, hmax⟩ := (bind_within64?_eq_some_iff hradix _).1 h
      exact .inl ⟨n, digits, by omega, rfl⟩
  · rintro (⟨n, digits, small, rfl⟩ | signed)
    · have hminus := digits.not_mem hradix (by decide : digit? 16 '-' = none)
      have hplus := digits.not_mem hradix (by decide : digit? 16 '+' = none)
      unfold integer?
      split
      · simp at hminus
      · simp at hplus
      · exact (bind_within64?_eq_some_iff hradix _).2 ⟨n, digits, rfl, by omega, by omega⟩
    · cases signed with
      | plus digits small =>
        exact (bind_within64?_eq_some_iff hradix _).2 ⟨_, digits, rfl, by omega, by omega⟩
      | minus digits small =>
        exact (bind_within64?_eq_some_iff hradix _).2 ⟨_, digits, rfl, by omega, by omega⟩

theorem Signed.exists_sign (h : Signed radix text v) :
    ∃ sign ∈ signs, ∃ rest, text = sign :: rest ∧ ∃ n, Digits radix rest n := by
  cases h with
  | plus digits => exact ⟨_, by decide, _, rfl, _, digits⟩
  | minus digits => exact ⟨_, by decide, _, rfl, _, digits⟩

theorem unsigned?_hexadecimal {lead : List Char} (led : lead ∈ hexLeads) (text : List Char) :
    unsigned? (lead ++ text) = integer? 16 text := by
  simp only [hexLeads, List.mem_cons, List.not_mem_nil, or_false] at led
  rcases led with rfl | rfl | rfl | rfl <;> rfl

theorem unsigned?_octal (hx : c ≠ 'x') (hX : c ≠ 'X') (text : List Char) :
    unsigned? ('0' :: c :: text) = integer? 8 (c :: text) := by
  unfold unsigned?
  split <;> simp_all

theorem unsigned?_decimal (zero : text.head? = some '0' → text = ['0'])
    (hhash : text.head? ≠ some '#') (hdollar : text.head? ≠ some '$') :
    unsigned? text = integer? 10 text := by
  unfold unsigned?
  split <;> simp_all

theorem Magnitude.unsigned?_eq (h : Magnitude text n) (small : n < 2 ^ 63) :
    unsigned? text = some (n : Int) := by
  cases h with
  | hexadecimal led digits =>
    rw [unsigned?_hexadecimal led, integer?_eq_some_iff (by decide)]
    exact .inl ⟨n, digits, small, rfl⟩
  | octal digits =>
    obtain ⟨c, rest, rfl⟩ := List.exists_cons_of_ne_nil digits.ne_nil
    have hx := digits.not_mem (by decide) (by decide : digit? 16 'x' = none)
    have hX := digits.not_mem (by decide) (by decide : digit? 16 'X' = none)
    rw [List.mem_cons, not_or] at hx hX
    rw [unsigned?_octal (Ne.symm hx.1) (Ne.symm hX.1), integer?_eq_some_iff (by decide)]
    exact .inl ⟨n, digits, small, rfl⟩
  | decimal digits zero =>
    have hhash := digits.not_mem (by decide) (by decide : digit? 16 '#' = none)
    have hdollar := digits.not_mem (by decide) (by decide : digit? 16 '$' = none)
    rw [unsigned?_decimal zero (fun h => hhash (List.mem_of_head? h))
      (fun h => hdollar (List.mem_of_head? h)), integer?_eq_some_iff (by decide)]
    exact .inl ⟨n, digits, small, rfl⟩

theorem InnerSigned.unsigned?_eq (h : InnerSigned text v) : unsigned? text = some v := by
  cases h with
  | hexadecimal led signed =>
    rw [unsigned?_hexadecimal led, integer?_eq_some_iff (by decide)]
    exact .inr signed
  | octal signed =>
    obtain ⟨sign, hsign, rest, rfl, -⟩ := signed.exists_sign
    have hletters : ∀ sign ∈ signs, sign ≠ 'x' ∧ sign ≠ 'X' := by simp [signs]
    rw [unsigned?_octal (hletters sign hsign).1 (hletters sign hsign).2, integer?_eq_some_iff (by decide)]
    exact .inr signed

theorem Signed.unsigned?_eq (h : Signed 10 text v) : unsigned? text = some v := by
  obtain ⟨sign, hsign, rest, rfl, -⟩ := h.exists_sign
  have hmarks : ∀ sign ∈ signs, sign ≠ '0' ∧ sign ≠ '#' ∧ sign ≠ '$' := by simp [signs]
  obtain ⟨hzero, hhash, hdollar⟩ := hmarks sign hsign
  rw [unsigned?_decimal (by simp [hzero]) (by simp [hhash]) (by simp [hdollar]),
    integer?_eq_some_iff (by decide)]
  exact .inr h

theorem unsigned?_eq_some_iff :
    unsigned? text = some v ↔
      (∃ n : Nat, Magnitude text n ∧ n < 2 ^ 63 ∧ v = n) ∨
        InnerSigned text v ∨ Signed 10 text v := by
  constructor
  · intro h
    have hexadecimal : ∀ lead text : List Char, lead ∈ hexLeads → integer? 16 text = some v →
        (∃ n : Nat, Magnitude (lead ++ text) n ∧ n < 2 ^ 63 ∧ v = n) ∨
          InnerSigned (lead ++ text) v ∨ Signed 10 (lead ++ text) v := by
      intro lead text led h
      rcases (integer?_eq_some_iff (by decide)).1 h with ⟨n, digits, small, hv⟩ | signed
      · exact .inl ⟨n, .hexadecimal led digits, small, hv⟩
      · exact .inr (.inl (.hexadecimal led signed))
    unfold unsigned? at h
    split at h
    · exact hexadecimal ['0', 'x'] _ (by decide) h
    · exact hexadecimal ['0', 'X'] _ (by decide) h
    · exact hexadecimal ['#'] _ (by decide) h
    · exact hexadecimal ['$'] _ (by decide) h
    · rcases (integer?_eq_some_iff (by decide)).1 h with ⟨n, digits, small, hv⟩ | signed
      · exact .inl ⟨n, .octal digits, small, hv⟩
      · exact .inr (.inl (.octal signed))
    · rcases (integer?_eq_some_iff (by decide)).1 h with ⟨n, digits, small, hv⟩ | signed
      · refine .inl ⟨n, .decimal digits fun hzero => ?_, small, hv⟩
        obtain ⟨rest, rfl⟩ := List.head?_eq_some_iff.1 hzero
        cases rest with
        | nil => rfl
        | cons c rest => simp_all
      · exact .inr (.inr signed)
  · rintro (⟨n, magnitude, small, rfl⟩ | inner | signed)
    · exact magnitude.unsigned?_eq small
    · exact inner.unsigned?_eq
    · exact signed.unsigned?_eq

end Reading

/-- A character that occurs in no number. -/
structure Foreign (c : Char) : Prop where
  digit : digit? 16 c = none
  mark : c ∉ marks
  sign : c ∉ signs

section Characters

variable {radix n : Nat} {c : Char} {text : List Char} {v w : Int}

theorem foreign_of_isBlank (h : Text.isBlank c) : Foreign c := by
  have symbols : (marks ++ signs).all fun c => !Text.isBlank c := by decide
  have hsymbol : ∀ {c : Char}, c ∈ marks ++ signs → ¬ Text.isBlank c := fun hmem => by
    simpa using List.all_eq_true.1 symbols _ hmem
  have letters : ∀ d < 16, ¬ Text.isBlank d.digitChar ∧ ¬ Text.isBlank d.digitChar.toUpper := by
    decide
  refine ⟨Option.eq_none_iff_forall_ne_some.2 fun d hd => ?_,
    fun hmem => hsymbol (List.mem_append_left _ hmem) h,
    fun hmem => hsymbol (List.mem_append_right _ hmem) h⟩
  obtain ⟨hlt, rfl | rfl⟩ := (digit?_eq_some_iff (by decide)).1 hd
  · exact (letters d hlt).1 h
  · exact (letters d hlt).2 h

theorem not_mem_lead {lead : List Char} (led : lead ∈ hexLeads) (hc : digit? 16 c = none)
    (hmark : c ∉ marks) : c ∉ lead := by
  intro hmem
  have hlead : ∀ lead ∈ hexLeads, lead.all fun c => c = '0' ∨ c ∈ marks := by decide
  rcases of_decide_eq_true (List.all_eq_true.1 (hlead lead led) c hmem) with rfl | h
  · exact nomatch hc
  · exact hmark h

theorem Magnitude.not_mem (h : Magnitude text n) (hc : digit? 16 c = none) (hmark : c ∉ marks) :
    c ∉ text := by
  cases h with
  | hexadecimal led digits =>
    exact List.not_mem_append (not_mem_lead led hc hmark) (digits.not_mem (by decide) hc)
  | octal digits =>
    refine List.not_mem_cons_of_ne_of_not_mem ?_ (digits.not_mem (by decide) hc)
    rintro rfl
    exact nomatch hc
  | decimal digits zero => exact digits.not_mem (by decide) hc

theorem Magnitude.sign_notMem (h : Magnitude text n) (hc : c ∈ signs) : c ∉ text := by
  simp only [signs, List.mem_cons, List.not_mem_nil, or_false] at hc
  rcases hc with rfl | rfl
  · exact h.not_mem (by decide) (by decide)
  · exact h.not_mem (by decide) (by decide)

theorem Signed.not_mem (hradix : radix ∈ radixes) (h : Signed radix text v) (hc : Foreign c) :
    c ∉ text := by
  obtain ⟨sign, hsign, rest, rfl, n, digits⟩ := h.exists_sign
  refine List.not_mem_cons_of_ne_of_not_mem ?_ (digits.not_mem hradix hc.digit)
  rintro rfl
  exact hc.sign hsign

theorem InnerSigned.not_mem (h : InnerSigned text v) (hc : Foreign c) : c ∉ text := by
  cases h with
  | hexadecimal led signed =>
    exact List.not_mem_append (not_mem_lead led hc.digit hc.mark) (signed.not_mem (by decide) hc)
  | octal signed =>
    refine List.not_mem_cons_of_ne_of_not_mem ?_ (signed.not_mem (by decide) hc)
    rintro rfl
    exact nomatch hc.digit

theorem not_mem_of_written (h : Written text v ∨ DoublySigned text v) (hc : Foreign c) :
    c ∉ text := by
  have hplus : c ≠ '+' := fun he => hc.sign (he ▸ by decide)
  have hminus : c ≠ '-' := fun he => hc.sign (he ▸ by decide)
  have hinner : ∀ {text : List Char} {v : Int}, InnerSigned text v ∨ Signed 10 text v → c ∉ text :=
    fun h => h.elim (·.not_mem hc) (·.not_mem (by decide) hc)
  rcases h with written | doubly
  · cases written with
    | bare magnitude => exact magnitude.not_mem hc.digit hc.mark
    | plus magnitude =>
      exact List.not_mem_cons_of_ne_of_not_mem hplus (magnitude.not_mem hc.digit hc.mark)
    | minus magnitude =>
      exact List.not_mem_cons_of_ne_of_not_mem hminus (magnitude.not_mem hc.digit hc.mark)
  · cases doubly with
    | bare inner => exact inner.not_mem hc
    | plus inner => exact List.not_mem_cons_of_ne_of_not_mem hplus (hinner inner)
    | minus inner => exact List.not_mem_cons_of_ne_of_not_mem hminus (hinner inner)

theorem trim_of_written (h : Written text v ∨ DoublySigned text v) : Text.trim text = text :=
  Text.trim_of_forall fun c hmem => by
    by_contra hblank
    exact not_mem_of_written h (foreign_of_isBlank (by simpa using hblank)) hmem

theorem InnerSigned.head?_ne (h : InnerSigned text v) {sign : Char} (hsign : sign ∈ signs) :
    text.head? ≠ some sign := by
  have hzero : '0' ∉ signs := by decide
  have hleads : ∀ lead ∈ hexLeads, ∃ first rest, lead = first :: rest ∧ first ∉ signs := by
    simp [hexLeads, signs]
  cases h with
  | hexadecimal led signed =>
    obtain ⟨first, rest, rfl, hfirst⟩ := hleads _ led
    exact fun h => hfirst (Option.some.inj h ▸ hsign)
  | octal signed => exact fun h => hzero (Option.some.inj h ▸ hsign)

theorem exists_sign_mem (h : InnerSigned text v ∨ Signed 10 text v) :
    ∃ sign ∈ signs, sign ∈ text := by
  have hsigned : ∀ {radix : Nat} {text : List Char}, Signed radix text v →
      ∃ sign ∈ signs, sign ∈ text := by
    intro radix text signed
    obtain ⟨sign, hsign, rest, rfl, -⟩ := signed.exists_sign
    exact ⟨sign, hsign, List.mem_cons_self⟩
  rcases h with inner | signed
  · cases inner with
    | hexadecimal led signed =>
      obtain ⟨sign, hsign, hmem⟩ := hsigned signed
      exact ⟨sign, hsign, List.mem_append_right _ hmem⟩
    | octal signed =>
      obtain ⟨sign, hsign, hmem⟩ := hsigned signed
      exact ⟨sign, hsign, List.mem_cons_of_mem _ hmem⟩
  · exact hsigned signed

theorem Magnitude.not_inner (magnitude : Magnitude text n) :
    ¬ (InnerSigned text v ∨ Signed 10 text v) := by
  intro inner
  obtain ⟨sign, hsign, hmem⟩ := exists_sign_mem inner
  exact magnitude.sign_notMem hsign hmem

end Characters

section Outer

variable {text core : List Char} {v : Int}

theorem Signed.bounds {radix : Nat} (h : Signed radix text v) : -2 ^ 63 ≤ v ∧ v < 2 ^ 63 := by
  cases h <;> omega

theorem InnerSigned.bounds (h : InnerSigned text v) : -2 ^ 63 ≤ v ∧ v < 2 ^ 63 := by
  cases h with
  | hexadecimal led signed => exact signed.bounds
  | octal signed => exact signed.bounds

theorem negated_eq_bmod (h : -2 ^ 63 ≤ v ∧ v < 2 ^ 63) : negated v = Int.bmod (-v) (2 ^ 64) := by
  rw [negated, Int.bmod_def]
  push_cast
  split_ifs <;> omega

theorem read?_minus (h : Text.trim text = '-' :: core) :
    read? text = (unsigned? core).map negated := by
  simp only [read?, h]

theorem read?_plus (h : Text.trim text = '+' :: core) : read? text = unsigned? core := by
  simp only [read?, h]

theorem read?_bare (h : Text.trim text = core) (hcore : ∀ sign ∈ signs, core.head? ≠ some sign) :
    read? text = unsigned? core := by
  unfold read?
  rw [h]
  split
  · exact absurd rfl (hcore '-' (by decide))
  · exact absurd rfl (hcore '+' (by decide))
  · rfl

theorem negated_natCast (n : Nat) : negated n = -n := if_neg (by omega)

theorem negated_of_inner (h : InnerSigned text v ∨ Signed 10 text v) :
    negated v = Int.bmod (-v) (2 ^ 64) :=
  negated_eq_bmod (h.elim InnerSigned.bounds Signed.bounds)

theorem written_of_read? (h : Text.trim text = core) (hread : read? text = some v) :
    Written core v ∨ DoublySigned core v := by
  unfold read? at hread
  rw [h] at hread
  split at hread
  · obtain ⟨w, hw, rfl⟩ := Option.map_eq_some_iff.1 hread
    rcases unsigned?_eq_some_iff.1 hw with ⟨n, magnitude, small, rfl⟩ | inner
    · rw [negated_natCast]
      exact .inl (.minus magnitude small)
    · rw [negated_of_inner inner]
      exact .inr (.minus inner)
  · rcases unsigned?_eq_some_iff.1 hread with ⟨n, magnitude, small, rfl⟩ | inner
    · exact .inl (.plus magnitude small)
    · exact .inr (.plus inner)
  · rename_i hminus hplus
    rcases unsigned?_eq_some_iff.1 hread with ⟨n, magnitude, small, rfl⟩ | inner | signed
    · exact .inl (.bare magnitude small)
    · exact .inr (.bare inner)
    · obtain ⟨sign, hsign, rest, rfl, -⟩ := signed.exists_sign
      simp only [signs, List.mem_cons, List.not_mem_nil, or_false] at hsign
      rcases hsign with rfl | rfl
      · exact absurd rfl (hplus rest)
      · exact absurd rfl (hminus rest)

theorem Written.read?_eq (written : Written core v) (h : Text.trim text = core) :
    read? text = some v := by
  cases written with
  | bare magnitude small =>
    rw [read?_bare h fun sign hsign hhead => magnitude.sign_notMem hsign (List.mem_of_head? hhead)]
    exact magnitude.unsigned?_eq small
  | plus magnitude small => rw [read?_plus h, magnitude.unsigned?_eq small]
  | minus magnitude small =>
    rw [read?_minus h, magnitude.unsigned?_eq small, Option.map_some, negated_natCast]

theorem DoublySigned.read?_eq (doubly : DoublySigned core v) (h : Text.trim text = core) :
    read? text = some v := by
  have hread : ∀ {text : List Char} {v : Int}, InnerSigned text v ∨ Signed 10 text v →
      unsigned? text = some v :=
    fun inner => unsigned?_eq_some_iff.2 (.inr inner)
  cases doubly with
  | bare inner =>
    rw [read?_bare h fun sign => inner.head?_ne]
    exact inner.unsigned?_eq
  | plus inner => rw [read?_plus h, hread inner]
  | minus inner => rw [read?_minus h, hread inner, Option.map_some, negated_of_inner inner]

theorem Written.not_doublySigned {w : Int} (written : Written core v) : ¬ DoublySigned core w := by
  intro doubly
  cases written with
  | bare magnitude =>
    cases doubly with
    | bare inner => exact magnitude.not_inner (.inl inner)
    | plus => exact magnitude.sign_notMem (by decide) List.mem_cons_self
    | minus => exact magnitude.sign_notMem (by decide) List.mem_cons_self
  | plus magnitude =>
    cases doubly with
    | bare inner => exact inner.head?_ne (by decide : '+' ∈ signs) rfl
    | plus inner => exact magnitude.not_inner inner
  | minus magnitude =>
    cases doubly with
    | bare inner => exact inner.head?_ne (by decide : '-' ∈ signs) rfl
    | minus inner => exact magnitude.not_inner inner

theorem trim_eq_of_padded (padded : Text.Padded core text)
    (h : Written core v ∨ DoublySigned core v) : Text.trim text = core :=
  padded.trim_eq.trans (trim_of_written h)

theorem overflows_iff_trim :
    overflows text ↔ ∃ core, Text.trim text = '-' :: core ∧ unsigned? core = some (-2 ^ 63) := by
  unfold overflows
  split
  · rename_i core h
    simp [h]
  · rename_i hminus
    simp only [Bool.false_eq_true, false_iff, not_exists, not_and]
    exact fun core h => absurd h (hminus core)

/-- Only a number with two minus signs overflows when it is read, and that wraps around to the
number that it is without the first. -/
theorem overflows_iff : overflows text ↔
    ∃ core, Text.Padded ('-' :: core) text ∧
      (InnerSigned core (-2 ^ 63) ∨ Signed 10 core (-2 ^ 63)) := by
  have hneg : ∀ n : Nat, (-2 ^ 63 : Int) ≠ n := by omega
  rw [overflows_iff_trim]
  constructor
  · rintro ⟨core, htrim, hread⟩
    refine ⟨core, htrim ▸ Text.padded_trim text, ?_⟩
    exact (unsigned?_eq_some_iff.1 hread).resolve_left fun ⟨n, _, _, hn⟩ => hneg n hn
  · rintro ⟨core, padded, inner⟩
    exact ⟨core, trim_eq_of_padded padded (.inr (.minus inner)),
      unsigned?_eq_some_iff.2 (.inr inner)⟩

theorem read?_of_overflows (h : overflows text) : read? text = some (-2 ^ 63) := by
  obtain ⟨core, htrim, hread⟩ := overflows_iff_trim.1 h
  rw [read?_minus htrim, hread]
  rfl

/-- A text is read as a number exactly if it is one, or has a second sign in front of its digits,
blanks around it aside; and it is one exactly if it is read as one and has no second sign. -/
theorem read?_eq_some_iff (text : List Char) (v : Int) :
    (read? text = some v ↔
      ∃ core, Text.Padded core text ∧ (Written core v ∨ DoublySigned core v)) ∧
    ((∃ core, Text.Padded core text ∧ Written core v) ↔
      read? text = some v ∧ ∀ core w, Text.Padded core text → ¬ DoublySigned core w) := by
  constructor
  · constructor
    · intro hread
      exact ⟨Text.trim text, Text.padded_trim text, written_of_read? rfl hread⟩
    · rintro ⟨core, padded, written | doubly⟩
      · exact written.read?_eq (trim_eq_of_padded padded (.inl written))
      · exact doubly.read?_eq (trim_eq_of_padded padded (.inr doubly))
  · constructor
    · rintro ⟨core, padded, written⟩
      have htrim := trim_eq_of_padded padded (.inl written)
      refine ⟨written.read?_eq htrim, fun other w hother doubly => ?_⟩
      obtain rfl : other = core := (trim_eq_of_padded hother (.inr doubly)).symm.trans htrim
      exact written.not_doublySigned doubly
    · rintro ⟨hread, single⟩
      have padded := Text.padded_trim text
      exact ⟨_, padded, (written_of_read? rfl hread).resolve_right (single _ _ padded)⟩

/-- A sign behind the mark of a hexadecimal number is no number, and is read as one. -/
theorem read?_sign_behind_mark : read? "0x-1".toList = some (-1) ∧
    ∀ core v, Text.Padded core "0x-1".toList → ¬ Written core v := by
  refine ⟨rfl, fun core v padded written => ?_⟩
  have htrim : "0x-1".toList = core := trim_eq_of_padded padded (.inl written)
  have digits : Digits 16 ['1'] 1 := .single (by decide)
  have inner : InnerSigned "0x-1".toList (-1) :=
    .hexadecimal (by decide : ['0', 'x'] ∈ hexLeads) (.minus digits (by decide))
  exact written.not_doublySigned (htrim ▸ DoublySigned.bare inner)

end Outer

end BankTrace.Numeral
