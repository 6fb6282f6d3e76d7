import BankTrace.Exploration.Follow
import BankTrace.Proofs.Move

namespace BankTrace

variable {n : Nat}

namespace Survey

theorem exists_label? {s : Survey n} {i : Nat} (h : i < n) : ∃ t, s.label? i = some t :=
  ⟨_, label?_eq_some_iff.2 ⟨h, rfl⟩⟩

theorem exists_point? {s : Survey n} {i : Nat} (h : i < n) : ∃ t, s.point? i = some t :=
  ⟨_, point?_eq_some_iff.2 ⟨h, rfl⟩⟩

theorem exists_release? {s : Survey n} {first last : Nat} (h : first ≤ last + 1) (hlt : last < n) :
    ∃ t, s.release? first last = some t :=
  Option.isSome_iff_exists.1 (release?_isSome_iff.2 ⟨h, hlt⟩)

theorem exists_claim? {s : Survey n} {first length : Nat} (h : 0 < length)
    (hle : first + length ≤ n) : ∃ t, s.claim? first length = some t :=
  Option.isSome_iff_exists.1 (claim?_isSome_iff.2 ⟨h, hle⟩)

theorem release?_claim? {s t u : Survey n} {first last : Nat} (hle : first ≤ last)
    (hc : s.claim? last 1 = some t) (hr : s.release? first last = some u) :
    t.release? first last = some u := by
  have hlt := (release?_isSome_iff.1 (Option.isSome_iff_exists.2 ⟨u, hr⟩))
  obtain ⟨v, hv⟩ := exists_release? (s := t) hlt.1 hlt.2
  rw [hv]
  congr 1
  apply ext_mark?
  intro i
  rw [mark?_of_release? hv, mark?_of_release? hr, mark?_of_claim? hc]
  by_cases hi : i = last
  · subst i
    simp only [hle, le_refl, and_self, ↓reduceIte, Option.map_map]
    rfl
  · have hout : ¬ (last < i ∧ i < last + 1) := by omega
    simp only [hi, hout, ↓reduceIte]

theorem exists_refer? {s : Survey n} {bank : Bank} {operand : Nat} (h : operand + 1 < Bank.size)
    (hn : Bank.size ≤ n) : ∃ t, s.refer? bank operand = some t := by
  obtain ⟨b, hb⟩ := Bank.isCartridge?_eq_some bank h
  obtain ⟨target, ht⟩ := Bank.pointee?_eq_some bank h
  simp only [refer?, hb, ht, Option.bind_eq_bind, Option.bind_some]
  split
  · exact exists_label? ((Bank.pointee?_lt ht).trans_le hn)
  · exact ⟨s, rfl⟩

theorem exists_annotate? {s : Survey n} {bank : Bank} {offset : Nat} {op : Opcode}
    (h : bank.Holds offset op) (hn : Bank.size ≤ n) : ∃ t, s.annotate? bank offset op = some t := by
  unfold annotate?
  split
  next hc =>
    have hr := Bank.regular_of_opcode? h.opcode
    have hfits := h.fits
    simp only [Opcode.Regular, hc] at hr
    exact exists_refer? (by omega) hn
  next => exact ⟨s, rfl⟩

end Survey

namespace Exploration

variable {bank : Bank} {x y : Exploration n}

@[simp] theorem course_report (x : Exploration n) (e : Event) : (x.report e).course = x.course := rfl

theorem change?_eq_some {f : Survey n → Option (Survey n)} {t : Survey n}
    (h : f x.survey = some t) : x.change? f = some { x with survey := t } := by
  cases x
  simp only [change?, h, Option.map_some]

theorem course_visit (x : Exploration n) (target : Nat) :
    (x.visit target).course =
      ⟨x.survey, x.survey.entering target ++ x.strands, x.rollbacks, x.recovered, x.advanced⟩ := by
  unfold visit
  by_cases h : x.survey.isCode target && !x.survey.isStart target
  · rw [if_pos h, course_report, Survey.entering, if_pos h]
    rfl
  · rw [if_neg h, Survey.entering, if_neg h]
    rfl

theorem refer?_eq_some {operand : Nat} {t : Survey n} (h : x.survey.refer? bank operand = some t) :
    x.refer? bank operand = some { x with survey := t } := by
  unfold Survey.refer? at h
  unfold refer?
  cases hc : bank.isCartridge? operand with
  | none => simp [hc] at h
  | some b =>
    cases ht : bank.pointee? operand with
    | none => simp [ht] at h
    | some target =>
      simp only [hc, ht, Option.bind_eq_bind, Option.bind_some] at h ⊢
      split at h
      next hcond => rw [if_pos hcond, change?_eq_some h]
      next hcond => rw [if_neg hcond, ← Option.some.inj h]

theorem map_course_undo? {start offset settled k : Nat} {afterCall : Bool} {waiting : List Strand}
    {t : Survey n} (hlt : offset < Bank.size)
    (hrel : x.survey.release? settled (offset + (k - 1)) = some t) :
    (x.undo? bank start offset settled afterCall k waiting).map course =
      some ⟨t, .undone start settled afterCall k :: waiting, x.rollbacks + 1, x.recovered,
        x.advanced⟩ := by
  obtain ⟨byte, hbyte⟩ := Bank.byte?_eq_some bank hlt
  have hch := change?_eq_some (x := x.report (.undone byte offset settled (offset + (k - 1))))
    (f := (·.release? settled (offset + (k - 1)))) hrel
  simp only [undo?, hbyte, Option.bind_eq_bind, Option.bind_some, hch]
  rfl

theorem map_course_proceed?_of_isLinear {start offset settled : Nat} {afterCall : Bool}
    {op : Opcode} {waiting : List Strand} {u : Survey n} (hop : op.Regular)
    (hlin : op.control.isLinear) (h : x.survey.annotate? bank offset op = some u) :
    (x.proceed? bank start offset settled afterCall op waiting).map course =
      some ⟨u, ⟨start, offset + op.length, .decode settled afterCall⟩ :: waiting, x.rollbacks,
        x.recovered, x.advanced⟩ := by
  cases hc : op.control with
  | next =>
    simp only [Survey.annotate?, hc, reduceCtorEq, ↓reduceIte, Option.some.injEq] at h
    simp only [proceed?, hc, ← h]
    rfl
  | reference =>
    have habs : op.mode.isAbsolute := by
      simp only [Opcode.Regular, hc] at hop
      exact hop.1
    simp only [Survey.annotate?, hc, ↓reduceIte] at h
    simp only [proceed?, hc, habs, ↓reduceIte, refer?_eq_some h, Option.bind_eq_bind,
      Option.bind_some]
    rfl
  | _ => simp [hc, Control.isLinear] at hlin

theorem map_course_proceed?_of_transfer {start offset settled : Nat} {afterCall : Bool}
    {op : Opcode} {waiting : List Strand} (hop : bank.Holds offset op)
    (hlin : op.control.isLinear = false) :
    (x.proceed? bank start offset settled afterCall op waiting).map course =
      some ⟨x.survey, x.survey.entering (bank.transfer? offset op) ++
        ⟨start, offset + op.length, op.control.taskAfter (offset + op.length)⟩ :: waiting,
        x.rollbacks, x.recovered, x.advanced⟩ := by
  have hr := Bank.regular_of_opcode? hop.opcode
  cases hc : op.control with
  | illegal => exact absurd hc hop.legal
  | next => simp [hc, Control.isLinear] at hlin
  | reference => simp [hc, Control.isLinear] at hlin
  | ret =>
    simp only [proceed?, Bank.transfer?, hc]
    rfl
  | branch =>
    simp only [Opcode.Regular, hc] at hr
    obtain ⟨byte, hbyte⟩ := hop.exists_byte? hr
    simp only [proceed?, Bank.transfer?, hc, hbyte, Option.bind_eq_bind, Option.bind_some]
    exact congrArg some (course_visit _ _)
  | jump =>
    simp only [Opcode.Regular, hc] at hr
    obtain ⟨target, ht⟩ := hop.exists_pointee? hr
    simp only [proceed?, Bank.transfer?, hc, ht, Option.bind_eq_bind, Option.bind_some]
    exact congrArg some (course_visit _ _)
  | call =>
    simp only [Opcode.Regular, hc] at hr
    obtain ⟨target, ht⟩ := hop.exists_pointee? hr
    simp only [proceed?, Bank.transfer?, hc, ht, Option.bind_eq_bind, Option.bind_some]
    exact congrArg some (course_visit _ _)
  | jumpIndirect =>
    simp only [Opcode.Regular, hc] at hr
    obtain ⟨b, hb⟩ := hop.exists_isCartridge? hr
    obtain ⟨pointer, hp⟩ := hop.exists_pointee? hr
    simp only [proceed?, Bank.transfer?, hc, hb, hp, Option.bind_eq_bind, Option.bind_some]
    by_cases hin : b && pointer + 1 < Bank.size
    · have hlt' : pointer + 1 < Bank.size := by simp_all
      obtain ⟨target, ht⟩ := Bank.pointee?_eq_some bank hlt'
      simp only [hin, ht, ↓reduceIte, Option.bind_some]
      exact congrArg some (course_visit _ _)
    · simp only [hin]
      rfl

section Bank

variable {x : Exploration Bank.size} {start offset settled k : Nat} {afterCall : Bool}
  {waiting : List Strand}

theorem exists_move_of_decode? (hle : settled ≤ offset) (hdata : x.survey.isData offset) :
    ∃ d, (x.decode? bank start offset settled afterCall waiting).map course = some d ∧
      Move bank ⟨x.survey, ⟨start, offset, .decode settled afterCall⟩ :: waiting, x.rollbacks,
        x.recovered, x.advanced⟩ d := by
  have hlt := Survey.isData_lt hdata
  obtain ⟨byte, hbyte⟩ := Bank.byte?_eq_some bank hlt
  have hop := Bank.opcode?_of_byte? hbyte
  have hr := Opcode.ofByte_regular byte
  obtain ⟨t, ht⟩ := Survey.exists_release? (s := x.survey) (hle.trans (Nat.le_succ _)) hlt
  simp only [decode?, hbyte, Option.bind_eq_bind, Option.bind_some]
  generalize Opcode.ofByte byte = op at hop hr
  split
  next hcut =>
    exact ⟨_, map_course_undo? (k := 0) hlt ht, .undo hdata (.unfit hop hcut) ht⟩
  next hcut =>
    obtain ⟨u, hu⟩ := Survey.exists_claim? (s := x.survey)
      (by omega : 0 < op.length) (by omega : offset + op.length ≤ Bank.size)
    rw [change?_eq_some hu, Option.bind_some]
    by_cases hill : op.control = .illegal
    · have hlen : op.length = 1 := by
        simp only [Opcode.Regular, hill] at hr
        omega
      simp only [proceed?, hill, hlen]
      rw [hlen] at hu
      exact ⟨_, map_course_undo? (k := 1) hlt (Survey.release?_claim? hle hu ht),
        .undo hdata (.illegal hop hill hlen) ht⟩
    · have hholds : bank.Holds offset op := ⟨hop, hill, by omega⟩
      by_cases hlin : op.control.isLinear
      · obtain ⟨v, hv⟩ := Survey.exists_annotate? (s := u) hholds le_rfl
        exact ⟨_, map_course_proceed?_of_isLinear hr hlin hv, .advance hdata hholds hlin hu hv⟩
      · rw [Bool.not_eq_true] at hlin
        exact ⟨_, map_course_proceed?_of_transfer hholds hlin, .transfer hdata hholds hlin hu⟩

theorem exists_move_of_probe? :
    ∃ d, (x.probe? bank start offset k waiting).map course = some d ∧
      Move bank ⟨x.survey, ⟨start, offset, .probe k⟩ :: waiting, x.rollbacks, x.recovered,
        x.advanced⟩ d := by
  unfold probe?
  split
  next hword =>
    obtain ⟨target, ht⟩ := Bank.pointee?_eq_some bank (lt_of_isTableWord hword)
    rw [ht]
    exact ⟨_, congrArg some (course_visit _ _), .probe hword ht⟩
  next hword => exact ⟨_, rfl, .tableEnd (by simpa using hword)⟩

theorem exists_move_of_claimWord? (h : offset + 1 < Bank.size) :
    ∃ d, (x.claimWord? bank start offset k waiting).map course = some d ∧
      Move bank ⟨x.survey, ⟨start, offset, .claim k⟩ :: waiting, x.rollbacks, x.recovered,
        x.advanced⟩ d := by
  obtain ⟨word, hword⟩ := Bank.word?_eq_some bank h
  obtain ⟨t, ht⟩ := Survey.exists_point? (s := x.survey) (by omega : offset < Bank.size)
  obtain ⟨u, hu⟩ := Survey.exists_point? (s := t) h
  have hlow := change?_eq_some (x := x.report (.jumpTableWord offset word))
    (f := (·.point? offset)) ht
  have hhigh := change?_eq_some (f := (·.point? (offset + 1)))
    (x := { x.report (.jumpTableWord offset word) with survey := t }) hu
  simp only [claimWord?, hword, hlow, hhigh, Option.bind_eq_bind, Option.bind_some]
  exact ⟨_, rfl, .claim ht hu⟩

theorem exists_move_of_close? (h : offset = start ∨ start < Bank.size) :
    ∃ d, (x.close? start offset waiting).map course = some d ∧
      Move bank ⟨x.survey, ⟨start, offset, .close⟩ :: waiting, x.rollbacks, x.recovered,
        x.advanced⟩ d := by
  simp only [close?, Option.bind_eq_bind]
  by_cases hc : offset != start || x.survey.isCode start
  · have hlt : start < Bank.size := by
      rcases h with rfl | h
      · exact Survey.isCode_lt (by simpa using hc)
      · exact h
    obtain ⟨t, ht⟩ := Survey.exists_label? (s := x.survey) hlt
    rw [if_pos hc, change?_eq_some ht]
    exact ⟨_, rfl, .finish (by rw [Survey.close?, if_pos hc, ht])⟩
  · rw [if_neg hc]
    exact ⟨_, rfl, .finish (by rw [Survey.close?, if_neg hc])⟩

end Bank

end Exploration

/-- A step of an exploration inside the bank has a result, and it is a move. -/
theorem Exploration.exists_move (bank : Bank) {x : Exploration Bank.size} (hx : x.course.Inside)
    (hne : x.strands ≠ []) :
    ∃ y, step? bank x = some y ∧ Move bank x.course y.course := by
  suffices h : ∃ d, (step? bank x).map course = some d ∧ Move bank x.course d by
    obtain ⟨d, hd, hm⟩ := h
    obtain ⟨y, hy, rfl⟩ := Option.map_eq_some_iff.1 hd
    exact ⟨y, hy, hm⟩
  cases hs : x.strands with
  | nil => exact absurd hs hne
  | cons strand waiting =>
    obtain ⟨start, offset, task⟩ := strand
    have hin : (⟨start, offset, task⟩ : Strand).Inside Bank.size := hx _ (by simp [course, hs])
    simp only [step?, course, hs]
    cases task with
    | decode settled afterCall =>
      by_cases hdata : x.survey.isData offset
      · simp only [hdata, ↓reduceIte]
        exact exists_move_of_decode? hin.2.1 hdata
      · simp only [hdata]
        exact ⟨_, rfl, .arrive (by simpa using hdata)⟩
    | probe k => exact exists_move_of_probe?
    | claim k => exact exists_move_of_claimWord? hin.2
    | close => exact exists_move_of_close? hin

theorem Exploration.move_of_step? {bank : Bank} {x y : Exploration Bank.size}
    (hx : x.course.Inside) (hne : x.strands ≠ []) (h : step? bank x = some y) :
    Move bank x.course y.course := by
  obtain ⟨z, hz, hm⟩ := exists_move bank hx hne
  rwa [Option.some.inj (h.symm.trans hz)]

end BankTrace
