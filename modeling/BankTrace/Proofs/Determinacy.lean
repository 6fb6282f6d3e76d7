import BankTrace.Proofs.Termination

namespace BankTrace

variable {n : Nat} {bank : Bank}

theorem Bank.Refuses.unique {offset k k' : Nat} (h : bank.Refuses offset k)
    (h' : bank.Refuses offset k') : k = k' := by
  have clash : ∀ {op op' : Opcode}, bank.opcode? offset = some op →
      (op.length = 0 ∨ Bank.size < offset + op.length) → bank.opcode? offset = some op' →
        op'.length ≠ 1 := by
    intro op op' hop hcut hop' hlength
    obtain rfl := Option.some.inj (hop.symm.trans hop')
    have hlt := Bank.lt_of_opcode? hop
    omega
  cases h with
  | unfit opcode cut =>
    cases h' with
    | unfit => rfl
    | illegal opcode' illegal length => exact absurd length (clash opcode cut opcode')
  | illegal opcode illegal length =>
    cases h' with
    | unfit opcode' cut => exact absurd length (clash opcode' cut opcode)
    | illegal => rfl

theorem Move.rightUnique (bank : Bank) :
    Relator.RightUnique (Move bank : Course n → Course n → Prop) := by
  intro c d e hd he
  have noData : ∀ {s : Survey n} {i}, s.isData i = false → ¬ s.isData i := by
    intro s i hstop hdata
    rw [hstop] at hdata
    contradiction
  -- The guards of any two different moves exclude each other.
  cases hd with
  | arrive stop =>
    cases he with
    | arrive => rfl
    | undo data => exact absurd data (noData stop)
    | advance data => exact absurd data (noData stop)
    | transfer data => exact absurd data (noData stop)
  | undo data refuses released =>
    cases he with
    | arrive stop => exact absurd data (noData stop)
    | undo data' refuses' released' =>
      rw [refuses.unique refuses', Option.some.inj (released.symm.trans released')]
    | advance data' holds => exact absurd refuses holds.not_refuses
    | transfer data' holds => exact absurd refuses holds.not_refuses
  | advance data holds linear claimed annotated =>
    cases he with
    | arrive stop => exact absurd data (noData stop)
    | undo data' refuses => exact absurd refuses holds.not_refuses
    | advance data' holds' linear' claimed' annotated' =>
      obtain rfl := holds.unique holds'
      obtain rfl := Option.some.inj (claimed.symm.trans claimed')
      rw [Option.some.inj (annotated.symm.trans annotated')]
    | transfer data' holds' nonlinear =>
      rw [← holds.unique holds', linear] at nonlinear
      contradiction
  | transfer data holds nonlinear claimed =>
    cases he with
    | arrive stop => exact absurd data (noData stop)
    | undo data' refuses => exact absurd refuses holds.not_refuses
    | advance data' holds' linear =>
      rw [holds.unique holds', linear] at nonlinear
      contradiction
    | transfer data' holds' nonlinear' claimed' =>
      obtain rfl := holds.unique holds'
      rw [Option.some.inj (claimed.symm.trans claimed')]
  | probe word pointee =>
    cases he with
    | probe word' pointee' => rw [Option.some.inj (pointee.symm.trans pointee')]
    | tableEnd noWord =>
      rw [word] at noWord
      contradiction
  | tableEnd noWord =>
    cases he with
    | probe word =>
      rw [word] at noWord
      contradiction
    | tableEnd => rfl
  | claim low high =>
    cases he with
    | claim low' high' =>
      obtain rfl := Option.some.inj (low.symm.trans low')
      rw [Option.some.inj (high.symm.trans high')]
  | finish closed =>
    cases he with
    | finish closed' => rw [Option.some.inj (closed.symm.trans closed')]

theorem Move.strands_ne_nil {c d : Course n} (h : Move bank c d) : c.strands ≠ [] := by
  cases h <;> exact List.cons_ne_nil _ _

/-- A run that comes to an end ends where the moves lead. -/
theorem Exploration.course_of_run? {x y : Exploration Bank.size} {c : Course Bank.size} {k : Nat}
    (hx : x.course.Sound bank) (hmoves : Relation.ReflTransGen (Move bank) x.course c)
    (hc : c.strands = []) (hrun : run? bank x k = some y) (hy : y.strands = []) : y.course = c := by
  -- No step of the run leaves the way to `c`, as there is only one move to make.
  have hrest : Relation.ReflTransGen (Move bank) y.course c := by
    refine keeps_of_run? (P := fun d => Relation.ReflTransGen (Move bank) d c) ?_ hx hmoves hrun
    intro d e _ hmove hd
    rcases Relation.ReflTransGen.cases_head hd with rfl | ⟨e', hmove', hrest⟩
    · exact absurd hc hmove.strands_ne_nil
    · rwa [Move.rightUnique bank hmove hmove']
  rcases Relation.ReflTransGen.cases_head hrest with heq | ⟨e, hmove, -⟩
  · exact heq
  · exact absurd hy hmove.strands_ne_nil

theorem Exploration.step_of_run?_succ {x z : Exploration Bank.size} {k : Nat}
    (hx : x.course.Sound bank) (h : run? bank x (k + 1) = some z) :
    ∃ y, run? bank x k = some y ∧
      (y.strands = [] ∧ z = y ∨ y.strands ≠ [] ∧ step? bank y = some z) := by
  rw [run?_add] at h
  obtain ⟨y, hy, hz⟩ := Option.bind_eq_some_iff.1 h
  refine ⟨y, hy, ?_⟩
  by_cases hne : y.strands = []
  · rw [run?_of_isEmpty bank hne] at hz
    exact .inl ⟨hne, (Option.some.inj hz).symm⟩
  · obtain ⟨w, hstep, -⟩ := exists_move bank (sound_of_run? hx hy).inside hne
    rw [run?_succ hne hstep, run?] at hz
    exact .inr ⟨hne, hz ▸ hstep⟩

theorem Exploration.move_of_run?_succ {x z : Exploration Bank.size} {k : Nat}
    (hx : x.course.Sound bank) (h : run? bank x (k + 1) = some z) :
    ∃ y, run? bank x k = some y ∧ (y.strands = [] ∧ z = y ∨ Move bank y.course z.course) := by
  obtain ⟨y, hy, hend | ⟨hne, hstep⟩⟩ := step_of_run?_succ hx h
  · exact ⟨y, hy, .inl hend⟩
  · exact ⟨y, hy, .inr (move_of_step? (sound_of_run? hx hy).inside hne hstep)⟩

theorem Exploration.exists_run?_of_move {x y : Exploration Bank.size} {d : Course Bank.size} {k : Nat}
    (hx : x.course.Sound bank) (h : run? bank x k = some y) (hmove : Move bank y.course d) :
    ∃ z, run? bank x (k + 1) = some z ∧ z.course = d := by
  obtain ⟨z, hstep, hmove'⟩ := exists_move bank (sound_of_run? hx h).inside hmove.strands_ne_nil
  refine ⟨z, ?_, Move.rightUnique bank hmove' hmove⟩
  rw [run?_add, h, Option.bind_some, run?_succ hmove.strands_ne_nil hstep, run?]

theorem Exploration.course_of_refused {x y : Exploration Bank.size} {start k : Nat}
    (hrefused : x.survey.entering (some start) = []) (h : run? bank (x.sent start) k = some y) :
    y.course = ⟨x.survey, [], x.rollbacks, x.recovered, false⟩ := by
  have hcourse := course_sent x start
  have hstrands := (congrArg Course.strands hcourse).trans hrefused
  rw [run?_of_isEmpty bank hstrands] at h
  rw [← Option.some.inj h, hcourse, hrefused]

theorem Move.reach_of_found (bank : Bank) {s : Survey Bank.size} {start : Nat}
    (hcode : s.isCode start) (hdata : s.isData start = false) (r p : Nat) : ∃ t, s.label? start = some t ∧
      Relation.ReflTransGen (Move bank) ⟨s, [.fresh start], r, p, false⟩ ⟨t, [], r, p, false⟩ := by
  obtain ⟨t, ht⟩ := Survey.exists_label? (Survey.lt_of_any hcode)
  have closed : s.close? start start = some t := by
    rw [Survey.close?, hcode, Bool.or_true]
    exact ht
  have move₁ : Move bank ⟨s, [.fresh start], r, p, false⟩
      ⟨s, [⟨start, start, .close⟩], r, p, false⟩ := .arrive hdata
  have move₂ : Move bank ⟨s, [⟨start, start, .close⟩], r, p, false⟩ ⟨t, [], r, p, _⟩ :=
    .finish closed
  rw [bne_self_eq_false] at move₂
  exact ⟨t, ht, .head move₁ (.single move₂)⟩

theorem Exploration.Explores.survey_eq {x z : Exploration Bank.size} {slots : List Nat}
    (h : Explores bank x slots z) (hslots : ∀ slot ∈ slots, ∀ target,
      bank.pointee? slot = some target → x.survey.entering target = []) : z.survey = x.survey := by
  induction h with
  | done x => rfl
  | @next x y z slot word k slots hword hrun ended rest ih =>
    rw [List.forall_mem_cons] at hslots
    have hrefused : x.survey.entering (Bank.offsetOf word) = [] :=
      hslots.1 _ (by rw [Bank.pointee?, hword]; rfl)
    have hy : y.survey = x.survey :=
      congrArg Course.survey (course_of_refused (x := x.report (.seeded slot word)) hrefused hrun)
    rw [ih (hy ▸ hslots.2), hy]

/-- The slots one after the other: if from the target of each of them the moves lead on to the end of an
exploration, the last one ends there. `Q` holds of the slots that are left and of the marks. -/
theorem Exploration.Explores.leads {x z : Exploration Bank.size} {slots : List Nat}
    {Q : List Nat → Survey Bank.size → Prop} (h : Explores bank x slots z) (hQ : Q slots x.survey)
    (hnext : ∀ {slot slots s} (r p : Nat), Q (slot :: slots) s → ∃ target t r' p' a,
      bank.pointee? slot = some target ∧ Q slots t ∧
      Relation.ReflTransGen (Move bank) ⟨s, s.entering (some target), r, p, false⟩
        ⟨t, [], r', p', a⟩) : Q [] z.survey := by
  induction h with
  | done x => exact hQ
  | @next x y z slot word k slots hword hrun ended rest ih =>
    obtain ⟨target, t, r, p, a, hpointee, hQ, hmoves⟩ := hnext x.rollbacks x.recovered hQ
    have hoffset : Bank.offsetOf word = target := by
      rw [Bank.pointee?, hword, Option.map_some] at hpointee
      exact Option.some.inj hpointee
    rw [hoffset] at hrun
    have hsent : ((x.report (.seeded slot word)).sent target).course =
        ⟨x.survey, x.survey.entering (some target), x.rollbacks, x.recovered, false⟩ :=
      course_sent _ _
    have hend := course_of_run? (sound_sent bank _ _) (hsent ▸ hmoves) rfl hrun ended
    have hy : y.survey = t := congrArg Course.survey hend
    exact ih (hy ▸ hQ)

end BankTrace
