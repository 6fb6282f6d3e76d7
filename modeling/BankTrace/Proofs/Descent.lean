import BankTrace.Proofs.Termination

namespace BankTrace

variable {n : Nat}

/-- What walks find and change. -/
@[ext] structure Findings (n : Nat) where
  survey : Survey n
  rollbacks : Nat
  recovered : Nat

def Exploration.findings (x : Exploration n) : Findings n := ⟨x.survey, x.rollbacks, x.recovered⟩

/-- `y` has the result of `x` if `x` has one. -/
def Below {α : Type} (x y : Option α) : Prop := x = none ∨ x = y

namespace Below

variable {α β : Type} {x y z : Option α} {f g : α → Option β}

theorem refl (x : Option α) : Below x x := .inr rfl

theorem trans (h : Below x y) (h' : Below y z) : Below x z := by
  rcases h with rfl | rfl
  · exact .inl rfl
  · exact h'

theorem bind (h : Below x y) (hf : ∀ a, Below (f a) (g a)) : Below (x.bind f) (y.bind g) := by
  rcases h with rfl | rfl
  · exact .inl rfl
  · cases x with
    | none => exact .inl rfl
    | some a => exact hf a

theorem ite {p : Prop} [Decidable p] {x' y' : Option α} (h : Below x y) (h' : Below x' y') :
    Below (if p then x else x') (if p then y else y') := by
  split_ifs
  · exact h
  · exact h'

theorem eq_some {a : α} (h : Below x y) (hx : x = some a) : y = some a := by
  rcases h with hnone | heq
  · rw [hnone] at hx
    contradiction
  · exact heq ▸ hx

end Below

namespace Findings

def claimWord? (f : Findings n) (slot : Nat) : Option (Findings n) := do
  let survey ← f.survey.point? slot
  let survey ← survey.point? (slot + 1)
  return ⟨survey, f.rollbacks, f.recovered + 1⟩

/-- Ends the walk from `start` at `stop`, and tells whether it went anywhere. -/
def finish? (f : Findings n) (start stop : Nat) : Option (Findings n × Bool) := do
  let survey ← f.survey.close? start stop
  return (⟨survey, f.rollbacks, f.recovered⟩, stop != start)

/-- Gives the bytes from `settled` on back to data, after `refused` bytes at `offset` were not
accepted as code. -/
def retreat? (f : Findings n) (offset settled refused : Nat) : Option (Findings n) := do
  let survey ← f.survey.release? settled (offset + (refused - 1))
  return ⟨survey, f.rollbacks + 1, f.recovered⟩

mutual

/-- The walk from `start`. There is none in the middle of an instruction. Without the fuel for all
walks that it calls, and all steps of them, it has no result. -/
def descend? (bank : Bank) (fuel : Nat) (f : Findings n) (start : Nat) :
    Option (Findings n × Bool) :=
  match fuel with
  | 0 => none
  | fuel + 1 =>
    if f.survey.isCode start && !f.survey.isStart start then some (f, false)
    else do
      let (f, stop) ← line? bank fuel f start start false
      f.finish? start stop

/-- Follows the line of code from `offset` to where it stops. -/
def line? (bank : Bank) (fuel : Nat) (f : Findings n) (offset settled : Nat) (afterCall : Bool) :
    Option (Findings n × Nat) :=
  match fuel with
  | 0 => none
  | fuel + 1 =>
    let giveUp (f : Findings n) (refused : Nat) : Option (Findings n × Nat) := do
      let f ← f.retreat? offset settled refused
      if afterCall then table? bank fuel f settled refused else some (f, settled + refused)
    if f.survey.isData offset then do
      let op ← bank.opcode? offset
      if op.length = 0 ∨ Bank.size < offset + op.length then giveUp f 0
      else
        let survey ← f.survey.claim? offset op.length
        let f : Findings n := ⟨survey, f.rollbacks, f.recovered⟩
        let next := offset + op.length
        match op.control with
        | .next => line? bank fuel f next settled afterCall
        | .reference => do
          let survey ← if op.mode.isAbsolute then survey.refer? bank (offset + 1) else some survey
          line? bank fuel ⟨survey, f.rollbacks, f.recovered⟩ next settled afterCall
        | .branch => do
          let byte ← bank.byte? (offset + 1)
          let (f, _) ← descend? bank fuel f (branchOffset offset byte)
          line? bank fuel f next next false
        | .jump => do
          let target ← bank.pointee? (offset + 1)
          let (f, _) ← descend? bank fuel f target
          return (f, next)
        | .jumpIndirect => do
          let isCartridge ← bank.isCartridge? (offset + 1)
          let pointer ← bank.pointee? (offset + 1)
          if isCartridge && pointer + 1 < Bank.size then
            let target ← bank.pointee? pointer
            let (f, _) ← descend? bank fuel f target
            return (f, next)
          else return (f, next)
        | .call => do
          let target ← bank.pointee? (offset + 1)
          let (f, _) ← descend? bank fuel f target
          line? bank fuel f next next true
        | .ret => some (f, next)
        | .illegal => giveUp f op.length
    else some (f, offset)

/-- Completes the walks from the words of the jump table at `slot`, and claims each word. -/
def table? (bank : Bank) (fuel : Nat) (f : Findings n) (slot refused : Nat) :
    Option (Findings n × Nat) :=
  match fuel with
  | 0 => none
  | fuel + 1 =>
    if Exploration.isTableWord f.survey bank slot then do
      let target ← bank.pointee? slot
      let (f, _) ← descend? bank fuel f target
      let f ← f.claimWord? slot
      table? bank fuel f (slot + 2) refused
    else some (f, slot + refused)

end

/-- More fuel changes no result. -/
theorem below_succ (bank : Bank) (fuel : Nat) :
    (∀ (f : Findings n) start,
      Below (descend? bank fuel f start) (descend? bank (fuel + 1) f start)) ∧
    (∀ (f : Findings n) offset settled afterCall, Below (line? bank fuel f offset settled afterCall)
      (line? bank (fuel + 1) f offset settled afterCall)) ∧
    ∀ (f : Findings n) slot refused,
      Below (table? bank fuel f slot refused) (table? bank (fuel + 1) f slot refused) := by
  induction fuel with
  | zero =>
    refine ⟨fun f start => .inl ?_, fun f offset settled afterCall => .inl ?_,
      fun f slot refused => .inl ?_⟩
    · rw [descend?]
    · rw [line?]
    · rw [table?]
  | succ fuel ih =>
    obtain ⟨hdescend, hline, htable⟩ := ih
    refine ⟨fun f start => ?_, fun f offset settled afterCall => ?_, fun f slot refused => ?_⟩
    · rw [descend?, descend?]
      exact .ite (.refl _) (.bind (hline f start start false) fun _ => .refl _)
    · have giveUp : ∀ (f : Findings n) (refused : Nat),
          Below ((f.retreat? offset settled refused).bind fun f =>
              if afterCall then table? bank fuel f settled refused else some (f, settled + refused))
            ((f.retreat? offset settled refused).bind fun f =>
              if afterCall then table? bank (fuel + 1) f settled refused
              else some (f, settled + refused)) := fun f refused =>
        .bind (.refl _) fun f => .ite (htable f settled refused) (.refl _)
      have visit : ∀ (f : Findings n) (target next : Nat),
          Below ((descend? bank fuel f target).bind fun g => some (g.1, next))
            ((descend? bank (fuel + 1) f target).bind fun g => some (g.1, next)) :=
        fun f target next => .bind (hdescend f target) fun _ => .refl _
      rw [line?, line?]
      refine .ite (.bind (.refl _) fun op => .ite (giveUp f 0) (.bind (.refl _) fun survey => ?_))
        (.refl _)
      cases op.control with
      | next => exact hline _ _ _ _
      | reference =>
        exact .ite (.bind (.refl _) fun _ => hline _ _ _ _) (.bind (.refl _) fun _ => hline _ _ _ _)
      | branch => exact .bind (.refl _) fun _ => .bind (hdescend _ _) fun _ => hline _ _ _ _
      | jump => exact .bind (.refl _) fun _ => visit _ _ _
      | jumpIndirect =>
        refine .bind (.refl _) fun _ => .bind (.refl _) fun _ => .ite ?_ (.refl _)
        exact .bind (.refl _) fun _ => visit _ _ _
      | call => exact .bind (.refl _) fun _ => .bind (hdescend _ _) fun _ => hline _ _ _ _
      | ret => exact .refl _
      | illegal => exact giveUp _ _
    · rw [table?, table?]
      refine .ite (.bind (.refl _) fun target => .bind (hdescend f target) fun _ => ?_) (.refl _)
      exact .bind (.refl _) fun g => htable g _ _

/-- A result stays the same with any more fuel. -/
theorem descend?_mono {bank : Bank} {fuel more : Nat} (hle : fuel ≤ more) (f : Findings n)
    (start : Nat) : Below (descend? bank fuel f start) (descend? bank more f start) := by
  induction hle with
  | refl => exact .refl _
  | step _ ih => exact ih.trans ((below_succ bank _).1 f start)

def visit? (bank : Bank) (fuel : Nat) (f : Findings n) : Option Nat → Option (Findings n × Bool)
  | none => some (f, false)
  | some target => f.descend? bank fuel target

end Findings

/-- What is left of the walk that a strand stands for. -/
def Strand.complete? (bank : Bank) (fuel : Nat) (f : Findings n) (strand : Strand) :
    Option (Findings n × Bool) := do
  let (f, stop) ← match strand.task with
    | .decode settled afterCall => f.line? bank fuel strand.offset settled afterCall
    | .probe k => f.table? bank fuel strand.offset k
    | .claim k => do
      let f ← f.claimWord? strand.offset
      f.table? bank fuel (strand.offset + 2) k
    | .close => some (f, strand.offset)
  f.finish? strand.start stop

/-- Completes the strands one after the other. The answer is that of the strand that ends last. -/
def Findings.resume? (bank : Bank) (fuel : Nat) (r : Findings n × Bool) :
    List Strand → Option (Findings n × Bool)
  | [] => some r
  | strand :: waiting => (strand.complete? bank fuel r.1).bind (resume? bank fuel · waiting)

def Course.outcome? (bank : Bank) (fuel : Nat) (c : Course n) : Option (Findings n × Bool) :=
  Findings.resume? bank fuel (⟨c.survey, c.rollbacks, c.recovered⟩, c.advanced) c.strands

theorem Strand.complete?_below (bank : Bank) (fuel : Nat) (f : Findings n) (strand : Strand) :
    Below (strand.complete? bank fuel f) (strand.complete? bank (fuel + 1) f) := by
  obtain ⟨-, hline, htable⟩ : _ ∧ _ ∧ _ := Findings.below_succ bank fuel
  unfold complete?
  cases strand.task with
  | decode settled afterCall => exact .bind (hline f _ settled afterCall) fun _ => .refl _
  | probe k => exact .bind (htable f _ k) fun _ => .refl _
  | claim k => exact .bind (.refl _) fun g => .bind (htable g _ k) fun _ => .refl _
  | close => exact .refl _

theorem Findings.resume?_below (bank : Bank) (fuel : Nat) (r : Findings n × Bool)
    (strands : List Strand) :
    Below (resume? bank fuel r strands) (resume? bank (fuel + 1) r strands) := by
  induction strands generalizing r with
  | nil => exact .refl _
  | cons strand waiting ih => exact .bind (strand.complete?_below bank fuel r.1) ih

theorem Findings.resume?_below_two (bank : Bank) (fuel : Nat) (r : Findings n × Bool)
    (strands : List Strand) :
    Below (resume? bank fuel r strands) (resume? bank (fuel + 2) r strands) :=
  (resume?_below bank fuel r strands).trans (resume?_below bank (fuel + 1) r strands)

namespace Strand

variable {bank : Bank} {s t u : Survey n} {start offset settled k r p fuel : Nat}
  {afterCall : Bool} {op : Opcode}

theorem complete?_arrive (stop : s.isData offset = false) :
    (⟨start, offset, .decode settled afterCall⟩ : Strand).complete? bank (fuel + 1) ⟨s, r, p⟩ =
      (⟨start, offset, .close⟩ : Strand).complete? bank fuel ⟨s, r, p⟩ := by
  simp only [complete?]
  rw [Findings.line?]
  simp only [stop, Bool.false_eq_true, ↓reduceIte]

theorem complete?_undone (released : s.release? settled (offset + (k - 1)) = some t) :
    (((⟨s, r, p⟩ : Findings n).retreat? offset settled k).bind fun f =>
        (if afterCall then f.table? bank fuel settled k else some (f, settled + k)).bind fun g =>
          g.1.finish? start g.2) =
      (Strand.undone start settled afterCall k).complete? bank fuel ⟨t, r + 1, p⟩ := by
  rw [Findings.retreat?, undone, complete?]
  simp only [released, Option.bind_eq_bind, Option.bind_some]
  cases afterCall <;> rfl

theorem complete?_undo (data : s.isData offset) (le : settled ≤ offset)
    (refuses : bank.Refuses offset k) (released : s.release? settled offset = some t) :
    (⟨start, offset, .decode settled afterCall⟩ : Strand).complete? bank (fuel + 1) ⟨s, r, p⟩ =
      (Strand.undone start settled afterCall k).complete? bank fuel ⟨t, r + 1, p⟩ := by
  have hlt := (Survey.release?_isSome_iff.1 (Option.isSome_iff_exists.2 ⟨t, released⟩)).2
  cases refuses with
  | @unfit op hop hcut =>
    rw [complete?]
    simp only
    rw [Findings.line?]
    simp only [data, ↓reduceIte, hop, hcut, Option.bind_eq_bind, Option.bind_some,
      Option.bind_assoc]
    have hkeep : s.release? settled (offset + (0 - 1)) = some t := released
    exact complete?_undone hkeep
  | @illegal op hop hill hlen =>
    have hfit : ¬ (1 = 0 ∨ Bank.size < offset + 1) := by
      have := Bank.lt_of_opcode? hop
      omega
    obtain ⟨u, hu⟩ := Survey.exists_claim? (s := s) one_pos (by omega : offset + 1 ≤ n)
    have hkeep : u.release? settled (offset + (1 - 1)) = some t :=
      Survey.release?_claim? le hu released
    rw [complete?]
    simp only
    rw [Findings.line?]
    simp only [data, ↓reduceIte, hop, hfit, hlen, hu, hill, Option.bind_eq_bind, Option.bind_some,
      Option.bind_assoc]
    exact complete?_undone hkeep

theorem complete?_advance (data : s.isData offset) (holds : bank.Holds offset op)
    (linear : op.control.isLinear) (claimed : s.claim? offset op.length = some t)
    (annotated : t.annotate? bank offset op = some u) :
    (⟨start, offset, .decode settled afterCall⟩ : Strand).complete? bank (fuel + 1) ⟨s, r, p⟩ =
      (⟨start, offset + op.length, .decode settled afterCall⟩ : Strand).complete? bank fuel
        ⟨u, r, p⟩ := by
  have hfit := holds.not_cut
  have hr := Bank.regular_of_opcode? holds.opcode
  simp only [complete?]
  rw [Findings.line?]
  simp only [data, ↓reduceIte, holds.opcode, hfit, claimed, Option.bind_eq_bind, Option.bind_some]
  cases hc : op.control with
  | next =>
    simp only [Survey.annotate?, hc, reduceCtorEq, ↓reduceIte, Option.some.injEq] at annotated
    rw [annotated]
  | reference =>
    simp only [Opcode.Regular, hc] at hr
    simp only [Survey.annotate?, hc, ↓reduceIte] at annotated
    simp only [hr.1, ↓reduceIte, annotated, Option.bind_some]
  | _ => simp [hc, Control.isLinear] at linear

theorem complete?_transfer (data : s.isData offset) (holds : bank.Holds offset op)
    (nonlinear : op.control.isLinear = false) (claimed : s.claim? offset op.length = some t) :
    (⟨start, offset, .decode settled afterCall⟩ : Strand).complete? bank (fuel + 1) ⟨s, r, p⟩ =
      (Findings.visit? bank fuel ⟨t, r, p⟩ (bank.transfer? offset op)).bind fun g =>
        (⟨start, offset + op.length, op.control.taskAfter (offset + op.length)⟩ :
          Strand).complete? bank fuel g.1 := by
  have hfit := holds.not_cut
  have hr := Bank.regular_of_opcode? holds.opcode
  simp only [complete?]
  rw [Findings.line?]
  simp only [data, ↓reduceIte, holds.opcode, hfit, claimed, Option.bind_eq_bind, Option.bind_some]
  cases hc : op.control with
  | illegal => exact absurd hc holds.legal
  | next => simp [hc, Control.isLinear] at nonlinear
  | reference => simp [hc, Control.isLinear] at nonlinear
  | ret => simp only [Bank.transfer?, hc, Findings.visit?, Control.taskAfter, Option.bind_some]
  | branch =>
    simp only [Opcode.Regular, hc] at hr
    obtain ⟨byte, hbyte⟩ := holds.exists_byte? hr
    simp only [Bank.transfer?, hc, hbyte, Findings.visit?, Control.taskAfter, Option.map_some,
      Option.bind_some, Option.bind_assoc]
  | jump =>
    simp only [Opcode.Regular, hc] at hr
    obtain ⟨target, ht⟩ := holds.exists_pointee? hr
    simp only [Bank.transfer?, hc, ht, Findings.visit?, Control.taskAfter, Option.bind_some,
      Option.bind_assoc, Option.pure_def]
  | call =>
    simp only [Opcode.Regular, hc] at hr
    obtain ⟨target, ht⟩ := holds.exists_pointee? hr
    simp only [Bank.transfer?, hc, ht, Findings.visit?, Control.taskAfter, Option.bind_some,
      Option.bind_assoc]
  | jumpIndirect =>
    simp only [Opcode.Regular, hc] at hr
    obtain ⟨b, hb⟩ := holds.exists_isCartridge? hr
    obtain ⟨pointer, hp⟩ := holds.exists_pointee? hr
    simp only [Bank.transfer?, hc, hb, hp, Option.bind_eq_bind, Option.bind_some]
    by_cases hin : b && pointer + 1 < Bank.size
    · have hlt' : pointer + 1 < Bank.size := by simp_all
      obtain ⟨target, ht⟩ := Bank.pointee?_eq_some bank hlt'
      simp only [hin, ht, ↓reduceIte, Findings.visit?, Control.taskAfter, Option.bind_some,
        Option.bind_assoc, Option.pure_def]
    · simp only [hin, Bool.false_eq_true, ↓reduceIte, Findings.visit?, Control.taskAfter,
        Option.bind_some, Option.pure_def]

theorem complete?_probe {target : Nat} (word : Exploration.isTableWord s bank offset)
    (pointee : bank.pointee? offset = some target) :
    (⟨start, offset, .probe k⟩ : Strand).complete? bank (fuel + 1) ⟨s, r, p⟩ =
      (Findings.visit? bank fuel ⟨s, r, p⟩ target).bind fun g =>
        (⟨start, offset, .claim k⟩ : Strand).complete? bank fuel g.1 := by
  simp only [complete?]
  rw [Findings.table?]
  simp only [word, ↓reduceIte, pointee, Findings.visit?, Option.bind_eq_bind, Option.bind_some,
    Option.bind_assoc]

theorem complete?_tableEnd (noWord : Exploration.isTableWord s bank offset = false) :
    (⟨start, offset, .probe k⟩ : Strand).complete? bank (fuel + 1) ⟨s, r, p⟩ =
      (⟨start, offset + k, .close⟩ : Strand).complete? bank fuel ⟨s, r, p⟩ := by
  simp only [complete?]
  rw [Findings.table?]
  simp only [noWord, Bool.false_eq_true, ↓reduceIte]

theorem complete?_claim (low : s.point? offset = some t) (high : t.point? (offset + 1) = some u) :
    (⟨start, offset, .claim k⟩ : Strand).complete? bank fuel ⟨s, r, p⟩ =
      (⟨start, offset + 2, .probe k⟩ : Strand).complete? bank fuel ⟨u, r, p + 1⟩ := by
  simp only [complete?, Findings.claimWord?, low, high, Option.bind_eq_bind, Option.bind_some,
    Option.pure_def]

theorem complete?_close (closed : s.close? start offset = some t) :
    (⟨start, offset, .close⟩ : Strand).complete? bank fuel ⟨s, r, p⟩ =
      some (⟨t, r, p⟩, offset != start) := by
  simp only [complete?, Findings.finish?, closed, Option.bind_eq_bind, Option.bind_some,
    Option.pure_def]

theorem complete?_fresh {f : Findings n} (h : ¬ (f.survey.isCode start && !f.survey.isStart start)) :
    f.descend? bank (fuel + 1) start = (fresh start).complete? bank fuel f := by
  rw [Findings.descend?, if_neg h]
  rfl

end Strand

namespace Course

variable {bank : Bank} {s : Survey n} {r p fuel : Nat} {a : Bool}

/-- A strand that is begun for another one is completed before it. -/
theorem outcome?_entering (target : Option Nat) (strand : Strand) (waiting : List Strand) :
    Below ((⟨s, s.entering target ++ strand :: waiting, r, p, a⟩ : Course n).outcome? bank fuel)
      ((Findings.visit? bank (fuel + 1) ⟨s, r, p⟩ target).bind fun g =>
        (strand.complete? bank fuel g.1).bind (Findings.resume? bank fuel · waiting)) := by
  cases target with
  | none => exact .refl _
  | some target =>
    simp only [outcome?, Findings.visit?, Survey.entering]
    by_cases h : s.isCode target && !s.isStart target
    · rw [if_pos h, Findings.descend?, if_pos h]
      exact .refl _
    · rw [if_neg h, Strand.complete?_fresh h]
      exact .refl _

theorem outcome?_sent (bank : Bank) (s : Survey n) (start r p fuel : Nat) :
    Below ((⟨s, s.entering start, r, p, false⟩ : Course n).outcome? bank fuel)
      (Findings.descend? bank (fuel + 1) ⟨s, r, p⟩ start) := by
  simp only [outcome?, Survey.entering]
  by_cases h : s.isCode start && !s.isStart start
  · rw [if_pos h, Findings.descend?, if_pos h]
    exact .refl _
  · rw [if_neg h, Strand.complete?_fresh h]
    exact .inr (Option.bind_fun_some _)

section Moves

variable {t : Survey n} {r' p' : Nat} {a' : Bool} {strand next : Strand} {waiting : List Strand}

/-- A move that begins no strand. -/
theorem outcome?_below_of_next (h : Below (next.complete? bank (fuel + 1) ⟨t, r', p'⟩)
    (strand.complete? bank (fuel + 2) ⟨s, r, p⟩)) :
    Below ((⟨t, next :: waiting, r', p', a'⟩ : Course n).outcome? bank fuel)
      ((⟨s, strand :: waiting, r, p, a⟩ : Course n).outcome? bank (fuel + 2)) :=
  .bind ((next.complete?_below bank fuel _).trans h) fun g =>
    Findings.resume?_below_two bank fuel g waiting

/-- A move after which a strand is begun, if there is a target. -/
theorem outcome?_below_of_visit {target : Option Nat}
    (h : strand.complete? bank (fuel + 2) ⟨s, r, p⟩ =
      (Findings.visit? bank (fuel + 1) ⟨t, r', p'⟩ target).bind fun g =>
        next.complete? bank (fuel + 1) g.1) :
    Below ((⟨t, t.entering target ++ next :: waiting, r', p', a'⟩ : Course n).outcome? bank fuel)
      ((⟨s, strand :: waiting, r, p, a⟩ : Course n).outcome? bank (fuel + 2)) := by
  refine (outcome?_entering target next waiting).trans ?_
  rw [outcome?, Findings.resume?, h, Option.bind_assoc]
  exact .bind (.refl _) fun g => .bind (next.complete?_below bank fuel g.1) fun g =>
    Findings.resume?_below_two bank fuel g waiting

end Moves

end Course

/-- No move changes what the strands amount to; only the fuel for that is more before a move. -/
theorem Move.outcome?_below {bank : Bank} {c d : Course Bank.size} (h : Move bank c d)
    (hc : c.Inside) (fuel : Nat) : Below (d.outcome? bank fuel) (c.outcome? bank (fuel + 2)) := by
  cases h with
  | arrive stop => exact Course.outcome?_below_of_next (.inr (Strand.complete?_arrive stop).symm)
  | undo data refuses released =>
    have hle := (hc _ List.mem_cons_self).2.1
    exact Course.outcome?_below_of_next
      (.inr (Strand.complete?_undo data hle refuses released).symm)
  | advance data holds linear claimed annotated =>
    exact Course.outcome?_below_of_next
      (.inr (Strand.complete?_advance data holds linear claimed annotated).symm)
  | transfer data holds nonlinear claimed =>
    exact Course.outcome?_below_of_visit
      (Strand.complete?_transfer data holds nonlinear claimed)
  | probe word pointee =>
    exact Course.outcome?_below_of_visit (Strand.complete?_probe word pointee)
  | tableEnd noWord =>
    exact Course.outcome?_below_of_next (.inr (Strand.complete?_tableEnd noWord).symm)
  | claim low high =>
    refine Course.outcome?_below_of_next ?_
    rw [Strand.complete?_claim low high]
    exact Strand.complete?_below bank _ _ _
  | @finish s t start offset waiting r p a closed =>
    have hclosed : (⟨s, ⟨start, offset, .close⟩ :: waiting, r, p, a⟩ :
        Course Bank.size).outcome? bank (fuel + 2) =
          Findings.resume? bank (fuel + 2) (⟨t, r, p⟩, offset != start) waiting := by
      rw [Course.outcome?, Findings.resume?, Strand.complete?_close closed, Option.bind_some]
    rw [hclosed]
    exact Findings.resume?_below_two bank fuel _ waiting

/-- Following code with a stack of strands refines the recursive descent: both have a result, the
descent with any fuel that is enough, and it is the same survey, the same counts and the same answer
whether the first strand went anywhere. -/
theorem Exploration.follow?_refines_descend? (bank : Bank) (x : Exploration Bank.size)
    (start : Nat) :
    ∃ y, x.follow? bank start = some y ∧ y.strands = [] ∧ ∃ enough, ∀ fuel, enough ≤ fuel →
      x.findings.descend? bank fuel start = some (y.findings, y.advanced) := by
  obtain ⟨y, hy, hend⟩ := exists_follow? bank x start
  have hout : ∀ fuel, ∃ enough, Below (y.course.outcome? bank fuel)
      (x.findings.descend? bank enough start) :=
    keeps_of_sent (P := fun c => ∀ fuel, ∃ enough, Below (c.outcome? bank fuel)
      (x.findings.descend? bank enough start)) ?_ ?_ hy
  · obtain ⟨enough, hbelow⟩ := hout 0
    refine ⟨y, hy, hend, enough, fun fuel hle => ?_⟩
    refine (Findings.descend?_mono hle _ _).eq_some (hbelow.eq_some ?_)
    rw [Course.outcome?, course, hend]
    rfl
  · intro c d hsound hmove hc fuel
    obtain ⟨enough, hbelow⟩ := hc (fuel + 2)
    exact ⟨enough, (hmove.outcome?_below hsound.inside fuel).trans hbelow⟩
  · exact fun fuel => ⟨_, Course.outcome?_sent bank x.survey start x.rollbacks x.recovered fuel⟩

end BankTrace
