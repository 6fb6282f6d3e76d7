import BankTrace.Proofs.Consistency
import BankTrace.Proofs.Throughout

namespace BankTrace

variable {n : Nat}

/-- How many bytes an instruction needs to be code: its own, and the next one if control falls
through to it. -/
def Opcode.footing (op : Opcode) : Nat :=
  if op.control.isLinear then op.length + 1 else op.length

namespace Survey

/-- The instruction `op` stands whole at `first`. -/
structure Intact (bank : Bank) (s : Survey n) (first : Nat) (op : Opcode) : Prop where
  holds : bank.Holds first op
  noPointer : s.isPointer first = false
  code : ∀ i, first ≤ i → i < first + op.length → s.isCode i ∧ s.isData i = false
  inside : ∀ i, first < i → i < first + op.length → s.isStart i = false

def Tidy (bank : Bank) (s : Survey n) : Prop := ∀ p, s.isStart p → ∃ op, s.Intact bank p op

variable {bank : Bank} {s t : Survey n} {first last offset p i : Nat} {op : Opcode}

namespace Intact

/-- An instruction ends before any data that is not before it. -/
theorem le_of_isData (h : s.Intact bank p op) (hle : p ≤ i) (data : s.isData i) :
    p + op.length ≤ i := by
  by_contra hlt
  have hcode := (h.code i hle (by omega)).2
  rw [data] at hcode
  contradiction

theorem of_imp (h : s.Intact bank p op) (hpointer : t.isPointer p → s.isPointer p)
    (hcode : ∀ i, p ≤ i → i < p + op.length →
      (s.isCode i → t.isCode i) ∧ (t.isData i → s.isData i))
    (hinside : ∀ i, p < i → i < p + op.length → t.isStart i → s.isStart i) :
    t.Intact bank p op := by
  refine ⟨h.holds, ?_, fun i hlo hhi => ?_, fun i hlo hhi => ?_⟩
  · rw [Bool.eq_false_iff]
    exact fun hp => Bool.false_ne_true (h.noPointer.symm.trans (hpointer hp))
  · obtain ⟨hc, hd⟩ := h.code i hlo hhi
    refine ⟨(hcode i hlo hhi).1 hc, ?_⟩
    rw [Bool.eq_false_iff]
    exact fun hdata => Bool.false_ne_true (hd.symm.trans ((hcode i hlo hhi).2 hdata))
  · rw [Bool.eq_false_iff]
    exact fun hs => Bool.false_ne_true ((h.inside i hlo hhi).symm.trans (hinside i hlo hhi hs))

theorem of_claim? (hc : s.Consistent) (data : s.isData first) (holds : bank.Holds first op)
    (claimed : s.claim? first op.length = some t) : t.Intact bank first op := by
  refine ⟨holds, ?_, fun i hlo hhi => ⟨?_, ?_⟩, fun i hlo hhi => ?_⟩
  · rw [Bool.eq_false_iff, ne_eq, isPointer_of_claim? claimed, hc.isPointer_eq_false data]
    exact Bool.false_ne_true
  · exact (isCode_of_claim? claimed i).2 (.inr ⟨hlo, hhi⟩)
  · rw [Bool.eq_false_iff, ne_eq, isData_of_claim? claimed]
    exact fun hd => hd.2 ⟨hlo, hhi⟩
  · rw [Bool.eq_false_iff, ne_eq, isStart_of_claim? claimed]
    rintro (rfl | hs)
    · exact lt_irrefl _ hlo
    · exact hs.2 ⟨hlo, hhi⟩

end Intact

namespace Tidy

theorem intact (h : s.Tidy bank) (hp : s.isStart p) (holds : bank.Holds p op) :
    s.Intact bank p op := by
  obtain ⟨op', hop⟩ := h p hp
  rwa [holds.unique hop.holds]

theorem of_claim? (h : s.Tidy bank) (hc : s.Consistent) (data : s.isData first)
    (holds : bank.Holds first op) (claimed : s.claim? first op.length = some t) : t.Tidy bank := by
  intro p hp
  rcases (isStart_of_claim? claimed p).1 hp with rfl | ⟨hp, -⟩
  · exact ⟨op, .of_claim? hc data holds claimed⟩
  · obtain ⟨op', hop⟩ := h p hp
    refine ⟨op', hop.of_imp (isPointer_of_claim? claimed p).1 (fun i _ _ => ⟨fun hcode => ?_,
      fun hdata => ?_⟩) fun i hlo hhi hs => ?_⟩
    · exact (isCode_of_claim? claimed i).2 (.inl hcode)
    · exact ((isData_of_claim? claimed i).1 hdata).1
    · rcases (isStart_of_claim? claimed i).1 hs with rfl | hs
      · -- An instruction is claimed at data, and so inside no other.
        have hle := hop.le_of_isData hlo.le data
        omega
      · exact hs.1

theorem of_release? (h : s.Tidy bank) (released : s.release? first last = some t)
    (before : ∀ {p op}, s.isStart p → bank.Holds p op → p < first → p + op.length ≤ first) :
    t.Tidy bank := by
  intro p hp
  rw [isStart_of_release? released] at hp
  obtain ⟨op, hop⟩ := h p hp.1
  have out : ∀ i, p ≤ i → i < p + op.length → ¬ (first ≤ i ∧ i ≤ last) := by
    intro i hlo hhi hin
    rcases Nat.lt_or_ge p first with hlt | hge
    · have hle := before hp.1 hop.holds hlt
      omega
    · exact hp.2 ⟨hge, hlo.trans hin.2⟩
  refine ⟨op, hop.of_imp (fun hpointer => ?_) (fun i hlo hhi => ⟨fun hcode => ?_, fun hdata => ?_⟩)
    fun i _ _ hs => ?_⟩
  · exact ((isPointer_of_release? released p).1 hpointer).1
  · exact (isCode_of_release? released i).2 ⟨hcode, out i hlo hhi⟩
  · exact ((isData_of_release? released i).1 hdata).resolve_right (out i hlo hhi)
  · exact ((isStart_of_release? released i).1 hs).1

theorem of_point? (h : s.Tidy bank) (pointed : s.point? offset = some t) : t.Tidy bank := by
  intro p hp
  rw [isStart_of_point? pointed] at hp
  obtain ⟨op, hop⟩ := h p hp.1
  refine ⟨op, hop.of_imp (fun hpointer => ?_) (fun i _ _ => ⟨fun hcode => ?_, fun hdata => ?_⟩)
    fun i _ _ hs => ?_⟩
  · exact ((isPointer_of_point? pointed p).1 hpointer).resolve_right hp.2
  · exact (isCode_of_point? pointed i).2 (.inl hcode)
  · exact ((isData_of_point? pointed i).1 hdata).1
  · exact ((isStart_of_point? pointed i).1 hs).1

theorem of_labelsInto (h : s.Tidy bank) (hl : s.LabelsInto t) : t.Tidy bank := by
  intro p hp
  rw [hl.isStart_eq] at hp
  obtain ⟨op, hop⟩ := h p hp
  refine ⟨op, hop.of_imp ?_ (fun i _ _ => ⟨?_, ?_⟩) fun i _ _ => ?_⟩
  · rw [hl.isPointer_eq]
    exact id
  · rw [hl.isCode_eq]
    exact id
  · rw [hl.isData_eq]
    exact id
  · rw [hl.isStart_eq]
    exact id

end Tidy

/-- Every instruction stands whole, and straight-line code leads on to code. -/
structure Sealed (bank : Bank) (s : Survey n) : Prop where
  consistent : s.Consistent
  tidy : s.Tidy bank
  onward : ∀ {p op}, s.isStart p → bank.Holds p op → op.control.isLinear → s.Taken (p + op.length)

namespace Sealed

theorem of_point? (h : s.Sealed bank) (pointed : s.point? offset = some t) : t.Sealed bank where
  consistent := h.consistent.of_point? pointed
  tidy := h.tidy.of_point? pointed
  onward hp holds linear :=
    (h.onward ((isStart_of_point? pointed _).1 hp).1 holds linear).of_point? pointed

theorem of_labelsInto (h : s.Sealed bank) (hl : s.LabelsInto t) : t.Sealed bank where
  consistent := h.consistent.of_labelsInto hl
  tidy := h.tidy.of_labelsInto hl
  onward hp holds linear := by
    rw [hl.isStart_eq] at hp
    exact hl.taken_iff.2 (h.onward hp holds linear)

end Sealed

end Survey

namespace Course

theorem not_inDoubt_of_waits {c : Course n} (h : ∀ strand ∈ c.strands, strand.Waits) (i : Nat) :
    ¬ c.InDoubt i := by
  cases hs : c.strands with
  | nil =>
    rw [InDoubt, hs]
    exact id
  | cons strand waiting =>
    exact not_inDoubt_of_steady hs (h strand (hs ▸ List.mem_cons_self)).steady i

theorem not_inDoubt_of_sent (s : Survey n) (target : Option Nat) (r p : Nat) (a : Bool) (i : Nat) :
    ¬ (⟨s, s.entering target, r, p, a⟩ : Course n).InDoubt i := by
  rcases s.entering_eq target with he | ⟨start, -, he⟩
  · rw [he]
    exact id
  · exact not_inDoubt_of_steady he (Strand.fresh_steady start) i

theorem Fixed.sent {s : Survey n} {r p i : Nat} {a : Bool}
    (h : (⟨s, [], r, p, a⟩ : Course n).Fixed i) (target : Option Nat) :
    (⟨s, s.entering target, r, p, false⟩ : Course n).Fixed i := by
  have steady := not_inDoubt_of_sent s target r p false
  obtain ⟨j, hji, hij, h₀, h₁, h₂⟩ := h
  exact ⟨j, hji, hij, ⟨h₀.1, steady _⟩, ⟨h₁.1, steady _⟩, ⟨h₂.1, steady _⟩⟩

/-- The current strand has come straight from the instruction at `p`, since it last branched, and
stands behind it at `next`. -/
def OnEdge (c : Course n) (p next : Nat) : Prop :=
  match c.strands with
  | ⟨_, offset, .decode settled _⟩ :: _ => settled ≤ p ∧ offset = next
  | _ => False

/-- The order that every move keeps. -/
structure Orderly (bank : Bank) (c : Course n) : Prop where
  consistent : c.survey.Consistent
  tidy : c.survey.Tidy bank
  onward : ∀ {p op}, c.survey.isStart p → bank.Holds p op → op.control.isLinear →
    c.survey.Taken (p + op.length) ∨ c.OnEdge p (p + op.length)
  apart : ∀ {p op i}, c.survey.isStart p → bank.Holds p op → ¬ c.InDoubt p → c.InDoubt i →
    p < i → p + op.footing ≤ i

/-- The last bytes of the bank, to which no strand comes: they are fixed and no instruction. -/
def Topped (c : Course Bank.size) : Prop :=
  ∀ i, PointerTable.vectors.offset ≤ i → i < Bank.size → c.Fixed i ∧ c.survey.isStart i = false

namespace Orderly

variable {bank : Bank} {c : Course n} {s t : Survey n} {start offset settled p : Nat}
  {afterCall : Bool} {op op' : Opcode} {waiting : List Strand}

theorem of_sealed (h : c.survey.Sealed bank) (steady : ∀ i, ¬ c.InDoubt i) : c.Orderly bank where
  consistent := h.consistent
  tidy := h.tidy
  onward hp holds linear := .inl (h.onward hp holds linear)
  apart _ _ _ hi _ := absurd hi (steady _)

theorem sealed (h : c.Orderly bank) (hedge : ∀ p next, ¬ c.OnEdge p next) :
    c.survey.Sealed bank where
  consistent := h.consistent
  tidy := h.tidy
  onward hp holds linear := (h.onward hp holds linear).resolve_right (hedge _ _)

theorem of_labelsInto {strands : List Strand} {r p : Nat} {a : Bool}
    (h : (⟨s, strands, r, p, a⟩ : Course n).Orderly bank) (hl : s.LabelsInto t) :
    (⟨t, strands, r, p, a⟩ : Course n).Orderly bank := by
  have doubt : ∀ i, (⟨t, strands, r, p, a⟩ : Course n).InDoubt i ↔
      (⟨s, strands, r, p, a⟩ : Course n).InDoubt i := by
    intro i
    simp only [InDoubt, hl.isData_eq]
  refine ⟨h.consistent.of_labelsInto hl, h.tidy.of_labelsInto hl, fun hp holds linear => ?_,
    fun hp holds hout hi hlt => ?_⟩
  · rw [hl.isStart_eq] at hp
    rw [hl.taken_iff]
    exact h.onward hp holds linear
  · rw [hl.isStart_eq] at hp
    rw [doubt] at hout hi
    exact h.apart hp holds hout hi hlt

section Decode

variable (h : c.Orderly bank) (hs : c.strands = ⟨start, offset, .decode settled afterCall⟩ :: waiting)
  (hle : settled ≤ offset) (data : c.survey.isData offset)
include h hs hle data

/-- Where a strand decodes, what stands before `settled` does not lean on what comes after. -/
theorem footing_le (hp : c.survey.isStart p) (holds : bank.Holds p op) (hlt : p < settled) :
    p + op.footing ≤ settled := by
  rcases Nat.lt_or_ge settled offset with hdoubt | hge
  · have hin : c.InDoubt settled := by
      rw [InDoubt, hs]
      exact ⟨data, le_rfl, hdoubt⟩
    have hout : ¬ c.InDoubt p := by
      rw [InDoubt, hs]
      rintro ⟨-, hlo, -⟩
      omega
    exact h.apart hp holds hout hin hlt
  · -- Nothing is in doubt yet, and `settled` is the data at which the strand stands.
    obtain rfl : settled = offset := by omega
    have hend := (h.tidy.intact hp holds).le_of_isData hlt.le data
    unfold Opcode.footing
    split_ifs with linear
    · rcases h.onward hp holds linear with htaken | hedge
      · have hne := htaken.ne_of_isData data
        omega
      · rw [OnEdge, hs] at hedge
        have hlo := hedge.1
        omega
    · exact hend

theorem onward_of_claim? (holds : bank.Holds offset op)
    (claimed : c.survey.claim? offset op.length = some t) (hp : t.isStart p)
    (holds' : bank.Holds p op') (linear : op'.control.isLinear) :
    p = offset ∨ t.Taken (p + op'.length) := by
  rcases (Survey.isStart_of_claim? claimed p).1 hp with rfl | ⟨hp, -⟩
  · exact .inl rfl
  · right
    rcases h.onward hp holds' linear with htaken | hedge
    · exact htaken.of_claim? claimed
    · rw [OnEdge, hs] at hedge
      rw [← hedge.2]
      exact Survey.taken_of_claim? claimed le_rfl (by have := holds.length_pos; omega)

/-- Giving back what is in doubt breaks nothing. -/
theorem sealed_of_release? (released : c.survey.release? settled offset = some t) :
    t.Sealed bank := by
  have before : ∀ {p op}, c.survey.isStart p → bank.Holds p op → p < settled →
      p + op.footing ≤ settled := fun hp holds hlt => h.footing_le hs hle data hp holds hlt
  refine ⟨h.consistent.of_release? released, ?_, fun hp holds linear => ?_⟩
  · refine h.tidy.of_release? released fun hp holds hlt => ?_
    have hfooting := before hp holds hlt
    unfold Opcode.footing at hfooting
    split_ifs at hfooting <;> omega
  · rename_i p op
    rw [Survey.isStart_of_release? released] at hp
    -- An instruction that leads into the bytes given back is one of them: those before have their
    -- footing before.
    have hout : ¬ (settled ≤ p + op.length ∧ p + op.length ≤ offset) := by
      intro hin
      rcases Nat.lt_or_ge p settled with hlt | hge
      · have hfooting := before hp.1 holds hlt
        rw [Opcode.footing, if_pos linear] at hfooting
        omega
      · exact hp.2 ⟨hge, by omega⟩
    rcases h.onward hp.1 holds linear with htaken | hedge
    · exact htaken.of_release? released hout
    · rw [OnEdge, hs] at hedge
      exact absurd ⟨hedge.1, by omega⟩ hp.2

end Decode

end Orderly

end Course

namespace Move

variable {bank : Bank} {c d : Course Bank.size}

theorem isStart_or_isData (h : Move bank c d) {i : Nat} (hi : d.survey.isStart i) :
    c.survey.isStart i ∨ c.survey.isData i := by
  have claim : ∀ {s t : Survey Bank.size} {first length : Nat}, s.isData first →
      s.claim? first length = some t → t.isStart i → s.isStart i ∨ s.isData i := by
    intro s t first length data claimed hs
    rcases (Survey.isStart_of_claim? claimed i).1 hs with rfl | hs
    · exact .inr data
    · exact .inl hs.1
  cases h with
  | undo data refuses released => exact .inl ((Survey.isStart_of_release? released i).1 hi).1
  | advance data holds linear claimed annotated =>
    exact claim data claimed (by rwa [← (Survey.LabelsInto.of_annotate? annotated).isStart_eq])
  | transfer data holds nonlinear claimed => exact claim data claimed hi
  | claim low high =>
    have hi := ((Survey.isStart_of_point? high i).1 hi).1
    exact .inl ((Survey.isStart_of_point? low i).1 hi).1
  | finish closed => exact .inl (by rwa [← (Survey.LabelsInto.of_close? closed).isStart_eq])
  | _ => exact .inl hi

theorem topped (h : Move bank c d) (hst : c.Stacked) (hc : c.Topped) : d.Topped := by
  intro i hlo hhi
  obtain ⟨hfixed, hstart⟩ := hc i hlo hhi
  refine ⟨h.fixed hst hfixed, ?_⟩
  rw [Bool.eq_false_iff]
  intro hs
  rcases h.isStart_or_isData hs with hs | hdata
  · exact Bool.false_ne_true (hstart.symm.trans hs)
  · exact hfixed.held.1.not_isData hdata

theorem orderly (h : Move bank c d) (hsound : c.Sound bank) (htop : c.Topped)
    (hc : c.Orderly bank) : d.Orderly bank := by
  cases h with
  | @arrive s start offset settled afterCall waiting r p a stop =>
    refine .of_sealed ⟨hc.consistent, hc.tidy, fun hp holds linear => ?_⟩ fun i =>
      Course.not_inDoubt_of_steady rfl (by trivial) i
    rename_i p op
    rcases hc.onward hp holds linear with htaken | ⟨-, rfl⟩
    · exact htaken
    · refine ⟨Nat.lt_of_not_le fun hge => ?_, stop⟩
      -- An instruction that ends with the bank would start in its last three bytes.
      have hlength := holds.length_le
      have hsize : PointerTable.vectors.offset + 6 = Bank.size := rfl
      have hstart := (htop p (by omega) holds.lt).2
      exact Bool.false_ne_true (hstart.symm.trans hp)
  | undo data refuses released =>
    obtain ⟨-, hle, -⟩ := hsound.inside _ List.mem_cons_self
    exact .of_sealed (hc.sealed_of_release? rfl hle data released) fun i =>
      Course.not_inDoubt_of_steady rfl (Strand.undone_steady _ _ _ _) i
  | @advance s t u start offset settled afterCall op waiting r p a data holds linear claimed
      annotated =>
    have hle : settled ≤ offset := (hsound.inside _ List.mem_cons_self).2.1
    refine Course.Orderly.of_labelsInto (s := t) ?_ (.of_annotate? annotated)
    refine ⟨hc.consistent.of_claim? claimed, hc.tidy.of_claim? hc.consistent data holds claimed,
      fun hp holds' linear' => ?_, ?_⟩
    · rcases hc.onward_of_claim? rfl hle data holds claimed hp holds' linear' with rfl | htaken
      · obtain rfl := holds.unique holds'
        exact .inr ⟨hle, rfl⟩
      · exact .inl htaken
    · rintro q op' i hq holds' hout ⟨hdata, hlo, hhi⟩ hlt
      -- From `settled` on everything is in doubt now, also the new instruction.
      have hqs : q < settled := by
        by_contra hge
        exact hout ⟨hdata, by omega, by omega⟩
      rcases (Survey.isStart_of_claim? claimed q).1 hq with rfl | ⟨hq, -⟩
      · omega
      · exact (hc.footing_le rfl hle data hq holds' hqs).trans hlo
  | @transfer s t start offset settled afterCall op waiting r p a data holds nonlinear claimed =>
    obtain ⟨-, hle, -⟩ := hsound.inside _ List.mem_cons_self
    refine .of_sealed ⟨hc.consistent.of_claim? claimed,
      hc.tidy.of_claim? hc.consistent data holds claimed, fun hp holds' linear' => ?_⟩ fun i =>
        Course.not_inDoubt_of_entering (Strand.taskAfter_steady _ _ _) i
    rcases hc.onward_of_claim? rfl hle data holds claimed hp holds' linear' with rfl | htaken
    · rw [holds.unique holds', linear'] at nonlinear
      contradiction
    · exact htaken
  | probe word pointee =>
    exact .of_sealed (hc.sealed fun _ _ => id) fun i => Course.not_inDoubt_of_entering (by trivial) i
  | tableEnd noWord =>
    exact .of_sealed (hc.sealed fun _ _ => id) fun i =>
      Course.not_inDoubt_of_steady rfl (by trivial) i
  | claim low high =>
    exact .of_sealed (((hc.sealed fun _ _ => id).of_point? low).of_point? high) fun i =>
      Course.not_inDoubt_of_steady rfl (by trivial) i
  | finish closed =>
    exact .of_sealed ((hc.sealed fun _ _ => id).of_labelsInto (.of_close? closed)) fun i =>
      Course.not_inDoubt_of_waits (fun strand hmem => hsound.stacked strand hmem) i

end Move

/-- The byte lies in a row of three that belong to tables. -/
def Seeds.Lined (seeds : Seeds) (i : Nat) : Prop :=
  ∃ first ≤ i, i < first + 3 ∧ ∀ j, first ≤ j → j < first + 3 → seeds.Covers j

theorem Seeds.Lined.covers {seeds : Seeds} {i : Nat} (h : seeds.Lined i) : seeds.Covers i := by
  obtain ⟨first, hlo, hhi, hrow⟩ := h
  exact hrow i hlo hhi

theorem Seeds.lined_of_vectors (seeds : Seeds) {i : Nat} (hlo : PointerTable.vectors.offset ≤ i)
    (hhi : i < Bank.size) : seeds.Lined i := by
  have hsize : PointerTable.vectors.offset + 6 = Bank.size := rfl
  refine ⟨PointerTable.vectors.offset + 3 * ((i - PointerTable.vectors.offset) / 3), by omega,
    by omega, fun j hj hj' => ⟨.vectors, List.mem_append_right _ List.mem_cons_self, ?_, ?_⟩⟩
  · omega
  · have hcount : PointerTable.vectors.count = 3 := rfl
    omega

theorem Analysis.taken_of_covers {seeds : Seeds} {s : Survey n} {i : Nat}
    (h : seed? (.blank n) seeds.slots = some s) (hi : seeds.Covers i) : s.Taken i := by
  have hmark := mark?_of_covers h hi
  have hpointer : s.isPointer i := by
    rw [Survey.isPointer, hmark]
    rfl
  refine ⟨Survey.lt_of_any hpointer, ?_⟩
  rw [Survey.isData, hmark]
  rfl

theorem Course.fixed_of_seed? {seeds : Seeds} {s : Survey Bank.size} {i : Nat}
    (h : Analysis.seed? (.blank Bank.size) seeds.slots = some s) (hi : seeds.Lined i) :
    (⟨s, [], 0, 0, false⟩ : Course Bank.size).Fixed i := by
  obtain ⟨first, hlo, hhi, hrow⟩ := hi
  have held : ∀ j, first ≤ j → j < first + 3 → (⟨s, [], 0, 0, false⟩ : Course Bank.size).Held j :=
    fun j hj hj' => ⟨Analysis.taken_of_covers h (hrow j hj hj'), id⟩
  exact ⟨first, hlo, hhi, held _ le_rfl (by omega), held _ (by omega) (by omega),
    held _ (by omega) (by omega)⟩

theorem Course.topped_of_seed? {seeds : Seeds} {s : Survey Bank.size}
    (h : Analysis.seed? (.blank Bank.size) seeds.slots = some s) :
    (⟨s, [], 0, 0, false⟩ : Course Bank.size).Topped := fun i hlo hhi =>
  ⟨fixed_of_seed? h (seeds.lined_of_vectors hlo hhi), Analysis.isStart_of_seed? h i⟩

theorem Survey.sealed_of_seed? {bank : Bank} {slots : List Nat} {s : Survey n}
    (h : Analysis.seed? (.blank n) slots = some s) : s.Sealed bank := by
  have noStart : ∀ p, ¬ s.isStart p := by
    intro p hp
    exact Bool.false_ne_true ((Analysis.isStart_of_seed? h p).symm.trans hp)
  refine ⟨fun i m hm => ?_, fun p hp => absurd hp (noStart p), fun hp => absurd hp (noStart _)⟩
  rw [Analysis.mark?_of_seed?_blank h] at hm
  split_ifs at hm
  · exact Option.some.inj hm ▸ Mark.codePointer_consistent
  · exact Option.some.inj hm ▸ Mark.plain_consistent

theorem Course.Topped.sent {s : Survey Bank.size} {r p : Nat} {a : Bool}
    (h : (⟨s, [], r, p, a⟩ : Course Bank.size).Topped) (target : Option Nat) :
    (⟨s, s.entering target, r, p, false⟩ : Course Bank.size).Topped := by
  intro i hlo hhi
  obtain ⟨hfixed, hstart⟩ := h i hlo hhi
  exact ⟨hfixed.sent target, hstart⟩

/-- Order is kept throughout an analysis. -/
theorem Course.kept_orderly (bank : Bank) (seeds : Seeds) :
    Course.Kept bank seeds fun c => c.Topped ∧ c.Orderly bank where
  seeded h := ⟨topped_of_seed? h, .of_sealed (Survey.sealed_of_seed? h) fun _ => id⟩
  sent _ _ h := ⟨h.1.sent _, .of_sealed (h.2.sealed fun _ _ => id) (not_inDoubt_of_sent _ _ _ _ _)⟩
  moved hsound hmove h := ⟨hmove.topped hsound.stacked h.1, hmove.orderly hsound h.1 h.2⟩

/-- Throughout an analysis every instruction that is marked is legal, fits in the bank and stands
whole, so that no two of them overlap. -/
theorem Bank.spans_throughout (bank : Bank) (seeds : Seeds) :
    Analysis.Throughout bank seeds fun s => ∀ p, s.isStart p → ∃ op, 0 < op.length ∧
      s.Intact bank p op := by
  have htidy : ∀ {s : Survey Bank.size}, s.Tidy bank →
      ∀ p, s.isStart p → ∃ op, 0 < op.length ∧ s.Intact bank p op := by
    intro s h p hp
    obtain ⟨op, hop⟩ := h p hp
    exact ⟨op, hop.holds.length_pos, hop⟩
  exact (Course.kept_orderly bank seeds).throughout (fun h => htidy h.2.tidy) fun h =>
    htidy (h.2.tidy.of_labelsInto (.of_labelBoundaries _))

/-- In the end straight-line code runs neither into data nor out of the bank. -/
theorem Bank.analyze?_falls_to_code (bank : Bank) (seeds : Seeds) :
    ∃ a, bank.analyze? seeds = some a ∧ ∀ p op, a.survey.isStart p → bank.opcode? p = some op →
      op.control.isLinear → p + op.length < Bank.size ∧ a.survey.isCode (p + op.length) := by
  obtain ⟨x, ha, hend, -, hx⟩ := (Course.kept_orderly bank seeds).exists_analyze?
  have hsealed := (hx.sealed fun p next => by
    rw [Course.OnEdge, Exploration.course, hend]
    exact id).of_labelsInto (.of_labelBoundaries _)
  refine ⟨_, ha, fun p op hp hop linear => ?_⟩
  obtain ⟨op', hintact⟩ := hsealed.tidy p hp
  obtain rfl := Option.some.inj (hintact.holds.opcode.symm.trans hop)
  obtain ⟨hlt, hdata⟩ := hsealed.onward hp hintact.holds linear
  exact ⟨hlt, hsealed.consistent.isCode_of_isData_eq_false hlt hdata⟩

end BankTrace
