import BankTrace.Proofs.Provenance
import BankTrace.Proofs.Settlement

namespace BankTrace

variable {n : Nat}

namespace Opcode

theorem table_call : ∀ entry ∈ table.toList.zipIdx, entry.1.control = .call → entry.2 = 0x20 := by
  decide +kernel

/-- The only opcode that calls. -/
theorem eq_of_control_call {byte : UInt8} (h : (ofByte byte).control = .call) : byte = 0x20 := by
  have hmem : (ofByte byte, byte.toNat) ∈ table.toList.zipIdx := by
    rw [List.mem_zipIdx_iff_getElem?, Vector.getElem?_toList]
    exact Vector.getElem?_eq_getElem byte.toNat_lt
  exact UInt8.toNat_inj.1 (table_call _ hmem h)

end Opcode

theorem Bank.Holds.byte?_of_call {bank : Bank} {offset : Nat} {op : Opcode}
    (h : bank.Holds offset op) (hcall : op.control = .call) : bank.byte? offset = some 0x20 := by
  obtain ⟨byte, hbyte, rfl⟩ := Option.map_eq_some_iff.1 h.opcode
  rw [hbyte, Opcode.eq_of_control_call hcall]

namespace Course

/-- The word that the next step claims for a jump table. -/
def claiming? (c : Course n) : Option Nat :=
  match c.strands with
  | ⟨_, offset, .claim _⟩ :: _ => some offset
  | _ => none

/-- `count` words have been claimed one after the other behind the call at `call`. -/
structure Tabulated (bank : Bank) (c : Course n) (call count : Nat) : Prop where
  calls : bank.byte? call = some 0x20
  settled : ∀ i, call ≤ i → i < call + 3 + 2 * count → c.Settled i
  pointer : ∀ i, call + 3 ≤ i → i < call + 3 + 2 * count → c.survey.isPointer i
  high : ∀ j < count, bank.TableThrough call j

/-- Where a strand may look for a word, or is about to claim one, a row of words from a call ends. -/
def Tabulates (bank : Bank) (c : Course n) (strand : Strand) : Prop :=
  match strand.task with
  | .decode settled afterCall => afterCall → ∃ call, settled = call + 3 ∧ c.Tabulated bank call 0
  | .probe _ => ∃ call k, strand.offset = call + 3 + 2 * k ∧ c.Tabulated bank call k
  | .claim _ => ∃ call k, strand.offset = call + 3 + 2 * k ∧ c.Tabulated bank call k ∧
      bank.TableThrough call k
  | .close => True

/-- Every pointer is a byte of the tables given, or of a word claimed behind a call. -/
structure Tabular (bank : Bank) (seeds : Seeds) (c : Course n) : Prop where
  strands : ∀ strand ∈ c.strands, c.Tabulates bank strand
  pointers : ∀ i, c.survey.isPointer i → seeds.Covers i ∨
    ∃ call k, c.Tabulated bank call (k + 1) ∧ (i = call + 3 + 2 * k ∨ i = call + 3 + 2 * k + 1)

variable {bank : Bank} {c d : Course n} {call count : Nat}

/-- A row of words lasts as long as what is settled and what is a pointer. -/
theorem Tabulated.imp (h : c.Tabulated bank call count)
    (hsettled : ∀ i, c.Settled i → d.Settled i)
    (hpointer : ∀ i, c.Settled i → c.survey.isPointer i → d.survey.isPointer i) :
    d.Tabulated bank call count where
  calls := h.calls
  settled i hlo hhi := hsettled i (h.settled i hlo hhi)
  pointer i hlo hhi := hpointer i (h.settled i (by omega) hhi) (h.pointer i hlo hhi)
  high := h.high

theorem Tabulates.imp {strand : Strand} (h : c.Tabulates bank strand)
    (htable : ∀ call count, c.Tabulated bank call count → d.Tabulated bank call count) :
    d.Tabulates bank strand := by
  obtain ⟨start, offset, task⟩ := strand
  cases task with
  | decode settled afterCall =>
    intro hafter
    obtain ⟨call, hsettled, hcall⟩ := h hafter
    exact ⟨call, hsettled, htable call 0 hcall⟩
  | probe k =>
    obtain ⟨call, k, hoffset, hcall⟩ := h
    exact ⟨call, k, hoffset, htable call k hcall⟩
  | claim k =>
    obtain ⟨call, k, hoffset, hcall, high⟩ := h
    exact ⟨call, k, hoffset, htable call k hcall, high⟩
  | close => trivial

theorem tabulates_fresh (bank : Bank) (c : Course n) (start : Nat) :
    c.Tabulates bank (.fresh start) := nofun

theorem tabulates_undone {start settled k : Nat} {afterCall : Bool}
    (h : afterCall → ∃ call, settled = call + 3 ∧ c.Tabulated bank call 0) :
    c.Tabulates bank (.undone start settled afterCall k) := by
  unfold Strand.undone
  split
  · rename_i hafter
    obtain ⟨call, hsettled, hcall⟩ := h hafter
    exact ⟨call, 0, hsettled, hcall⟩
  · trivial

theorem tabulates_taskAfter {start offset : Nat} {op : Opcode} (holds : bank.Holds offset op)
    (h : op.control = .call → c.Tabulated bank offset 0) :
    c.Tabulates bank
      ⟨start, offset + op.length, op.control.taskAfter (offset + op.length)⟩ := by
  cases hcontrol : op.control with
  | branch => exact nofun
  | call =>
    have hregular := Bank.regular_of_opcode? holds.opcode
    have hlength : op.length = 3 := by simpa only [Opcode.Regular, hcontrol] using hregular
    exact fun _ => ⟨offset, by rw [hlength], h hcontrol⟩
  | _ => trivial

theorem exists_of_claiming? {slot : Nat} (h : c.claiming? = some slot) :
    ∃ start k waiting, c.strands = ⟨start, slot, .claim k⟩ :: waiting := by
  unfold claiming? at h
  split at h
  · rename_i hs
    exact ⟨_, _, _, Option.some.inj h ▸ hs⟩
  · contradiction

end Course

theorem Exploration.isPointer_of_isTableWord {bank : Bank} {s : Survey n} {slot : Nat}
    (h : isTableWord s bank slot) : s.isPointer slot = false := by
  simp only [isTableWord, Survey.isPlain, Bool.and_eq_true, beq_iff_eq] at h
  rw [Survey.isPointer, h.1]
  rfl

namespace Move

section Pointers

variable {bank : Bank} {c d : Course n} {i slot : Nat}

theorem isPointer_before (h : Move bank c d) (hi : d.survey.isPointer i) :
    c.survey.isPointer i ∨ ∃ slot, c.claiming? = some slot ∧ (i = slot ∨ i = slot + 1) := by
  cases h with
  | undo data refuses released => exact .inl ((Survey.isPointer_of_release? released i).1 hi).1
  | advance data holds linear claimed annotated =>
    rw [(Survey.LabelsInto.of_annotate? annotated).isPointer_eq] at hi
    exact .inl ((Survey.isPointer_of_claim? claimed i).1 hi)
  | transfer data holds nonlinear claimed => exact .inl ((Survey.isPointer_of_claim? claimed i).1 hi)
  | claim low high =>
    rcases (Survey.isPointer_of_point? high i).1 hi with hi | rfl
    · rcases (Survey.isPointer_of_point? low i).1 hi with hi | rfl
      · exact .inl hi
      · exact .inr ⟨_, rfl, .inl rfl⟩
    · exact .inr ⟨_, rfl, .inr rfl⟩
  | finish closed =>
    rw [(Survey.LabelsInto.of_close? closed).isPointer_eq] at hi
    exact .inl hi
  | _ => exact .inl hi

theorem isPointer_of_claiming? (h : Move bank c d) (hslot : c.claiming? = some slot) :
    (d.survey.mark? slot = some .codePointer ∧ d.survey.mark? (slot + 1) = some .codePointer) ∧
      ∀ i, ¬ d.InDoubt i := by
  cases h with
  | claim low high =>
    obtain rfl : _ = slot := Option.some.inj hslot
    refine ⟨⟨?_, ?_⟩, fun i => Course.not_inDoubt_of_steady rfl (by trivial) i⟩
    · rw [Survey.mark?_of_point? high, if_neg (Nat.lt_succ_self _).ne, Survey.mark?_of_point? low,
        if_pos rfl]
    · rw [Survey.mark?_of_point? high, if_pos rfl]
  | _ => cases hslot

theorem mem_claim_before (h : Move bank c d) {strand : Strand} {k : Nat}
    (hmem : strand ∈ d.strands) (htask : strand.task = .claim k) :
    strand ∈ c.strands ∨ Exploration.isTableWord c.survey bank strand.offset ∧
      ∃ target rest, bank.pointee? strand.offset = some target ∧ d.survey = c.survey ∧
        d.strands = c.survey.entering (some target) ++ rest ∧ ∀ i, ¬ d.InDoubt i := by
  have other : ∀ {current : Strand} {waiting : List Strand}, current.task ≠ .claim k →
      strand ∈ current :: waiting → strand ∈ waiting := by
    intro current waiting hne hmem
    rcases List.mem_cons.1 hmem with rfl | hmem
    · exact absurd htask hne
    · exact hmem
  have begun : ∀ {s : Survey n} {target : Option Nat} {strands : List Strand},
      strand ∈ s.entering target ++ strands → strand ∈ strands := by
    intro s target strands hmem
    rcases List.mem_append.1 hmem with hmem | hmem
    · obtain ⟨start, -, rfl⟩ := Survey.eq_fresh_of_mem_entering hmem
      cases htask
    · exact hmem
  cases h with
  | undo data refuses released =>
    refine .inl (List.mem_cons_of_mem _ (other ?_ hmem))
    unfold Strand.undone
    split <;> simp
  | transfer data holds nonlinear claimed =>
    refine .inl (List.mem_cons_of_mem _ (other ?_ (begun hmem)))
    simp only [Control.taskAfter]
    split <;> simp
  | probe word pointee =>
    rcases List.mem_cons.1 (begun hmem) with rfl | hmem
    · exact .inr ⟨word, _, _, pointee, rfl, rfl, Course.not_inDoubt_of_entering trivial⟩
    · exact .inl (List.mem_cons_of_mem _ hmem)
  | finish closed => exact .inl (List.mem_cons_of_mem _ hmem)
  | _ => exact .inl (List.mem_cons_of_mem _ (other (by simp) hmem))

end Pointers

variable {bank : Bank} {seeds : Seeds} {c d : Course Bank.size} {call count k : Nat}

theorem tabulated (h : Move bank c d) (hst : c.Stacked) (hc : c.Tabulated bank call count) :
    d.Tabulated bank call count :=
  hc.imp (fun _ hi => h.settled hst hi) fun _ hi hpointer =>
    h.any_of_taken Mark.lasting_pointer (h.fixed hst hi.fixed).held.1 hpointer

theorem tabulated_succ (h : Move bank c d) (hst : c.Stacked) (hc : c.Tabulated bank call k)
    (hslot : c.claiming? = some (call + 3 + 2 * k)) (high : bank.TableThrough call k) :
    d.Tabulated bank call (k + 1) := by
  have hd := h.tabulated hst hc
  obtain ⟨⟨hlow, hhigh⟩, steady⟩ := h.isPointer_of_claiming? hslot
  have marked : ∀ i, call + 3 + 2 * k ≤ i → i < call + 3 + 2 * (k + 1) →
      d.survey.mark? i = some .codePointer := by
    intro i hlo hhi
    obtain rfl | rfl : i = call + 3 + 2 * k ∨ i = call + 3 + 2 * k + 1 := by omega
    · exact hlow
    · exact hhigh
  refine ⟨hc.calls, fun i hlo hhi => ?_, fun i hlo hhi => ?_, fun j hj => ?_⟩
  · rcases Nat.lt_or_ge i (call + 3 + 2 * k) with hold | hnew
    · exact hd.settled i hlo hold
    · -- The byte before the word is settled, and with it the word is a row of three.
      refine Course.settled_of_row steady (fun j hj hj' => ?_)
        (by omega : call + 2 + 2 * k ≤ i) (by omega)
      rcases Nat.lt_or_ge j (call + 3 + 2 * k) with hbefore | hword
      · have hsettled := hd.settled j (by omega) hbefore
        exact ⟨hsettled.code, hsettled.fixed.held.1.2⟩
      · rw [Survey.isCode, Survey.isData, marked j hword (by omega)]
        exact ⟨rfl, rfl⟩
  · rcases Nat.lt_or_ge i (call + 3 + 2 * k) with hold | hnew
    · exact hd.pointer i hlo hold
    · rw [Survey.isPointer, marked i hnew hhi]
      rfl
  · rcases Nat.lt_succ_iff_lt_or_eq.1 hj with hold | rfl
    · exact hc.high j hold
    · exact high

/-- What an instruction that calls takes for itself begins a row. -/
theorem tabulated_of_call (h : Move bank c d) {start offset settled : Nat} {afterCall : Bool}
    {waiting : List Strand} {op : Opcode}
    (hs : c.strands = ⟨start, offset, .decode settled afterCall⟩ :: waiting)
    (data : c.survey.isData offset) (holds : bank.Holds offset op) (hcall : op.control = .call) :
    d.Tabulated bank offset 0 where
  calls := holds.byte?_of_call hcall
  settled _ hlo hhi := h.settled_of_transfer hs data holds (by simp [hcall]) hlo (by omega)
  pointer i hlo hhi := by omega
  high := nofun

theorem tabulated_of_claiming? (h : Move bank c d) (hst : c.Stacked) (hc : c.Tabular bank seeds)
    {slot : Nat} (hslot : c.claiming? = some slot) :
    ∃ call k, slot = call + 3 + 2 * k ∧ d.Tabulated bank call (k + 1) := by
  obtain ⟨start, refused, waiting, hs⟩ := Course.exists_of_claiming? hslot
  obtain ⟨call, k, hoffset, hcall, high⟩ := hc.strands _ (hs ▸ List.mem_cons_self)
  obtain rfl : slot = call + 3 + 2 * k := hoffset
  exact ⟨call, k, rfl, h.tabulated_succ hst hcall hslot high⟩

theorem tabular (h : Move bank c d) (hst : c.Stacked) (hc : c.Tabular bank seeds) :
    d.Tabular bank seeds := by
  have keep : ∀ strand ∈ c.strands, d.Tabulates bank strand := fun strand hmem =>
    (hc.strands strand hmem).imp fun _ _ => h.tabulated hst
  have begun : ∀ {s : Survey Bank.size} {target : Option Nat} {strand : Strand},
      strand ∈ s.entering target → d.Tabulates bank strand := by
    intro s target strand hmem
    obtain ⟨start, -, rfl⟩ := Survey.eq_fresh_of_mem_entering hmem
    exact Course.tabulates_fresh bank d start
  have called := @h.tabulated_of_call
  have claimed := @h.tabulated_of_claiming? _ _ _ _ hst hc
  refine ⟨?_, fun i hi => ?_⟩
  · cases h with
    | arrive stop =>
      rw [List.forall_mem_cons] at keep ⊢
      exact ⟨trivial, keep.2⟩
    | undo data refuses released =>
      rw [List.forall_mem_cons] at keep ⊢
      exact ⟨Course.tabulates_undone keep.1, keep.2⟩
    | advance data holds linear claimed annotated =>
      rw [List.forall_mem_cons] at keep ⊢
      exact keep
    | transfer data holds nonlinear claimed =>
      rw [List.forall_mem_cons] at keep
      rw [List.forall_mem_append, List.forall_mem_cons]
      exact ⟨fun _ => begun, Course.tabulates_taskAfter holds (called rfl data holds), keep.2⟩
    | probe word pointee =>
      rw [List.forall_mem_cons] at keep
      rw [List.forall_mem_append, List.forall_mem_cons]
      refine ⟨fun _ => begun, ?_, keep.2⟩
      obtain ⟨call, k, hoffset, hcall⟩ := keep.1
      obtain rfl : _ = call + 3 + 2 * k := hoffset
      exact ⟨call, k, rfl, hcall, Bank.tableThrough_of_isTableWord hcall.high word⟩
    | tableEnd noWord =>
      rw [List.forall_mem_cons] at keep ⊢
      exact ⟨trivial, keep.2⟩
    | claim low high =>
      rw [List.forall_mem_cons] at keep ⊢
      refine ⟨?_, keep.2⟩
      obtain ⟨call, k, rfl, hcall⟩ := claimed rfl
      exact ⟨call, k + 1, rfl, hcall⟩
    | finish closed =>
      rw [List.forall_mem_cons] at keep
      exact keep.2
  · rcases h.isPointer_before hi with hold | ⟨slot, hslot, hi⟩
    · refine (hc.pointers i hold).imp_right ?_
      rintro ⟨call, k, hcall, hi⟩
      exact ⟨call, k, h.tabulated hst hcall, hi⟩
    · obtain ⟨call, k, rfl, hcall⟩ := claimed hslot
      exact .inr ⟨call, k, hcall, hi⟩

end Move

theorem Course.kept_tabular (bank : Bank) (seeds : Seeds) :
    Course.Kept bank seeds (Course.Tabular bank seeds) where
  seeded {s} h := by
    refine ⟨nofun, fun i hi => .inl ((seeds.covers_iff i).2 ?_)⟩
    have hi : s.isPointer i := hi
    rw [Survey.isPointer, Analysis.mark?_of_seed?_blank h] at hi
    split_ifs at hi with hslot
    · exact hslot
    · contradiction
    · contradiction
  sent {s r p a slot target} _ _ h := by
    have settled : ∀ i, (⟨s, [], r, p, a⟩ : Course Bank.size).Settled i →
        (⟨s, s.entering target, r, p, false⟩ : Course Bank.size).Settled i := fun i hi =>
      ⟨hi.fixed.sent target, hi.code⟩
    refine ⟨fun strand hmem => ?_, fun i hi => (h.pointers i hi).imp_right ?_⟩
    · have hmem : strand ∈ s.entering (some target) := hmem
      obtain ⟨start, -, rfl⟩ := Survey.eq_fresh_of_mem_entering hmem
      exact tabulates_fresh bank _ start
    · rintro ⟨call, k, hcall, hi⟩
      exact ⟨call, k, hcall.imp settled fun _ _ => id, hi⟩
  moved hsound hmove h := hmove.tabular hsound.stacked h

/-- A pointer in the end belongs to a word of the tables given, or to a row of words, each high
enough for a jump table, that all follow a call and are all pointers. -/
theorem Bank.analyze?_pointers (bank : Bank) (seeds : Seeds) :
    ∃ a, bank.analyze? seeds = some a ∧ ∀ i, a.survey.isPointer i →
      (∃ slot ∈ seeds.slots, i = slot ∨ i = slot + 1) ∨
      ∃ call k, bank.byte? call = some 0x20 ∧
        (a.survey.isCode call ∧ a.survey.isCode (call + 1) ∧ a.survey.isCode (call + 2)) ∧
        (i = call + 3 + 2 * k ∨ i = call + 4 + 2 * k) ∧
        ∀ j ≤ k, a.survey.isPointer (call + 3 + 2 * j) ∧ a.survey.isPointer (call + 4 + 2 * j) ∧
          ∃ high, bank.byte? (call + 4 + 2 * j) = some high ∧ 0xC0 ≤ high := by
  obtain ⟨x, ha, -, hx⟩ := (Course.kept_tabular bank seeds).exists_analyze?
  have hlabels := Survey.LabelsInto.of_labelBoundaries x.survey
  refine ⟨_, ha, fun i hi => ?_⟩
  rcases hx.pointers i ((hlabels.isPointer_eq i).symm.trans hi) with hcovers | ⟨call, k, hcall, hi⟩
  · exact .inl ((seeds.covers_iff i).1 hcovers)
  · have code : ∀ i, call ≤ i → i < call + 3 →
        (Analysis.ofExploration x).survey.isCode i := fun i hlo hhi =>
      (hlabels.isCode_eq i).trans (hcall.settled i hlo (by omega)).code
    have pointer : ∀ i, call + 3 ≤ i → i < call + 3 + 2 * (k + 1) →
        (Analysis.ofExploration x).survey.isPointer i := fun i hlo hhi =>
      (hlabels.isPointer_eq i).trans (hcall.pointer i hlo hhi)
    refine .inr ⟨call, k, hcall.calls, ⟨code _ le_rfl (by omega), code _ (by omega) (by omega),
      code _ (by omega) (by omega)⟩, by omega, fun j hj => ⟨pointer _ (by omega) (by omega),
        pointer _ (by omega) (by omega), ?_⟩⟩
    obtain ⟨high, hbyte, hle⟩ := hcall.high j (by omega) j le_rfl
    rw [show call + 4 + 2 * j = call + 3 + 2 * j + 1 by omega]
    exact ⟨high, hbyte, hle⟩

end BankTrace
