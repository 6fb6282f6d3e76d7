import BankTrace.Proofs.Overflow
import BankTrace.Proofs.Styles
import BankTrace.Proofs.Throughout

namespace BankTrace

variable {n : Nat}

/-- A strand that looks for a jump table stands in the bank or at its end, and steps over one byte
at most when the table ends. -/
def Strand.Near (strand : Strand) : Prop :=
  match strand.task with
  | .probe refused | .claim refused => strand.offset ≤ Bank.size ∧ refused ≤ 1
  | _ => True

namespace Strand

theorem fresh_near (start : Nat) : (fresh start).Near := trivial

theorem taskAfter_near (c : Control) (start next : Nat) :
    (⟨start, next, c.taskAfter next⟩ : Strand).Near := by
  cases c <;> trivial

theorem near_of_mem_entering {s : Survey n} {target : Option Nat} {strand : Strand}
    (h : strand ∈ s.entering target) : strand.Near := by
  obtain ⟨start, -, rfl⟩ := Survey.eq_fresh_of_mem_entering h
  exact fresh_near start

end Strand

theorem Bank.Refuses.le_one {bank : Bank} {offset k : Nat} (h : bank.Refuses offset k) : k ≤ 1 := by
  cases h with
  | unfit => exact Nat.zero_le 1
  | illegal => exact le_rfl

theorem Move.near {bank : Bank} {c d : Course Bank.size} (h : Move bank c d) (hin : c.Inside)
    (hc : ∀ strand ∈ c.strands, strand.Near) : ∀ strand ∈ d.strands, strand.Near := by
  cases h with
  | undo data refuses released =>
    rw [List.forall_mem_cons] at hc ⊢
    refine ⟨?_, hc.2⟩
    obtain ⟨-, hle, -⟩ := hin _ List.mem_cons_self
    have hlt := Survey.isData_lt data
    unfold Strand.undone
    split_ifs
    · exact ⟨hle.trans hlt.le, refuses.le_one⟩
    · trivial
  | transfer data holds nonlinear claimed =>
    rw [List.forall_mem_cons] at hc
    rw [List.forall_mem_append, List.forall_mem_cons]
    exact ⟨fun _ => Strand.near_of_mem_entering, Strand.taskAfter_near _ _ _, hc.2⟩
  | probe word pointee =>
    rw [List.forall_mem_cons] at hc
    rw [List.forall_mem_append, List.forall_mem_cons]
    exact ⟨fun _ => Strand.near_of_mem_entering, hc.1, hc.2⟩
  | claim low high =>
    rw [List.forall_mem_cons] at hc ⊢
    obtain ⟨-, hlt⟩ := hin _ List.mem_cons_self
    exact ⟨⟨hlt, hc.1.2⟩, hc.2⟩
  | finish closed => exact fun strand hmem => hc strand (List.mem_cons_of_mem _ hmem)
  | _ =>
    rw [List.forall_mem_cons] at hc ⊢
    exact ⟨trivial, hc.2⟩

namespace Exploration

theorem le_of_mem_decodeSums {bank : Bank} {offset settled v : Nat} {op : Opcode}
    (hop : op.length ≤ 3) (hle : settled ≤ offset) (hlt : offset < Bank.size)
    (h : v ∈ decodeSums bank offset settled op) : v ≤ Bank.size + labelSlack := by
  have hslack : labelSlack = 3 := rfl
  rw [decodeSums, List.mem_append] at h
  rcases h with h | h
  · simp only [List.mem_cons, List.not_mem_nil, or_false] at h
    omega
  · simp only [List.mem_flatMap, Option.mem_toList, List.mem_map, List.mem_range] at h
    obtain ⟨target, htarget, i, hi, rfl⟩ := h
    have := Bank.pointee?_lt htarget
    omega

theorem le_of_mem_sums {bank : Bank} {x : Exploration Bank.size} {v : Nat} (hin : x.course.Inside)
    (hnear : ∀ strand ∈ x.strands, strand.Near) (h : v ∈ x.sums bank) :
    v ≤ Bank.size + labelSlack := by
  have hslack : labelSlack = 3 := rfl
  unfold sums at h
  cases hs : x.strands with
  | nil => simp [hs] at h
  | cons strand waiting =>
    obtain ⟨start, offset, task⟩ := strand
    have hinside : (⟨start, offset, task⟩ : Strand).Inside Bank.size := hin _ (by simp [course, hs])
    have hstrand : (⟨start, offset, task⟩ : Strand).Near := hnear _ (by simp [hs])
    simp only [hs] at h
    cases task with
    | decode settled afterCall =>
      simp only at h
      split_ifs at h with hdata
      · rw [List.mem_flatMap] at h
        obtain ⟨op, hop, h⟩ := h
        have hregular := Bank.regular_of_opcode? (Option.mem_toList.1 hop)
        exact le_of_mem_decodeSums hregular.length_le hinside.2.1 (Survey.isData_lt hdata) h
      · exact absurd h List.not_mem_nil
    | probe refused =>
      obtain ⟨hle, hrefused⟩ := hstrand
      simp only [List.mem_cons, List.not_mem_nil, or_false] at h hle
      omega
    | claim refused =>
      obtain ⟨hle, hrefused⟩ := hstrand
      simp only [List.mem_cons, List.not_mem_nil, or_false] at h hle
      omega
    | close => exact absurd h List.not_mem_nil

/-- Any number of steps from any start has a result, and the next step takes only small sums. -/
theorem exists_run?_sent (bank : Bank) (x : Exploration Bank.size) (start k : Nat) :
    ∃ y, run? bank (x.sent start) k = some y ∧ ∀ v ∈ y.sums bank, v ≤ Bank.size + labelSlack := by
  have hsound := sound_sent bank x start
  obtain ⟨y, hy⟩ := exists_run? hsound k
  refine ⟨y, hy, fun v hv => ?_⟩
  have hbegun : ∀ strand ∈ x.survey.entering start, strand.Near :=
    fun _ => Strand.near_of_mem_entering
  have hnear : ∀ strand ∈ y.course.strands, strand.Near :=
    keeps_of_sent (P := fun c => ∀ strand ∈ c.strands, strand.Near)
      (fun hc hmove => hmove.near hc.inside) hbegun hy
  exact le_of_mem_sums (sound_of_run? hsound hy).inside hnear hv

end Exploration

namespace PointerTable

theorem Fits.lt_of_mem_sums {t : PointerTable} (h : t.Fits) {v : Nat} (hv : v ∈ t.sums) :
    v < Bank.size := by
  simp only [sums, List.mem_flatMap, List.mem_range, List.mem_cons, List.not_mem_nil,
    or_false] at hv
  obtain ⟨i, hi, hv⟩ := hv
  unfold Fits at h
  omega

end PointerTable

namespace Assembly

theorem Item.Decoded.size_le {item : Item} (h : item.Decoded) : item.size ≤ 3 := by
  cases item with
  | instruction op argument hpos =>
    obtain ⟨byte, rfl⟩ := h
    exact (Opcode.ofByte_regular byte).length_le
  | pointer word => exact Nat.le_succ 2
  | orphan byte => exact Nat.le_add_left 1 2
  | value byte => exact Nat.le_add_left 1 2

theorem read_of_mem_itemsFrom? {bank : Bank} {s : Survey n} {offset : Nat}
    {items : List (Nat × Item)} (h : itemsFrom? bank s offset = some items) :
    ∀ entry ∈ items, entry.1 < Bank.size ∧ item? bank s entry.1 = some entry.2 := by
  fun_induction itemsFrom? bank s offset generalizing items with
  | case1 => contradiction
  | case2 offset hlt item hitem hpos ih =>
    obtain ⟨rest, hrest, rfl⟩ := Option.map_eq_some_iff.1 h
    exact List.forall_mem_cons.2 ⟨⟨hlt, hitem⟩, ih hrest⟩
  | case3 offset hge =>
    rw [← Option.some.inj h]
    exact List.forall_mem_nil _

theorem le_of_mem_sums {offset v : Nat} {item : Item} (hlt : offset < Bank.size)
    (hsize : item.size ≤ 3) (h : v ∈ sums offset item) : v ≤ Bank.size + labelReach := by
  have hreach : labelReach = 15 := rfl
  unfold sums at h
  rw [List.mem_append] at h
  rcases h with h | h
  · simp only [List.mem_cons, List.not_mem_nil, or_false] at h
    omega
  · cases item with
    | instruction op argument hpos =>
      obtain ⟨i, hi, rfl⟩ := List.mem_map.1 h
      have hlabel := Bank.offsetOf_lt argument
      have hborrowed := List.mem_range.1 hi
      omega
    | _ => exact absurd h List.not_mem_nil

end Assembly

namespace Bank

theorem exists_analyze? (bank : Bank) (seeds : Seeds) : ∃ a, bank.analyze? seeds = some a := by
  obtain ⟨-, x, -, -, ha⟩ := bank.analyze?_eq_some seeds
  exact ⟨_, ha⟩

theorem exists_listing? (bank : Bank) (s : Survey n) (style : Style) :
    ∃ text, bank.listing? s style = some text := by
  obtain ⟨lines, hlines, -⟩ := Assembly.exists_lines? bank s
  exact ⟨_, congrArg (Option.map (Assembly.render style)) hlines⟩

end Bank

/-- Exploring, analysing and listing a bank never fail, so that nothing is read or marked out of
bounds; and no sum of offsets overflows 64 bits, so that taking each of them within 64 bits changes
nothing. -/
theorem Bank.stays_in_bounds (bank : Bank) :
    (∀ (x : Exploration Bank.size) (start : Nat),
      (∃ y, x.follow? bank start = some y ∧ y.strands = []) ∧
      ∀ k, ∃ y, Exploration.run? bank (x.sent start) k = some y ∧
        (∀ v ∈ y.sums bank, v < 2 ^ 64) ∧ Checked.step? bank y = Exploration.step? bank y) ∧
    (∀ t : PointerTable, t.Fits ↔ ∃ last, t.end64? = some last ∧ last ≤ Bank.size) ∧
    (∀ seeds : Seeds, (∃ a, bank.analyze? seeds = some a) ∧
      ∀ t ∈ seeds.tables, (∀ v ∈ t.sums, v < 2 ^ 64) ∧ Checked.slots? t = some t.slots) ∧
    ∀ {n : Nat} (s : Survey n), ∃ items, Assembly.items? bank s = some items ∧
      (∀ entry ∈ items, (∀ v ∈ Assembly.sums entry.1 entry.2, v < 2 ^ 64) ∧
        Checked.item? bank s entry.1 = some (entry.2, entry.1 + entry.2.size) ∧
        ∀ op word hpos, entry.2 = .instruction op word hpos →
          Checked.placeOf? s word = some (Assembly.placeOf s word)) ∧
      ∀ style, ∃ text, bank.listing? s style = some text := by
  have hexplored : Bank.size + Exploration.labelSlack < 2 ^ 64 := by decide
  have hlisted : Bank.size + Assembly.labelReach < 2 ^ 64 := by decide
  have hbank : Bank.size < 2 ^ 64 := by decide
  refine ⟨fun x start => ⟨Exploration.exists_follow? bank x start, fun k => ?_⟩,
    PointerTable.fits_iff_end64?, fun seeds => ⟨bank.exists_analyze? seeds, fun t ht => ?_⟩,
    fun s => ?_⟩
  · obtain ⟨y, hy, hsums⟩ := Exploration.exists_run?_sent bank x start k
    have hsmall : ∀ v ∈ y.sums bank, v < 2 ^ 64 := fun v hv => (hsums v hv).trans_lt hexplored
    exact ⟨y, hy, hsmall, Checked.step?_eq hsmall⟩
  · have hsmall : ∀ v ∈ t.sums, v < 2 ^ 64 := fun v hv =>
      ((seeds.fits_of_mem_tables ht).lt_of_mem_sums hv).trans hbank
    exact ⟨hsmall, Checked.slots?_eq hsmall⟩
  · obtain ⟨items, hitems, hdecoded⟩ := Assembly.exists_itemsFrom?_decoded bank s 0
    refine ⟨items, hitems, fun entry hentry => ?_, bank.exists_listing? s⟩
    obtain ⟨hlt, hitem⟩ := Assembly.read_of_mem_itemsFrom? hitems entry hentry
    have hsmall : ∀ v ∈ Assembly.sums entry.1 entry.2, v < 2 ^ 64 := fun v hv =>
      (Assembly.le_of_mem_sums hlt (hdecoded entry hentry).size_le hv).trans_lt hlisted
    refine ⟨hsmall, Checked.item?_eq hitem hsmall, fun op word hpos heq => ?_⟩
    rw [heq] at hsmall
    exact Checked.placeOf?_eq hsmall

end BankTrace
