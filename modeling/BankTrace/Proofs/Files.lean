import BankTrace.Folder
import Mathlib.Tactic

namespace BankTrace

section Outcomes

variable {ε α β : Type}

@[simp] theorem bind_eq_ok {e : Except ε α} {next : α → Except ε β} {b : β} :
    e >>= next = .ok b ↔ ∃ a, e = .ok a ∧ next a = .ok b := by
  cases e <;> simp [bind, Except.bind]

theorem bind_eq_error {e : Except ε α} {next : α → Except ε β} {cause : ε} :
    e >>= next = .error cause ↔ e = .error cause ∨ ∃ a, e = .ok a ∧ next a = .error cause := by
  cases e <;> simp [bind, Except.bind]

theorem map_eq_error {f : α → β} {e : Except ε α} {cause : ε} :
    f <$> e = .error cause ↔ e = .error cause := by
  cases e <;> simp [Functor.map, Except.map]

@[simp] theorem pure_eq_ok {a b : α} : (pure a : Except ε α) = .ok b ↔ a = b := by
  simp [pure, Except.pure]

@[simp] theorem throw_ne_ok {cause : ε} {a : α} : (throw cause : Except ε α) ≠ .ok a := nofun

@[simp] theorem throw_bind {cause : ε} {next : α → Except ε β} :
    (throw cause >>= next : Except ε β) = throw cause := rfl

end Outcomes

namespace Folder

variable {f g : Folder} {l l' m : Location} {path name : String} {content : ByteArray}

/-- The location that a path leads to, through folders only. -/
def locate (f : Folder) (path : String) : Except FileFailure Location :=
  if path = "" then .error .missing else (names path).2.foldlM f.go (names path).1

theorem read_eq_ok :
    f.read path = .ok content ↔ ∃ l, f.locate path = .ok l ∧ f.kind l = .file content := by
  unfold read locate
  by_cases hpath : path = ""
  · simp [hpath]
  · rw [if_neg hpath, if_neg hpath, bind_eq_ok]
    refine exists_congr fun l => and_congr_right fun _ => ?_
    cases f.kind l <;> simp

/-- Writing at a path puts the file at `l`, where no folder is. -/
structure Targets (f : Folder) (path : String) (l : Location) : Prop where
  leads : f.locate path = .ok l
  free : f.kind l ≠ .folder
  named : ∃ name, (names path).2.getLast? = some name ∧ name ≠ "" ∧ name ≠ "." ∧ name ≠ ".."

section Named

variable {front : List String} (hpath : path ≠ "") (hnames : (names path).2 = front ++ [name])
include hpath hnames

theorem locate_eq_ok : f.locate path = .ok l ↔
    ∃ parent, front.foldlM f.go (names path).1 = .ok parent ∧ f.go parent name = .ok l := by
  rw [locate, if_neg hpath, hnames, List.foldlM_append]
  simp

theorem write_ne_ok_of_slash (hname : name = "") : f.write path content ≠ .ok g := by
  have hshorter : (front.reverse.dropWhile (· == "")).reverse.length ≤ front.length := by
    rw [List.length_reverse, ← front.length_reverse]
    exact (List.dropWhile_sublist _).length_le
  unfold write
  simp only [hpath, if_false, hnames, hname, List.reverse_append, List.reverse_singleton,
    List.singleton_append, List.dropWhile_cons, beq_self_eq_true, if_true]
  generalize (front.reverse.dropWhile (· == "")).reverse = plain at hshorter
  cases plain.getLast? with
  | none => exact throw_ne_ok
  | some name => simp [hshorter]

theorem write_eq_ok_of_name (hname : name ≠ "") :
    f.write path content = .ok g ↔
      ∃ l, f.locate path = .ok l ∧ ¬ (name = "." ∨ name = "..") ∧ f.kind l ≠ .folder ∧
        g = f.put l content := by
  have hplain : ((names path).2.reverse.dropWhile (· == "")).reverse = (names path).2 := by
    simp [hnames, hname]
  unfold write
  simp only [hpath, if_false, hplain]
  simp only [hnames, List.getLast?_concat, List.dropLast_concat, lt_self_iff_false, decide_false,
    Bool.false_or, Bool.or_eq_true, beq_iff_eq, throw_bind, bind_eq_ok, locate_eq_ok hpath hnames]
  constructor
  · rintro ⟨parent, hparent, l, hl, h⟩
    refine ⟨l, ⟨parent, hparent, hl⟩, ?_⟩
    by_cases hdot : name = "." ∨ name = ".."
    · simp [hdot] at h
    · cases hkind : f.kind l <;> simp [hdot, hkind] at h <;> simp [hdot, h]
  · rintro ⟨l, ⟨parent, hparent, hl⟩, hdot, free, rfl⟩
    refine ⟨parent, hparent, l, hl, ?_⟩
    cases hkind : f.kind l with
    | folder => exact absurd hkind free
    | _ => simp [hdot]

end Named

theorem write_eq_ok :
    f.write path content = .ok g ↔ ∃ l, f.Targets path l ∧ g = f.put l content := by
  by_cases hpath : path = ""
  · have : ∀ l, ¬ f.Targets path l := fun l h => by simpa [locate, hpath] using h.leads
    unfold write
    rw [if_pos hpath, throw_bind]
    simp [this]
  rcases List.eq_nil_or_concat (names path).2 with hnames | ⟨front, name, hnames⟩
  · have : ∀ l, ¬ f.Targets path l := fun l h => by simpa [hnames] using h.named
    simp [write, hpath, hnames, this]
  rw [List.concat_eq_append] at hnames
  by_cases hname : name = ""
  · have : ∀ l, ¬ f.Targets path l := fun l h => by simpa [hnames, hname] using h.named
    simp [write_ne_ok_of_slash hpath hnames hname, this]
  · have hnamed : (∃ last, (names path).2.getLast? = some last ∧
        last ≠ "" ∧ last ≠ "." ∧ last ≠ "..") ↔ ¬ (name = "." ∨ name = "..") := by
      simp [hnames, hname]
    rw [write_eq_ok_of_name hpath hnames hname]
    refine exists_congr fun l => ?_
    constructor
    · rintro ⟨leads, hdot, free, hput⟩
      exact ⟨⟨leads, free, hnamed.2 hdot⟩, hput⟩
    · rintro ⟨⟨leads, free, named⟩, hput⟩
      exact ⟨leads, hnamed.1 named, free, hput⟩

theorem lookup_filter_ne (h : l' ≠ l) (files : List (Location × ByteArray)) :
    (files.filter fun file => file.1 != l).lookup l' = files.lookup l' := by
  induction files with
  | nil => rfl
  | cons file files ih =>
    obtain ⟨key, content⟩ := file
    by_cases hkey : key = l
    · simp [hkey, List.lookup_cons, beq_false_of_ne h, ih]
    · simp [hkey, List.lookup_cons, ih]

theorem kind_put_of_ne (h : l' ≠ l) : (f.put l content).kind l' = f.kind l' := by
  have hne : (l' == l) = false := beq_false_of_ne h
  simp only [kind, put, List.lookup_cons, hne, lookup_filter_ne h]

section Put

variable (free : f.kind l ≠ .folder)
include free

theorem kind_put : (f.put l content).kind l = .file content := by
  have hplain : ¬ (l = [] ∨ l = here ∨ l ∈ f.subfolders) := fun h => free (if_pos h)
  simp [kind, put, hplain]

theorem go_put (h : f.go l' name = .ok m) : (f.put l content).go l' name = .ok m := by
  unfold go at h ⊢
  rw [kind_put_of_ne (fun heq => ?_)]
  · exact h
  · subst heq
    cases hkind : f.kind l' with
    | folder => exact free hkind
    | absent => simp [hkind] at h
    | file => simp [hkind] at h

theorem locate_put (h : f.locate path = .ok m) : (f.put l content).locate path = .ok m := by
  unfold locate at h ⊢
  split_ifs at h ⊢
  generalize (names path).1 = start, (names path).2 = rest at h ⊢
  induction rest generalizing start with
  | nil => exact h
  | cons name rest ih =>
    rw [List.foldlM_cons, bind_eq_ok] at h ⊢
    obtain ⟨next, hgo, h⟩ := h
    exact ⟨next, go_put free hgo, ih next h⟩

end Put

/-- Between two folders, writing `content` at `path` is all that happened. -/
structure Wrote (f g : Folder) (path : String) (content : ByteArray) : Prop where
  write : f.write path content = .ok g
  read : g.read path = .ok content
  spared : ∃ l, f.locate path = .ok l ∧ ∀ l', l' ≠ l → g.kind l' = f.kind l'

theorem wrote_of_write (h : f.write path content = .ok g) : f.Wrote g path content := by
  obtain ⟨l, htargets, rfl⟩ := write_eq_ok.1 h
  exact ⟨h, read_eq_ok.2 ⟨l, locate_put htargets.free htargets.leads, kind_put htargets.free⟩,
    l, htargets.leads, fun l' hne => kind_put_of_ne hne⟩

def Unwritable (f : Folder) (path : String) : Prop :=
  ∀ content, ∃ cause, f.write path content = .error cause

theorem unwritable_of_write {cause : FileFailure} (h : f.write path content = .error cause) :
    f.Unwritable path := by
  intro other
  cases hother : f.write path other with
  | error cause => exact ⟨cause, rfl⟩
  | ok g =>
    obtain ⟨l, htargets, -⟩ := write_eq_ok.1 hother
    rw [write_eq_ok.2 ⟨l, htargets, rfl⟩] at h
    contradiction

theorem Wrote.not_unwritable (h : f.Wrote g path content) : ¬ f.Unwritable path := by
  intro hun
  obtain ⟨cause, hcause⟩ := hun content
  rw [h.write] at hcause
  contradiction

end Folder

end BankTrace
