import BankTrace.CommandLine.World
import BankTrace.Proofs.Files
import Mathlib.Data.List.TakeWhile

namespace BankTrace

namespace Seeds

theorem add?_eq_some {t : PointerTable} (s : Seeds) (h : t.Fits) :
    ∃ after, s.add? t = some after ∧ after.extra = s.extra ++ [t] :=
  ⟨_, dif_pos (t.inRange_iff_fits.2 h), rfl⟩

theorem add?_eq_none {t : PointerTable} (s : Seeds) (h : ¬ t.Fits) : s.add? t = none :=
  dif_neg (h ∘ t.inRange_iff_fits.1)

theorem addAll_eq (s : Seeds) (ts : List PointerTable) :
    (s.addAll ts).1.extra = s.extra ++ ts.takeWhile (·.Fits) ∧
      (s.addAll ts).2 = ts.find? (¬ ·.Fits) := by
  induction ts generalizing s with
  | nil => simp [addAll]
  | cons t ts ih =>
    by_cases ht : t.Fits
    · obtain ⟨after, hadd, hafter⟩ := s.add?_eq_some ht
      obtain ⟨hextra, hrejected⟩ := ih after
      simp [addAll, hadd, hafter, ht, hextra, hrejected]
    · simp [addAll, s.add?_eq_none ht, ht]

theorem eq_of_extra {s t : Seeds} (h : s.extra = t.extra) : s = t := by
  cases s
  cases t
  simpa using h

/-- Seeds are what adding all their tables comes to. -/
theorem addAll_extra (s : Seeds) : empty.addAll s.extra = (s, none) := by
  obtain ⟨hextra, hrejected⟩ := empty.addAll_eq s.extra
  refine Prod.ext (eq_of_extra ?_) ?_
  · rw [hextra, List.takeWhile_eq_self_iff.2 (by simpa using s.fits)]
    rfl
  · rw [hrejected]
    simpa using s.fits

def join (s : Seeds) (ts : List PointerTable) : Except SetupFailure Seeds :=
  match s.addAll ts with
  | (after, none) => .ok after
  | (_, some t) => .error (.tableOutOfRange t)

variable {s after : Seeds} {ts : List PointerTable}

theorem extra_of_join (h : s.join ts = .ok after) : after.extra = s.extra ++ ts := by
  obtain ⟨hextra, hrejected⟩ := addAll_eq s ts
  unfold join at h
  split at h
  · rename_i heq
    rw [heq] at hextra hrejected
    obtain rfl := Except.ok.inj h
    rw [hextra, List.takeWhile_eq_self_iff.2 ?_]
    simpa using List.find?_eq_none.1 hrejected.symm
  · contradiction

theorem exists_not_fits_of_join {cause : SetupFailure} (h : s.join ts = .error cause) :
    ∃ t ∈ ts, ¬ t.Fits := by
  obtain ⟨-, hrejected⟩ := addAll_eq s ts
  unfold join at h
  split at h
  · contradiction
  · rename_i t heq
    rw [heq] at hrejected
    exact ⟨t, List.mem_of_find?_eq_some hrejected.symm, by
      simpa using List.find?_some hrejected.symm⟩

theorem join_ne_overflow : s.join ts ≠ .error .overflow := by
  unfold join
  split <;> simp

end Seeds

namespace Folder

open CommandLine (Build)

variable {f : Folder} {build : Build} {path : String} {file : Option String}

def textAt (f : Folder) (path : String) : Except SetupFailure String :=
  (f.read path).mapError .unreadable >>= CommandLine.decodeText

def settingsAt (f : Folder) (build : Build) (path : String) : Except SetupFailure Settings :=
  f.textAt path >>= fun text => (build.format.read text).mapError .badSettings

def tablesAt (f : Folder) (build : Build) (path : String) :
    Except SetupFailure (List PointerTable) :=
  f.textAt path >>= PointerTable.ofFile build.arithmetic

def settingsFrom (f : Folder) (build : Build) : Option String → Except SetupFailure Settings
  | some path => f.settingsAt build path
  | none => .ok {}

def tablesFrom (f : Folder) (build : Build) :
    Option String → Except SetupFailure (List PointerTable)
  | some path => f.tablesAt build path
  | none => .ok []

def bankAt (f : Folder) (path : String) : Except ImageFailure Bank :=
  (f.read path).mapError .unreadable >>= CommandLine.decodeBank

/-- The file at a path can be read, and its bytes are those of `bank`. -/
def HasBank (f : Folder) (path : String) (bank : Bank) : Prop :=
  ∃ content, f.read path = .ok content ∧ content.data = bank.bytes.toArray

def HasText (f : Folder) (path text : String) : Prop := f.read path = .ok text.toUTF8

/-- `settings` are in the file that is named; they are the default ones if none is. -/
def HasSettings (f : Folder) (build : Build) : Option String → Settings → Prop
  | none, settings => settings = {}
  | some path, settings => ∃ text, f.HasText path text ∧ build.format.read text = .ok settings

def HasTables (f : Folder) (build : Build) : Option String → List PointerTable → Prop
  | none, tables => tables = []
  | some path, tables =>
    ∃ text, f.HasText path text ∧ PointerTable.ofFile build.arithmetic text = .ok tables

theorem decodeText_eq_ok {content : ByteArray} {text : String} :
    CommandLine.decodeText content = .ok text ↔ content = text.toUTF8 := by
  unfold CommandLine.decodeText String.fromUTF8?
  constructor
  · intro h
    split_ifs at h
    rw [← Except.ok.inj h]
    rfl
  · rintro rfl
    rw [dif_pos (show text.toUTF8.IsValidUTF8 from text.isValidUTF8)]
    rfl

theorem textAt_eq_ok {text : String} : f.textAt path = .ok text ↔ f.HasText path text := by
  unfold textAt HasText
  rw [bind_eq_ok]
  cases f.read path <;> simp [Except.mapError, decodeText_eq_ok]

theorem settingsFrom_eq_ok {settings : Settings} :
    f.settingsFrom build file = .ok settings ↔ f.HasSettings build file settings := by
  cases file with
  | none => simp [settingsFrom, HasSettings, eq_comm]
  | some path =>
    simp only [settingsFrom, settingsAt, HasSettings, bind_eq_ok, textAt_eq_ok]
    refine exists_congr fun text => and_congr_right fun _ => ?_
    cases build.format.read text <;> simp [Except.mapError]

theorem tablesFrom_eq_ok {tables : List PointerTable} :
    f.tablesFrom build file = .ok tables ↔ f.HasTables build file tables := by
  cases file with
  | none => simp [tablesFrom, HasTables, eq_comm]
  | some path => simp only [tablesFrom, tablesAt, HasTables, bind_eq_ok, textAt_eq_ok]

theorem textAt_ne_overflow : f.textAt path ≠ .error .overflow := by
  unfold textAt CommandLine.decodeText
  cases f.read path with
  | error cause => simp [Except.mapError, bind, Except.bind]
  | ok content => cases h : String.fromUTF8? content <;> simp [Except.mapError, bind, Except.bind, h]

theorem settingsFrom_ne_overflow : f.settingsFrom build file ≠ .error .overflow := by
  cases file with
  | none => simp [settingsFrom]
  | some path =>
    simp only [settingsFrom, settingsAt, ne_eq, bind_eq_error, textAt_ne_overflow, false_or,
      not_exists, not_and]
    intro text _
    cases build.format.read text <;> simp [Except.mapError]

theorem tablesFrom_eq_overflow : f.tablesFrom build file = .error .overflow ↔
    ∃ path text, file = some path ∧ f.HasText path text ∧
      PointerTable.ofFile build.arithmetic text = .error .overflow := by
  cases file with
  | none => simp [tablesFrom]
  | some path => simp [tablesFrom, tablesAt, bind_eq_error, textAt_ne_overflow, textAt_eq_ok]

theorem HasSettings.eq_default {settings : Settings} (h : f.HasSettings build (some path) settings)
    (empty : f.HasText path "") : settings = {} := by
  obtain ⟨text, htext, hread⟩ := h
  obtain rfl : text = "" := String.toByteArray_inj.1 (Except.ok.inj (htext.symm.trans empty))
  exact Except.ok.inj (hread.symm.trans build.format.read_empty)

end Folder

namespace CommandLine

open Folder

theorem decodeBank_eq_ok {content : ByteArray} {bank : Bank} :
    decodeBank content = .ok bank ↔ content.data = bank.bytes.toArray := by
  unfold decodeBank Bank.ofBytes?
  by_cases hsize : content.data.size = Bank.size
  · simp only [hsize, dite_true]
    constructor
    · intro h
      rw [← Except.ok.inj h]
    · intro h
      congr 2
      exact Vector.toArray_inj.1 h
  · simp only [hsize, dite_false]
    constructor
    · intro h
      contradiction
    · intro h
      exact absurd (h ▸ bank.bytes.size_toArray) hsize

theorem bankAt_eq_ok {f : Folder} {path : String} {bank : Bank} :
    f.bankAt path = .ok bank ↔ f.HasBank path bank := by
  unfold bankAt HasBank
  rw [bind_eq_ok]
  cases f.read path <;> simp [Except.mapError, decodeBank_eq_ok]

/-- What a request asks for, taken from a folder. -/
structure Supply (build : Build) (f : Folder) (r : Request) where
  image : String
  bank : Bank
  settings : Settings
  written : List PointerTable
  seeds : Seeds
  image_eq : r.image = some image
  hasBank : f.HasBank image bank
  hasSettings : f.HasSettings build r.settingsFile settings
  hasTables : f.HasTables build r.pointerFile written
  extra_eq : seeds.extra = settings.tables ++ written ++ r.tables

/-- A table comes from one of the three sources of a request. -/
inductive Offers (build : Build) (f : Folder) (r : Request) (t : PointerTable) : Prop
  | settings (settings : Settings) (found : f.HasSettings build r.settingsFile settings)
      (mem : t ∈ settings.tables)
  | pointerFile (written : List PointerTable) (found : f.HasTables build r.pointerFile written)
      (mem : t ∈ written)
  | argument (mem : t ∈ r.tables)

/-- Something that a request asks for is missing, broken or out of range, or its listing can neither
be written nor printed. -/
inductive Lacking (build : Build) (w : World) (r : Request) : Prop
  | noImage (unnamed : r.image = none)
  | image (path : String) (named : r.image = some path) (bad : ∀ bank, ¬ w.folder.HasBank path bank)
  | settings (bad : ∀ settings, ¬ w.folder.HasSettings build r.settingsFile settings)
  | pointerFile (bad : ∀ tables, ¬ w.folder.HasTables build r.pointerFile tables)
  | table (t : PointerTable) (offered : Offers build w.folder r t) (outside : ¬ t.Fits)
  | output (path : String) (named : r.output = some path) (refused : w.folder.Unwritable path)
  | print (s : Supply build w.folder r) (listing : String) (unnamed : r.output = none)
      (listed : s.bank.disassembly? s.seeds (r.style s.settings) = some listing)
      (blocked : (w.blockage listing).isSome)

/-- Reading the pointer file of a request overflows, after nothing was wrong with what is read
before it. -/
structure Request.Overruns (build : Build) (f : Folder) (r : Request) : Prop where
  checked : build.arithmetic = .checked
  image : r.image ≠ none
  settings : ∃ settings, f.HasSettings build r.settingsFile settings ∧
    ∀ t ∈ settings.tables, t.Fits
  pointerFile : ∃ path text, r.pointerFile = some path ∧ f.HasText path text ∧
    PointerTable.ofFile .checked text = .error .overflow

section Determined

variable {build : Build} {f : Folder} {r : Request} {file : Option String}

theorem hasSettings_unique {settings settings' : Settings} (h : f.HasSettings build file settings)
    (h' : f.HasSettings build file settings') : settings = settings' :=
  Except.ok.inj ((settingsFrom_eq_ok.2 h).symm.trans (settingsFrom_eq_ok.2 h'))

theorem hasTables_unique {tables tables' : List PointerTable} (h : f.HasTables build file tables)
    (h' : f.HasTables build file tables') : tables = tables' :=
  Except.ok.inj ((tablesFrom_eq_ok.2 h).symm.trans (tablesFrom_eq_ok.2 h'))

theorem hasBank_unique {path : String} {bank bank' : Bank} (h : f.HasBank path bank)
    (h' : f.HasBank path bank') : bank = bank' :=
  Except.ok.inj ((bankAt_eq_ok.2 h).symm.trans (bankAt_eq_ok.2 h'))

instance : Subsingleton (Supply build f r) where
  allEq s s' := by
    obtain ⟨image, bank, settings, written, seeds, image_eq, hbank, hsettings, htables, extra⟩ := s
    obtain ⟨image', bank', settings', written', seeds', image_eq', hbank', hsettings', htables',
      extra'⟩ := s'
    obtain rfl := Option.some.inj (image_eq.symm.trans image_eq')
    obtain rfl := hasBank_unique hbank hbank'
    obtain rfl := hasSettings_unique hsettings hsettings'
    obtain rfl := hasTables_unique htables htables'
    obtain rfl := Seeds.eq_of_extra (extra.trans extra'.symm)
    rfl

theorem Request.Overruns.tablesFrom_eq (h : r.Overruns build f) :
    f.tablesFrom build r.pointerFile = .error .overflow := by
  rw [tablesFrom_eq_overflow, h.checked]
  exact h.pointerFile

end Determined

namespace Supply

variable {build : Build} {w : World} {r : Request} (s : Supply build w.folder r)
include s

theorem fits {t : PointerTable} (h : Offers build w.folder r t) : t.Fits := by
  apply s.seeds.fits
  rw [s.extra_eq, List.mem_append, List.mem_append]
  cases h with
  | settings settings found mem =>
    rw [hasSettings_unique found s.hasSettings] at mem
    exact .inl (.inl mem)
  | pointerFile written found mem =>
    rw [hasTables_unique found s.hasTables] at mem
    exact .inl (.inr mem)
  | argument mem => exact .inr mem

/-- Nothing is lacking when all inputs are there and the output is accepted. -/
theorem not_lacking (hout : ∀ path, r.output = some path → ¬ w.folder.Unwritable path)
    (hprint : ∀ listing, s.bank.disassembly? s.seeds (r.style s.settings) = some listing →
      r.output = none → w.blockage listing = none) : ¬ Lacking build w r := by
  intro h
  cases h with
  | noImage unnamed => exact nomatch unnamed.symm.trans s.image_eq
  | image path named bad =>
    obtain rfl := Option.some.inj (s.image_eq.symm.trans named)
    exact bad _ s.hasBank
  | settings bad => exact bad _ s.hasSettings
  | pointerFile bad => exact bad _ s.hasTables
  | table t offered outside => exact outside (s.fits offered)
  | output path named refused => exact hout path named refused
  | print s' listing unnamed listed blocked =>
    rw [Subsingleton.elim s' s] at listed
    rw [hprint listing listed unnamed] at blocked
    contradiction

theorem not_overruns : ¬ r.Overruns build w.folder := by
  intro h
  have hoverflow := h.tablesFrom_eq
  rw [tablesFrom_eq_ok.2 s.hasTables] at hoverflow
  contradiction

end Supply

end CommandLine

end BankTrace
