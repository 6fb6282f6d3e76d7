import BankTrace.Proofs.Arguments
import BankTrace.Proofs.Safety
import BankTrace.Proofs.PointerFiles
import BankTrace.Proofs.Supplies

namespace BankTrace.CommandLine

open Folder

def World.noting (w : World) (events : List Event) : World :=
  { w with journal := w.journal ++ events }

theorem World.noting_nil (w : World) : w.noting [] = w := by
  simp [noting]

theorem World.noting_noting (w : World) (events more : List Event) :
    (w.noting events).noting more = w.noting (events ++ more) := by
  simp [noting]

variable {α β : Type} {build : Build} {w : World} {act : Attempt (StateM World) α}
  {next : α → Attempt (StateM World) β} {outcome : Except Failure α}

def Attempt.result (act : Attempt (StateM World) α) (w : World) : Except Failure α × World :=
  StateT.run (ExceptT.run act) w

theorem result_bind :
    (act >>= next).result w = match act.result w with
      | (.ok a, after) => (next a).result after
      | (.error cause, after) => (.error cause, after) := by
  unfold Attempt.result
  rw [ExceptT.run_bind, StateT.run_bind]
  generalize StateT.run (ExceptT.run act) w = p
  obtain ⟨_ | _, _⟩ := p <;> rfl

/-- An attempt comes to `outcome` and leaves nothing behind but notes. -/
def Yields (act : Attempt (StateM World) α) (w : World) (outcome : Except Failure α) : Prop :=
  ∃ events, act.result w = (outcome, w.noting events)

namespace Yields

theorem of_result (h : act.result w = (outcome, w)) : Yields act w outcome :=
  ⟨[], by rw [w.noting_nil, h]⟩

theorem pure (a : α) : Yields (Pure.pure a) w (.ok a) := of_result rfl

theorem orSetup (e : Except SetupFailure α) : Yields (orSetup e) w (e.mapError .setup) :=
  of_result rfl

theorem note (events : List Event) : Yields (liftM (World.shell.note events)) w (.ok ()) :=
  ⟨events, rfl⟩

theorem throw (cause : Failure) :
    Yields (MonadExcept.throw cause : Attempt (StateM World) α) w (.error cause) :=
  of_result rfl

theorem bind {g : α → Except Failure β} (h : Yields act w outcome)
    (hnext : ∀ a events, outcome = .ok a → Yields (next a) (w.noting events) (g a)) :
    Yields (act >>= next) w (outcome >>= g) := by
  obtain ⟨events, h⟩ := h
  unfold Yields
  rw [result_bind, h]
  cases outcome with
  | error cause => exact ⟨events, rfl⟩
  | ok a =>
    obtain ⟨more, hmore⟩ := hnext a events rfl
    exact ⟨events ++ more, by rw [← World.noting_noting]; exact hmore⟩

theorem bind_ok {a : α} {result : Except Failure β} (h : Yields act w (.ok a))
    (hnext : ∀ events, Yields (next a) (w.noting events) result) :
    Yields (act >>= next) w result :=
  h.bind (g := fun _ => result) fun _ events hb => Except.ok.inj hb ▸ hnext events

end Yields

theorem yields_read (path : String) :
    Yields (liftM (World.shell.read path)) w (.ok (w.folder.read path)) :=
  Yields.of_result rfl

theorem yields_readText (path : String) :
    Yields (readText World.shell path) w ((w.folder.textAt path).mapError .setup) := by
  have h : Yields (readText World.shell path) w _ :=
    (yields_read path).bind fun content _ _ =>
      (Yields.orSetup (content.mapError .unreadable)).bind fun content _ _ =>
        Yields.orSetup (decodeText content)
  convert h using 1
  unfold Folder.textAt
  cases w.folder.read path <;> rfl

theorem yields_readSettings (path : String) :
    Yields (readSettings build World.shell path) w
      ((w.folder.settingsAt build path).mapError .setup) := by
  have h : Yields (readSettings build World.shell path) w _ :=
    (yields_readText path).bind fun text _ _ =>
      (Yields.orSetup ((build.format.read text).mapError .badSettings)).bind fun settings _ _ =>
        (Yields.note [.settingsRead path settings.tables.length]).bind fun _ _ _ =>
          Yields.pure settings
  convert h using 1
  unfold Folder.settingsAt
  cases w.folder.textAt path with
  | error cause => rfl
  | ok text =>
    change ((build.format.read text).mapError SetupFailure.badSettings).mapError Failure.setup =
      (((build.format.read text).mapError .badSettings).mapError .setup >>= fun settings =>
        .ok settings)
    cases build.format.read text <;> rfl

theorem yields_readTables (path : String) :
    Yields (readTables build World.shell path) w
      ((w.folder.tablesAt build path).mapError .setup) := by
  have h : Yields (readTables build World.shell path) w _ :=
    (yields_readText path).bind fun text _ _ =>
      Yields.orSetup (PointerTable.ofFile build.arithmetic text)
  convert h using 1
  unfold Folder.tablesAt
  cases w.folder.textAt path <;> rfl

theorem yields_readBank (path : String) :
    Yields (readBank World.shell path) w ((w.folder.bankAt path).mapError .image) := by
  unfold readBank Folder.bankAt
  refine (yields_read path).bind_ok fun _ => ?_
  cases w.folder.read path with
  | error cause => exact Yields.throw _
  | ok content =>
    refine (Yields.note _).bind_ok fun _ => ?_
    change Yields _ _ ((decodeBank content).mapError .image)
    cases decodeBank content with
    | error cause => exact Yields.throw _
    | ok bank => exact Yields.pure bank

theorem yields_addTables (seeds : Seeds) (ts : List PointerTable) :
    Yields (addTables World.shell seeds ts) w ((seeds.join ts).mapError .setup) := by
  unfold addTables Seeds.join
  obtain ⟨after, rejected⟩ := seeds.addAll ts
  refine (Yields.note _).bind_ok fun _ => ?_
  cases rejected with
  | none => exact Yields.pure after
  | some t => exact Yields.throw _

theorem yields_settingsFrom (file : Option String) :
    Yields (settingsFrom build World.shell file) w
      ((w.folder.settingsFrom build file).mapError .setup) := by
  cases file with
  | none => exact Yields.pure ({} : Settings)
  | some path => exact yields_readSettings path

theorem yields_addTablesFrom (seeds : Seeds) (file : Option String) :
    Yields (addTablesFrom build World.shell seeds file) w
      ((w.folder.tablesFrom build file >>= seeds.join).mapError .setup) := by
  cases file with
  | none => exact Yields.pure seeds
  | some path =>
    have h : Yields (addTablesFrom build World.shell seeds (some path)) w _ :=
      (yields_readTables path).bind fun written _ _ => yields_addTables seeds written
    convert h using 1
    change (w.folder.tablesAt build path >>= seeds.join).mapError Failure.setup = _
    cases w.folder.tablesAt build path <;> rfl

namespace World

/-- Neither the folder nor what was printed has changed. -/
structure Untouched (w after : World) : Prop where
  folder : after.folder = w.folder
  printed : after.printed = w.printed

/-- A listing is delivered: it is printed, or written to the output file, and nothing else. -/
def Delivered (w after : World) (listing : String) : Option String → Prop
  | none => after.printed = w.printed ++ listing ∧ after.folder = w.folder
  | some path => after.printed = w.printed ∧ w.folder.Wrote after.folder path listing.toUTF8

/-- Nothing has changed, except that the front of a text may have been printed, where printing the
whole text fails. -/
structure Spared (w after : World) (output : Option String) : Prop where
  folder : after.folder = w.folder
  printed : after.printed = w.printed ∨ output = none ∧ ∃ text count cause,
    w.blockage text = some (count, cause) ∧ after.printed = w.printed ++ cut text count

theorem Untouched.spared {after : World} (h : w.Untouched after) (output : Option String) :
    w.Spared after output := ⟨h.folder, .inl h.printed⟩

theorem untouched_noting (w : World) (events : List Event) : w.Untouched (w.noting events) :=
  ⟨rfl, rfl⟩

end World

/-- How a request ends that is carried out in a world: with the whole listing, for want of something,
or by an overflow. -/
inductive Concludes (build : Build) (w : World) (r : Request) : Except Failure Unit × World → Prop
  | listed (s : Supply build w.folder r) {listing : String} {after : World}
      (listed : s.bank.disassembly? s.seeds (r.style s.settings) = some listing)
      (accepted : r.output = none → w.blockage listing = none)
      (delivered : w.Delivered after listing r.output) : Concludes build w r (.ok (), after)
  | failed {cause : Failure} {after : World} (lacking : Lacking build w r)
      (calm : ¬ r.Overruns build w.folder) (spared : w.Spared after r.output)
      (code : exitCode cause = 1) : Concludes build w r (.error cause, after)
  | overrun {after : World} (overruns : r.Overruns build w.folder) (untouched : w.Untouched after) :
      Concludes build w r (.error (.setup .overflow), after)

variable {r : Request} {events : List Event}

theorem exitCode_setup {cause : SetupFailure} (h : cause ≠ .overflow) :
    exitCode (.setup cause) = 1 := by
  cases cause with
  | overflow => exact absurd rfl h
  | _ => rfl

theorem result_write (path text : String) :
    Attempt.result (liftM (World.shell.write path text)) w =
      match w.folder.write path text.toUTF8 with
      | .ok folder => (.ok (.ok ()), { w with folder })
      | .error cause => (.ok (.error cause), w) := by
  change (match (match w.folder.write path text.toUTF8 with
      | .ok folder => ((.ok (), { w with folder }) : Except FileFailure Unit × World)
      | .error cause => (.error cause, w)) with
    | (result, after) => (Except.ok result, after)) = _
  cases w.folder.write path text.toUTF8 <;> rfl

theorem result_print (text : String) :
    Attempt.result (liftM (World.shell.print text)) w =
      match w.blockage text with
      | none => (.ok (.ok ()), { w with printed := w.printed ++ text })
      | some (count, cause) =>
        (.ok (.error cause), { w with printed := w.printed ++ World.cut text count }) := by
  change (match (match w.blockage text with
      | none => ((.ok (), { w with printed := w.printed ++ text }) :
          Except FileFailure Unit × World)
      | some (count, cause) =>
        (.error cause, { w with printed := w.printed ++ World.cut text count })) with
    | (result, after) => (Except.ok result, after)) = _
  cases w.blockage text <;> rfl

/-- A listing is delivered whole; or the output file refuses it and nothing has changed; or printing
it breaks off. -/
inductive DeliveryEnds (w : World) (listing : String) :
    Option String → Except Failure Unit × World → Prop
  | printed (free : w.blockage listing = none) :
      DeliveryEnds w listing none (.ok (), { w with printed := w.printed ++ listing })
  | blocked {count : Nat} {cause : FileFailure}
      (blocked : w.blockage listing = some (count, cause)) :
      DeliveryEnds w listing none (.error (.setup (.unreadable cause)),
        { w with printed := w.printed ++ World.cut listing count })
  | written {path : String} {folder : Folder} (wrote : w.folder.Wrote folder path listing.toUTF8) :
      DeliveryEnds w listing (some path) (.ok (), { w with folder })
  | refused {path : String} {cause : FileFailure} (refused : w.folder.Unwritable path) :
      DeliveryEnds w listing (some path) (.error (.setup (.unreadable cause)), w)

theorem deliveryEnds (output : Option String) (listing : String) :
    DeliveryEnds w listing output ((deliver World.shell output listing).result w) := by
  unfold deliver
  cases output with
  | none =>
    dsimp only
    rw [result_bind, result_print]
    cases hblockage : w.blockage listing with
    | none => exact .printed hblockage
    | some blocked => exact .blocked hblockage
  | some path =>
    dsimp only
    rw [result_bind, result_write]
    cases hwrite : w.folder.write path listing.toUTF8 with
    | ok folder => exact .written (Folder.wrote_of_write hwrite)
    | error cause => exact .refused (Folder.unwritable_of_write hwrite)

theorem result_summary (wanted : Bool) (text : String) :
    (if wanted then liftM (World.shell.complain text) else pure () :
      Attempt (StateM World) Unit).result w =
        (.ok (), { w with complaints := w.complaints ++ if wanted then text else "" }) := by
  cases wanted
  · simp only [Bool.false_eq_true, if_false, String.append_empty]
    rfl
  · rfl

namespace Concludes

variable {ε : Type}

theorem bind {next : α → Attempt (StateM World) Unit} {e : Except ε α} (wrap : ε → Failure)
    (h : Yields act (w.noting events) (e.mapError wrap))
    (herror : ∀ cause after, e = .error cause → w.Untouched after →
      Concludes build w r (.error (wrap cause), after))
    (hok : ∀ a events, e = .ok a → Concludes build w r ((next a).result (w.noting events))) :
    Concludes build w r ((act >>= next).result (w.noting events)) := by
  obtain ⟨more, h⟩ := h
  rw [World.noting_noting] at h
  rw [result_bind, h]
  cases e with
  | error cause => exact herror cause _ rfl (w.untouched_noting _)
  | ok a => exact hok a _ rfl

theorem settingsFrom {next : Settings → Attempt (StateM World) Unit}
    (hok : ∀ settings events, w.folder.HasSettings build r.settingsFile settings →
      Concludes build w r ((next settings).result (w.noting events))) :
    Concludes build w r
      ((CommandLine.settingsFrom build World.shell r.settingsFile >>= next).result
        (w.noting events)) := by
  refine bind .setup (yields_settingsFrom r.settingsFile) (fun cause after h untouched => ?_)
    fun settings events h => hok settings events (settingsFrom_eq_ok.1 h)
  have bad : ∀ settings, ¬ w.folder.HasSettings build r.settingsFile settings := fun settings has =>
    nomatch h.symm.trans (settingsFrom_eq_ok.2 has)
  refine .failed (.settings bad) (fun overruns => ?_) (untouched.spared _)
    (exitCode_setup fun hcause => settingsFrom_ne_overflow (hcause ▸ h))
  obtain ⟨settings, has, -⟩ := overruns.settings
  exact bad settings has

section Tables

variable {next : Seeds → Attempt (StateM World) Unit} (seeds : Seeds)

theorem addTables (ts : List PointerTable) (offered : ∀ t ∈ ts, Offers build w.folder r t)
    (calm : (∃ t ∈ ts, ¬ t.Fits) → ¬ r.Overruns build w.folder)
    (hok : ∀ joined events, joined.extra = seeds.extra ++ ts →
      Concludes build w r ((next joined).result (w.noting events))) :
    Concludes build w r
      ((CommandLine.addTables World.shell seeds ts >>= next).result (w.noting events)) := by
  refine bind .setup (yields_addTables seeds ts) (fun cause after h untouched => ?_)
    fun joined events h => hok joined events (Seeds.extra_of_join h)
  obtain ⟨t, ht, hfits⟩ := Seeds.exists_not_fits_of_join h
  exact .failed (.table t (offered t ht) hfits) (calm ⟨t, ht, hfits⟩) (untouched.spared _)
    (exitCode_setup fun hcause => Seeds.join_ne_overflow (hcause ▸ h))

theorem addTablesFrom (named : r.image ≠ none) {settings : Settings}
    (hsettings : w.folder.HasSettings build r.settingsFile settings)
    (fit : ∀ t ∈ settings.tables, t.Fits)
    (hok : ∀ written joined events, w.folder.HasTables build r.pointerFile written →
      joined.extra = seeds.extra ++ written →
      Concludes build w r ((next joined).result (w.noting events))) :
    Concludes build w r
      ((CommandLine.addTablesFrom build World.shell seeds r.pointerFile >>= next).result
        (w.noting events)) := by
  refine bind .setup (yields_addTablesFrom seeds r.pointerFile) (fun cause after h untouched => ?_)
    fun joined events h => ?_
  · rcases bind_eq_error.1 h with h | ⟨written, hwritten, h⟩
    · by_cases hcause : cause = .overflow
      · subst hcause
        obtain ⟨path, text, hfile, htext, hread⟩ := tablesFrom_eq_overflow.1 h
        have checked := PointerTable.checked_of_ofFile hread
        exact .overrun ⟨checked, named, ⟨settings, hsettings, fit⟩, path, text, hfile, htext,
          checked ▸ hread⟩ untouched
      · exact .failed
          (.pointerFile fun tables has => nomatch h.symm.trans (tablesFrom_eq_ok.2 has))
          (fun overruns => hcause (Except.error.inj (h.symm.trans overruns.tablesFrom_eq)))
          (untouched.spared _) (exitCode_setup hcause)
    · obtain ⟨t, ht, hfits⟩ := Seeds.exists_not_fits_of_join h
      exact .failed (.table t (.pointerFile written (tablesFrom_eq_ok.1 hwritten) ht) hfits)
        (fun overruns => nomatch hwritten.symm.trans overruns.tablesFrom_eq) (untouched.spared _)
        (exitCode_setup fun hcause => Seeds.join_ne_overflow (hcause ▸ h))
  · obtain ⟨written, hwritten, hjoined⟩ := bind_eq_ok.1 h
    exact hok written joined events (tablesFrom_eq_ok.1 hwritten) (Seeds.extra_of_join hjoined)

end Tables

theorem readBank {next : Bank → Attempt (StateM World) Unit} {image : String}
    (named : r.image = some image) (calm : ¬ r.Overruns build w.folder)
    (hok : ∀ bank events, w.folder.HasBank image bank →
      Concludes build w r ((next bank).result (w.noting events))) :
    Concludes build w r
      ((CommandLine.readBank World.shell image >>= next).result (w.noting events)) :=
  bind .image (yields_readBank image)
    (fun _ _ h untouched => .failed
      (.image image named fun _ has => nomatch h.symm.trans (bankAt_eq_ok.2 has)) calm
      (untouched.spared _) rfl)
    fun bank events h => hok bank events (bankAt_eq_ok.1 h)

theorem deliver (s : Supply build w.folder r) {a : Analysis}
    (ha : s.bank.analyze? s.seeds = some a) :
    Concludes build w r (Attempt.result (do
      World.shell.note a.journal.toList
      let some listing := s.bank.listing? a.survey (r.style s.settings) | throw .stray
      CommandLine.deliver World.shell r.output listing
      if r.summary then World.shell.complain a.summary.text) (w.noting events)) := by
  obtain ⟨more, hnote⟩ := Yields.note (w := w.noting events) a.journal.toList
  obtain ⟨listing, hlisting⟩ := s.bank.exists_listing? a.survey (r.style s.settings)
  have hlisted : s.bank.disassembly? s.seeds (r.style s.settings) = some listing := by
    rw [Bank.disassembly?, ha, Option.bind_eq_bind, Option.bind_some, hlisting]
  rw [result_bind, hnote, hlisting, World.noting_noting]
  dsimp only
  rw [result_bind]
  have hends := deliveryEnds (w := w.noting (events ++ more)) r.output listing
  generalize (CommandLine.deliver World.shell r.output listing).result
    (w.noting (events ++ more)) = ended at hends ⊢
  generalize houtput : r.output = output at hends
  cases hends with
  | printed free =>
    dsimp only
    rw [result_summary]
    exact .listed s hlisted (fun _ => free) (by rw [houtput]; exact ⟨rfl, rfl⟩)
  | blocked blocked =>
    exact .failed (.print s listing houtput hlisted (Option.isSome_iff_exists.2 ⟨_, blocked⟩))
      s.not_overruns ⟨rfl, .inr ⟨houtput, listing, _, _, blocked, rfl⟩⟩ rfl
  | written wrote =>
    dsimp only
    rw [result_summary]
    refine .listed s hlisted (fun h => ?_) (by rw [houtput]; exact ⟨rfl, wrote⟩)
    exact nomatch h.symm.trans houtput
  | refused refused =>
    exact .failed (.output _ houtput refused) s.not_overruns ⟨rfl, .inl rfl⟩ rfl

end Concludes

/-- Carrying out a request delivers the listing of what it asks for, or something is lacking, or an
overflow breaks it off. -/
theorem concludes_disassemble (build : Build) (w : World) (r : Request) :
    Concludes build w r ((disassemble build World.shell r).result w) := by
  unfold disassemble
  cases himage : r.image with
  | none =>
    exact .failed (.noImage himage) (fun overruns => overruns.image himage)
      ⟨rfl, .inl rfl⟩ rfl
  | some image =>
    have named : r.image ≠ none := by simp [himage]
    nth_rewrite 2 [← w.noting_nil]
    dsimp only
    refine Concludes.settingsFrom fun settings events hsettings => ?_
    refine Concludes.addTables .empty settings.tables
      (fun t ht => .settings settings hsettings ht) ?_ fun first events hfirst => ?_
    · rintro ⟨t, ht, hfits⟩ overruns
      obtain ⟨settings', hsettings', fit⟩ := overruns.settings
      exact hfits (fit t (hasSettings_unique hsettings hsettings' ▸ ht))
    have fit : ∀ t ∈ settings.tables, t.Fits := fun t ht =>
      first.fits t (hfirst ▸ List.mem_append_right _ ht)
    refine Concludes.addTablesFrom first named hsettings fit
      fun written second events hwritten hsecond => ?_
    have calm : ¬ r.Overruns build w.folder := fun overruns =>
      nomatch (tablesFrom_eq_ok.2 hwritten).symm.trans overruns.tablesFrom_eq
    refine Concludes.addTables second r.tables (fun t ht => .argument ht) (fun _ => calm)
      fun seeds events hseeds => ?_
    refine Concludes.readBank himage calm fun bank events hbank => ?_
    have merged : seeds.extra = settings.tables ++ written ++ r.tables := by
      rw [hseeds, hsecond, hfirst]
      rfl
    obtain ⟨s, rfl, rfl, rfl⟩ : ∃ s : Supply build w.folder r,
        s.settings = settings ∧ s.bank = bank ∧ s.seeds = seeds :=
      ⟨⟨image, bank, settings, written, seeds, himage, hbank, hsettings, hwritten, merged⟩,
        rfl, rfl, rfl⟩
    obtain ⟨a, ha⟩ := s.bank.exists_analyze? s.seeds
    rw [ha]
    exact Concludes.deliver s ha

end BankTrace.CommandLine
