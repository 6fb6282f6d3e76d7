import BankTrace.Proofs.Runs

namespace BankTrace

namespace CommandLine

/-- A run comes upon a number that overflows: in a table argument before any other fault or request
for help, or in the pointer file when nothing was wrong before. -/
inductive Overruns (build : Build) (f : Folder) (arguments : List String) : Prop
  | argument (checked : build.arithmetic = .checked) (reached : OverflowReached arguments)
  | pointerFile (helpless : ¬ HelpReached arguments) (faultless : ¬ FaultReached arguments)
      (overruns : (Request.ofArguments arguments).Overruns build f)

theorem Overruns.of_faultless {build : Build} {f : Folder} {arguments : List String}
    (h : Overruns build f arguments) (faultless : ¬ FaultReached arguments) :
    (Request.ofArguments arguments).Overruns build f := by
  rcases h with ⟨-, reached⟩ | ⟨-, -, overruns⟩
  · exact absurd reached.faultReached faultless
  · exact overruns

namespace World

open Folder

variable {build : Build} {w : World} {arguments : List String} {r : Request}

theorem run_of_help (h : Order.ofArguments build.arithmetic {} arguments = .ok .help) :
    w.run build arguments = (0, { w with complaints := w.complaints ++ help }) := by
  unfold World.run CommandLine.run
  rw [h]
  rfl

theorem run_of_error {cause : SetupFailure}
    (h : Order.ofArguments build.arithmetic {} arguments = .error cause) :
    w.run build arguments = (exitCode (.setup cause),
      { w with complaints := w.complaints ++ report (.setup cause) }) := by
  unfold World.run CommandLine.run
  rw [h]
  rfl

theorem run_of_request (h : Order.ofArguments build.arithmetic {} arguments = .ok (.disassemble r)) :
    w.run build arguments = StateT.run (conclude shell ((disassemble build shell r).result w).1)
      ((disassemble build shell r).result w).2 := by
  unfold World.run CommandLine.run
  rw [h]
  rfl

/-- How a run ends: it shows the help text, stumbles over a fault in its arguments, lacks something
that it was asked for, breaks off at an overflow, or delivers what it was asked for. -/
inductive Ends (build : Build) (w : World) (arguments : List String) : UInt32 × World → Prop
  | help (reached : HelpReached arguments) :
      Ends build w arguments (0, { w with complaints := w.complaints ++ CommandLine.help })
  | fault {after : World} (reached : FaultReached arguments)
      (calm : ¬ Overruns build w.folder arguments) (untouched : w.Untouched after) :
      Ends build w arguments (1, after)
  | lacking {after : World} (helpless : ¬ HelpReached arguments)
      (faultless : ¬ FaultReached arguments) (lacking : Lacking build w (.ofArguments arguments))
      (calm : ¬ Overruns build w.folder arguments)
      (spared : w.Spared after (values .output (tokens arguments)).getLast?) :
      Ends build w arguments (1, after)
  | overrun {after : World} (overruns : Overruns build w.folder arguments)
      (untouched : w.Untouched after) : Ends build w arguments (101, after)
  | delivered {after : World} (helpless : ¬ HelpReached arguments)
      (faultless : ¬ FaultReached arguments) (sound : Sound (tokens arguments))
      (s : Supply build w.folder (.ofArguments arguments)) {listing : String}
      (listed : s.bank.disassembly? s.seeds ((Request.ofArguments arguments).style s.settings) =
        some listing)
      (met : ¬ Lacking build w (.ofArguments arguments))
      (delivered : w.Delivered after listing (values .output (tokens arguments)).getLast?) :
      Ends build w arguments (0, after)

theorem run_ends (build : Build) (w : World) (arguments : List String) :
    Ends build w arguments (w.run build arguments) := by
  rcases Order.ofArguments_cases build.arithmetic arguments with
    ⟨hhelp, h⟩ | ⟨hfault, cause, h, hoverflow⟩ | ⟨hhelp, hfault, hsound, h⟩
  · rw [run_of_help h]
    exact .help hhelp
  · rw [run_of_error h]
    by_cases hcause : cause = .overflow
    · obtain ⟨checked, reached⟩ := hoverflow.1 hcause
      subst hcause
      exact .overrun (.argument checked reached) ⟨rfl, rfl⟩
    · rw [exitCode_setup hcause]
      refine .fault hfault ?_ ⟨rfl, rfl⟩
      rintro (⟨checked, reached⟩ | ⟨-, faultless, -⟩)
      · exact hcause (hoverflow.2 ⟨checked, reached⟩)
      · exact faultless hfault
  · rw [run_of_request h]
    have hend := concludes_disassemble build w (.ofArguments arguments)
    generalize (disassemble build shell (.ofArguments arguments)).result w = ended at hend ⊢
    cases hend with
    | listed s listed accepted delivered =>
      refine .delivered hhelp hfault hsound s listed ?_ delivered
      refine s.not_lacking (fun path hpath hrefused => ?_) fun other hother hnone => ?_
      · rw [hpath] at delivered
        exact delivered.2.not_unwritable hrefused
      · rw [← Option.some.inj (listed.symm.trans hother)]
        exact accepted hnone
    | @failed cause after lacking calm spared code =>
      change Ends build w arguments (exitCode cause, _)
      rw [code]
      exact .lacking hhelp hfault lacking (fun overruns => calm (overruns.of_faultless hfault))
        ⟨spared.folder, spared.printed⟩
    | overrun overruns untouched =>
      exact .overrun (.pointerFile hhelp hfault overruns) ⟨untouched.folder, untouched.printed⟩

def sampleSettings : String :=
  "[output]\ndialect = \"html\"\n\n[[pointer_tables]]\noffset = 2\ncount = 1\n"

def sampleFormat : SettingsFormat where
  read text :=
    if text = "" then .ok {}
    else if text = sampleSettings then .ok ⟨⟨.html, .square⟩, [⟨2, 1⟩]⟩
    else .error "unknown"
  read_empty := rfl

def sampleBuild : Build := ⟨.checked, sampleFormat⟩

/-- A world with an empty bank in the file `rom`, and settings. -/
def blankWorld : World where
  folder := { files := [
    (here ++ ["rom"], ⟨(Vector.replicate Bank.size 0).toArray⟩),
    (here ++ ["settings"], sampleSettings.toUTF8)] }

/-- An argument list that asks for settings, another table, the other brackets and an output
file. -/
def blankArguments : List String :=
  ["--config", "settings", "--round-brackets", "--table", "0:1", "--output", "listing", "rom"]

theorem hasSettings_blankWorld :
    blankWorld.folder.HasSettings sampleBuild (some "settings") ⟨⟨.html, .square⟩, [⟨2, 1⟩]⟩ :=
  ⟨sampleSettings, read_eq_ok.2 ⟨here ++ ["settings"], rfl, rfl⟩, rfl⟩

theorem named?_blankArguments : PointerTable.named? "0:1" = some ⟨0, 1⟩ := rfl

def blankSupply : Supply sampleBuild blankWorld.folder (.ofArguments blankArguments) where
  image := "rom"
  bank := ⟨Vector.replicate Bank.size 0⟩
  settings := ⟨⟨.html, .square⟩, [⟨2, 1⟩]⟩
  written := []
  seeds := ⟨[⟨2, 1⟩, ⟨0, 1⟩], by decide⟩
  image_eq := rfl
  hasBank := ⟨_, read_eq_ok.2 ⟨here ++ ["rom"], rfl, rfl⟩, rfl⟩
  hasSettings := hasSettings_blankWorld
  hasTables := rfl
  extra_eq := rfl

theorem targets_blankWorld : blankWorld.folder.Targets "listing" (here ++ ["listing"]) where
  leads := rfl
  free := by
    rw [show blankWorld.folder.kind (here ++ ["listing"]) = .absent from rfl]
    exact nofun
  named := ⟨"listing", by decide⟩

theorem not_lacking_blankWorld :
    ¬ Lacking sampleBuild blankWorld (.ofArguments blankArguments) := by
  refine blankSupply.not_lacking (fun path hpath hrefused => ?_) fun _ _ _ => rfl
  obtain rfl : "listing" = path := Option.some.inj hpath
  obtain ⟨cause, hcause⟩ := hrefused .empty
  exact nomatch hcause.symm.trans (write_eq_ok.2 ⟨_, targets_blankWorld, rfl⟩)

theorem Spared.untouched {after : World} {output : Option String} (h : w.Spared after output)
    (whole : ∀ text count cause, w.blockage text = some (count, cause) → count = 0) :
    w.Untouched after := by
  refine ⟨h.folder, ?_⟩
  rcases h.printed with h | ⟨-, text, count, cause, hblocked, h⟩
  · exact h
  · rw [h, whole text count cause hblocked]
    simp [cut]

end World

end CommandLine

end BankTrace
