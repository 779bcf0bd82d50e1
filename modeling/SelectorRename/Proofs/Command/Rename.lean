/-
  What the command that renames the names in assets does, step by step.

  * `Rename.requested`: the settings that the options ask for, and `Rename.resultText`: the text that an
    asset is left with by them.
  * `Rename.run_readAll`: either every asset is read, or the command fails at the first that cannot be.
  * `Rename.run_command`: an unreadable asset fails the command before anything was changed. If there
    is none, all that is left to do is to create the directory and to write the results.
  * `Rename.run_command_eq_ok`: which files a command that succeeds has written.
-/
import SelectorRename.Command.Rename
import SelectorRename.Proofs.RenameTable.Saving

namespace SelectorRename.Rename

variable {a : RenameArguments} {v : Volume} {w w' : World} {paths : List String}
  {results : List (String × Renamed)}

/-! ## Reading -/

/-- An asset with the text of its file. -/
def Reads (v : Volume) (path : String) (asset : Asset) : Prop :=
  asset.name = path ∧ v.readText path = .ok asset.content

/-- Reading changes nothing. It fails at the first asset that cannot be read. -/
theorem run_readAll (v : Volume) (paths : List String) :
    (∃ assets, List.Forall₂ (Reads v) paths assets ∧
      ∀ log, (readAll paths : ExceptT Failure (StateM World) (List Asset)).run.run ⟨v, log⟩ =
        (.ok assets, ⟨v, log⟩)) ∨
    ∃ path ∈ paths, ∃ cause, v.readText path = .error cause ∧
      ∀ log, (readAll paths : ExceptT Failure (StateM World) (List Asset)).run.run ⟨v, log⟩ =
        (.error (.cannotRead path cause), ⟨v, log⟩) := by
  induction paths with
  | nil => exact Or.inl ⟨[], .nil, fun _ => rfl⟩
  | cons path rest ih =>
    have hread : ∀ log, (attempt (Host.readText path) (.cannotRead path) :
        ExceptT Failure (StateM World) String).run.run ⟨v, log⟩ =
          ((v.readText path).mapError (.cannotRead path), ⟨v, log⟩) :=
      fun log => World.run_readText ..
    cases htext : v.readText path with
    | error cause =>
      refine Or.inr ⟨path, List.mem_cons_self, cause, htext, fun log => ?_⟩
      have hfails := hread log
      rw [htext] at hfails
      exact World.run_bind_of_error _ hfails
    | ok text =>
      rw [htext] at hread
      rcases ih with ⟨assets, hassets, hrest⟩ | ⟨bad, hmem, cause, hbad, hrest⟩
      · refine Or.inl ⟨⟨path, text⟩ :: assets, .cons ⟨rfl, htext⟩ hassets, fun log => ?_⟩
        rw [readAll, World.run_bind_of_ok _ (hread log), World.run_bind_of_ok _ (hrest log)]
        rfl
      · refine Or.inr ⟨bad, List.mem_cons_of_mem _ hmem, cause, hbad, fun log => ?_⟩
        rw [readAll, World.run_bind_of_ok _ (hread log), World.run_bind_of_error _ (hrest log)]

/-! ## The results -/

/-- The settings that the options ask for: the entries of the table, and every option as it is given.
    The class names to replace outside attribute values come before the ids. -/
def requested (a : RenameArguments) (v : Volume) : RenamingSettings where
  entries := TableFile.entriesAt v a.table
  attributes := a.attributes
  ignore := a.ignore
  literals := a.forceClass.map (⟨·, .cls⟩) ++ a.forceId.map (⟨·, .id⟩)
  displayResult := a.displayResult

/-- The command goes by these settings. -/
theorem settingsOf_entriesAt (a : RenameArguments) (v : Volume) :
    settingsOf a (TableFile.entriesAt v a.table) = requested a v := rfl

/-- The text that an asset is left with: the one it has when it is renamed by these settings. -/
def resultText (a : RenameArguments) (v : Volume) (asset : Asset) : String :=
  String.ofList (asset.rename (requested a v)).content

/-- The name of an asset does not matter for its text. -/
theorem resultText_congr (a : RenameArguments) (v : Volume) (name other text : String) :
    resultText a v ⟨name, text⟩ = resultText a v ⟨other, text⟩ := by
  simp only [resultText, Asset.rename, Renamer.rename]
  split <;> rfl

/-- The result for the asset at a path. -/
def Result (a : RenameArguments) (v : Volume) (path : String) (r : String × Renamed) : Prop :=
  r.1 = path ∧ ∃ text, v.readText path = .ok text ∧
    String.ofList r.2.content = resultText a v ⟨path, text⟩

/-- Creates the directory and writes results. -/
def deliver (outDir : Option String) (results : List (String × Renamed)) :
    ExceptT Failure (StateM World) Unit := do
  if let some dir := outDir then
    attempt (Host.createDirs dir) (.cannotCreate dir)
  writeAll outDir results

theorem deliver_none (results : List (String × Renamed)) :
    deliver none results = writeAll none results := rfl

theorem deliver_some (dir : String) (results : List (String × Renamed)) :
    deliver (some dir) results =
      attempt (Host.createDirs dir) (.cannotCreate dir) >>= fun _ => writeAll (some dir) results := rfl

theorem forall₂_result {assets : List Asset} (h : List.Forall₂ (Reads v) paths assets) :
    List.Forall₂ (Result a v) paths
      (paths.zip (Asset.renameAll (requested a v) assets).1) := by
  simp only [Asset.renameAll]
  induction h with
  | nil => exact .nil
  | @cons path asset paths assets hreads _ ih =>
    obtain ⟨rfl, hread⟩ := hreads
    exact .cons ⟨rfl, asset.content, hread, rfl⟩ ih

/-- Loading the table, and what is said if it is empty, changes the log alone. -/
theorem run_command_of_load (a : RenameArguments) (w : World) :
    ∃ log, (command a : ExceptT Failure (StateM World) Unit).run.run w =
      (readAll a.files >>= fun assets =>
        let (results, log) := Asset.renameAll (requested a w.volume) assets
        ExceptT.lift (Host.tell log) >>= fun _ =>
        deliver a.outDir (a.files.zip results)).run.run ⟨w.volume, log⟩ := by
  obtain ⟨log, hload⟩ := TableFile.run_load a.table w
  rw [command, World.run_lift_bind, hload]
  simp only [settingsOf_entriesAt]
  split
  · exact ⟨_, rfl⟩
  · exact ⟨_, rfl⟩

/-- **All is read before anything is changed**: the command fails with the volume as it was, or it
    has all the assets and has told what became of them, and nothing is left to do but to deliver
    the results. -/
theorem run_command (a : RenameArguments) (w : World) :
    (∃ assets, ∃ log : Array Message, List.Forall₂ (Reads w.volume) a.files assets ∧
      (command a : ExceptT Failure (StateM World) Unit).run.run w =
        (deliver a.outDir
          (a.files.zip (Asset.renameAll (requested a w.volume) assets).1)).run.run
            ⟨w.volume, log ++ (Asset.renameAll (requested a w.volume) assets).2⟩) ∨
    ∃ path ∈ a.files, ∃ cause log, w.volume.readText path = .error cause ∧
      (command a : ExceptT Failure (StateM World) Unit).run.run w =
        (.error (.cannotRead path cause), ⟨w.volume, log⟩) := by
  obtain ⟨log, hcommand⟩ := run_command_of_load a w
  rcases run_readAll w.volume a.files with ⟨assets, hassets, hread⟩ | ⟨bad, hmem, cause, hbad, hread⟩
  · refine Or.inl ⟨assets, log, hassets, ?_⟩
    rw [hcommand, World.run_bind_of_ok _ (hread log)]
    exact World.run_tell_bind ..
  · refine Or.inr ⟨bad, hmem, cause, log, hbad, ?_⟩
    rw [hcommand, World.run_bind_of_error _ (hread log)]

/-! ## Writing -/

/-- What is written for the asset at a path: in the slot that its target names stands the text of the
result. -/
def Delivers (a : RenameArguments) (v u : Volume) (path : String) (x : Slot × ByteArray) : Prop :=
  ∃ goal text, target a.outDir path = .ok goal ∧ u.Names goal x.1 ∧ v.readText path = .ok text ∧
    x.2 = (resultText a v ⟨path, text⟩).toUTF8

/-- If all results are written, each one was written to its target. No write is in the way of a later
    one, so all targets are named in the volume from before. -/
theorem run_writeAll_eq_ok (hresults : List.Forall₂ (Result a v) paths results)
    (h : (writeAll a.outDir results : ExceptT Failure (StateM World) Unit).run.run w =
      (.ok (), w')) :
    ∃ writes, List.Forall₂ (Delivers a v w.volume) paths writes ∧
      w.volume.WritesAll writes w'.volume := by
  induction hresults generalizing w with
  | nil =>
    cases h
    exact ⟨[], .nil, .nil⟩
  | @cons path result paths results hresult _ ih =>
    obtain ⟨name, renamed⟩ := result
    obtain ⟨rfl, text, hread, hcontent⟩ := hresult
    rw [writeAll] at h
    cases htarget : target a.outDir name with
    | error failure =>
      rw [htarget] at h
      cases h
    | ok goal =>
      rw [htarget] at h
      obtain ⟨⟨⟩, w₁, hwrite, hrest⟩ := World.run_bind_eq_ok h
      obtain ⟨slot, hn, hwrites⟩ : ∃ slot, w.volume.Names goal slot ∧
          w.volume.Writes slot (String.ofList renamed.content).toUTF8 w₁.volume := by
        rw [World.run_writeText] at hwrite
        split at hwrite
        next hv =>
          cases hwrite
          exact Volume.writes_of_writeText hv
        next => cases hwrite
      obtain ⟨writes, hdelivers, hall⟩ := ih hrest
      rw [hcontent] at hwrites
      refine ⟨(slot, _) :: writes, .cons ⟨goal, text, htarget, hn, hread, rfl⟩ ?_, .cons hwrites hall⟩
      refine hdelivers.imp fun path x hx => ?_
      obtain ⟨goal, text, htarget, hn, hx⟩ := hx
      exact ⟨goal, text, htarget, hwrites.keepsDirectories_back.names hn, hx⟩

/-- **What a command that succeeds has changed**: directories were created, if there is to be one, and
    then the results were written one after another. -/
theorem run_command_eq_ok
    (h : (command a : ExceptT Failure (StateM World) Unit).run.run w = (.ok (), w')) :
    ∃ u writes, w.volume.AddsDirectories u ∧ (a.outDir = none → u = w.volume) ∧
      List.Forall₂ (Delivers a w.volume u) a.files writes ∧ u.WritesAll writes w'.volume := by
  obtain ⟨assets, log, hassets, hrun⟩ | ⟨bad, -, cause, log, -, hrun⟩ := run_command a w
  · have hresults := forall₂_result (a := a) hassets
    rw [hrun] at h
    cases hout : a.outDir with
    | none =>
      rw [hout, deliver_none, ← hout] at h
      obtain ⟨writes, hdelivers, hall⟩ := run_writeAll_eq_ok hresults h
      exact ⟨w.volume, writes, .refl _, fun _ => rfl, hdelivers, hall⟩
    | some dir =>
      rw [hout, deliver_some] at h
      obtain ⟨⟨⟩, w₁, hcreate, hrest⟩ := World.run_bind_eq_ok h
      have hadds : w.volume.AddsDirectories w₁.volume := by
        have hw₁ := congrArg (·.2.volume) hcreate
        rw [World.run_createDirs] at hw₁
        exact hw₁ ▸ Volume.createDirs_adds ..
      rw [← hout] at hrest
      obtain ⟨writes, hdelivers, hall⟩ := run_writeAll_eq_ok hresults hrest
      exact ⟨w₁.volume, writes, hadds, nofun, hdelivers, hall⟩
  · rw [hrun] at h
    cases h

end SelectorRename.Rename
