/-
  What the command that collects names leaves if a stylesheet is missing.

  * `TableFile.run_remove`: taking a table away takes the file at its path away, if there is one.
  * `Extract.run_dropTables`: a fresh start takes the files of both tables away, and nothing else.
  * `Extract.run_checkFiles`: looking for the stylesheets changes nothing; it fails at the first path
    that does not lead to a file.
  * `Extract.failsWith_collect`: collecting the names never fails for want of a stylesheet, so
    `Extract.command_eq_notFound_iff` says when the command does.
  * `Extract.command_missing`: then nothing was changed, but for the tables of a fresh start, which are
    gone.
  * `Extract.not_filesKept`: so a fresh start does not keep the tables from before.
-/
import SelectorRename.Proofs.Command.Extract
import SelectorRename.Proofs.Files.Removal

namespace SelectorRename

/-- A file operation failed. -/
def Failure.IsIo (f : Failure) : Prop := ∃ path cause, f = .io path cause

namespace TableFile

/-- What taking a table away does: there is a file, which is taken away, or there is none, and nothing
changes. -/
theorem run_remove_cases (path : String) (w : World) :
    (∃ v, w.volume.remove path = .ok v ∧
      (remove path : ExceptT Failure (StateM World) Unit).run.run w = (.ok (), ⟨v, w.log⟩)) ∨
    ∃ cause, w.volume.remove path = .error cause ∧
      ((remove path : ExceptT Failure (StateM World) Unit).run.run w = (.ok (), w) ∨
        (remove path : ExceptT Failure (StateM World) Unit).run.run w = (.error (.io path cause), w)) := by
  have hhost : (Host.remove path : StateM World _).run w =
      (pure (World.change (·.remove path) w) : Id _) := rfl
  rw [remove, ExceptT.run_mk, StateT.run_bind, hhost, pure_bind, World.change]
  cases w.volume.remove path with
  | ok v => exact Or.inl ⟨v, rfl, rfl⟩
  | error cause =>
    refine Or.inr ⟨cause, rfl, ?_⟩
    cases cause
    case notFound => exact Or.inl rfl
    all_goals exact Or.inr rfl

/-- Apart from the file at its path, taking a table away changes nothing, whether it succeeds or not. -/
theorem run_remove (path : String) (w : World) :
    ∃ r v, (remove path : ExceptT Failure (StateM World) Unit).run.run w = (r, ⟨v, w.log⟩) ∧
      w.volume.Drops [path] v := by
  obtain ⟨v, hremove, hrun⟩ | ⟨cause, hremove, hrun | hrun⟩ := run_remove_cases path w
  · exact ⟨_, v, hrun, Volume.drops_of_remove hremove⟩
  · exact ⟨_, w.volume, hrun, Volume.drops_of_error hremove⟩
  · exact ⟨_, w.volume, hrun, Volume.drops_of_error hremove⟩

theorem failsWith_remove (path : String) : World.FailsWith Failure.IsIo (remove path) := by
  intro w f w' h
  obtain ⟨v, -, hrun⟩ | ⟨cause, -, hrun | hrun⟩ := run_remove_cases path w
  · rw [hrun] at h
    cases h
  · rw [hrun] at h
    cases h
  · rw [hrun] at h
    cases h
    exact ⟨path, cause, rfl⟩

theorem failsWith_save (path : String) (entries : List Entry) :
    World.FailsWith Failure.IsIo (save path entries) :=
  .bind (.attempt fun _ => ⟨_, _, rfl⟩) fun _ =>
    .bind (.attempt fun _ => ⟨_, _, rfl⟩) fun _ =>
      .bind (.attempt fun _ => ⟨_, _, rfl⟩) fun _ => .lift _

end TableFile

namespace Extract

open World (FailsWith)

variable {a : ExtractArguments} {w w' : World} {path : String}

/-! ## The parts of the command -/

/-- Takes the tables away for a fresh start. -/
def dropTables (a : ExtractArguments) : ExceptT Failure (StateM World) Unit :=
  if a.fresh then TableFile.remove a.outputCss >>= fun _ => TableFile.remove a.outputJs else pure ()

/-- Collects the names after the stylesheets were found. -/
def collect (a : ExtractArguments) : ExceptT Failure (StateM World) Unit := do
  let table ← runAll (settingsOf a) a.files
  ExceptT.lift (Host.tell [.tablesWritten table.size a.outputCss a.outputJs])

theorem command_eq (a : ExtractArguments) :
    (command a : ExceptT Failure (StateM World) Unit) =
      dropTables a >>= fun _ => checkFiles a.files >>= fun _ => collect a := by
  rw [command, dropTables]
  cases a.fresh with
  | false => rfl
  | true => exact (bind_assoc ..).symm

/-! ## A fresh start -/

/-- If both tables can be taken away, their files are, and nothing else changes. -/
theorem run_dropTables (h : (dropTables a).run.run w = (.ok (), w')) :
    w'.log = w.log ∧ (a.fresh = false → w' = w) ∧
      (a.fresh = true → w.volume.Drops [a.outputCss, a.outputJs] w'.volume) := by
  rw [dropTables] at h
  split at h
  next hfresh =>
    obtain ⟨rcss, v, hcss, hdrops⟩ := TableFile.run_remove a.outputCss w
    cases rcss with
    | error f =>
      rw [World.run_bind_of_error _ hcss] at h
      cases h
    | ok u =>
      rw [World.run_bind_of_ok _ hcss] at h
      obtain ⟨rjs, v', hjs, hdrops'⟩ := TableFile.run_remove a.outputJs ⟨v, w.log⟩
      rw [hjs] at h
      cases h
      exact ⟨rfl, fun hnot => absurd hfresh (by simp [hnot]), fun _ => hdrops.trans hdrops'⟩
  next hfresh =>
    cases h
    exact ⟨rfl, fun _ => rfl, fun hyes => absurd hyes hfresh⟩

theorem failsWith_dropTables (a : ExtractArguments) : FailsWith Failure.IsIo (dropTables a) := by
  rw [dropTables]
  split
  · exact .bind (TableFile.failsWith_remove _) fun _ => TableFile.failsWith_remove _
  · exact .pure _

/-! ## Looking for the stylesheets -/

/-- The first path that does not lead to a file. -/
def firstMissing? (v : Volume) (paths : List String) : Option String :=
  paths.find? fun path => !v.isFile path

theorem run_checkFiles (paths : List String) (w : World) :
    (checkFiles paths : ExceptT Failure (StateM World) Unit).run.run w =
      (match firstMissing? w.volume paths with
        | some path => .error (.stylesheetNotFound path)
        | none => .ok (), w) := by
  induction paths with
  | nil => rfl
  | cons path rest ih =>
    have hlook : (checkFiles (path :: rest) : ExceptT Failure (StateM World) Unit).run.run w =
        (if w.volume.isFile path then checkFiles rest else throw (.stylesheetNotFound path) :
          ExceptT Failure (StateM World) Unit).run.run w := rfl
    rw [hlook, firstMissing?, List.find?_cons]
    cases w.volume.isFile path with
    | true => exact ih
    | false => rfl

/-! ## Collecting the names -/

theorem failsWith_stylesheet (data : String) :
    FailsWith Failure.IsIo (stylesheet data : ExceptT Failure (StateM World) String) := by
  refine .bind (.lift _) fun found => ?_
  cases found with
  | true => exact .attempt fun _ => ⟨_, _, rfl⟩
  | false => exact .pure _

theorem failsWith_saveViews (s : ExtractSettings) (x : Extraction) :
    FailsWith Failure.IsIo (saveViews s x) :=
  .bind (TableFile.failsWith_save _ _) fun _ =>
    .bind (TableFile.failsWith_save _ _) fun _ =>
      .bind (.lift _) fun _ => .pure _

theorem failsWith_run (s : ExtractSettings) :
    FailsWith Failure.IsIo (run s : ExceptT Failure (StateM World) RenameTable) := by
  refine .bind (failsWith_stylesheet _) fun text => .bind (.lift _) fun entries =>
    .bind (.lift _) fun _ => ?_
  -- what was found is shown or not, and saved in either case
  dsimp only
  split
  · exact .bind (.lift _) fun _ => failsWith_saveViews s _
  · exact failsWith_saveViews s _

theorem failsWith_runEach (s : ExtractSettings) (table : RenameTable) (sources : List String) :
    FailsWith Failure.IsIo (runEach s table sources : ExceptT Failure (StateM World) RenameTable) := by
  induction sources generalizing table with
  | nil => exact .pure _
  | cons source rest ih => exact .bind (failsWith_run _) fun table => ih table

/-- Collecting the names fails with file operations only. -/
theorem failsWith_collect (a : ExtractArguments) : FailsWith Failure.IsIo (collect a) :=
  .bind (.bind (.lift _) fun _ => failsWith_runEach _ _ _) fun _ => .lift _

/-! ## The command -/

theorem not_isIo_notFound (path : String) : ¬ (Failure.stylesheetNotFound path).IsIo := by
  rintro ⟨_, _, h⟩
  cases h

/-- **When a stylesheet is missing**: the tables of a fresh start can be taken away, and after that a
    path does not lead to a file. The first such path is in the failure. -/
theorem command_eq_notFound_iff :
    (command a : ExceptT Failure (StateM World) Unit).run.run w =
        (.error (.stylesheetNotFound path), w') ↔
      (dropTables a).run.run w = (.ok (), w') ∧ firstMissing? w'.volume a.files = some path := by
  rw [command_eq]
  rcases hdrop : (dropTables a).run.run w with ⟨f | u, w₁⟩
  · rw [World.run_bind_of_error _ hdrop]
    constructor
    · intro h
      cases h
      exact absurd (failsWith_dropTables a _ _ _ hdrop) (not_isIo_notFound path)
    · rintro ⟨h, -⟩
      cases h
  · have hcheck := run_checkFiles a.files w₁
    rw [World.run_bind_of_ok _ hdrop]
    cases hmissing : firstMissing? w₁.volume a.files with
    | none =>
      rw [hmissing] at hcheck
      rw [World.run_bind_of_ok _ hcheck]
      constructor
      · intro h
        exact absurd (failsWith_collect a _ _ _ h) (not_isIo_notFound path)
      · rintro ⟨h, hsome⟩
        cases h
        rw [hmissing] at hsome
        cases hsome
    | some missing =>
      rw [hmissing] at hcheck
      rw [World.run_bind_of_error _ hcheck]
      constructor
      · intro h
        cases h
        exact ⟨rfl, hmissing⟩
      · rintro ⟨h, hsome⟩
        cases h
        rw [hmissing] at hsome
        cases hsome
        rfl

/-- **What is left if a stylesheet is missing**: nothing is said and nothing was changed, but for a
    fresh start. That has taken the files of both tables away, and nothing else. -/
theorem command_missing
    (h : (command a : ExceptT Failure (StateM World) Unit).run.run w =
      (.error (.stylesheetNotFound path), w')) :
    path ∈ a.files ∧ w'.volume.isFile path = false ∧ w'.log = w.log ∧
      (a.fresh = false → w' = w) ∧
      (a.fresh = true → w.volume.Drops [a.outputCss, a.outputJs] w'.volume) := by
  obtain ⟨hdrop, hmissing⟩ := command_eq_notFound_iff.1 h
  obtain ⟨hlog, hkept, hdropped⟩ := run_dropTables hdrop
  refine ⟨List.mem_of_find?_eq_some hmissing, ?_, hlog, hkept, hdropped⟩
  simpa using List.find?_some hmissing

/-! ## A fresh start that comes to nothing -/

/-- A working directory with a stylesheet and the tables of an earlier command. -/
def besideTables : World where
  volume := ((Volume.empty.put ⟨2, "app.css"⟩ ".btn\x7b\x7d".toUTF8).put ⟨2, "css.json"⟩ "[]".toUTF8).put
    ⟨2, "js.json"⟩ "[]".toUTF8
  log := #[]

/-- The second stylesheet is misspelt. -/
def misspelt : ExtractArguments where
  files := ["app.css", "ap.css"]
  outputCss := "css.json"
  outputJs := "js.json"
  fresh := true

/-- What the fresh start leaves. -/
def afterMisspelt : World := ((dropTables misspelt).run.run besideTables).2

theorem run_command_misspelt :
    (command misspelt : ExceptT Failure (StateM World) Unit).run.run besideTables =
      (.error (.stylesheetNotFound "ap.css"), afterMisspelt) := by
  have hdrop : (dropTables misspelt).run.run besideTables = (.ok (), afterMisspelt) :=
    Prod.ext (by decide +kernel) rfl
  exact command_eq_notFound_iff.2 ⟨hdrop, by decide +kernel⟩

/-- Both tables are gone, and the other stylesheet is there. -/
theorem command_misspelt_drops :
    (command misspelt : ExceptT Failure (StateM World) Unit).run.run besideTables =
        (.error (.stylesheetNotFound "ap.css"), afterMisspelt) ∧
      besideTables.volume.Drops ["css.json", "js.json"] afterMisspelt.volume ∧
      afterMisspelt.volume.isFile "app.css" = true := by
  obtain ⟨-, -, -, -, hdrops⟩ := command_missing run_command_misspelt
  exact ⟨run_command_misspelt, hdrops rfl, by decide +kernel⟩

/-- The same files stand in the same slots. -/
def FilesKept (v w : Volume) : Prop :=
  ∀ slot bytes, w.get? slot = some (.file bytes) ↔ v.get? slot = some (.file bytes)

/-- **A missing stylesheet need not leave the tables from before.** -/
theorem not_filesKept :
    ¬ ∀ (a : ExtractArguments) (w w' : World) (path : String),
      (command a : ExceptT Failure (StateM World) Unit).run.run w =
        (.error (.stylesheetNotFound path), w') → FilesKept w.volume w'.volume := by
  intro h
  have hcss := (h _ _ _ _ run_command_misspelt ⟨2, "css.json"⟩ "[]".toUTF8).2 rfl
  have hgone : (afterMisspelt.volume.get? ⟨2, "css.json"⟩).isNone = true := by decide +kernel
  rw [hcss] at hgone
  cases hgone

end Extract

end SelectorRename
