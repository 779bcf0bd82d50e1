/-
  What a failed extraction leaves on disk.

  * `Extract.textOf`, `Extract.collected`: the stylesheet of some settings, and what is found in it.
  * `Extract.run_eq_error`: a failed extraction leaves every file as it was, with one exception: when
    the second view cannot be saved, the first one has been replaced.
  * `Extract.not_tablesKept`: so the tables of a failed extraction need not be those from before.
-/
import SelectorRename.Command.Extract
import SelectorRename.Proofs.RenameTable.Saving

namespace SelectorRename.Extract

variable {s : ExtractSettings} {w w' : World} {f : Failure}

/-! ## One run -/

/-- The stylesheet: the text of a file if the data names one, else the data. -/
def textOf (s : ExtractSettings) (v : Volume) : Except OsError String :=
  if v.isFile s.data then v.readText s.data else .ok s.data

/-- What is found in a stylesheet beside the table of a volume. -/
def collected (s : ExtractSettings) (v : Volume) (text : String) : Extraction :=
  (Extraction.start (TableFile.entriesAt v s.outputCss) (.ofList s.ignore)).scanLines s.pacing
    (Stylesheet.lines text)

theorem run_stylesheet (data : String) (w : World) :
    (stylesheet data : ExceptT Failure (StateM World) String).run.run w =
      ((if w.volume.isFile data then w.volume.readText data else .ok data).mapError (.io data), w) := by
  rw [stylesheet, World.run_lift_bind]
  show (if w.volume.isFile data = true then _ else _ : ExceptT Failure (StateM World) String).run.run w = _
  split
  · rw [World.run_readText]
  · rfl

/-- Saves both views of what was found. -/
def saveViews (s : ExtractSettings) (x : Extraction) : ExceptT Failure (StateM World) RenameTable := do
  TableFile.save s.outputCss x.table.css
  TableFile.save s.outputJs x.table.js
  ExceptT.lift (Host.tell [.extracted s.path x.discovered.size x.table.size])
  return x.table

/-- After the stylesheet was read, an extraction saves both views, apart from the log. -/
theorem run_of_text {text : String} (h : textOf s w.volume = .ok text) :
    ∃ log, (run s : ExceptT Failure (StateM World) RenameTable).run.run w =
      (saveViews s (collected s w.volume text)).run.run ⟨w.volume, log⟩ := by
  have hsheet : (stylesheet s.data : ExceptT Failure (StateM World) String).run.run w =
      (.ok text, w) := by
    rw [run_stylesheet, ← textOf, h]
    rfl
  obtain ⟨log, hload⟩ := TableFile.run_load s.outputCss w
  rw [run, World.run_bind_of_ok _ hsheet, World.run_lift_bind, hload]
  simp only
  rw [← collected, World.run_tell_bind]
  by_cases hdisplay : s.displayResult = true
  · rw [if_pos hdisplay, World.run_tell_bind, saveViews]
    exact ⟨_, rfl⟩
  · rw [if_neg hdisplay, saveViews]
    exact ⟨_, rfl⟩

theorem run_of_error {cause : OsError} (h : textOf s w.volume = .error cause) :
    (run s : ExceptT Failure (StateM World) RenameTable).run.run w = (.error (.io s.data cause), w) := by
  have hsheet : (stylesheet s.data : ExceptT Failure (StateM World) String).run.run w =
      (.error (.io s.data cause), w) := by
    rw [run_stylesheet, ← textOf, h]
    rfl
  rw [run, World.run_bind_of_error _ hsheet]

/-- **What a failed extraction leaves**: every file is as it was and at most directories are new, or
    the second view could not be saved, and then the first one was replaced before that. -/
theorem run_eq_error
    (h : (run s : ExceptT Failure (StateM World) RenameTable).run.run w = (.error f, w')) :
    w.volume.AddsDirectories w'.volume ∨
      ∃ text v cause, textOf s w.volume = .ok text ∧
        (f = .io s.outputJs cause ∨ f = .io (TableFile.directoryOf s.outputJs) cause) ∧
        TableFile.Saves w.volume s.outputCss (collected s w.volume text).table.css v ∧
        v.AddsDirectories w'.volume := by
  cases htext : textOf s w.volume with
  | error cause =>
    rw [run_of_error htext] at h
    cases h
    exact Or.inl (.refl _)
  | ok text =>
    obtain ⟨log, hrun⟩ := run_of_text htext
    rw [hrun, saveViews] at h
    clear hrun
    set x := collected s w.volume text
    rcases hcss : (TableFile.save s.outputCss x.table.css :
      ExceptT Failure (StateM World) Unit).run.run ⟨w.volume, log⟩ with ⟨r, w₁⟩
    obtain ⟨rfl, hsaves⟩ | ⟨f₁, cause, rfl, -, hadds⟩ := TableFile.run_save hcss
    · rw [World.run_bind_of_ok _ hcss] at h
      rcases hjs : (TableFile.save s.outputJs x.table.js :
        ExceptT Failure (StateM World) Unit).run.run w₁ with ⟨r, w₂⟩
      obtain ⟨rfl, -⟩ | ⟨f₂, cause, rfl, hcause, hadds⟩ := TableFile.run_save hjs
      · rw [World.run_bind_of_ok _ hjs] at h
        cases h
      · rw [World.run_bind_of_error _ hjs] at h
        cases h
        exact Or.inr ⟨text, w₁.volume, cause, rfl, hcause, hsaves, hadds⟩
    · rw [World.run_bind_of_error _ hcss] at h
      cases h
      exact Or.inl hadds

/-! ## A second view that cannot be saved -/

/-- A working directory with a table for the first view, and a directory where the second one goes. -/
def blockedView : World where
  volume :=
    { directories := #[⟨0, ""⟩, ⟨0, "tmp"⟩, ⟨1, ""⟩, ⟨2, "js.json"⟩]
      nodes := [(⟨0, "tmp"⟩, .directory 1), (⟨1, ""⟩, .directory 2),
        (⟨2, "css.json"⟩, .file "[]".toUTF8), (⟨2, "js.json"⟩, .directory 3)]
      home := 2 }
  log := #[]

def blockedSettings : ExtractSettings where
  data := ".btn\x7b\x7d"
  outputCss := "css.json"
  outputJs := "js.json"

/-- What the run leaves. -/
def afterBlocked : World :=
  ((run blockedSettings : ExceptT Failure (StateM World) RenameTable).run.run blockedView).2

theorem run_blocked :
    (run blockedSettings : ExceptT Failure (StateM World) RenameTable).run.run blockedView =
      (.error (.io "js.json" .isDirectory), afterBlocked) :=
  Prod.ext (by decide +kernel) rfl

theorem fileAt?_afterBlocked :
    afterBlocked.volume.fileAt? "css.json" =
      some (⟨2, "css.json"⟩, (Entry.writeAll [⟨".btn", ".a", .cls⟩]).toUTF8) := by
  decide +kernel

/-- The run fails, but the first view was saved before. -/
theorem blocked_saves_first :
    (run blockedSettings : ExceptT Failure (StateM World) RenameTable).run.run blockedView =
        (.error (.io "js.json" .isDirectory), afterBlocked) ∧
      ∃ v, TableFile.Saves blockedView.volume "css.json" [⟨".btn", ".a", .cls⟩] v ∧
        v.AddsDirectories afterBlocked.volume := by
  refine ⟨run_blocked, ?_⟩
  obtain hadds | ⟨text, v, cause, htext, -, hsaves, hadds⟩ := run_eq_error run_blocked
  · have hkept : afterBlocked.volume.get? ⟨2, "css.json"⟩ = some (.file "[]".toUTF8) :=
      hadds.file_iff.2 rfl
    rw [(Volume.find_eq_file_iff.1 (Volume.fileAt?_eq_some_iff.1 fileAt?_afterBlocked)).2] at hkept
    exact absurd (Node.file.inj (Option.some.inj hkept)) (by decide +kernel)
  · cases htext
    have hcss : (collected blockedSettings blockedView.volume blockedSettings.data).table.css =
        [⟨".btn", ".a", .cls⟩] := by decide +kernel
    exact ⟨v, hcss ▸ hsaves, hadds⟩

/-- The files of both views are what they were, or are missing as they were. -/
def TablesKept (s : ExtractSettings) (v w : Volume) : Prop :=
  ∀ path ∈ [s.outputCss, s.outputJs], (w.fileAt? path).map (·.2) = (v.fileAt? path).map (·.2)

/-- **A failed extraction need not leave the tables as they were.** -/
theorem not_tablesKept :
    ¬ ∀ (s : ExtractSettings) (w w' : World) (f : Failure),
      (run s : ExceptT Failure (StateM World) RenameTable).run.run w = (.error f, w') →
        TablesKept s w.volume w'.volume := by
  intro h
  have hcss := h _ _ _ _ run_blocked "css.json" List.mem_cons_self
  rw [fileAt?_afterBlocked] at hcss
  exact absurd hcss (by decide +kernel)

end SelectorRename.Extract
