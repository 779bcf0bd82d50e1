/-
  The way of a path.

  * `Volume.OnSteps`, `Volume.OnWay`: a slot that the path goes through. Its steps lead to the
    directory of the slot, and the name of the slot is the next step.
  * `Volume.BuildsWay`: directories on the way of a path were created, and nothing else changed.
    Creating a directory does no more, even if it fails (`Volume.createDirs_builds`), and nothing at
    all if the directory is there (`Volume.createDirs_of_find`).
  * `Volume.ChangesOnly`: apart from some files, nothing but directories on the way of a path is new.
-/
import SelectorRename.Proofs.Files.Changes

namespace SelectorRename.Volume

variable {v w z : Volume} {path : String} {here : ℕ} {steps : List String} {slot : Slot}

/-! ## Slots on the way -/

/-- A slot that steps from a directory go through. -/
def OnSteps (v : Volume) (here : ℕ) (steps : List String) (slot : Slot) : Prop :=
  ∃ front rest, steps = front ++ slot.name :: rest ∧ front.foldlM v.enter here = .ok slot.directory

namespace OnSteps

theorem head (v : Volume) (here : ℕ) (step : String) (rest : List String) :
    v.OnSteps here (step :: rest) ⟨here, step⟩ :=
  ⟨[], rest, rfl, rfl⟩

theorem cons {step : String} {next : ℕ} (henter : v.enter here step = .ok next)
    (h : v.OnSteps next steps slot) : v.OnSteps here (step :: steps) slot := by
  obtain ⟨front, rest, rfl, hfront⟩ := h
  refine ⟨step :: front, rest, rfl, ?_⟩
  rw [List.foldlM_cons, henter]
  exact hfront

theorem mono (hkeeps : v.KeepsDirectories w) (hhere : here < v.directories.size)
    (h : v.OnSteps here steps slot) : w.OnSteps here steps slot := by
  obtain ⟨front, rest, hsteps, hfront⟩ := h
  exact ⟨front, rest, hsteps, hkeeps.foldlM_enter hhere hfront⟩

end OnSteps

/-- A slot that a path goes through. -/
def OnWay (v : Volume) (path : String) (slot : Slot) : Prop :=
  v.OnSteps (v.origin path) (Path.steps path) slot

theorem OnWay.mono (hkeeps : v.KeepsDirectories w) (h : v.OnWay path slot) : w.OnWay path slot := by
  rw [OnWay, hkeeps.origin path]
  exact OnSteps.mono hkeeps (v.origin_lt_size path) h

/-! ## New directories on the way -/

/-- Directories on the way of a path were created, and nothing else changed. -/
structure BuildsWay (v : Volume) (path : String) (w : Volume) : Prop extends v.AddsDirectories w where
  onWay (slot : Slot) : w.get? slot ≠ v.get? slot → w.OnWay path slot

theorem enter_addDirectory {step : String} (hhere : here < v.directories.size)
    (h : v.enter here step = .error .notFound) :
    (v.addDirectory ⟨here, step⟩ hhere).enter here step = .ok v.directories.size := by
  obtain ⟨hdot, hdots, hsize, -⟩ := enter_eq_notFound h
  refine (enter_name_eq_ok_iff hdot hdots).2 ⟨hsize, ?_⟩
  rw [get?_addDirectory, if_pos rfl]

/-- After a step of creating directories, the step enters a directory in whatever comes of it, unless
it was the last one. At most this directory is new. -/
theorem createSteps_enters (v : Volume) {here : ℕ} (hhere : here < v.directories.size)
    (created : Bool) (step : String) (rest : List String) :
    (∃ (u : Volume) (next : ℕ) (created' : Bool) (hnext : next < u.directories.size),
      v.createSteps here hhere created (step :: rest) = u.createSteps next hnext created' rest ∧
      (u.createSteps next hnext created' rest).2.enter here step = .ok next ∧
      ∀ slot, slot ≠ ⟨here, step⟩ → u.get? slot = v.get? slot) ∨
    ∃ cause, v.createSteps here hhere created (step :: rest) = (.error cause, v) := by
  rcases createSteps_cons v hhere created step rest with
    ⟨next, henter, hnext⟩ | ⟨hnone, hnew⟩ | ⟨-, cause, hend⟩
  · have hkeeps := (createSteps_adds v (enter_lt_size hhere henter) created rest).keepsDirectories
    exact Or.inl ⟨v, next, created, _, hnext, hkeeps.enter hhere henter, fun _ _ => rfl⟩
  · have hsize : v.directories.size < (v.addDirectory ⟨here, step⟩ hhere).directories.size :=
      v.size_lt_addDirectory hhere
    have hkeeps := (createSteps_adds _ hsize true rest).keepsDirectories
    refine Or.inl ⟨_, _, true, hsize, hnew, ?_, ?_⟩
    · exact hkeeps.enter (Nat.lt_trans hhere hsize) (enter_addDirectory hhere hnone)
    · intro slot hslot
      rw [get?_addDirectory, if_neg hslot]
  · exact Or.inr ⟨cause, hend⟩

/-- What is created for some steps stands on their way. -/
theorem onSteps_of_createSteps (v : Volume) {here : ℕ} (hhere : here < v.directories.size)
    (created : Bool) (steps : List String) {slot : Slot}
    (h : (v.createSteps here hhere created steps).2.get? slot ≠ v.get? slot) :
    (v.createSteps here hhere created steps).2.OnSteps here steps slot := by
  induction steps generalizing v here created with
  | nil => exact absurd rfl h
  | cons step rest ih =>
    rcases createSteps_enters v hhere created step rest with
      ⟨u, next, created', hnext, hrest, henter, hget⟩ | ⟨cause, hend⟩
    · rw [hrest] at h ⊢
      -- the slot is that of the step, or it changed after the step
      by_cases hslot : slot = ⟨here, step⟩
      · subst hslot
        exact .head _ here step rest
      · rw [← hget slot hslot] at h
        exact (ih u hnext created' h).cons henter
    · rw [hend] at h
      exact absurd rfl h

/-- **Creating a directory** creates directories on its way at most, whether it succeeds or not. -/
theorem createDirs_builds (v : Volume) (path : String) : v.BuildsWay path (v.createDirs path).2 := by
  have hadds := v.createDirs_adds path
  refine ⟨hadds, ?_⟩
  intro slot hne
  rw [OnWay, hadds.keepsDirectories.origin path]
  rw [createDirs] at hne ⊢
  split_ifs at hne ⊢ with hempty
  · exact absurd rfl hne
  · cases hacc : accepts path with
    | error cause =>
      rw [hacc] at hne
      exact absurd rfl hne
    | ok u =>
      rw [hacc] at hne
      exact onSteps_of_createSteps v (v.origin_lt_size path) false (Path.steps path) hne

/-! ## Ways that are there -/

/-- Nothing is created for steps that enter directories. -/
theorem createSteps_of_walk (v : Volume) {here number : ℕ} (hhere : here < v.directories.size)
    (created : Bool) (steps : List String) (hwalk : steps.foldlM v.enter here = .ok number) :
    v.createSteps here hhere created steps = (.ok (), v) := by
  induction steps generalizing here with
  | nil => rfl
  | cons step rest ih =>
    rw [List.foldlM_cons] at hwalk
    rcases createSteps_cons v hhere created step rest with
      ⟨next, henter, hnext⟩ | ⟨hnone, -⟩ | ⟨hstop, -⟩
    · rw [henter] at hwalk
      rw [hnext]
      exact ih _ hwalk
    · rw [hnone] at hwalk
      cases hwalk
    · cases henter : v.enter here step with
      | ok next => exact absurd henter (hstop next)
      | error cause =>
        rw [henter] at hwalk
        cases hwalk

/-- Creating a directory that is there changes nothing. -/
theorem createDirs_of_find {number : ℕ} (hfind : v.find path = .ok (.directory number)) :
    v.createDirs path = (.ok (), v) := by
  obtain ⟨hacc, hwalk⟩ := find_eq_directory_iff.1 hfind
  rw [createDirs, hacc]
  split_ifs with hempty
  · rfl
  · exact createSteps_of_walk v (v.origin_lt_size path) false _ hwalk

/-! ## Nothing else -/

/-- Apart from the files in some slots, nothing changed but directories on the way of a path, which
may be new. -/
structure ChangesOnly (v : Volume) (way : String) (written : List Slot) (w : Volume) : Prop where
  /-- No other file was changed, added or taken away. -/
  file_iff (slot : Slot) (bytes : ByteArray) : slot ∉ written →
    (w.get? slot = some (.file bytes) ↔ v.get? slot = some (.file bytes))
  /-- A path to another file leads to it as before. -/
  fileAt? (path : String) (slot : Slot) (bytes : ByteArray) : slot ∉ written →
    v.fileAt? path = some (slot, bytes) → w.fileAt? path = some (slot, bytes)
  /-- No directory was moved or taken away. -/
  keepsDirectories : v.KeepsDirectories w
  /-- A new directory stands on the way. -/
  onWay (slot : Slot) : slot ∉ written → w.get? slot ≠ v.get? slot →
    (∃ number, w.get? slot = some (.directory number)) ∧ w.OnWay way slot

/-- Directories were created on a way, and then some files were changed. -/
theorem BuildsWay.changesOnly {written : List Slot} (h : v.BuildsWay path w)
    (hkeeps : w.KeepsDirectories z) (hget : ∀ slot ∉ written, z.get? slot = w.get? slot) :
    v.ChangesOnly path written z := by
  have hall : v.KeepsDirectories z := h.keepsDirectories.trans hkeeps
  have hfile : ∀ slot bytes, slot ∉ written →
      (z.get? slot = some (.file bytes) ↔ v.get? slot = some (.file bytes)) := by
    intro slot bytes hslot
    rw [hget slot hslot]
    exact h.file_iff
  refine ⟨hfile, ?_, hall, ?_⟩
  · intro other slot bytes hslot hat
    obtain ⟨hn, hg⟩ := find_eq_file_iff.1 (fileAt?_eq_some_iff.1 hat)
    exact (hall.names hn).fileAt?_of_get? ((hfile slot bytes hslot).2 hg)
  · intro slot hslot hne
    refine ⟨?_, (h.onWay slot (hget slot hslot ▸ hne)).mono hkeeps⟩
    rw [hget slot hslot] at hne ⊢
    cases hg : w.get? slot with
    | none =>
      -- nothing is taken away
      cases hg' : v.get? slot with
      | none => exact absurd (hg.trans hg'.symm) hne
      | some node => exact absurd ((h.kept slot node hg').symm.trans hg) nofun
    | some node =>
      rcases h.added slot node hg with hg' | ⟨number, rfl⟩
      · exact absurd (hg.trans hg'.symm) hne
      · exact ⟨number, rfl⟩

end SelectorRename.Volume
