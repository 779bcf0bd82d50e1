/-
  Tables in files: what loading finds, and what saving changes.

  * `TableFile.entriesAt`: the entries that loading a path finds (`TableFile.run_load`); it changes
    nothing but the log.
  * `TableFile.Ready`: a table can be saved at a path without creating a directory
    (`Ready.run_save`). A name in the working directory is ready (`Ready.of_name`).
  * `TableFile.Saved`: the directory of a path was created, the path was ready then, the table was
    written to the file that it names, and nothing else was done. A save that succeeds does this; one
    that fails creates directories at most (`TableFile.run_save_cases`).
  * `TableFile.run_save_eq_ok_iff`: a save succeeds exactly if the path is ready as soon as its
    directory was created.
  * `TableFile.save_allOrNothing`: so a save is all or nothing, whatever is on disk.
-/
import SelectorRename.Proofs.Files.Run
import SelectorRename.Proofs.Files.Ways
import SelectorRename.RenameTable.File

namespace SelectorRename.TableFile

variable {w w' : World} {path : String} {entries : List Entry}

/-! ## Loading -/

/-- The entries in the file at a path. There are none if it is missing, no text or no table. -/
def entriesAt (v : Volume) (path : String) : List Entry :=
  match v.readText path with
  | .ok text => (Entry.readAll? text).getD []
  | .error _ => []

theorem run_load (path : String) (w : World) :
    ∃ log, (load path : StateM World (List Entry)).run w =
      (entriesAt w.volume path, ⟨w.volume, log⟩) := by
  have hread : (Host.readText path : StateM World _).run w =
      (pure (w.volume.readText path, w) : Id _) := rfl
  rw [load, StateT.run_bind, hread, pure_bind, entriesAt]
  cases w.volume.readText path with
  | ok text =>
    cases htext : Entry.readAll? text with
    | some entries => exact ⟨w.log, by simp only [htext]; rfl⟩
    | none => exact ⟨_, by simp only [htext]; rfl⟩
  | error cause => cases cause <;> exact ⟨_, rfl⟩

/-! ## Paths that are ready -/

/-- A table can be saved at a path that names a slot, without creating a directory: the directory of
the path is there and takes a new file, and no directory stands in the slot. -/
structure Ready (v : Volume) (path : String) (slot : Slot) : Prop where
  directory : ∃ number, v.find (directoryOf path) = .ok (.directory number)
  room : Volume.accepts (Path.join (directoryOf path) Volume.stagePattern) = .ok ()
  names : v.Names path slot
  noDirectory (number : ℕ) : v.get? slot ≠ some (.directory number)

theorem directoryOf_name {name : String} (hname : name ≠ "") (hslash : '/' ∉ name.toList) :
    directoryOf name = "." := by
  have hparts : Path.parts name = [name.toList] := List.splitOn_eq_singleton hslash
  have hchars : name.toList ≠ [] := by simpa using hname
  have hparent : Path.parent? name = some "" := by
    rw [Path.parent?, hparts, Path.parentParts?, Path.settle]
    simp [hchars, Path.ofParts]
  rw [directoryOf, hparent]
  rfl

/-- A name is ready in the working directory, unless a directory has it. -/
theorem Ready.of_name {v : Volume} {name : String} (hname : name ≠ "") (hdot : name ≠ ".")
    (hdots : name ≠ "..") (hslash : '/' ∉ name.toList) (hzero : '\x00' ∉ name.toList)
    (hsize : name.utf8ByteSize ≤ Volume.maxName)
    (hd : ∀ number, v.get? ⟨v.home, name⟩ ≠ some (.directory number)) :
    Ready v name ⟨v.home, name⟩ := by
  have hsteps := Path.steps_of_name hname hslash
  have hrelative : Path.startsInSlash name = false := by
    rw [Path.startsInSlash, decide_eq_false_iff_not]
    exact fun h => hslash (List.mem_of_head? h)
  have hacc : Volume.accepts name = .ok () := by
    have hlong : ¬ Volume.maxPath ≤ name.utf8ByteSize := by
      rw [Volume.maxName] at hsize
      rw [Volume.maxPath]
      omega
    rw [Volume.accepts, if_neg (by simpa using hzero), if_neg hname, if_neg hlong]
  have hdir : directoryOf name = "." := directoryOf_name hname hslash
  refine ⟨⟨v.home, ?_⟩, ?_, ⟨?_, hdot, hdots, hsize, ?_⟩, hd⟩
  · rw [hdir]
    rfl
  · rw [hdir]
    decide
  · refine Volume.locate_eq_ok_iff.2 ⟨hacc, ?_, by rw [hsteps]; rfl⟩
    rw [hsteps, Volume.origin, hrelative]
    rfl
  · rw [Path.endsInSlash, decide_eq_false_iff_not]
    exact fun h => hslash (List.mem_of_getLast? h)

/-- A path stays ready until a directory stands in its slot. -/
theorem Ready.mono {v v' : Volume} {slot : Slot} (h : Ready v path slot) (hkeeps : v.KeepsDirectories v')
    (hd : ∀ number, v'.get? slot ≠ some (.directory number)) : Ready v' path slot := by
  obtain ⟨number, hfind⟩ := h.directory
  exact ⟨⟨number, hkeeps.find hfind⟩, h.room, hkeeps.names h.names, hd⟩

/-! ## Saving -/

/-- The directory of a path was created, the path was ready then, and a table was written to the file
that it names. Nothing else changed. -/
structure Saved (v : Volume) (path : String) (entries : List Entry) (w : Volume) : Prop where
  created : (v.createDirs (directoryOf path)).1 = .ok ()
  written : ∃ slot, Ready (v.createDirs (directoryOf path)).2 path slot ∧
    (v.createDirs (directoryOf path)).2.Writes slot (Entry.writeAll entries).toUTF8 w

/-- Directories were created, then a table was written to the file that a path names, and nothing
else changed. -/
def Saves (v : Volume) (path : String) (entries : List Entry) (w : Volume) : Prop :=
  ∃ u slot, v.AddsDirectories u ∧ u.Names path slot ∧
    u.Writes slot (Entry.writeAll entries).toUTF8 w

theorem Saved.saves {v v' : Volume} (h : Saved v path entries v') : Saves v path entries v' := by
  obtain ⟨slot, hready, hwrites⟩ := h.written
  exact ⟨_, slot, v.createDirs_adds (directoryOf path), hready.names, hwrites⟩

/-- After a table was saved, the path is ready and its slot holds the table. Every other file stands as
it stood. -/
theorem Saved.exists_ready {v v' : Volume} (h : Saved v path entries v') :
    ∃ slot, Ready v' path slot ∧ v'.get? slot = some (.file (Entry.writeAll entries).toUTF8) ∧
      ∀ other bytes, other ≠ slot → v.get? other = some (.file bytes) →
        v'.get? other = some (.file bytes) := by
  obtain ⟨slot, hready, hwrites⟩ := h.written
  have hfile : v'.get? slot = some (.file (Entry.writeAll entries).toUTF8) := by
    rw [hwrites.get?_eq, if_pos rfl]
  refine ⟨slot, hready.mono hwrites.keepsDirectories (by simp [hfile]), hfile, ?_⟩
  intro other bytes hother hg
  rw [hwrites.get?_eq, if_neg hother]
  exact (v.createDirs_adds (directoryOf path)).kept other _ hg

theorem Saved.keepsDirectories {v v' : Volume} (h : Saved v path entries v') :
    v.KeepsDirectories v' := by
  obtain ⟨slot, -, hwrites⟩ := h.written
  exact (v.createDirs_adds (directoryOf path)).keepsDirectories.trans hwrites.keepsDirectories

/-- A file that cannot be moved is taken away again. -/
theorem run_moveOver (staged : Slot) (path : String) (w : World) :
    (attempt (moveOver staged path) (.io path) : ExceptT Failure (StateM World) Unit).run.run w =
      match w.volume.moveTo staged path with
      | .ok v => (.ok (), { w with volume := v })
      | .error cause => (.error (.io path cause), { w with volume := w.volume.erase staged }) := by
  have hmove : (Host.moveTo staged path : StateM World _).run w =
      (pure (World.change (·.moveTo staged path) w) : Id _) := rfl
  rw [World.run_attempt, moveOver, StateT.run_bind, hmove, pure_bind, World.change]
  cases w.volume.moveTo staged path <;> rfl

/-- **What a save does**: the table was saved, or nothing but directories on the way is new. The path
    in the error is that of the table or that of its directory. -/
theorem run_save_cases {r : Except Failure Unit}
    (h : (save path entries : ExceptT Failure (StateM World) Unit).run.run w = (r, w')) :
    (r = .ok () ∧ Saved w.volume path entries w'.volume) ∨
      ∃ f cause, r = .error f ∧ (f = .io path cause ∨ f = .io (directoryOf path) cause) ∧
        w.volume.BuildsWay (directoryOf path) w'.volume := by
  rw [save] at h
  have hbuilds := w.volume.createDirs_builds (directoryOf path)
  have hdirs := World.run_createDirs (directoryOf path) (.io (directoryOf path)) w
  cases hcreated : (w.volume.createDirs (directoryOf path)).1 with
  | error cause =>
    rw [hcreated] at hdirs
    rw [World.run_bind_of_error _ hdirs] at h
    cases h
    exact Or.inr ⟨_, cause, rfl, Or.inr rfl, hbuilds⟩
  | ok _ =>
    rw [hcreated] at hdirs
    rw [World.run_bind_of_ok _ hdirs] at h
    set u := (w.volume.createDirs (directoryOf path)).2
    have hstaged := World.run_stage (directoryOf path) (Entry.writeAll entries) path
      (.io (directoryOf path)) { w with volume := u }
    cases hstage : u.stage (directoryOf path) (Entry.writeAll entries) path with
    | error cause =>
      simp only [hstage] at hstaged
      rw [World.run_bind_of_error _ hstaged] at h
      cases h
      exact Or.inr ⟨_, cause, rfl, Or.inr rfl, hbuilds⟩
    | ok new =>
      obtain ⟨staged, v⟩ := new
      simp only [hstage] at hstaged
      rw [World.run_bind_of_ok _ hstaged] at h
      have hmoved := run_moveOver staged path { w with volume := v }
      cases hmove : v.moveTo staged path with
      | error cause =>
        simp only [hmove] at hmoved
        rw [World.run_bind_of_error _ hmoved, Volume.erase_staged hstage] at h
        cases h
        exact Or.inr ⟨_, cause, rfl, Or.inl rfl, hbuilds⟩
      | ok z =>
        obtain ⟨slot, hn, hwrites⟩ := Volume.writes_of_moveTo hstage hmove
        obtain ⟨⟨hdirectory, hroom⟩, -⟩ := Volume.stage_eq_ok hstage
        simp only [hmove] at hmoved
        rw [World.run_bind_of_ok _ hmoved] at h
        cases h
        exact Or.inl ⟨rfl, hcreated, slot, ⟨hdirectory, hroom, hn, hwrites.noDirectory⟩, hwrites⟩

/-- A save that succeeds saves the table, and one that fails creates directories at most. -/
theorem run_save {r : Except Failure Unit}
    (h : (save path entries : ExceptT Failure (StateM World) Unit).run.run w = (r, w')) :
    (r = .ok () ∧ Saves w.volume path entries w'.volume) ∨
      ∃ f cause, r = .error f ∧ (f = .io path cause ∨ f = .io (directoryOf path) cause) ∧
        w.volume.AddsDirectories w'.volume := by
  rcases run_save_cases h with ⟨hr, hsaved⟩ | ⟨f, cause, hr, hf, hbuilds⟩
  · exact Or.inl ⟨hr, hsaved.saves⟩
  · exact Or.inr ⟨f, cause, hr, hf, hbuilds.toAddsDirectories⟩

/-- **Saving at a path that is ready** succeeds, and puts the table in the slot. -/
theorem Ready.run_save {slot : Slot} (h : Ready w.volume path slot) (entries : List Entry) :
    (save path entries : ExceptT Failure (StateM World) Unit).run.run w =
      (.ok (), ⟨w.volume.put slot (Entry.writeAll entries).toUTF8,
        w.log ++ [Message.savedTable entries.length path]⟩) := by
  obtain ⟨number, hfind⟩ := h.directory
  obtain ⟨staged, u, hstage⟩ := Volume.exists_stage hfind h.room (Entry.writeAll entries) path
  obtain ⟨-, hnone, hu⟩ := Volume.stage_eq_ok hstage
  have hput : w.volume.Writes staged (Entry.writeAll entries).toUTF8 u := by
    rw [hu]
    exact .put (by simp [hnone])
  have hd : ∀ number, u.get? slot ≠ some (.directory number) := by
    intro number
    rw [hput.get?_eq]
    split_ifs
    · nofun
    · exact h.noDirectory number
  have hmove := Volume.moveTo_of_names (by rw [hput.get?_eq, if_pos rfl])
    (hput.keepsDirectories.names h.names) hd
  rw [Volume.erase_staged hstage] at hmove
  have hdirs := World.run_createDirs (directoryOf path) (.io (directoryOf path)) w
  rw [Volume.createDirs_of_find hfind] at hdirs
  have hstaged := World.run_stage (directoryOf path) (Entry.writeAll entries) path
    (.io (directoryOf path)) w
  simp only [hstage] at hstaged
  have hmoved := run_moveOver staged path { w with volume := u }
  simp only [hmove] at hmoved
  rw [save, World.run_bind_of_ok _ hdirs, World.run_bind_of_ok _ hstaged,
    World.run_bind_of_ok _ hmoved]
  rfl

/-- **When a save succeeds**: exactly if the directory of the path can be created, and the path is ready
    then. -/
theorem run_save_eq_ok_iff (path : String) (entries : List Entry) (w : World) :
    ((save path entries : ExceptT Failure (StateM World) Unit).run.run w).1 = .ok () ↔
      (w.volume.createDirs (directoryOf path)).1 = .ok () ∧
        ∃ slot, Ready (w.volume.createDirs (directoryOf path)).2 path slot := by
  constructor
  · intro hok
    rcases run_save_cases (Prod.ext hok rfl) with ⟨-, hsaved⟩ | ⟨f, cause, hr, -⟩
    · obtain ⟨slot, hready, -⟩ := hsaved.written
      exact ⟨hsaved.created, slot, hready⟩
    · cases hr
  · rintro ⟨hcreated, slot, hready⟩
    -- the save goes on as one in the volume where the directory is there
    have hdirs := World.run_createDirs (directoryOf path) (.io (directoryOf path)) w
    rw [hcreated] at hdirs
    obtain ⟨number, hfind⟩ := hready.directory
    have hagain := World.run_createDirs (directoryOf path) (.io (directoryOf path))
      { w with volume := (w.volume.createDirs (directoryOf path)).2 }
    rw [Volume.createDirs_of_find hfind] at hagain
    have hrun := Ready.run_save (w := { w with volume := _ }) hready entries
    rw [save, World.run_bind_of_ok _ hagain] at hrun
    rw [save, World.run_bind_of_ok _ hdirs, hrun]

/-- **A save is all or nothing**, for every path, whatever is on disk. It succeeds exactly if the
    directory of the path can be created and the path is ready then. If it succeeds, the path leads to
    a file with the table, and no other file was changed, added or taken away. If it fails, this holds
    of all files. Directories on the way to the path may be new. -/
theorem save_allOrNothing (path : String) (entries : List Entry) (w : World) :
    ∃ r w', (save path entries : ExceptT Failure (StateM World) Unit).run.run w = (r, w') ∧
      (r = .ok () ↔ (w.volume.createDirs (directoryOf path)).1 = .ok () ∧
        ∃ slot, Ready (w.volume.createDirs (directoryOf path)).2 path slot) ∧
      ((r = .ok () ∧ ∃ slot, w'.volume.fileAt? path = some (slot, (Entry.writeAll entries).toUTF8) ∧
          w.volume.ChangesOnly (directoryOf path) [slot] w'.volume) ∨
        ∃ f cause, r = .error f ∧ (f = .io path cause ∨ f = .io (directoryOf path) cause) ∧
          w.volume.ChangesOnly (directoryOf path) [] w'.volume) := by
  have hiff := run_save_eq_ok_iff path entries w
  rcases hrun : (save path entries : ExceptT Failure (StateM World) Unit).run.run w with ⟨r, w'⟩
  rw [hrun] at hiff
  refine ⟨r, w', rfl, hiff, ?_⟩
  rcases run_save_cases hrun with ⟨hr, hsaved⟩ | ⟨f, cause, hr, hf, hbuilds⟩
  · obtain ⟨slot, hready, hwrites⟩ := hsaved.written
    have hbuilds := w.volume.createDirs_builds (directoryOf path)
    refine Or.inl ⟨hr, slot, ?_, hbuilds.changesOnly hwrites.keepsDirectories ?_⟩
    · exact Volume.fileAt?_eq_some_iff.2 (hwrites.find hready.names)
    · intro other hother
      rw [hwrites.get?_eq, if_neg (by simpa using hother)]
  · exact Or.inr ⟨f, cause, hr, hf, hbuilds.changesOnly (.refl _) fun _ _ => rfl⟩

end SelectorRename.TableFile
