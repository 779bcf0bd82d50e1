/-
  Following paths in a volume, before and after a change.

  * `Volume.get?_put`, `Volume.get?_erase`: what stands in a slot after a change. A file that is put in
    a free slot and taken away again leaves nothing (`Volume.erase_put`).
  * `Volume.Names`: a path that ends in the name of a slot.
  * `Volume.locate_eq_ok_iff`, `Volume.find_cases`, `Volume.find_eq_file_iff`,
    `Volume.find_eq_directory_iff`: what is there if a path leads somewhere.
  * `Volume.KeepsDirectories`: every directory stands where it stood. Each path that was followed to
    its end is followed to the same directory (`KeepsDirectories.locate`).
  * `Volume.Writes`: one file was written, and nothing else changed. The path that names it leads to
    it (`Writes.find`).
  * `Volume.writes_of_writeText`, `Volume.writes_of_moveTo`: writing a text to a path does that, and so
    does staging it for the path and moving it there. There always is a name for the staged file
    (`Volume.exists_freeName?`).
-/
import Mathlib.Data.List.Perm.Subperm
import SelectorRename.Files.Volume
import SelectorRename.Proofs.Association
import SelectorRename.Proofs.Files.Path

namespace SelectorRename

namespace Volume

variable {v w z : Volume} {path : String}

/-! ## Slots -/

theorem lookup_putNode (slot other : Slot) (node : Node) (nodes : List (Slot × Node)) :
    (putNode slot node nodes).lookup other =
      if other = slot then some node else nodes.lookup other := by
  induction nodes with
  | nil =>
    simp only [putNode, List.lookup_cons, List.lookup_nil]
    split <;> simp_all
  | cons entry rest ih =>
    obtain ⟨s, n⟩ := entry
    simp only [putNode]
    split <;> simp_all [List.lookup_cons] <;> grind

theorem get?_put (v : Volume) (slot other : Slot) (bytes : ByteArray) :
    (v.put slot bytes).get? other = if other = slot then some (.file bytes) else v.get? other :=
  lookup_putNode ..

theorem get?_addDirectory (v : Volume) {slot : Slot} (h : slot.directory < v.directories.size)
    (other : Slot) : (v.addDirectory slot h).get? other =
      if other = slot then some (.directory v.directories.size) else v.get? other :=
  lookup_putNode ..

theorem get?_erase (v : Volume) (slot other : Slot) :
    (v.erase slot).get? other = if other = slot then none else v.get? other :=
  lookup_filter_ne slot other v.nodes

theorem filter_putNode {slot : Slot} (node : Node) {nodes : List (Slot × Node)}
    (h : nodes.lookup slot = none) : (putNode slot node nodes).filter (·.1 ≠ slot) = nodes := by
  induction nodes with
  | nil => simp [putNode]
  | cons entry rest ih =>
    obtain ⟨other, n⟩ := entry
    rw [lookup_cons_ite] at h
    split_ifs at h with hother
    have hne : other ≠ slot := fun heq => hother heq.symm
    rw [putNode, if_neg hne, List.filter_cons_of_pos (by simpa using hne), ih h]

theorem putNode_of_lookup {slot : Slot} {node : Node} {nodes : List (Slot × Node)}
    (h : nodes.lookup slot = some node) : putNode slot node nodes = nodes := by
  induction nodes with
  | nil => cases h
  | cons entry rest ih =>
    obtain ⟨other, n⟩ := entry
    rw [lookup_cons_ite] at h
    by_cases hother : slot = other
    · subst hother
      rw [if_pos rfl] at h
      cases h
      rw [putNode, if_pos rfl]
    · rw [if_neg hother] at h
      rw [putNode, if_neg (Ne.symm hother), ih h]

/-- A file that is put in a free slot and taken away again leaves nothing. -/
theorem erase_put {slot : Slot} (h : v.get? slot = none) (bytes : ByteArray) :
    (v.put slot bytes).erase slot = v := by
  obtain ⟨directories, nodes, home⟩ := v
  simp only [put, erase, mk.injEq, true_and, and_true]
  exact filter_putNode _ h

/-- A file that is put where it stands changes nothing. -/
theorem put_of_get? {slot : Slot} {bytes : ByteArray} (h : v.get? slot = some (.file bytes)) :
    v.put slot bytes = v := by
  obtain ⟨directories, nodes, home⟩ := v
  simp only [put, mk.injEq, true_and, and_true]
  exact putNode_of_lookup h

/-! ## What a path leads to -/

theorem plainName?_eq_some_iff {step : Option String} {name : String} :
    plainName? step = some name ↔ step = some name ∧ name ≠ "." ∧ name ≠ ".." := by
  cases step with
  | none => simp [plainName?]
  | some step => simp [plainName?]; grind

theorem locate_eq_ok_iff {dir : ℕ} {step : Option String} :
    v.locate path = .ok (dir, step) ↔
      accepts path = .ok () ∧ (Path.steps path).dropLast.foldlM v.enter (v.origin path) = .ok dir ∧
        (Path.steps path).getLast? = step := by
  simp only [locate, bind, Except.bind, pure, Except.pure]
  cases accepts path with
  | error e => simp
  | ok u => cases (Path.steps path).dropLast.foldlM v.enter (v.origin path) <;> simp

/-- A path that ends in a name leads to what stands there. -/
theorem find_of_name {dir : ℕ} {name : String} (hl : v.locate path = .ok (dir, some name))
    (hdot : name ≠ ".") (hdots : name ≠ "..") :
    v.find path =
      if maxName < name.utf8ByteSize then .error .nameTooLong
      else match v.get? ⟨dir, name⟩ with
        | none => .error .notFound
        | some (.directory number) => .ok (.directory number)
        | some (.file bytes) =>
          if Path.endsInSlash path then .error .notDirectory else .ok (.file ⟨dir, name⟩ bytes) := by
  have hp : plainName? (some name) = some name := plainName?_eq_some_iff.2 ⟨rfl, hdot, hdots⟩
  simp only [find, hl, hp, bind, Except.bind]
  split
  next => rfl
  next =>
    cases v.get? ⟨dir, name⟩ with
    | none => rfl
    | some node =>
      cases node with
      | directory => rfl
      | file => cases Path.endsInSlash path <;> rfl

/-- A path that ends in a way around leads to a directory. -/
theorem find_of_way {dir : ℕ} {step : Option String} (hl : v.locate path = .ok (dir, step))
    (hp : plainName? step = none) :
    v.find path = (step.elim (.ok dir) (v.enter dir)).map Found.directory := by
  simp only [find, hl, hp, bind, Except.bind]
  cases step with
  | none => rfl
  | some s =>
    simp only [Option.elim]
    cases v.enter dir s <;> rfl

/-- What is there if a path leads somewhere: its last step enters a directory, or it is the name of
    a file. -/
theorem find_cases {found : Found} (h : v.find path = .ok found) :
    ∃ dir step, v.locate path = .ok (dir, step) ∧
      ((∃ number, found = .directory number ∧ step.elim (.ok dir) (v.enter dir) = .ok number) ∨
        ∃ name bytes, found = .file ⟨dir, name⟩ bytes ∧ step = some name ∧
          name ≠ "." ∧ name ≠ ".." ∧ name.utf8ByteSize ≤ maxName ∧
          v.get? ⟨dir, name⟩ = some (.file bytes) ∧ Path.endsInSlash path = false) := by
  cases hl : v.locate path with
  | error e => simp [find, hl, bind, Except.bind] at h
  | ok place =>
    obtain ⟨dir, step⟩ := place
    refine ⟨dir, step, rfl, ?_⟩
    cases hp : plainName? step with
    | none =>
      rw [find_of_way hl hp] at h
      cases hw : step.elim (.ok dir) (v.enter dir) with
      | error e => rw [hw] at h; cases h
      | ok number => rw [hw] at h; cases h; exact Or.inl ⟨number, rfl, rfl⟩
    | some name =>
      obtain ⟨rfl, hdot, hdots⟩ := plainName?_eq_some_iff.1 hp
      rw [find_of_name hl hdot hdots] at h
      split at h
      next => cases h
      next hsize =>
        split at h
        next => cases h
        next number hg =>
          cases h
          exact Or.inl ⟨number, rfl, by simp [enter, hdot, hdots, hsize, hg]⟩
        next bytes hg =>
          split at h
          next => cases h
          next hend =>
            cases h
            exact Or.inr ⟨name, bytes, rfl, rfl, hdot, hdots, Nat.le_of_not_lt hsize, hg,
              by simpa using hend⟩

/-- A path that ends in the name of a slot. Nothing need stand there. -/
structure Names (v : Volume) (path : String) (slot : Slot) : Prop where
  located : v.locate path = .ok (slot.directory, some slot.name)
  notHere : slot.name ≠ "."
  notAbove : slot.name ≠ ".."
  size : slot.name.utf8ByteSize ≤ maxName
  noSlash : Path.endsInSlash path = false

theorem Names.unique {slot slot' : Slot} (h : v.Names path slot) (h' : v.Names path slot') :
    slot = slot' := by
  have hl := h.located.symm.trans h'.located
  cases slot
  cases slot'
  cases hl
  rfl

/-- Paths that end in the name of one slot lead to the same. -/
theorem Names.find_eq {slot : Slot} {other : String} (h : v.Names path slot)
    (h' : v.Names other slot) : v.find path = v.find other := by
  rw [find_of_name h.located h.notHere h.notAbove, find_of_name h'.located h'.notHere h'.notAbove,
    h.noSlash, h'.noSlash]

/-- A name below a directory is the name of the slot. -/
theorem Names.name_eq {slot : Slot} {dir name : String} (h : v.Names (Path.join dir name) slot)
    (hname : name ≠ "") (hslash : '/' ∉ name.toList) : slot.name = name := by
  have hlast := (locate_eq_ok_iff.1 h.located).2.2
  rw [Path.getLast?_steps_join hname hslash] at hlast
  exact (Option.some.inj hlast).symm

theorem find_eq_file_iff {slot : Slot} {bytes : ByteArray} :
    v.find path = .ok (.file slot bytes) ↔ v.Names path slot ∧ v.get? slot = some (.file bytes) := by
  constructor
  · intro h
    obtain ⟨dir, step, hl, ⟨number, hfound, -⟩ | ⟨name, bytes', hfound, rfl, hname⟩⟩ := find_cases h
    · cases hfound
    · cases hfound
      obtain ⟨hdot, hdots, hsize, hg, hend⟩ := hname
      exact ⟨⟨hl, hdot, hdots, hsize, hend⟩, hg⟩
  · rintro ⟨h, hg⟩
    rw [find_of_name h.located h.notHere h.notAbove, if_neg (Nat.not_lt.2 h.size), hg]
    simp [h.noSlash]

theorem foldlM_concat_eq_ok_iff {front : List String} {step : String} {here number : ℕ} :
    (front ++ [step]).foldlM v.enter here = .ok number ↔
      ∃ dir, front.foldlM v.enter here = .ok dir ∧ v.enter dir step = .ok number := by
  rw [List.foldlM_append]
  cases hfront : front.foldlM v.enter here with
  | error e => exact ⟨nofun, nofun⟩
  | ok dir =>
    have hone : ([step].foldlM v.enter dir : Except OsError ℕ) = v.enter dir step := by
      rw [List.foldlM_cons]
      cases v.enter dir step <;> rfl
    show [step].foldlM v.enter dir = .ok number ↔ _
    rw [hone]
    exact ⟨fun h => ⟨dir, rfl, h⟩, fun ⟨_, hdir, h⟩ => Except.ok.inj hdir ▸ h⟩

/-- A step that is a name enters the directory that stands there. -/
theorem enter_name_eq_ok_iff {here number : ℕ} {name : String} (hdot : name ≠ ".") (hdots : name ≠ "..") :
    v.enter here name = .ok number ↔
      name.utf8ByteSize ≤ maxName ∧ v.get? ⟨here, name⟩ = some (.directory number) := by
  rw [enter, if_neg hdot, if_neg hdots]
  split_ifs with hsize
  · constructor
    · intro h
      cases h
    · intro h
      exact absurd h.1 (Nat.not_le.2 hsize)
  · cases v.get? ⟨here, name⟩ with
    | none => simp
    | some node => cases node <;> simp [Nat.le_of_not_lt hsize]

/-- A path leads to a directory if all of its steps enter directories. -/
theorem find_eq_directory_iff {number : ℕ} :
    v.find path = .ok (.directory number) ↔
      accepts path = .ok () ∧ (Path.steps path).foldlM v.enter (v.origin path) = .ok number := by
  constructor
  · intro h
    obtain ⟨dir, step, hl, ⟨number', hfound, hlast⟩ | ⟨name, bytes, hfound, -⟩⟩ := find_cases h
    · cases hfound
      obtain ⟨hacc, hdir, hstep⟩ := locate_eq_ok_iff.1 hl
      refine ⟨hacc, ?_⟩
      cases step with
      | none =>
        rw [List.getLast?_eq_none_iff] at hstep
        rw [hstep] at hdir ⊢
        exact hdir.trans hlast
      | some s =>
        obtain ⟨front, hfront⟩ := List.getLast?_eq_some_iff.1 hstep
        rw [hfront, List.dropLast_concat] at hdir
        rw [hfront]
        exact foldlM_concat_eq_ok_iff.2 ⟨dir, hdir, hlast⟩
    · cases hfound
  · rintro ⟨hacc, hwalk⟩
    rcases List.eq_nil_or_concat (Path.steps path) with hsteps | ⟨front, s, hsteps⟩
    · have hl : v.locate path = .ok (v.origin path, none) :=
        locate_eq_ok_iff.2 ⟨hacc, by rw [hsteps]; rfl, by rw [hsteps]; rfl⟩
      rw [hsteps] at hwalk
      rw [find_of_way hl rfl]
      exact congrArg (Except.map Found.directory) hwalk
    · rw [List.concat_eq_append] at hsteps
      rw [hsteps] at hwalk
      obtain ⟨dir, hdir, henter⟩ := foldlM_concat_eq_ok_iff.1 hwalk
      have hl : v.locate path = .ok (dir, some s) :=
        locate_eq_ok_iff.2 ⟨hacc, by rw [hsteps, List.dropLast_concat]; exact hdir,
          by rw [hsteps, List.getLast?_concat]⟩
      cases hp : plainName? (some s) with
      | none =>
        rw [find_of_way hl hp]
        exact congrArg (Except.map Found.directory) henter
      | some name =>
        obtain ⟨hname, hdot, hdots⟩ := plainName?_eq_some_iff.1 hp
        cases hname
        obtain ⟨hsize, hg⟩ := (enter_name_eq_ok_iff hdot hdots).1 henter
        rw [find_of_name hl hdot hdots, if_neg (Nat.not_lt.2 hsize), hg]

/-! ## Changes that keep the directories -/

/-- Every directory stands where it stood; there may be new ones behind them. -/
structure KeepsDirectories (v w : Volume) : Prop where
  home : w.home = v.home
  directories : ∃ more, w.directories = v.directories ++ more
  get? (slot : Slot) (number : ℕ) :
    v.get? slot = some (.directory number) → w.get? slot = some (.directory number)

namespace KeepsDirectories

theorem refl (v : Volume) : v.KeepsDirectories v :=
  ⟨rfl, ⟨#[], (Array.append_empty ..).symm⟩, fun _ _ h => h⟩

theorem trans (h : v.KeepsDirectories w) (h' : w.KeepsDirectories z) : v.KeepsDirectories z := by
  obtain ⟨more, hmore⟩ := h.directories
  obtain ⟨more', hmore'⟩ := h'.directories
  exact ⟨h'.home.trans h.home, ⟨more ++ more', by rw [hmore', hmore, Array.append_assoc]⟩,
    fun slot number hg => h'.get? slot number (h.get? slot number hg)⟩

/-- A change of one slot keeps the directories if none stood there. -/
theorem of_slot {slot : Slot} (h : ∀ number, v.get? slot ≠ some (.directory number))
    (hhome : w.home = v.home) (hdirs : w.directories = v.directories)
    (hget : ∀ other, other ≠ slot → w.get? other = v.get? other) : v.KeepsDirectories w := by
  refine ⟨hhome, ⟨#[], by rw [hdirs, Array.append_empty]⟩, fun other number hg => ?_⟩
  rw [hget other]
  · exact hg
  · rintro rfl
    exact h number hg

theorem parent (h : v.KeepsDirectories w) {number : ℕ} (hlt : number < v.directories.size) :
    w.parent number = v.parent number := by
  obtain ⟨more, hmore⟩ := h.directories
  rw [Volume.parent, Volume.parent, hmore, Array.getElem?_append_left hlt]

theorem enter (h : v.KeepsDirectories w) {here number : ℕ} {step : String}
    (hhere : here < v.directories.size) (he : v.enter here step = .ok number) :
    w.enter here step = .ok number := by
  have hparent : w.parent here = v.parent here := h.parent hhere
  unfold Volume.enter at he ⊢
  rw [hparent]
  split_ifs at he ⊢ with h1 h2 h3
  · exact he
  · exact he
  · split at he
    next n hg =>
      rw [h.get? _ _ hg]
      exact he
    next => cases he
    next => cases he

theorem foldlM_enter (h : v.KeepsDirectories w) {steps : List String} {here number : ℕ}
    (hhere : here < v.directories.size) (he : steps.foldlM v.enter here = .ok number) :
    steps.foldlM w.enter here = .ok number := by
  induction steps generalizing here with
  | nil => exact he
  | cons step steps ih =>
    rw [List.foldlM_cons] at he ⊢
    cases hstep : v.enter here step with
    | error e => rw [hstep] at he; cases he
    | ok next =>
      rw [hstep] at he
      rw [h.enter hhere hstep]
      exact ih (enter_lt_size hhere hstep) he

theorem origin (h : v.KeepsDirectories w) (path : String) : w.origin path = v.origin path := by
  rw [Volume.origin, Volume.origin, h.home]

theorem locate (h : v.KeepsDirectories w) {dir : ℕ} {step : Option String}
    (hl : v.locate path = .ok (dir, step)) : w.locate path = .ok (dir, step) := by
  rw [locate_eq_ok_iff] at hl ⊢
  obtain ⟨hacc, hdir, hstep⟩ := hl
  exact ⟨hacc, h.origin path ▸ h.foldlM_enter (v.origin_lt_size path) hdir, hstep⟩

theorem names (h : v.KeepsDirectories w) {slot : Slot} (hn : v.Names path slot) :
    w.Names path slot :=
  { hn with located := h.locate hn.located }

theorem find (h : v.KeepsDirectories w) {number : ℕ} (hfind : v.find path = .ok (.directory number)) :
    w.find path = .ok (.directory number) := by
  obtain ⟨hacc, hwalk⟩ := find_eq_directory_iff.1 hfind
  exact find_eq_directory_iff.2 ⟨hacc, h.origin path ▸ h.foldlM_enter (v.origin_lt_size path) hwalk⟩

end KeepsDirectories

/-! ## New files -/

theorem stageName_injective : Function.Injective stageName := by
  intro a b h
  have hchars : (toString a).toList = (toString b).toList := by
    simpa [stageName] using congrArg String.toList h
  have hdigits : Nat.toDigits 10 a = Nat.toDigits 10 b := by
    simpa only [Nat.toString_eq_repr, Nat.toList_repr] using hchars
  simpa using congrArg (fun digits => Nat.ofDigitChars 10 digits 0) hdigits

/-- A name for a new file is free in every directory: there are more of them than nodes and steps. -/
theorem exists_freeName? (v : Volume) (dir : ℕ) (path : String) :
    ∃ name, v.freeName? dir path = some name := by
  rw [← Option.isSome_iff_exists, freeName?, Option.isSome_map]
  by_contra hnone
  have htaken := List.find?_eq_none.1 (Option.not_isSome_iff_eq_none.1 hnone)
  set names := v.nodes.map (·.1.name) ++ Path.steps path with hnames
  set count := v.nodes.length + (Path.steps path).length + 1 with hcount
  have hsub : (List.range count).map stageName ⊆ names := by
    intro name hname
    obtain ⟨n, hn, rfl⟩ := List.mem_map.1 hname
    have hn' := htaken n hn
    rw [hnames, List.mem_append, List.mem_map]
    cases hget : v.get? ⟨dir, stageName n⟩ with
    | none =>
      rw [hget] at hn'
      exact Or.inr (by simpa using hn')
    | some node => exact Or.inl ⟨_, mem_of_lookup_eq_some hget, rfl⟩
  have hnodup : ((List.range count).map stageName).Nodup := List.nodup_range.map stageName_injective
  have hle := (hnodup.subperm hsub).length_le
  rw [hnames, List.length_map, List.length_range, List.length_append, List.length_map] at hle
  omega

/-- The name of a new file is free. -/
theorem get?_of_freeName? {dir : ℕ} {name : String} (h : v.freeName? dir path = some name) :
    v.get? ⟨dir, name⟩ = none := by
  obtain ⟨n, hn, rfl⟩ := Option.map_eq_some_iff.1 h
  have hfree := List.find?_some hn
  simp only [Bool.and_eq_true, Option.isNone_iff_eq_none] at hfree
  exact hfree.1

/-! ## Changes of one file -/

/-- One file was written, and nothing else changed. -/
structure Writes (v : Volume) (slot : Slot) (bytes : ByteArray) (w : Volume) : Prop where
  home : w.home = v.home
  directories : w.directories = v.directories
  noDirectory (number : ℕ) : v.get? slot ≠ some (.directory number)
  get?_eq (other : Slot) : w.get? other = if other = slot then some (.file bytes) else v.get? other

namespace Writes

variable {slot : Slot} {bytes : ByteArray}

theorem put (h : ∀ number, v.get? slot ≠ some (.directory number)) :
    v.Writes slot bytes (v.put slot bytes) :=
  ⟨rfl, rfl, h, fun other => get?_put v slot other _⟩

theorem keepsDirectories (h : v.Writes slot bytes w) : v.KeepsDirectories w :=
  .of_slot h.noDirectory h.home h.directories fun other hne => by rw [h.get?_eq, if_neg hne]

/-- No directory was created either. -/
theorem keepsDirectories_back (h : v.Writes slot bytes w) : w.KeepsDirectories v := by
  have hfile : ∀ number, w.get? slot ≠ some (.directory number) := by simp [h.get?_eq]
  exact .of_slot hfile h.home.symm h.directories.symm fun other hne => by rw [h.get?_eq, if_neg hne]

/-- The path that names the file leads to it. -/
theorem find (h : v.Writes slot bytes w) (hn : v.Names path slot) :
    w.find path = .ok (.file slot bytes) :=
  find_eq_file_iff.2 ⟨h.keepsDirectories.names hn, by rw [h.get?_eq, if_pos rfl]⟩

/-- A path to a file still leads there. -/
theorem exists_find (h : v.Writes slot bytes w) {other : Slot} {old : ByteArray}
    (hfind : v.find path = .ok (.file other old)) :
    ∃ new, w.find path = .ok (.file other new) := by
  obtain ⟨hn, hg⟩ := find_eq_file_iff.1 hfind
  by_cases hslot : other = slot
  · subst hslot
    exact ⟨bytes, h.find hn⟩
  · refine ⟨old, find_eq_file_iff.2 ⟨h.keepsDirectories.names hn, ?_⟩⟩
    rw [h.get?_eq, if_neg hslot, hg]

end Writes

/-- The file that a path leads to: where it stands and what it holds. -/
def fileAt? (v : Volume) (path : String) : Option (Slot × ByteArray) :=
  match v.find path with
  | .ok (.file slot bytes) => some (slot, bytes)
  | _ => none

theorem fileAt?_eq_some_iff {slot : Slot} {bytes : ByteArray} :
    v.fileAt? path = some (slot, bytes) ↔ v.find path = .ok (.file slot bytes) := by
  rw [fileAt?]
  split
  next h => simp [h]
  next h => exact ⟨nofun, fun hfind => absurd hfind (h slot bytes)⟩

theorem isFile_iff :
    v.isFile path = true ↔ ∃ slot bytes, v.find path = .ok (.file slot bytes) := by
  rw [isFile]
  split
  next slot bytes h => simp [h]
  next h => exact ⟨nofun, fun ⟨slot, bytes, hfind⟩ => absurd hfind (h slot bytes)⟩

/-- A path that ends in the name of a slot leads to the file there. -/
theorem Names.fileAt?_of_get? {slot : Slot} {bytes : ByteArray} (h : v.Names path slot)
    (hg : v.get? slot = some (.file bytes)) : v.fileAt? path = some (slot, bytes) :=
  fileAt?_eq_some_iff.2 (find_eq_file_iff.2 ⟨h, hg⟩)

/-- Paths that end in the name of one slot lead to the same file. -/
theorem Names.fileAt?_eq {slot : Slot} {other : String} (h : v.Names path slot)
    (h' : v.Names other slot) : v.fileAt? path = v.fileAt? other := by
  rw [fileAt?, fileAt?, h.find_eq h']

theorem readText_of_find {slot : Slot} {text : String}
    (h : v.find path = .ok (.file slot text.toUTF8)) : v.readText path = .ok text := by
  have htext : String.fromUTF8? text.toUTF8 = some text := dif_pos text.isValidUTF8
  simp only [readText, h, bind, Except.bind, htext]
  rfl

/-- Only a file has a text. -/
theorem find_of_readText {text : String} (h : v.readText path = .ok text) :
    ∃ slot bytes, v.find path = .ok (.file slot bytes) := by
  rw [readText] at h
  cases hfind : v.find path with
  | error e => rw [hfind] at h; cases h
  | ok found =>
    cases found with
    | directory number => rw [hfind] at h; cases h
    | file slot bytes => exact ⟨slot, bytes, rfl⟩

/-- Writing a text to a path succeeds if the path names a slot without a directory. -/
theorem writeText_of_names {slot : Slot} (h : v.Names path slot)
    (hd : ∀ number, v.get? slot ≠ some (.directory number)) (text : String) :
    v.writeText path text = .ok (v.put slot text.toUTF8) := by
  have hp : plainName? (some slot.name) = some slot.name :=
    plainName?_eq_some_iff.2 ⟨rfl, h.notHere, h.notAbove⟩
  simp only [writeText, writeBytes, h.located, bind, Except.bind, hp, h.noSlash,
    if_neg (Nat.not_lt.2 h.size)]
  cases hg : v.get? slot with
  | none => rfl
  | some node =>
    cases node with
    | file bytes => rfl
    | directory number => exact absurd hg (hd number)

/-- What was done if a text was written to a path. -/
theorem writes_of_writeText {text : String} (h : v.writeText path text = .ok w) :
    ∃ slot, v.Names path slot ∧ v.Writes slot text.toUTF8 w := by
  simp only [writeText, writeBytes, bind, Except.bind, throw, throwThe, MonadExceptOf.throw, pure,
    Except.pure] at h
  split at h
  next => cases h
  next place hl =>
    obtain ⟨dir, step⟩ := place
    simp only at h
    split at h
    next => cases h
    next name hp =>
      obtain ⟨rfl, hdot, hdots⟩ := plainName?_eq_some_iff.1 hp
      split at h
      next => cases h
      next hend =>
        split at h
        next => cases h
        next hsize =>
          split at h
          next => cases h
          next hnode =>
            cases h
            exact ⟨⟨dir, name⟩, ⟨hl, hdot, hdots, Nat.le_of_not_lt hsize, by simpa using hend⟩,
              .put hnode⟩

/-- What was done if a text was staged: there is a new file. -/
theorem stage_eq_ok {dir text target : String} {staged : Slot}
    (h : v.stage dir text target = .ok (staged, w)) :
    ((∃ number, v.find dir = .ok (.directory number)) ∧ accepts (Path.join dir stagePattern) = .ok ()) ∧
      v.get? staged = none ∧ w = v.put staged text.toUTF8 := by
  simp only [stage, bind, Except.bind, throw, throwThe, MonadExceptOf.throw, pure, Except.pure] at h
  split at h
  next => cases h
  split at h
  next => cases h
  next number hfind =>
    split at h
    next => cases h
    next hroom =>
      split at h
      next name hfree =>
        cases h
        exact ⟨⟨⟨number, hfind⟩, hroom⟩, get?_of_freeName? hfree, rfl⟩
      next => cases h

/-- A directory that takes a new file takes every text. -/
theorem exists_stage {dir : String} {number : ℕ} (hfind : v.find dir = .ok (.directory number))
    (hroom : accepts (Path.join dir stagePattern) = .ok ()) (text target : String) :
    ∃ staged w, v.stage dir text target = .ok (staged, w) := by
  obtain ⟨name, hfree⟩ := v.exists_freeName? number target
  refine ⟨⟨number, name⟩, v.put ⟨number, name⟩ text.toUTF8, ?_⟩
  simp only [stage, hfind, hroom, hfree, bind, Except.bind, pure, Except.pure]

/-- What was done if a file was moved. -/
theorem moveTo_eq_ok {source : Slot} {target : String} (h : v.moveTo source target = .ok w) :
    ∃ bytes slot, v.get? source = some (.file bytes) ∧ v.Names target slot ∧
      (∀ number, v.get? slot ≠ some (.directory number)) ∧ w = (v.erase source).put slot bytes := by
  simp only [moveTo, bind, Except.bind, throw, throwThe, MonadExceptOf.throw, pure, Except.pure] at h
  split at h
  next => cases h
  next => cases h
  next bytes hget =>
    split at h
    next => cases h
    split at h
    next => cases h
    next place hl =>
      obtain ⟨dir, step⟩ := place
      simp only at h
      split at h
      next => cases h
      next name hp =>
        obtain ⟨rfl, hdot, hdots⟩ := plainName?_eq_some_iff.1 hp
        split at h
        next => cases h
        next hsize =>
          split at h
          next => cases h
          next hend =>
            split at h
            next => cases h
            next hnode =>
              cases h
              exact ⟨bytes, ⟨dir, name⟩, hget,
                ⟨hl, hdot, hdots, Nat.le_of_not_lt hsize, by simpa using hend⟩, hnode, rfl⟩

/-- A file can be moved to a path that names a slot without a directory. -/
theorem moveTo_of_names {source slot : Slot} {bytes : ByteArray} {target : String}
    (hsource : v.get? source = some (.file bytes)) (hn : v.Names target slot)
    (hd : ∀ number, v.get? slot ≠ some (.directory number)) :
    v.moveTo source target = .ok ((v.erase source).put slot bytes) := by
  have hp : plainName? (some slot.name) = some slot.name :=
    plainName?_eq_some_iff.2 ⟨rfl, hn.notHere, hn.notAbove⟩
  have hzero : target.toList.contains '\x00' = false := by
    have hacc := (locate_eq_ok_iff.1 hn.located).1
    rw [accepts] at hacc
    split_ifs at hacc with h
    simpa using h
  simp only [moveTo, hsource, hzero, hn.located, bind, Except.bind, hp, hn.noSlash,
    if_neg (Nat.not_lt.2 hn.size)]
  cases hg : v.get? slot with
  | none => rfl
  | some node =>
    cases node with
    | file bytes => rfl
    | directory number => exact absurd hg (hd number)

/-- A staged file that is taken away leaves nothing. -/
theorem erase_staged {dir text target : String} {staged : Slot}
    (h : v.stage dir text target = .ok (staged, w)) : w.erase staged = v := by
  obtain ⟨-, hnone, rfl⟩ := stage_eq_ok h
  exact erase_put hnone _

/-- **A text that was staged for a path and moved there** was written to the file that the path
    names; the staged file is gone. -/
theorem writes_of_moveTo {dir text : String} {staged : Slot}
    (hstage : v.stage dir text path = .ok (staged, w)) (hmove : w.moveTo staged path = .ok z) :
    ∃ slot, v.Names path slot ∧ v.Writes slot text.toUTF8 z := by
  obtain ⟨-, hnone, rfl⟩ := stage_eq_ok hstage
  obtain ⟨bytes, slot, hbytes, hn, hnode, rfl⟩ := moveTo_eq_ok hmove
  rw [get?_put, if_pos rfl] at hbytes
  cases hbytes
  rw [erase_put hnone]
  -- the new file is in no path's way, so the target is named in the volume before it too
  have hback : (v.put staged text.toUTF8).KeepsDirectories v :=
    (Writes.put (by simp [hnone])).keepsDirectories_back
  refine ⟨slot, hback.names hn, .put ?_⟩
  intro number hg
  refine hnode number ?_
  rw [get?_put, if_neg]
  · exact hg
  · rintro rfl
    rw [hnone] at hg
    cases hg

end Volume

end SelectorRename
