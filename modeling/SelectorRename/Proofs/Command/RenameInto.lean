/-
  Results in a directory of their own.

  * `Rename.run_into_directory`: a file of the directory holds the result for the last asset with its
    name. So if no two assets have one file name, no result is lost (`Rename.KeepsResults`).
  * `Rename.not_keepsResults`: two assets from different directories may have one file name, and then
    the result for the first of them is lost.
-/
import SelectorRename.Proofs.Command.Rename

namespace SelectorRename.Rename

variable {a : RenameArguments} {v u z : Volume} {w w' : World} {path dir : String}
  {writes : List (Slot × ByteArray)}

theorem Delivers.into_directory (hout : a.outDir = some dir) {x : Slot × ByteArray}
    (h : Delivers a v u path x) :
    ∃ name text, Path.fileName? path = some name ∧ x.1.name = name ∧
      u.Names (Path.join dir name) x.1 ∧ v.readText path = .ok text ∧
      x.2 = (resultText a v ⟨path, text⟩).toUTF8 := by
  obtain ⟨goal, text, htarget, hn, hread, hbytes⟩ := h
  rw [hout, target] at htarget
  cases hname : Path.fileName? path with
  | none =>
    simp only [hname] at htarget
    cases htarget
  | some name =>
    simp only [hname] at htarget
    cases htarget
    obtain ⟨hne, -, -, hslash⟩ := Path.fileName?_spec hname
    exact ⟨name, text, rfl, hn.name_eq hne hslash, hn, hread, hbytes⟩

/-- The file with the name of an asset holds the result for the last asset with that name. -/
theorem get?_of_fileName (hout : a.outDir = some dir)
    (hdelivers : List.Forall₂ (Delivers a v u) a.files writes) (hall : u.WritesAll writes z)
    (hpath : path ∈ a.files) :
    ∃ name last text slot, Path.fileName? path = some name ∧
      (a.files.reverse.find? fun p => Path.fileName? p = some name) = some last ∧
      v.readText last = .ok text ∧ u.Names (Path.join dir name) slot ∧
      z.get? slot = some (.file (resultText a v ⟨last, text⟩).toUTF8) := by
  obtain ⟨⟨slot, bytes⟩, hx, hdeliver⟩ := forall₂_mem_left hdelivers hpath
  obtain ⟨name, -, hname, hslot, hn, -⟩ := hdeliver.into_directory hout
  obtain ⟨last, hlast⟩ : ∃ last,
      (a.files.reverse.find? fun p => Path.fileName? p = some name) = some last :=
    Option.isSome_iff_exists.1
      (List.find?_isSome.2 ⟨path, List.mem_reverse.2 hpath, by simpa using hname⟩)
  -- two assets have one target exactly if they have one file name
  have htarget : ∀ c y, Delivers a v u c y →
      (y.1 = slot ↔ decide (Path.fileName? c = some name) = true) := by
    intro c y hy
    obtain ⟨name', -, hname', hslot', hn', -⟩ := hy.into_directory hout
    rw [decide_eq_true_eq, hname', Option.some.injEq]
    constructor
    · intro heq
      rw [← hslot', ← hslot, heq]
    · rintro rfl
      exact hn'.unique hn
  obtain ⟨b, hlookup, hwritten⟩ :=
    forall₂_lookup_of_find? (List.forall₂_reverse_iff.2 hdelivers) htarget hlast
  obtain ⟨-, text, -, -, -, hread, rfl⟩ := hwritten.into_directory hout
  refine ⟨name, last, text, slot, hname, hlast, hread, hn, ?_⟩
  rw [hall.get?_eq, hlookup]
  rfl

/-- A file in a directory or below it. -/
def InDirectory (v : Volume) (dir : String) (slot : Slot) : Prop :=
  ∃ rest, ".." ∉ Path.steps rest ∧ v.Names (Path.join dir rest) slot

/-- Every asset has a file of its own in the directory, with the result for the text that it had. -/
def KeepsResults (a : RenameArguments) (dir : String) (v w : Volume) : Prop :=
  ∃ slots : List Slot, slots.Nodup ∧ List.Forall₂ (fun path slot => InDirectory w dir slot ∧
    ∃ text, v.readText path = .ok text ∧
      w.get? slot = some (.file (resultText a v ⟨path, text⟩).toUTF8)) a.files slots

theorem keepsResults_of_nodup (hout : a.outDir = some dir)
    (hdelivers : List.Forall₂ (Delivers a v u) a.files writes) (hall : u.WritesAll writes z)
    (hnodup : (a.files.map Path.fileName?).Nodup) : KeepsResults a dir v z := by
  have hnames : a.files.map Path.fileName? = writes.map fun x => some x.1.name := by
    rw [← List.forall₂_eq_eq_eq, List.forall₂_map_left_iff, List.forall₂_map_right_iff]
    refine hdelivers.imp fun path x hx => ?_
    obtain ⟨name, -, hname, hslot, -⟩ := hx.into_directory hout
    rw [hname, hslot]
  refine ⟨writes.map (·.1), ?_, ?_⟩
  · rw [hnames] at hnodup
    refine List.Nodup.of_map (fun slot : Slot => some slot.name) ?_
    rwa [List.map_map]
  · rw [List.forall₂_map_right_iff]
    have hmem : List.Forall₂ (fun path x => path ∈ a.files ∧ Delivers a v u path x) a.files writes :=
      (List.forall₂_and_left _ _).2 ⟨fun _ h => h, hdelivers⟩
    refine hmem.imp fun path x ⟨hpath, hx⟩ => ?_
    obtain ⟨name, -, hname, -, hn, -⟩ := hx.into_directory hout
    obtain ⟨name', last, text, slot, hname', hlast, hread, hn', hg⟩ :=
      get?_of_fileName hout hdelivers hall hpath
    obtain rfl : name = name' := Option.some.inj (hname.symm.trans hname')
    obtain rfl := hn.unique hn'
    obtain rfl : last = path := by
      refine List.inj_on_of_nodup_map hnodup (List.mem_reverse.1 (List.mem_of_find?_eq_some hlast))
        hpath ?_
      rw [hname]
      simpa using List.find?_some hlast
    obtain ⟨hne, -, hdots, hslash⟩ := Path.fileName?_spec hname
    have hrest : ".." ∉ Path.steps name := by
      rw [Path.steps_of_name hne hslash]
      simpa using hdots.symm
    exact ⟨⟨name, hrest, hall.keepsDirectories.names hn⟩, text, hread, hg⟩

/-- **The last asset with a file name counts**: after a command that succeeds, the file with that name
    in the directory holds the result for the text that this asset had. So if no two assets have one
    file name, every asset has a file of its own there with its result. -/
theorem run_into_directory (hout : a.outDir = some dir)
    (h : (command a : ExceptT Failure (StateM World) Unit).run.run w = (.ok (), w')) :
    (∀ path ∈ a.files, ∃ name last text, Path.fileName? path = some name ∧
      (a.files.reverse.find? fun p => Path.fileName? p = some name) = some last ∧
      w.volume.readText last = .ok text ∧
      w'.volume.readText (Path.join dir name) = .ok (resultText a w.volume ⟨last, text⟩)) ∧
    ((a.files.map Path.fileName?).Nodup → KeepsResults a dir w.volume w'.volume) := by
  obtain ⟨u, writes, -, -, hdelivers, hall⟩ := run_command_eq_ok h
  refine ⟨fun path hpath => ?_, keepsResults_of_nodup hout hdelivers hall⟩
  obtain ⟨name, last, text, slot, hname, hlast, hread, hn, hg⟩ :=
    get?_of_fileName hout hdelivers hall hpath
  exact ⟨name, last, text, hname, hlast, hread, hall.readText_of_names hn hg⟩

/-! ## Two assets with one file name -/

/-- Two directories with assets, and a table. -/
def folders : World where
  volume :=
    { directories := #[⟨0, ""⟩, ⟨0, "tmp"⟩, ⟨1, ""⟩, ⟨2, "a"⟩, ⟨2, "b"⟩]
      nodes := [(⟨0, "tmp"⟩, .directory 1), (⟨1, ""⟩, .directory 2), (⟨2, "a"⟩, .directory 3),
        (⟨3, "m.js"⟩, .file "className:\"x\"".toUTF8), (⟨2, "b"⟩, .directory 4),
        (⟨4, "m.js"⟩, .file "className:\"x y\"".toUTF8),
        (⟨4, "n.js"⟩, .file "className:\"y\"".toUTF8),
        (⟨2, "t.json"⟩, .file "[[\"x\",\"a\",\"class\"]]".toUTF8)]
      home := 2 }
  log := #[]

def intoOut (files : List String) : RenameArguments where
  files := files
  table := "t.json"
  outDir := some "out"

/-- What the command leaves. -/
def afterInto (files : List String) : World :=
  ((command (intoOut files) : ExceptT Failure (StateM World) Unit).run.run folders).2

theorem run_equalNames :
    (command (intoOut ["a/m.js", "b/m.js"]) : ExceptT Failure (StateM World) Unit).run.run folders =
      (.ok (), afterInto ["a/m.js", "b/m.js"]) :=
  Prod.ext (by decide +kernel) rfl

/-- The last asset of a name counts, and assets with different names keep their results. -/
theorem last_of_equalNames :
    (afterInto ["a/m.js", "b/m.js"]).volume.readText "out/m.js" = .ok "className:\"a y\"" ∧
      KeepsResults (intoOut ["a/m.js", "b/n.js"]) "out" folders.volume
        (afterInto ["a/m.js", "b/n.js"]).volume := by
  constructor
  · obtain ⟨hlast, -⟩ := run_into_directory rfl run_equalNames
    obtain ⟨name, last, text, hname, hfind, hread, hafter⟩ := hlast "a/m.js" List.mem_cons_self
    obtain rfl : "m.js" = name := Option.some.inj
      ((show Path.fileName? "a/m.js" = some "m.js" by decide +kernel).symm.trans hname)
    obtain rfl : "b/m.js" = last := Option.some.inj
      ((show (["b/m.js", "a/m.js"].find? fun p => Path.fileName? p = some "m.js") = some "b/m.js"
        by decide +kernel).symm.trans hfind)
    have hbefore : folders.volume.readText "b/m.js" = .ok "className:\"x y\"" := by decide +kernel
    obtain rfl := Except.ok.inj (hbefore.symm.trans hread)
    have hresult : resultText (intoOut ["a/m.js", "b/m.js"]) folders.volume
        ⟨"b/m.js", "className:\"x y\""⟩ = "className:\"a y\"" := by decide +kernel
    rw [hresult] at hafter
    exact hafter
  · have hrun : (command (intoOut ["a/m.js", "b/n.js"]) :
        ExceptT Failure (StateM World) Unit).run.run folders =
          (.ok (), afterInto ["a/m.js", "b/n.js"]) := Prod.ext (by decide +kernel) rfl
    exact (run_into_directory rfl hrun).2 (by decide +kernel)

/-- What the files of a volume hold. -/
def contents (v : Volume) : List ByteArray :=
  v.nodes.filterMap fun n =>
    match n.2 with
    | .file bytes => some bytes
    | .directory _ => none

theorem mem_contents {slot : Slot} {bytes : ByteArray} (h : v.get? slot = some (.file bytes)) :
    bytes ∈ contents v :=
  List.mem_filterMap.2 ⟨_, mem_of_lookup_eq_some h, rfl⟩

/-- **A result may be lost**: the assets are distinct files and the command succeeds, but no file holds
    the result for the first of them. -/
theorem not_keepsResults :
    ¬ ∀ (a : RenameArguments) (dir : String) (w w' : World), a.outDir = some dir →
      (a.files.map fun path => (w.volume.fileAt? path).map (·.1)).Nodup →
      (command a : ExceptT Failure (StateM World) Unit).run.run w = (.ok (), w') →
        KeepsResults a dir w.volume w'.volume := by
  intro h
  obtain ⟨slots, -, hslots⟩ := h _ _ _ _ rfl (by decide +kernel) run_equalNames
  obtain ⟨slot, -, -, text, hread, hg⟩ := forall₂_mem_left hslots (a := "a/m.js") List.mem_cons_self
  have hbefore : folders.volume.readText "a/m.js" = .ok "className:\"x\"" := by decide +kernel
  obtain rfl := Except.ok.inj (hbefore.symm.trans hread)
  have hresult : resultText (intoOut ["a/m.js", "b/m.js"]) folders.volume
      ⟨"a/m.js", "className:\"x\""⟩ = "className:\"a\"" := by decide +kernel
  rw [hresult] at hg
  have hnone : ∀ bytes ∈ contents (afterInto ["a/m.js", "b/m.js"]).volume,
      bytes ≠ "className:\"a\"".toUTF8 := by decide +kernel
  exact hnone _ (mem_contents hg) rfl

end SelectorRename.Rename
