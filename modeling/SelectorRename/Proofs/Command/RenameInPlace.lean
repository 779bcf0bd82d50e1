/-
  Assets renamed in place.

  * `Rename.RenamedInPlace`: every asset holds the result for the text that it had, and nothing else is
    changed. `Rename.Reported`: the log ends with what became of the assets.
  * `Rename.run_of_unreadable`: if an asset cannot be read, no command changes anything.
  * `Rename.run_of_readable`: if all can be read, the command without an output directory succeeds.
  * `Rename.run_in_place`: so such a command does all of it or nothing.
-/
import SelectorRename.Proofs.Command.Rename
import SelectorRename.Proofs.Sorting

namespace SelectorRename.Rename

variable {a : RenameArguments} {v u z : Volume} {w w' : World} {path : String} {paths : List String}
  {results : List (String × Renamed)} {writes : List (Slot × ByteArray)}

/-- Every asset holds the result for the text that it had, and nothing else is changed. -/
structure RenamedInPlace (a : RenameArguments) (v w : Volume) : Prop where
  renamed (path : String) : path ∈ a.files →
    ∃ text, v.readText path = .ok text ∧ w.readText path = .ok (resultText a v ⟨path, text⟩)
  kept (slot : Slot) : (∀ path ∈ a.files, ¬ v.Names path slot) → w.get? slot = v.get? slot
  directories : w.directories = v.directories
  home : w.home = v.home

/-- The log ends with what is said about the assets when they are renamed as they were. -/
def Reported (a : RenameArguments) (v : Volume) (log : Array Message) : Prop :=
  ∃ assets, List.Forall₂ (Reads v) a.files assets ∧
    (Asset.renameAll (requested a v) assets).2 <:+ log.toList

theorem Delivers.in_place (hout : a.outDir = none) {x : Slot × ByteArray}
    (h : Delivers a v u path x) :
    ∃ text, u.Names path x.1 ∧ v.readText path = .ok text ∧
      x.2 = (resultText a v ⟨path, text⟩).toUTF8 := by
  obtain ⟨goal, text, htarget, hn, hx⟩ := h
  rw [hout] at htarget
  cases htarget
  exact ⟨text, hn, hx⟩

/-- An asset may be written more than once, also under several paths. All these writes are of one
    text, as the asset was read before the first of them. -/
theorem renamedInPlace_of_writes (hout : a.outDir = none)
    (hdelivers : List.Forall₂ (Delivers a v v) a.files writes) (hall : v.WritesAll writes z) :
    RenamedInPlace a v z where
  renamed path hpath := by
    obtain ⟨x, hx, hdeliver⟩ := forall₂_mem_left hdelivers hpath
    obtain ⟨text, hn, hread, -⟩ := hdeliver.in_place hout
    obtain ⟨bytes, hlast, hg⟩ := hall.get?_of_mem hx
    obtain ⟨other, -, hother⟩ := forall₂_mem_right hdelivers hlast
    obtain ⟨text', hn', hread', rfl⟩ := hother.in_place hout
    have hsame : v.readText path = v.readText other := by
      rw [Volume.readText, Volume.readText, hn.find_eq hn']
    obtain rfl : text = text' := by
      rw [hread, hread'] at hsame
      exact Except.ok.inj hsame
    rw [resultText_congr a v other path] at hg
    exact ⟨text, hread, hall.readText_of_names hn hg⟩
  kept slot hslot := by
    refine hall.get?_of_not_mem fun bytes hmem => ?_
    obtain ⟨path, hpath, hdeliver⟩ := forall₂_mem_right hdelivers hmem
    obtain ⟨text, hn, -⟩ := hdeliver.in_place hout
    exact hslot path hpath hn
  directories := hall.directories
  home := hall.home

/-- Results are written in place if every path leads to a file. Nothing is told about it. -/
theorem run_writeAll_in_place (hresults : List.Forall₂ (Result a v) paths results)
    (hfiles : ∀ path ∈ paths, ∃ slot bytes, w.volume.find path = .ok (.file slot bytes)) :
    ∃ w', (writeAll none results : ExceptT Failure (StateM World) Unit).run.run w = (.ok (), w') ∧
      w'.log = w.log := by
  induction hresults generalizing w with
  | nil => exact ⟨w, rfl, rfl⟩
  | @cons path result paths results hresult _ ih =>
    obtain ⟨name, renamed⟩ := result
    obtain ⟨rfl, -⟩ := hresult
    obtain ⟨slot, bytes, hfind⟩ := hfiles name List.mem_cons_self
    obtain ⟨hn, hg⟩ := Volume.find_eq_file_iff.1 hfind
    have hd : ∀ number, w.volume.get? slot ≠ some (.directory number) := by simp [hg]
    set next := w.volume.put slot (String.ofList renamed.content).toUTF8
    have hwrite := World.run_writeText name (String.ofList renamed.content) (.cannotWrite name) w
    simp only [Volume.writeText_of_names hn hd] at hwrite
    have hwrites : w.volume.Writes slot _ next := .put hd
    have hrest : ∀ path ∈ paths, ∃ slot bytes, next.find path = .ok (.file slot bytes) := by
      intro path hpath
      obtain ⟨slot', bytes', hfind'⟩ := hfiles path (List.mem_cons_of_mem _ hpath)
      exact ⟨slot', hwrites.exists_find hfind'⟩
    obtain ⟨w', hrun, hlog⟩ := ih (w := ⟨next, w.log⟩) hrest
    refine ⟨w', ?_, hlog⟩
    rw [writeAll]
    show (attempt _ _ >>= fun _ => writeAll none results :
      ExceptT Failure (StateM World) Unit).run.run w = _
    rw [World.run_bind_of_ok _ hwrite, hrun]

/-- An asset that cannot be read fails the command, and nothing is changed. -/
theorem run_of_unreadable {r : Except Failure Unit}
    (h : (command a : ExceptT Failure (StateM World) Unit).run.run w = (r, w'))
    (hbad : ∃ path ∈ a.files, ∃ cause, w.volume.readText path = .error cause) :
    (∃ path ∈ a.files, ∃ cause, w.volume.readText path = .error cause ∧
      r = .error (.cannotRead path cause)) ∧ w'.volume = w.volume := by
  obtain ⟨bad, hbad, cause, hcause⟩ := hbad
  obtain ⟨assets, log, hassets, -⟩ | ⟨path, hpath, cause', log, hcause', hrun⟩ := run_command a w
  · obtain ⟨asset, -, -, hread⟩ := forall₂_mem_left hassets hbad
    rw [hcause] at hread
    cases hread
  · rw [hrun] at h
    cases h
    exact ⟨⟨path, hpath, cause', hcause', rfl⟩, rfl⟩

/-- If all assets can be read, the command without an output directory succeeds. -/
theorem run_of_readable (hout : a.outDir = none)
    (hread : ∀ path ∈ a.files, ∃ text, w.volume.readText path = .ok text) :
    ∃ w', (command a : ExceptT Failure (StateM World) Unit).run.run w = (.ok (), w') ∧
      RenamedInPlace a w.volume w'.volume ∧ Reported a w.volume w'.log := by
  obtain ⟨assets, log, hassets, hrun⟩ | ⟨path, hpath, cause, log, hcause, -⟩ := run_command a w
  · have hresults := forall₂_result (a := a) hassets
    have hfiles : ∀ path ∈ a.files, ∃ slot bytes, w.volume.find path = .ok (.file slot bytes) := by
      intro path hpath
      obtain ⟨text, htext⟩ := hread path hpath
      exact Volume.find_of_readText htext
    obtain ⟨w', hwrite, hlog⟩ := run_writeAll_in_place
      (w := ⟨w.volume, log ++ (Asset.renameAll (requested a w.volume) assets).2⟩) hresults hfiles
    rw [hout, deliver_none, hwrite] at hrun
    rw [← hout] at hwrite
    obtain ⟨writes, hdelivers, hall⟩ := run_writeAll_eq_ok hresults hwrite
    refine ⟨w', hrun, renamedInPlace_of_writes hout hdelivers hall, assets, hassets, ?_⟩
    rw [hlog, Array.toList_appendList]
    exact List.suffix_append ..
  · obtain ⟨text, htext⟩ := hread path hpath
    rw [hcause] at htext
    cases htext

/-- **All or nothing in place**: an asset that cannot be read fails the command, and nothing is changed.
    If all can be read, the command succeeds, every asset holds the result for the text that it had,
    and nothing else is changed. The log then ends with what became of the assets. -/
theorem run_in_place {r : Except Failure Unit}
    (h : (command a : ExceptT Failure (StateM World) Unit).run.run w = (r, w')) :
    ((∃ path ∈ a.files, ∃ cause, w.volume.readText path = .error cause) →
      (∃ path ∈ a.files, ∃ cause, w.volume.readText path = .error cause ∧
        r = .error (.cannotRead path cause)) ∧ w'.volume = w.volume) ∧
    (a.outDir = none → r = .ok () →
      RenamedInPlace a w.volume w'.volume ∧ Reported a w.volume w'.log) ∧
    (a.outDir = none → (∀ path ∈ a.files, ∃ text, w.volume.readText path = .ok text) →
      r = .ok ()) := by
  refine ⟨run_of_unreadable h, fun hout hr => ?_, fun hout hread => ?_⟩
  · have hread : ∀ path ∈ a.files, ∃ text, w.volume.readText path = .ok text := by
      intro path hpath
      cases htext : w.volume.readText path with
      | ok text => exact ⟨text, rfl⟩
      | error cause =>
        obtain ⟨⟨_, -, _, -, hfails⟩, -⟩ := run_of_unreadable h ⟨path, hpath, cause, htext⟩
        rw [hr] at hfails
        cases hfails
    obtain ⟨w₁, hrun, hplace, hreported⟩ := run_of_readable hout hread
    obtain ⟨-, rfl⟩ := Prod.mk.inj (h.symm.trans hrun)
    exact ⟨hplace, hreported⟩
  · obtain ⟨w₁, hrun, -⟩ := run_of_readable hout hread
    exact (Prod.mk.inj (h.symm.trans hrun)).1

/-- If reports are to be shown, the log has one of every asset with records. -/
theorem table_mem_renameAll {s : RenamingSettings} {assets : List Asset} {asset : Asset}
    (hs : s.displayResult = true) (hasset : asset ∈ assets)
    (hne : ((Renamer.ofSettings s).rename asset).records ≠ []) :
    .table (Record.grid asset.name ((Renamer.ofSettings s).rename asset).records) ∈
      (Asset.renameAll s assets).2 := by
  have hmem : .table (Record.grid asset.name ((Renamer.ofSettings s).rename asset).records) ∈
      ((Renamer.ofSettings s).rename asset).log := by
    have hdisplay : (Renamer.ofSettings s).displayResult = true := hs
    simp only [Renamer.rename] at hne ⊢
    split at hne
    · exact absurd rfl hne
    · next hempty =>
      simp only [hempty, Renamer.summary, hdisplay, List.isEmpty_eq_false_iff.2 hne]
      simp
  simp only [Asset.renameAll, List.mem_append, List.mem_flatMap, List.mem_map]
  exact Or.inl (Or.inr ⟨_, ⟨asset, hasset, rfl⟩, hmem⟩)

/-! ## One asset under two paths -/

/-- The text of an asset. -/
def listedText : String := "className:\"x keep\" data-cls:\"a\" 'x' 'main'"

/-- A table in which a replacement is a name again: renamed twice, the class `x` would become `b`. -/
def chained : World where
  volume :=
    (Volume.empty.put ⟨2, "m.js"⟩ listedText.toUTF8).put ⟨2, "t.json"⟩
      ("[[\"x\",\"a\",\"class\"],[\"a\",\"b\",\"class\"],[\"keep\",\"k\",\"class\"]," ++
        "[\"x\",\"z\",\"id\"],[\"main\",\"c\",\"id\"]]").toUTF8
  log := #[]

/-- One asset under two paths, with all options but a directory for the results. -/
def listedTwice : RenameArguments where
  files := ["m.js", "./m.js"]
  table := "t.json"
  attributes := ["data-cls"]
  ignore := ["keep"]
  forceClass := ["x"]
  forceId := ["x", "main"]
  displayResult := true

/-- A second asset that is not there. -/
def listedMissing : RenameArguments :=
  { listedTwice with files := ["m.js", "n.js"] }

/-- What becomes of the names of the asset. -/
def listedRecords : List Record :=
  [⟨"x", some "a", .cls, .replaced⟩, ⟨"keep", none, .cls, .whitelisted⟩,
    ⟨"a", some "b", .cls, .replaced⟩, ⟨"main", some "c", .id, .forced⟩,
    ⟨"x", some "a", .cls, .forced⟩]

/-- `keep` stays, and where `x` is no attribute value its class comes before its id. -/
theorem rename_listedTwice :
    ((Renamer.ofSettings (requested listedTwice chained.volume)).rename ⟨"m.js", listedText⟩).content =
      "className:\"a keep\" data-cls:\"b\" 'a' 'c'".toList ∧
    ((Renamer.ofSettings (requested listedTwice chained.volume)).rename ⟨"m.js", listedText⟩).records =
      listedRecords := by
  simp only [Renamer.rename, Renamer.ofSettings, Renamer.literalsOf_eq_insertionSort]
  decide +kernel

/-- The asset is renamed once and as all options say; a missing one is noticed before that. -/
theorem renamed_once :
    (∃ w', (command listedTwice : ExceptT Failure (StateM World) Unit).run.run chained = (.ok (), w') ∧
      w'.volume.readText "m.js" = .ok "className:\"a keep\" data-cls:\"b\" 'a' 'c'" ∧
      .table (Record.grid "m.js" listedRecords) ∈ w'.log.toList) ∧
    ∃ w', (command listedMissing : ExceptT Failure (StateM World) Unit).run.run chained =
      (.error (.cannotRead "n.js" .notFound), w') ∧ w'.volume = chained.volume := by
  constructor
  · have hbefore : ∀ path ∈ listedTwice.files, chained.volume.readText path = .ok listedText := by
      decide +kernel
    obtain ⟨hcontent, hrecords⟩ := rename_listedTwice
    obtain ⟨-, hplace, hok⟩ := run_in_place (a := listedTwice) (w := chained) (Prod.eta _).symm
    have hrun := hok rfl fun path hpath => ⟨_, hbefore path hpath⟩
    obtain ⟨hrenamed, assets, hassets, hlog⟩ := hplace rfl hrun
    refine ⟨_, Prod.ext hrun rfl, ?_, hlog.mem ?_⟩
    · obtain ⟨text, hread, hafter⟩ := hrenamed.renamed "m.js" List.mem_cons_self
      obtain rfl := Except.ok.inj ((hbefore "m.js" List.mem_cons_self).symm.trans hread)
      have hresult : resultText listedTwice chained.volume ⟨"m.js", listedText⟩ =
          "className:\"a keep\" data-cls:\"b\" 'a' 'c'" :=
        (congrArg String.ofList hcontent).trans String.ofList_toList
      rw [hafter, hresult]
    · obtain ⟨⟨name, text⟩, hasset, rfl, hread⟩ :=
        forall₂_mem_left hassets (a := "m.js") List.mem_cons_self
      obtain rfl := Except.ok.inj ((hbefore "m.js" List.mem_cons_self).symm.trans hread)
      have htable := table_mem_renameAll (s := requested listedTwice chained.volume) rfl hasset
        (by rw [hrecords]; decide)
      rwa [hrecords] at htable
  · have hmissing : chained.volume.readText "n.js" = .error .notFound := by decide +kernel
    have hrun : ((command listedMissing : ExceptT Failure (StateM World) Unit).run.run chained).1 =
        .error (.cannotRead "n.js" .notFound) := by decide +kernel
    obtain ⟨hfails, -, -⟩ := run_in_place (a := listedMissing) (w := chained) (Prod.ext hrun rfl)
    obtain ⟨-, hsame⟩ := hfails ⟨"n.js", by simp [listedMissing], .notFound, hmissing⟩
    exact ⟨_, Prod.ext hrun rfl, hsame⟩

end SelectorRename.Rename
