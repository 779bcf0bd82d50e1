/-
  Running an extraction again.

  * `Extract.run_eq_ok`: what an extraction that succeeds does: it reads the stylesheet and saves both
    views of what it collects.
  * `Extract.exists_ready`: after that both outputs are ready, so the next extraction can save its
    views, whatever it collects (`Extract.run_of_ready`).
  * `Extract.textOf_again`: when the next extraction reads the same stylesheet.
  * `Extract.run_again`: if it does and the outputs are two files, it collects the same table, and the
    files and directories stay exactly as they are.
  * `Extract.not_rerunKeeps`: neither condition can be left out.
-/
import SelectorRename.Proofs.Command.Extract
import SelectorRename.Proofs.Extraction.Rescan
import SelectorRename.Proofs.RenameTable.Stored

namespace SelectorRename

/-- A stylesheet that is scanned from the table of its own scan leads to this table. -/
theorem Extraction.table_scan_again (p : Pacing) (es : List Entry) (w : Whitelist) (text : String) :
    ((start ((start es w).scan p text).table.css w).scan p text).table =
      ((start es w).scan p text).table := by
  have hsound : ((start es w).scan p text).Sound := (Sound.start es w).scanAll p [text]
  have hw : (start es w).whitelist.entries ⊆ w.entries := by rw [whitelist_start]; exact fun _ h => h
  exact (hsound.rescan (recorded_scan p _ text) hw p fun o ho => List.mem_map_of_mem ho).2

theorem Extraction.length_table_js (x : Extraction) : x.table.js.length = x.entries.length := by
  rw [table, RenameTable.ofEntries, List.length_map]
  exact (RenameTable.longestFirst_perm x.entries).length_eq

namespace Extract

open TableFile (Ready Saved)

variable {s : ExtractSettings} {w w' w₁ : World} {table : RenameTable} {css js : Slot}

/-! ## A run that succeeds -/

/-- What an extraction that succeeds does. -/
theorem run_eq_ok
    (h : (run s : ExceptT Failure (StateM World) RenameTable).run.run w = (.ok table, w')) :
    ∃ text v, textOf s w.volume = .ok text ∧ table = (collected s w.volume text).table ∧
      Saved w.volume s.outputCss table.css v ∧ Saved v s.outputJs table.js w'.volume := by
  cases htext : textOf s w.volume with
  | error cause =>
    rw [run_of_error htext] at h
    cases h
  | ok text =>
    obtain ⟨log, hrun⟩ := run_of_text htext
    rw [hrun, saveViews] at h
    obtain ⟨⟨⟩, w₁, hcss, h⟩ := World.run_bind_eq_ok h
    obtain ⟨⟨⟩, w₂, hjs, h⟩ := World.run_bind_eq_ok h
    cases h
    obtain ⟨-, hcss⟩ | ⟨f, cause, hr, -⟩ := TableFile.run_save_cases hcss
    · obtain ⟨-, hjs⟩ | ⟨f, cause, hr, -⟩ := TableFile.run_save_cases hjs
      · exact ⟨text, w₁.volume, rfl, rfl, hcss, hjs⟩
      · cases hr
    · cases hr

/-- After an extraction both outputs are ready, and their files hold the views. If both are one file,
it holds the second view. -/
theorem exists_ready
    (h : (run s : ExceptT Failure (StateM World) RenameTable).run.run w = (.ok table, w')) :
    ∃ css js, Ready w'.volume s.outputCss css ∧ Ready w'.volume s.outputJs js ∧
      w'.volume.get? js = some (.file (Entry.writeAll table.js).toUTF8) ∧
      (css ≠ js → w'.volume.get? css = some (.file (Entry.writeAll table.css).toUTF8)) := by
  obtain ⟨text, v, -, -, hcss, hjs⟩ := run_eq_ok h
  obtain ⟨css, hcssReady, hcssFile, -⟩ := hcss.exists_ready
  obtain ⟨js, hjsReady, hjsFile, hother⟩ := hjs.exists_ready
  refine ⟨css, js, hcssReady.mono hjs.keepsDirectories ?_, hjsReady, hjsFile, ?_⟩
  · intro number hg
    by_cases hslots : css = js
    · rw [hslots, hjsFile] at hg
      cases hg
    · rw [hother css _ hslots hcssFile] at hg
      cases hg
  · intro hslots
    exact hother css _ hslots hcssFile

/-! ## The stylesheet of the next run -/

theorem textOf_congr {v v' : Volume} (h : v.find s.data = v'.find s.data) :
    textOf s v = textOf s v' := by
  rw [textOf, textOf, Volume.isFile, Volume.isFile, Volume.readText, Volume.readText, h]

/-- An extraction leaves the stylesheet of the next one alone, unless the data names a file only now or
names an output. -/
theorem textOf_again
    (h : (run s : ExceptT Failure (StateM World) RenameTable).run.run w = (.ok table, w₁))
    (hdata : w₁.volume.isFile s.data = true → w.volume.isFile s.data = true)
    (hcss : w₁.volume.fileAt? s.data ≠ w₁.volume.fileAt? s.outputCss)
    (hjs : w₁.volume.fileAt? s.data ≠ w₁.volume.fileAt? s.outputJs) :
    textOf s w₁.volume = textOf s w.volume := by
  by_cases hfile : w.volume.isFile s.data = true
  · obtain ⟨slot, bytes, hfind⟩ := Volume.isFile_iff.1 hfile
    obtain ⟨hn, hg⟩ := Volume.find_eq_file_iff.1 hfind
    obtain ⟨text, v, -, -, hfirst, hsecond⟩ := run_eq_ok h
    obtain ⟨css, hcssReady, -, hcssOther⟩ := hfirst.exists_ready
    obtain ⟨js, hjsReady, -, hjsOther⟩ := hsecond.exists_ready
    have hnow : w₁.volume.Names s.data slot :=
      (hfirst.keepsDirectories.trans hsecond.keepsDirectories).names hn
    have hslotCss : slot ≠ css := by
      rintro rfl
      exact hcss (hnow.fileAt?_eq (hsecond.keepsDirectories.names hcssReady.names))
    have hslotJs : slot ≠ js := by
      rintro rfl
      exact hjs (hnow.fileAt?_eq hjsReady.names)
    have hkept := hjsOther slot bytes hslotJs (hcssOther slot bytes hslotCss hg)
    exact textOf_congr ((Volume.find_eq_file_iff.2 ⟨hnow, hkept⟩).trans hfind.symm)
  · have hnow : ¬ w₁.volume.isFile s.data = true := fun h₁ => hfile (hdata h₁)
    rw [textOf, textOf, if_neg hnow, if_neg hfile]

/-! ## The next run -/

/-- Views can be saved at outputs that are ready. -/
theorem run_saveViews (hcss : Ready w.volume s.outputCss css) (hjs : Ready w.volume s.outputJs js)
    (x : Extraction) :
    ∃ log, (saveViews s x).run.run w = (.ok x.table,
      ⟨(w.volume.put css (Entry.writeAll x.table.css).toUTF8).put js (Entry.writeAll x.table.js).toUTF8,
        log⟩) := by
  have hsaved := hcss.run_save x.table.css
  have hput : w.volume.Writes css (Entry.writeAll x.table.css).toUTF8 _ := .put hcss.noDirectory
  have hjs' : Ready (w.volume.put css (Entry.writeAll x.table.css).toUTF8) s.outputJs js := by
    refine hjs.mono hput.keepsDirectories ?_
    intro number hg
    rw [hput.get?_eq] at hg
    split_ifs at hg
    · cases hg
    · exact hjs.noDirectory number hg
  refine ⟨w.log ++ [Message.savedTable x.table.css.length s.outputCss] ++
    [Message.savedTable x.table.js.length s.outputJs] ++
    [Message.extracted s.path x.discovered.size x.table.size], ?_⟩
  rw [saveViews, World.run_bind_of_ok _ hsaved, World.run_bind_of_ok _ (hjs'.run_save x.table.js)]
  rfl

/-- After an extraction the next one succeeds if there is a stylesheet for it. -/
theorem run_of_ready {text : String} (hcss : Ready w.volume s.outputCss css)
    (hjs : Ready w.volume s.outputJs js) (htext : textOf s w.volume = .ok text) :
    ∃ log, (run s : ExceptT Failure (StateM World) RenameTable).run.run w =
      (.ok (collected s w.volume text).table,
        ⟨(w.volume.put css (Entry.writeAll (collected s w.volume text).table.css).toUTF8).put js
          (Entry.writeAll (collected s w.volume text).table.js).toUTF8, log⟩) := by
  obtain ⟨log, hrun⟩ := run_of_text htext
  obtain ⟨log', hviews⟩ := run_saveViews (w := ⟨w.volume, log⟩) hcss hjs (collected s w.volume text)
  exact ⟨log', hrun.trans hviews⟩

/-- **An extraction that is run again** after it succeeded succeeds again, as long as its stylesheet can
    be read. If it reads the same stylesheet as before and its outputs are two files, it leads to the
    same table: both outputs hold its views as before, and no file or directory changes. -/
theorem run_again
    (h : (run s : ExceptT Failure (StateM World) RenameTable).run.run w = (.ok table, w₁)) :
    (∀ text, textOf s w₁.volume = .ok text → ∃ table' w₂,
        (run s : ExceptT Failure (StateM World) RenameTable).run.run w₁ = (.ok table', w₂)) ∧
      (textOf s w₁.volume = textOf s w.volume →
        w₁.volume.fileAt? s.outputCss ≠ w₁.volume.fileAt? s.outputJs →
        ∃ w₂ css js, (run s : ExceptT Failure (StateM World) RenameTable).run.run w₁ = (.ok table, w₂) ∧
          w₁.volume.fileAt? s.outputCss = some (css, (Entry.writeAll table.css).toUTF8) ∧
          w₁.volume.fileAt? s.outputJs = some (js, (Entry.writeAll table.js).toUTF8) ∧
          w₂.volume = w₁.volume) := by
  obtain ⟨css, js, hcss, hjs, hjsFile, hcssFile⟩ := exists_ready h
  constructor
  · intro text htext
    obtain ⟨log, hrun⟩ := run_of_ready hcss hjs htext
    exact ⟨_, _, hrun⟩
  · intro htext hfiles
    obtain ⟨text, v, hfirst, htable, -⟩ := run_eq_ok h
    have hjsAt := hjs.names.fileAt?_of_get? hjsFile
    have hslots : css ≠ js := by
      rintro rfl
      exact hfiles (hcss.names.fileAt?_eq hjs.names)
    have hcssAt := hcss.names.fileAt?_of_get? (hcssFile hslots)
    have hsame : (collected s w₁.volume text).table = table := by
      rw [htable] at hcssAt ⊢
      rw [collected, TableFile.entriesAt_of_fileAt? hcssAt]
      exact Extraction.table_scan_again s.pacing _ _ text
    obtain ⟨log, hrun⟩ := run_of_ready hcss hjs (htext.trans hfirst)
    rw [hsame, Volume.put_of_get? (hcssFile hslots), Volume.put_of_get? hjsFile] at hrun
    exact ⟨_, css, js, hrun, hcssAt, hjsAt, rfl⟩

/-- A working directory with one file. -/
def besideMain (bytes : ByteArray) : World := ⟨Volume.empty.put ⟨2, "main"⟩ bytes, #[]⟩

/-- That file is a stylesheet. -/
def mainSheet : World := besideMain ".btn\x7b\x7d".toUTF8

/-- The stylesheet is that file. -/
def fromFile : ExtractSettings where
  data := "main"
  outputCss := "css"
  outputJs := "js"

theorem ready_css : Ready mainSheet.volume "css" ⟨2, "css"⟩ :=
  .of_name (by decide) (by decide) (by decide) (by decide) (by decide) (by decide) nofun

theorem ready_js : Ready mainSheet.volume "js" ⟨2, "js"⟩ :=
  .of_name (by decide) (by decide) (by decide) (by decide) (by decide) (by decide) nofun

/-- What the run leaves. -/
def afterFromFile : Volume :=
  (mainSheet.volume.put ⟨2, "css"⟩ (Entry.writeAll [⟨".btn", ".a", .cls⟩]).toUTF8).put
    ⟨2, "js"⟩ (Entry.writeAll [⟨"btn", "a", .cls⟩]).toUTF8

theorem run_fromFile :
    ∃ log, (run fromFile : ExceptT Failure (StateM World) RenameTable).run.run mainSheet =
      (.ok ⟨[⟨".btn", ".a", .cls⟩], [⟨"btn", "a", .cls⟩]⟩, ⟨afterFromFile, log⟩) := by
  have htext : textOf fromFile mainSheet.volume = .ok ".btn\x7b\x7d" := by decide +kernel
  have htable : (collected fromFile mainSheet.volume ".btn\x7b\x7d").table =
      ⟨[⟨".btn", ".a", .cls⟩], [⟨"btn", "a", .cls⟩]⟩ := by decide +kernel
  obtain ⟨log, hrun⟩ := run_of_ready ready_css ready_js htext
  rw [htable] at hrun
  exact ⟨log, hrun⟩

/-- The stylesheet is a file that is no output, so it is there again. -/
theorem run_again_fromFile :
    ∃ w₁ w₂, (run fromFile : ExceptT Failure (StateM World) RenameTable).run.run mainSheet =
        (.ok ⟨[⟨".btn", ".a", .cls⟩], [⟨"btn", "a", .cls⟩]⟩, w₁) ∧
      textOf fromFile w₁.volume = textOf fromFile mainSheet.volume ∧
      w₁.volume.fileAt? fromFile.outputCss ≠ w₁.volume.fileAt? fromFile.outputJs ∧
      (run fromFile : ExceptT Failure (StateM World) RenameTable).run.run w₁ =
        (.ok ⟨[⟨".btn", ".a", .cls⟩], [⟨"btn", "a", .cls⟩]⟩, w₂) ∧
      w₂.volume = w₁.volume := by
  obtain ⟨log, hfirst⟩ := run_fromFile
  have hdata : mainSheet.volume.isFile "main" = true := by decide +kernel
  have hcss : afterFromFile.fileAt? "main" ≠ afterFromFile.fileAt? "css" := by decide +kernel
  have hjs : afterFromFile.fileAt? "main" ≠ afterFromFile.fileAt? "js" := by decide +kernel
  have hfiles : afterFromFile.fileAt? "css" ≠ afterFromFile.fileAt? "js" := by decide +kernel
  have hsame := textOf_again hfirst (fun _ => hdata) hcss hjs
  obtain ⟨w₂, css, js, hrun, -, -, hvolume⟩ := (run_again hfirst).2 hsame hfiles
  exact ⟨_, w₂, hfirst, hsame, hfiles, hrun, hvolume⟩

/-! ## Runs that are not like the first one -/

/-- If an extraction succeeds, so does the next one, and it leaves both outputs as they are. -/
def RerunKeeps (s : ExtractSettings) (w : World) : Prop :=
  ∀ table w₁, (run s : ExceptT Failure (StateM World) RenameTable).run.run w = (.ok table, w₁) →
    ∃ table' w₂, (run s : ExceptT Failure (StateM World) RenameTable).run.run w₁ = (.ok table', w₂) ∧
      ∀ path ∈ [s.outputCss, s.outputJs], w₂.volume.fileAt? path = w₁.volume.fileAt? path

/-- What is loaded after an extraction: the second view from the second output, and from the first one
the first view, unless both are one file. -/
theorem entriesAt_outputs
    (h : (run s : ExceptT Failure (StateM World) RenameTable).run.run w = (.ok table, w₁)) :
    TableFile.entriesAt w₁.volume s.outputJs = table.js ∧
      (TableFile.entriesAt w₁.volume s.outputCss = table.css ∨
        TableFile.entriesAt w₁.volume s.outputCss = table.js) := by
  obtain ⟨css, js, hcss, hjs, hjsFile, hcssFile⟩ := exists_ready h
  refine ⟨TableFile.entriesAt_of_fileAt? (hjs.names.fileAt?_of_get? hjsFile), ?_⟩
  by_cases hslots : css = js
  · rw [← hslots] at hjsFile
    exact Or.inr (TableFile.entriesAt_of_fileAt? (hcss.names.fileAt?_of_get? hjsFile))
  · exact Or.inl (TableFile.entriesAt_of_fileAt? (hcss.names.fileAt?_of_get? (hcssFile hslots)))

/-- A rerun that keeps the outputs reads a stylesheet and ends with as many entries as there were. -/
theorem RerunKeeps.exists_text (h : RerunKeeps s w)
    (hrun : (run s : ExceptT Failure (StateM World) RenameTable).run.run w = (.ok table, w₁)) :
    ∃ text, textOf s w₁.volume = .ok text ∧
      (collected s w₁.volume text).entries.length = table.js.length := by
  obtain ⟨table', w₂, hagain, hkept⟩ := h table w₁ hrun
  obtain ⟨text, -, htext, htable, -⟩ := run_eq_ok hagain
  obtain ⟨-, js, -, hjs, hfile, -⟩ := exists_ready hrun
  have hat := hkept s.outputJs (List.mem_cons_of_mem _ List.mem_cons_self)
  rw [hjs.names.fileAt?_of_get? hfile] at hat
  have hsame : table'.js = table.js := by
    rw [← (entriesAt_outputs hagain).1]
    exact TableFile.entriesAt_of_fileAt? hat
  refine ⟨text, htext, ?_⟩
  rw [← Extraction.length_table_js, ← htable, hsame]

/-- Both views go to one file. -/
def sharedOutput : ExtractSettings where
  data := ".btn\x7b\x7d"
  outputCss := "t.json"
  outputJs := "t.json"

theorem ready_shared : Ready .empty "t.json" ⟨2, "t.json"⟩ :=
  .of_name (by decide) (by decide) (by decide) (by decide) (by decide) (by decide) nofun

/-- What the run leaves. -/
def afterShared : Volume :=
  (Volume.empty.put ⟨2, "t.json"⟩ (Entry.writeAll [⟨".btn", ".a", .cls⟩]).toUTF8).put
    ⟨2, "t.json"⟩ (Entry.writeAll [⟨"btn", "a", .cls⟩]).toUTF8

theorem run_shared :
    ∃ log, (run sharedOutput : ExceptT Failure (StateM World) RenameTable).run.run ⟨.empty, #[]⟩ =
      (.ok ⟨[⟨".btn", ".a", .cls⟩], [⟨"btn", "a", .cls⟩]⟩, ⟨afterShared, log⟩) := by
  have htext : textOf sharedOutput .empty = .ok ".btn\x7b\x7d" := by decide +kernel
  have htable : (collected sharedOutput .empty ".btn\x7b\x7d").table =
      ⟨[⟨".btn", ".a", .cls⟩], [⟨"btn", "a", .cls⟩]⟩ := by decide +kernel
  obtain ⟨log, hrun⟩ := run_of_ready (w := ⟨.empty, #[]⟩) ready_shared ready_shared htext
  rw [htable] at hrun
  exact ⟨log, hrun⟩

/-- The data names a file as soon as there is the directory of the outputs. -/
def detour : ExtractSettings where
  data := "out/../main"
  outputCss := "out/css"
  outputJs := "out/js"

/-- What the run leaves. -/
def afterDetour (w : World) : World :=
  ((run detour : ExceptT Failure (StateM World) RenameTable).run.run w).2

theorem run_detour :
    (run detour : ExceptT Failure (StateM World) RenameTable).run.run mainSheet =
      (.ok ⟨[], []⟩, afterDetour mainSheet) :=
  Prod.ext (by decide +kernel) rfl

/-- The file is no text. -/
def mainBinary : World := besideMain ⟨#[0xff]⟩

theorem run_detour_binary :
    (run detour : ExceptT Failure (StateM World) RenameTable).run.run mainBinary =
      (.ok ⟨[], []⟩, afterDetour mainBinary) :=
  Prod.ext (by decide +kernel) rfl

/-- **A rerun need not keep the outputs**: not if both are one file, whose entries have no sigils the
    second time, and not if the data is a stylesheet the first time and the path of one afterwards. That
    file need not even hold a text. -/
theorem not_rerunKeeps :
    ¬ RerunKeeps sharedOutput ⟨.empty, #[]⟩ ∧ ¬ RerunKeeps detour mainSheet ∧
      ¬ RerunKeeps detour mainBinary := by
  refine ⟨?_, ?_, ?_⟩
  · intro h
    obtain ⟨log, hrun⟩ := run_shared
    obtain ⟨text, htext, hcount⟩ := h.exists_text hrun
    have hdata : textOf sharedOutput afterShared = .ok ".btn\x7b\x7d" := by decide +kernel
    cases htext.symm.trans hdata
    -- what is loaded from the shared file is the second view
    have hentries : TableFile.entriesAt afterShared sharedOutput.outputCss = [⟨"btn", "a", .cls⟩] :=
      (entriesAt_outputs hrun).1
    rw [collected, hentries] at hcount
    exact absurd hcount (by decide +kernel)
  · intro h
    obtain ⟨text, htext, hcount⟩ := h.exists_text run_detour
    have hdata : textOf detour (afterDetour mainSheet).volume = .ok ".btn\x7b\x7d" := by decide +kernel
    cases htext.symm.trans hdata
    have hentries : TableFile.entriesAt (afterDetour mainSheet).volume detour.outputCss = [] :=
      (entriesAt_outputs run_detour).2.elim id id
    rw [collected, hentries] at hcount
    exact absurd hcount (by decide +kernel)
  · intro h
    obtain ⟨text, htext, -⟩ := h.exists_text run_detour_binary
    have hdata : textOf detour (afterDetour mainBinary).volume = .error .notText := by decide +kernel
    cases htext.symm.trans hdata

end Extract

end SelectorRename
