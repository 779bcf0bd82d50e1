/-
  The rename tables that extractions lead to.

  * `RenameTable.Next`, `RenameTable.Later`: one extraction from a table, and any number of them,
    each with stylesheets, a whitelist and pauses of its own; `RenameTable.Reachable` is what comes
    after the empty table.
  * `Consistent`: the entries of such a table, with their sigils: every selector has one entry and
    every short name is used once. An extraction keeps this (`Consistent.run`).
  * `RenameTable.WellFormed`: what a table of such entries looks like in its two views.
  * `RenameTable.Reachable.wellFormed_and_kept`: every reachable table is well formed, and all of its
    entries are in every later one.
-/
import SelectorRename.Proofs.Extraction.Invariant
import SelectorRename.Proofs.Sorting
import Mathlib.Data.List.Nodup
import Mathlib.Logic.Relation

namespace SelectorRename

/-- An entry with the sigil of its kind in front of both texts. -/
def Entry.written (e : Entry) : Entry := ⟨e.kind.token e.find, e.kind.token e.replace, e.kind⟩

@[simp]
theorem Entry.bare_written (e : Entry) : e.written.bare = e := by
  simp [written, bare]

/-! ## Consistent entries -/

/-- Entries with sigils, one for each selector, no two of them with the same short name. -/
structure Consistent (es : List Entry) : Prop where
  written : ∀ e ∈ es, e.bare.written = e
  keys_nodup : (es.map Entry.key).Nodup
  shorts_nodup : (es.map fun e => e.bare.replace).Nodup

namespace Consistent

open Extraction

variable {es fs : List Entry} {x : Extraction}

theorem nil : Consistent [] := ⟨by simp, by simp, by simp⟩

theorem perm (h : Consistent es) (hp : fs.Perm es) : Consistent fs where
  written e he := h.written e (hp.mem_iff.1 he)
  keys_nodup := (hp.map _).nodup_iff.2 h.keys_nodup
  shorts_nodup := (hp.map _).nodup_iff.2 h.shorts_nodup

/-- A discovered selector gets a short name that no entry has. -/
theorem discover (h : Consistent x.entries) (hx : x.Sound) {o : Occurrence}
    (hk : x.knows o.kind o.token = false) : Consistent (x.discover o.kind o.token).entries := by
  obtain ⟨i, ⟨hfree, -⟩, hname, -⟩ := x.names.alloc_spec
  have hnew : x.names.alloc.1 ∉ x.entries.map fun e => e.bare.replace := by
    rw [hx.free_eq, Set.mem_ofPred_eq, ← hname, taken, List.mem_append, not_or] at hfree
    exact hfree.2
  have he : (x.discover o.kind o.token).entries =
      x.entries ++ [Entry.written ⟨String.ofList o.name, x.names.alloc.1, o.kind⟩] := by
    rw [entries_discover, o.token_eq]
    rfl
  have hkeys := (hx.discover hk).keys_nodup
  rw [he] at hkeys ⊢
  refine ⟨fun e hmem => ?_, hkeys, ?_⟩
  · rcases List.mem_append.1 hmem with hmem | hmem
    · exact h.written e hmem
    · rw [List.mem_singleton.1 hmem, Entry.bare_written]
  · rw [List.map_append, List.map_singleton, Entry.bare_written]
    refine List.nodup_append.2 ⟨h.shorts_nodup, by simp, ?_⟩
    rintro a ha b hb rfl
    rw [List.mem_singleton.1 hb] at ha
    exact hnew ha

theorem meet (h : Consistent x.entries) (hx : x.Sound) (o : Occurrence) :
    Consistent (x.meet o).entries := by
  obtain ⟨r, -, he⟩ | ⟨-, -, he⟩ | ⟨-, hk, he⟩ := x.meet_cases o
  · rw [he]; exact h
  · rw [he]; exact h
  · rw [he]; exact h.discover hx hk

/-- **An extraction keeps entries consistent** and puts new ones behind them. -/
theorem run (h : Consistent es) (p : Pacing) (w : Whitelist) (texts : List String) :
    ∃ fs, Consistent fs ∧ es <+: fs ∧ run p w es texts = .ofEntries fs := by
  have hstart := entries_start w h.keys_nodup
  obtain ⟨-, hc, hp⟩ : ((start es w).scanAll p texts).Sound ∧
      Consistent ((start es w).scanAll p texts).entries ∧
      es <+: ((start es w).scanAll p texts).entries :=
    scanAll_induction (P := fun x => x.Sound ∧ Consistent x.entries ∧ es <+: x.entries) p
      (fun x o ⟨hx, hc, hp⟩ => ⟨hx.meet o, hc.meet hx o, hp.trans (x.prefix_meet o)⟩)
      (fun _ m ⟨hx, hc, hp⟩ => ⟨hx.tell m, hc, hp⟩) texts
      ⟨.start es w, by rwa [hstart], ⟨[], by simp [hstart]⟩⟩
  exact ⟨_, hc, hp, rfl⟩

end Consistent

namespace RenameTable

/-! ## Well-formed tables -/

/-- A table in which every selector and every short name occurs once. -/
structure WellFormed (t : RenameTable) : Prop where
  css_keys : (t.css.map Entry.key).Nodup
  js_keys : (t.js.map Entry.key).Nodup
  /-- Classes and ids share the short names. -/
  short_names : (t.js.map Entry.replace).Nodup
  /-- The first view has exactly one more sigil in front of each text. -/
  css_eq : t.css = t.js.map Entry.written
  css_order : Decreasing findSize t.css
  js_order : Decreasing findSize t.js

theorem findSize_written (e : Entry) : findSize e.written = findSize e + 1 :=
  Kind.utf8ByteSize_token ..

theorem map_written_map_bare {es : List Entry} (h : Consistent es) :
    (es.map Entry.bare).map Entry.written = es := by
  calc (es.map Entry.bare).map Entry.written = es.map fun e => e.bare.written := List.map_map
    _ = es.map id := List.map_congr_left h.written
    _ = es := List.map_id es

theorem WellFormed.ofEntries {es : List Entry} (h : Consistent es) : (ofEntries es).WellFormed := by
  have hc : Consistent (longestFirst es) := h.perm (longestFirst_perm es)
  have hw := map_written_map_bare hc
  have horder := decreasing_longestFirst es
  refine ⟨hc.keys_nodup, ?_, ?_, hw.symm, horder, ?_⟩
  · have hkeys := hc.keys_nodup
    rw [← hw, List.map_map] at hkeys
    refine List.Nodup.of_map (fun key : Kind × String => (key.1, key.1.token key.2)) ?_
    rwa [List.map_map]
  · simpa [RenameTable.ofEntries, Function.comp_def] using hc.shorts_nodup
  · rw [← hw, Decreasing, List.pairwise_map] at horder
    refine horder.imp fun hab => ?_
    rw [findSize_written, findSize_written] at hab
    omega

/-! ## Reachable tables -/

/-- One extraction from a table leads to another one. -/
def Next (t u : RenameTable) : Prop :=
  ∃ (p : Pacing) (w : Whitelist) (texts : List String), u = Extraction.run p w t.css texts

/-- Any number of extractions lead from a table to another one. -/
def Later : RenameTable → RenameTable → Prop := Relation.ReflTransGen Next

/-- Any number of extractions lead to a table from nothing. -/
def Reachable (t : RenameTable) : Prop := Later (ofEntries []) t

variable {t u : RenameTable}

theorem consistent_css_ofEntries {es : List Entry} (h : Consistent es) :
    Consistent (ofEntries es).css :=
  h.perm (longestFirst_perm es)

/-- Later tables have all entries of an earlier one. -/
theorem Later.consistent (h : Later t u) (ht : Consistent t.css) :
    Consistent u.css ∧ t.css ⊆ u.css := by
  induction h with
  | refl => exact ⟨ht, fun _ he => he⟩
  | tail _ hn ih =>
    obtain ⟨p, w, texts, rfl⟩ := hn
    obtain ⟨fs, hc, hp, he⟩ := ih.1.run p w texts
    rw [he]
    exact ⟨consistent_css_ofEntries hc,
      fun e hmem => (longestFirst_perm fs).mem_iff.2 (hp.subset (ih.2 hmem))⟩

theorem Reachable.consistent (h : Reachable t) : Consistent t.css :=
  (Later.consistent h (consistent_css_ofEntries .nil)).1

/-- A reachable table is made from consistent entries. -/
theorem Reachable.exists_eq_ofEntries (h : Reachable t) : ∃ es, Consistent es ∧ t = ofEntries es := by
  cases h with
  | refl => exact ⟨[], .nil, rfl⟩
  | tail ht hn =>
    obtain ⟨p, w, texts, rfl⟩ := hn
    obtain ⟨es, hc, -, he⟩ := (Reachable.consistent ht).run p w texts
    exact ⟨es, hc, he⟩

theorem Reachable.js_eq (h : Reachable t) : t.js = t.css.map Entry.bare := by
  obtain ⟨es, -, rfl⟩ := h.exists_eq_ofEntries
  rfl

/-- **Reachable tables**: every selector and every short name occurs once, the two views differ in
    the sigils alone and have the longest texts first, and a later table keeps all entries. -/
theorem Reachable.wellFormed_and_kept (h : Reachable t) :
    t.WellFormed ∧ ∀ u, Later t u → t.css ⊆ u.css ∧ t.js ⊆ u.js := by
  constructor
  · obtain ⟨es, hc, rfl⟩ := h.exists_eq_ofEntries
    exact .ofEntries hc
  · intro u hu
    have hsub := (hu.consistent h.consistent).2
    have hr : Reachable u := h.trans hu
    refine ⟨hsub, ?_⟩
    rw [h.js_eq, hr.js_eq]
    exact List.map_subset _ hsub

/-- The table after two extractions with different whitelists: the second one passes over the short
    name of the first one. -/
def twoRuns : RenameTable where
  css := [⟨".btn", ".a", .cls⟩, ⟨"#x", "#b", .id⟩]
  js := [⟨"btn", "a", .cls⟩, ⟨"x", "b", .id⟩]

theorem reachable_twoRuns : Reachable twoRuns := by
  have hone : Next (ofEntries []) ⟨[⟨".btn", ".a", .cls⟩], [⟨"btn", "a", .cls⟩]⟩ :=
    ⟨.disabled, .ofList ["z"], [".btn{}.z{}"], by decide +kernel⟩
  have htwo : Next ⟨[⟨".btn", ".a", .cls⟩], [⟨"btn", "a", .cls⟩]⟩ twoRuns := by
    refine ⟨.standard, .ofList [], ["#x{}"], ?_⟩
    have hentries : ((Extraction.start [⟨".btn", ".a", .cls⟩] (.ofList [])).scanAll .standard
        ["#x{}"]).entries = [⟨".btn", ".a", .cls⟩, ⟨"#x", "#b", .id⟩] := by decide +kernel
    have hsorted : Decreasing findSize [⟨".btn", ".a", .cls⟩, ⟨"#x", "#b", .id⟩] :=
      List.pairwise_pair.2 (by decide)
    rw [Extraction.run, Extraction.table, hentries, ofEntries, longestFirst_of_decreasing hsorted]
    decide +kernel
  exact .tail (.single hone) htwo

theorem twoRuns_wellFormed_and_kept :
    Reachable twoRuns ∧ twoRuns.WellFormed ∧
      ∀ u, Later twoRuns u → twoRuns.css ⊆ u.css ∧ twoRuns.js ⊆ u.js :=
  ⟨reachable_twoRuns, reachable_twoRuns.wellFormed_and_kept⟩

end RenameTable

end SelectorRename
