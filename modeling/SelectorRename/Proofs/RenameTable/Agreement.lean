/-
  Stylesheets and assets are renamed alike.

  * `RenameTable.Reachable.mem_js_iff`: an entry of one view is an entry of the other, without its
    sigils.
  * `RenameTable.Reachable.lookup_agrees`: for a table that extractions lead to, the lookup in the
    one view finds exactly the entries of the other, in whatever order they are listed; hence every
    name that is replaced in an asset has an entry for stylesheets.
-/
import SelectorRename.Proofs.RenameTable.Reachable
import SelectorRename.Proofs.Renaming.Lookup

namespace SelectorRename.RenameTable

variable {t : RenameTable}

theorem Reachable.mem_js_iff (h : Reachable t) {e : Entry} : e ∈ t.js ↔ e.written ∈ t.css := by
  have hcss := map_written_map_bare h.consistent
  rw [← h.js_eq] at hcss
  constructor
  · intro he
    rw [← hcss]
    exact List.mem_map_of_mem he
  · intro he
    rw [← hcss] at he
    obtain ⟨f, hf, hfe⟩ := List.mem_map.1 he
    rwa [← e.bare_written, ← hfe, f.bare_written]

theorem Reachable.js_keys_nodup (h : Reachable t) : (t.js.map Entry.key).Nodup := by
  obtain ⟨es, hc, rfl⟩ := h.exists_eq_ofEntries
  exact (WellFormed.ofEntries hc).js_keys

/-- **The two views agree**: a name has a replacement in assets if and only if its selector has that
    one in stylesheets. The order of the entries does not matter, and no report of an asset lists
    another replacement. -/
theorem Reachable.lookup_agrees (h : Reachable t) :
    (∀ k name short, (Lookup.ofEntries t.js).get? k name = some short ↔
      ⟨k.token name, k.token short, k⟩ ∈ t.css) ∧
    (∀ es, es.Perm t.js → ∀ k name,
      (Lookup.ofEntries es).get? k name = (Lookup.ofEntries t.js).get? k name) ∧
    ∀ s : RenamingSettings, s.entries = t.js → ∀ asset,
      ∀ r ∈ ((Renamer.ofSettings s).rename asset).records, ∀ short, r.replace = some short →
        ⟨r.kind.token r.find, r.kind.token short, r.kind⟩ ∈ t.css := by
  have hiff : ∀ k name short, (Lookup.ofEntries t.js).get? k name = some short ↔
      ⟨k.token name, k.token short, k⟩ ∈ t.css := by
    intro k name short
    rw [Lookup.get?_ofEntries_eq_some_iff h.js_keys_nodup, h.mem_js_iff]
    rfl
  refine ⟨hiff, fun es hp => Lookup.get?_ofEntries_of_perm h.js_keys_nodup hp, ?_⟩
  intro s hs asset r hr short hshort
  have hget := Renamer.get?_of_mem_records hr hshort
  rw [hs] at hget
  exact (hiff ..).1 hget

theorem lookup_twoRuns :
    Reachable twoRuns ∧ (Lookup.ofEntries twoRuns.js).get? .id "x" = some "b" ∧
      (Lookup.ofEntries twoRuns.js).get? .cls "x" = none := by
  obtain ⟨hiff, -, -⟩ := reachable_twoRuns.lookup_agrees
  refine ⟨reachable_twoRuns, (hiff ..).2 (by decide), ?_⟩
  rw [Option.eq_none_iff_forall_ne_some]
  intro short hshort
  have := (hiff ..).1 hshort
  simp [twoRuns, Kind.token, Kind.sigil] at this

end SelectorRename.RenameTable
