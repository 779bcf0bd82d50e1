/-
  Lines that were scanned before.

  * `Extraction.Sound.knows_again`: what an extraction accepted is known to every one that starts
    from its table, and a longer whitelist accepts nothing else.
  * `Extraction.Sound.rescan`: scanning lines again therefore discovers nothing, and the table, which
    is sorted already, stays as it is.
  * `Extraction.rescan_adds_nothing`: this holds after every extraction, for any choice of its lines.
-/
import SelectorRename.Proofs.Candidate.Rules
import SelectorRename.Proofs.Extraction.Record
import SelectorRename.Proofs.Extraction.Sequence

namespace SelectorRename.Extraction

variable {x₀ x : Extraction} {w w' : Whitelist} {ss : List Sighting} {again : List (List Char)}

/-- Scanning takes no entry of an earlier extraction away. -/
theorem kept_scanLines (p : Pacing) (x : Extraction) (lines : List (List Char)) :
    (x.scanLines p lines).kept = x.kept :=
  scanLines_induction (P := fun y => y.kept = x.kept) p (fun y o h => (y.kept_meet o).trans h)
    (fun _ _ h => h) lines rfl

/-- The selectors that were accepted before are known from the table. -/
theorem Sound.knows_again (h : x.Sound) (hrec : Recorded x₀ ss x)
    (hw : x₀.whitelist.entries ⊆ w'.entries) {s : Sighting} (hs : s ∈ ss)
    (hc : classify w' s.candidate = none) :
    (Extraction.start x.table.css w').knows s.key.1 s.key.2 = true := by
  have haccepted : s.key ∈ acceptedOf x₀.whitelist ss :=
    List.mem_map_of_mem (List.mem_filter.2 ⟨hs, by simpa using classify_of_subset hw hc⟩)
  have hknown : s.key ∈ x.entries.map Entry.key :=
    (h.knows_iff _ _).1 ((hrec.knows_iff _ _).2 (Or.inr haccepted))
  rw [knows_start]
  exact ((RenameTable.longestFirst_perm x.entries).map Entry.key).mem_iff.2 hknown

/-- **Scanning again what was seen discovers nothing**, and the table stays as it is. -/
theorem Sound.rescan (h : x.Sound) (hrec : Recorded x₀ ss x)
    (hw : x₀.whitelist.entries ⊆ w'.entries) (q : Pacing)
    (hagain : ∀ o ∈ again.flatMap Stylesheet.occurrences, o.sighting ∈ ss) :
    ((Extraction.start x.table.css w').scanLines q again).discovered = #[] ∧
      ((Extraction.start x.table.css w').scanLines q again).table = x.table := by
  have hnew : ((Extraction.start x.table.css w').scanLines q again).discovered = #[] := by
    have hscan := (Recorded.refl (Extraction.start x.table.css w')).scanFrom q again 0
    rw [List.nil_append] at hscan
    have hkeys := hscan.discovered_start
    have hnone : (acceptedOf w' ((again.flatMap Stylesheet.occurrences).map Occurrence.sighting)).filter
        (fun key => !(Extraction.start x.table.css w').knows key.1 key.2) = [] := by
      rw [List.filter_eq_nil_iff]
      intro key hkey
      obtain ⟨s, hs, rfl⟩ := List.mem_map.1 hkey
      rw [List.mem_filter, decide_eq_true_eq] at hs
      obtain ⟨o, ho, rfl⟩ := List.mem_map.1 hs.1
      simp [h.knows_again hrec hw (hagain o ho) hs.2]
    rw [hnone] at hkeys
    exact Array.toList_inj.1 (List.map_eq_nil_iff.1 hkeys)
  refine ⟨hnew, table_congr ?_⟩
  -- the entries are those of the table, in its order
  have hentries : ((Extraction.start x.table.css w').scanLines q again).entries =
      RenameTable.longestFirst x.entries := by
    rw [← h.entries_start_table w', entries, entries, hnew, discovered_start, kept_scanLines]
  rw [hentries, RenameTable.longestFirst_of_decreasing (RenameTable.decreasing_longestFirst _)]

/-- **Rescanning adds nothing**: an extraction from the table of another one, under the same or a
    longer whitelist, finds nothing new in lines of that one and leads to the same table. -/
theorem rescan_adds_nothing (p q : Pacing) (es : List Entry) (hw : w.entries ⊆ w'.entries)
    {batches : List (List (List Char))} (hagain : ∀ line ∈ again, line ∈ batches.flatten) :
    ((start ((start es w).scanBatches p batches).table.css w').scanLines q again).discovered = #[] ∧
      ((start ((start es w).scanBatches p batches).table.css w').scanLines q again).table =
        ((start es w).scanBatches p batches).table := by
  have hsound := (Sound.start es w).scanBatches p batches
  have hrec := recorded_scanBatches p (start es w) batches
  refine hsound.rescan hrec (by rwa [whitelist_start]) q fun o ho => ?_
  obtain ⟨line, hline, ho⟩ := List.mem_flatMap.1 ho
  exact List.mem_map_of_mem (List.mem_flatMap.2 ⟨line, hagain line hline, ho⟩)

/-- The second whitelist protects a selector that has an entry already, which is kept. -/
theorem rescan_adds_nothing_protected :
    ((start [⟨".old", ".a", .cls⟩] (.ofList ["x"])).scanBatches .disabled
        [[".btn.x".toList], ["#a".toList, ".btn".toList]]).entries =
        [⟨".old", ".a", .cls⟩, ⟨".btn", ".b", .cls⟩, ⟨"#a", "#c", .id⟩] ∧
      (Whitelist.ofList ["x"]).entries ⊆ (Whitelist.ofList ["btn", "x"]).entries ∧
      (∀ line ∈ ["#a".toList, ".btn.x".toList, "#a".toList],
        line ∈ [[".btn.x".toList], ["#a".toList, ".btn".toList]].flatten) ∧
      ((start ((start [⟨".old", ".a", .cls⟩] (.ofList ["x"])).scanBatches .disabled
          [[".btn.x".toList], ["#a".toList, ".btn".toList]]).table.css
        (.ofList ["btn", "x"])).scanLines .standard
          ["#a".toList, ".btn.x".toList, "#a".toList]).discovered = #[] ∧
      ((start ((start [⟨".old", ".a", .cls⟩] (.ofList ["x"])).scanBatches .disabled
          [[".btn.x".toList], ["#a".toList, ".btn".toList]]).table.css
        (.ofList ["btn", "x"])).scanLines .standard
          ["#a".toList, ".btn.x".toList, "#a".toList]).table =
        ((start [⟨".old", ".a", .cls⟩] (.ofList ["x"])).scanBatches .disabled
          [[".btn.x".toList], ["#a".toList, ".btn".toList]]).table := by
  have hw : (Whitelist.ofList ["x"]).entries ⊆ (Whitelist.ofList ["btn", "x"]).entries := by decide
  have hagain : ∀ line ∈ ["#a".toList, ".btn.x".toList, "#a".toList],
      line ∈ [[".btn.x".toList], ["#a".toList, ".btn".toList]].flatten := by decide
  exact ⟨by decide +kernel, hw, hagain, rescan_adds_nothing .disabled .standard _ hw hagain⟩

end SelectorRename.Extraction
