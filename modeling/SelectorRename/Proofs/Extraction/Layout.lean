/-
  The layout of a stylesheet.

  * `Extraction.mem_keys_scan`: the selectors of a table after a scan are those it started from and
    those that a search through the unbroken text accepts.
  * `Stylesheet.SameSelectors`: two texts that show the same of each kind. Their lines may differ, and
    with them the order in which classes and ids come.
  * `Extraction.SameEntries`: two extractions that discovered the same selectors in some order and
    gave out the same short names.
  * `Extraction.scan_unbroken`: lines lose and invent no selector, so texts that show the same lead to
    the same entries, but for the order in which short names are given out.
-/
import SelectorRename.Proofs.Extraction.Naming
import SelectorRename.Proofs.Extraction.Rescan
import SelectorRename.Proofs.Stylesheet.Unbroken

namespace SelectorRename

namespace Stylesheet

/-- A search for the selectors of either kind finds the same in both texts. -/
def SameSelectors (text text' : String) : Prop :=
  ∀ k ss, Search k text.toList ss ↔ Search k text'.toList ss

theorem mem_map_sighting_iff {text : String} {s : Sighting} :
    s ∈ ((Stylesheet.lines text).flatMap occurrences).map Occurrence.sighting ↔
      ∃ k ss, Search k text.toList ss ∧ s ∈ ss := by
  constructor
  · intro h
    exact ⟨s.kind, shownOf s.kind text, search_lines_iff.2 rfl,
      List.mem_filter.2 ⟨h, decide_eq_true rfl⟩⟩
  · rintro ⟨k, ss, hss, hs⟩
    rw [search_lines_iff.1 hss] at hs
    exact (List.mem_filter.1 hs).1

end Stylesheet

namespace Extraction

open ShortName Stylesheet

variable {x₀ x x' : Extraction} {es : List Entry} {w : Whitelist} {text text' : String}
variable {key : Kind × String}

/-- A selector that the search through a text finds with a candidate that is accepted. -/
def Accepts (w : Whitelist) (text : String) (key : Kind × String) : Prop :=
  ∃ k ss, Search k text.toList ss ∧ ∃ s ∈ ss, classify w s.candidate = none ∧ s.key = key

theorem mem_acceptedOf_iff : key ∈ acceptedOf w
    (((Stylesheet.lines text).flatMap Stylesheet.occurrences).map Occurrence.sighting) ↔
      Accepts w text key := by
  rw [acceptedOf, List.mem_map]
  constructor
  · rintro ⟨s, hs, rfl⟩
    rw [List.mem_filter, decide_eq_true_eq, mem_map_sighting_iff] at hs
    obtain ⟨⟨k, ss, hss, hmem⟩, hc⟩ := hs
    exact ⟨k, ss, hss, s, hmem, hc, rfl⟩
  · rintro ⟨k, ss, hss, s, hmem, hc, rfl⟩
    exact ⟨s, List.mem_filter.2 ⟨mem_map_sighting_iff.2 ⟨k, ss, hss, hmem⟩, decide_eq_true hc⟩, rfl⟩

theorem accepts_congr (h : SameSelectors text text') :
    Accepts w text key ↔ Accepts w text' key :=
  exists_congr fun k => exists_congr fun ss => and_congr_left' (h k ss)

theorem sound_scan (p : Pacing) : ((start es w).scan p text).Sound :=
  (Sound.start es w).scanAll p [text]

/-- **The selectors of a table after a scan**: those of the entries it started from, and those that
    the unbroken text shows with a candidate that is accepted. -/
theorem mem_keys_scan (p : Pacing) :
    key ∈ ((start es w).scan p text).table.css.map Entry.key ↔
      key ∈ es.map Entry.key ∨ Accepts w text key := by
  have hrec := recorded_scan p (start es w) text
  have hperm := RenameTable.longestFirst_perm ((start es w).scan p text).entries
  calc key ∈ ((start es w).scan p text).table.css.map Entry.key
      ↔ key ∈ ((start es w).scan p text).entries.map Entry.key := (hperm.map Entry.key).mem_iff
    _ ↔ ((start es w).scan p text).knows key.1 key.2 = true := ((sound_scan p).knows_iff ..).symm
    _ ↔ key ∈ es.map Entry.key ∨ Accepts w text key := by
      rw [hrec.knows_iff, knows_start, whitelist_start, mem_acceptedOf_iff]

/-- Two extractions that discovered the same selectors and gave out the same short names, whichever
    name each selector got. -/
structure SameEntries (x x' : Extraction) : Prop where
  kept_eq : x.kept = x'.kept
  keys_perm : (x.discovered.toList.map Entry.key).Perm (x'.discovered.toList.map Entry.key)
  shorts_eq : x.discovered.toList.map (fun e => e.bare.replace) =
    x'.discovered.toList.map fun e => e.bare.replace

/-- The short names are known from how many there are. -/
theorem Named.map_bare_replace (h : Named x₀ x) :
    x.discovered.toList.map (fun e => e.bare.replace) =
      (List.range x.discovered.size).map (nthFree x₀.taken) := by
  refine List.ext_getElem? fun m => ?_
  rw [List.getElem?_map, List.getElem?_map, Array.getElem?_toList]
  by_cases hm : m < x.discovered.size
  · have he : x.discovered[m]? = some x.discovered[m] := Array.getElem?_eq_getElem hm
    have hbare : x.discovered[m].bare.replace = nthFree x₀.taken m := by
      rw [Entry.bare, h.replace_eq m _ he, Kind.strip_token]
    rw [he, List.getElem?_range hm, Option.map_some, Option.map_some, hbare]
  · have hnone : x.discovered[m]? = none := Array.getElem?_eq_none (Nat.le_of_not_lt hm)
    have hrange : (List.range x.discovered.size)[m]? = none :=
      List.getElem?_eq_none (by simpa using hm)
    rw [hnone, hrange, Option.map_none, Option.map_none]

theorem mem_keys_discovered (p : Pacing) :
    key ∈ ((start es w).scan p text).discovered.toList.map Entry.key ↔
      Accepts w text key ∧ key ∉ es.map Entry.key := by
  rw [(recorded_scan p (start es w) text).discovered_start, List.mem_eraseDups, List.mem_filter,
    mem_acceptedOf_iff, Bool.not_eq_true', ← Bool.not_eq_true, knows_start]

theorem nodup_keys_discovered (p : Pacing) :
    (((start es w).scan p text).discovered.toList.map Entry.key).Nodup := by
  have hsound : ((start es w).scan p text).Sound := sound_scan p
  have hkeys := hsound.keys_nodup
  rw [entries, List.map_append] at hkeys
  exact (List.nodup_append.1 hkeys).2.1

/-- Texts that show the same lead to the same entries. -/
theorem sameEntries_scan (h : SameSelectors text text') (p q : Pacing) :
    SameEntries ((start es w).scan p text) ((start es w).scan q text') := by
  have hkeys : (((start es w).scan p text).discovered.toList.map Entry.key).Perm
      (((start es w).scan q text').discovered.toList.map Entry.key) := by
    refine (List.perm_ext_iff_of_nodup (nodup_keys_discovered p) (nodup_keys_discovered q)).2 ?_
    intro key
    rw [mem_keys_discovered, mem_keys_discovered, accepts_congr h]
  have hsize : ((start es w).scan p text).discovered.size =
      ((start es w).scan q text').discovered.size := by
    simpa using hkeys.length_eq
  refine ⟨?_, hkeys, ?_⟩
  · rw [scan, scan, kept_scanLines, kept_scanLines]
  · have hleft : Named (start es w) ((start es w).scan p text) := named_scanAll p es w [text]
    have hright : Named (start es w) ((start es w).scan q text') := named_scanAll q es w [text']
    rw [hleft.map_bare_replace, hright.map_bare_replace, hsize]

/-- **Lines lose and invent no selector.** What the lines of a text show of each kind is what a search
    through the unbroken text finds, in the same order; after a scan, the table has the selectors that
    it started from and those of the search that are accepted; and a text in another layout leads to
    the same entries, but for the selectors that the new short names go to. -/
theorem scan_unbroken (p : Pacing) (es : List Entry) (w : Whitelist) (text : String) :
    (∀ k ss, Search k text.toList ss ↔ ss = shownOf k text) ∧
      (∀ key, key ∈ ((start es w).scan p text).table.css.map Entry.key ↔
        key ∈ es.map Entry.key ∨ Accepts w text key) ∧
      ∀ q text', SameSelectors text text' →
        SameEntries ((start es w).scan p text) ((start es w).scan q text') :=
  ⟨fun _ _ => search_lines_iff, fun _ => mem_keys_scan p,
    fun q _ h => sameEntries_scan h p q⟩

/-- A line break between two selectors decides which of them gets the first free name. -/
theorem scan_unbroken_broken :
    SameSelectors "#hd-nav .menu{}" "#hd-nav\n.menu {}" ∧
      SameEntries ((start [⟨".old", ".b", .cls⟩] (.ofList ["x"])).scan .standard "#hd-nav .menu{}")
        ((start [⟨".old", ".b", .cls⟩] (.ofList ["x"])).scan .disabled "#hd-nav\n.menu {}") ∧
      ((start [⟨".old", ".b", .cls⟩] (.ofList ["x"])).scan .standard "#hd-nav .menu{}").entries =
        [⟨".old", ".b", .cls⟩, ⟨".menu", ".a", .cls⟩, ⟨"#hd-nav", "#c", .id⟩] ∧
      ((start [⟨".old", ".b", .cls⟩] (.ofList ["x"])).scan .disabled "#hd-nav\n.menu {}").entries =
        [⟨".old", ".b", .cls⟩, ⟨"#hd-nav", "#a", .id⟩, ⟨".menu", ".c", .cls⟩] := by
  have hshown : ∀ k, shownOf k "#hd-nav .menu{}" = shownOf k "#hd-nav\n.menu {}" := by
    intro k
    cases k <;> decide
  have hsame : SameSelectors "#hd-nav .menu{}" "#hd-nav\n.menu {}" := by
    intro k ss
    rw [search_lines_iff, search_lines_iff, hshown]
  refine ⟨hsame, ?_, by decide +kernel, by decide +kernel⟩
  exact (scan_unbroken .standard [⟨".old", ".b", .cls⟩] (.ofList ["x"]) "#hd-nav .menu{}").2.2
    .disabled _ hsame

end Extraction

end SelectorRename
