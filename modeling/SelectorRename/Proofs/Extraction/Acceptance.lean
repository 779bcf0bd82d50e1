/-
  The selectors that an extraction discovers.

  * `Sighting.classify_token`: if a candidate is accepted, its selector is accepted by itself.
  * `Extraction.exists_sighting`: every discovered selector is one that was seen with a candidate
    that is accepted.
  * `Extraction.discovered_not_protected`: hence the whitelist under which a selector was discovered
    does not keep its name from being replaced in assets.
-/
import SelectorRename.Proofs.Candidate.Rules
import SelectorRename.Proofs.Extraction.Record
import SelectorRename.Proofs.Renaming.Lookup

namespace SelectorRename

variable {w : Whitelist} {k : Kind} {name : String}

/-! ## One selector -/

theorem Sighting.classify_token {text : List Char} {s : Sighting} (h : Stylesheet.Opens text s)
    (hc : classify w s.candidate = none) : classify w s.token = none := by
  obtain ⟨-, ⟨more, hmore⟩, -⟩ := h.candidate_spec
  rw [← hmore] at hc
  exact classify_of_append hc

/-- A name that a whitelist keeps is no selector under it. -/
theorem containsName_of_classify (hblank : ∀ c ∈ k.sigil :: name.toList, Text.isBlank c = false)
    (hc : classify w (k.sigil :: name.toList) = none) : w.containsName k name = false := by
  rw [classify_eq_none_iff, trim_of_not_blank hblank] at hc
  refine Bool.eq_false_iff.2 fun hname => ?_
  have hrule : Reason.whitelist.applies w (k.sigil :: name.toList) = true :=
    (w.containsToken_sigil k name).trans hname
  rw [hc .whitelist] at hrule
  cases hrule

namespace Extraction

/-! ## All selectors -/

/-- What is discovered was seen, with a candidate that is accepted. -/
theorem exists_sighting (p : Pacing) (es : List Entry) (w : Whitelist) (texts : List String)
    {e : Entry} (he : e ∈ ((start es w).scanAll p texts).discovered) :
    ∃ text s, Stylesheet.Opens text s ∧ classify w s.candidate = none ∧ s.key = e.key := by
  have hrec := recorded_scanBatches p (start es w) (texts.map Stylesheet.lines)
  rw [← scanAll_eq] at hrec
  have hkey : e.key ∈ ((start es w).scanAll p texts).discovered.toList.map Entry.key :=
    List.mem_map_of_mem (Array.mem_toList_iff.2 he)
  rw [hrec.discovered_start, List.mem_eraseDups, List.mem_filter] at hkey
  obtain ⟨s, hs, hskey⟩ := List.mem_map.1 hkey.1
  rw [List.mem_filter, decide_eq_true_eq] at hs
  obtain ⟨o, ho, rfl⟩ := List.mem_map.1 hs.1
  obtain ⟨line, -, ho⟩ := List.mem_flatMap.1 ho
  obtain ⟨text, hopens⟩ := Stylesheet.exists_opens ho
  exact ⟨text, o.sighting, hopens, hs.2, hskey⟩

/-- **A discovered selector is accepted by itself**, without the text that trailed it, and its name
    is not protected: no asset that is renamed under the same whitelist lists it as such. -/
theorem discovered_not_protected (p : Pacing) (es : List Entry) (ignore texts : List String) :
    ∀ e ∈ ((start es (.ofList ignore)).scanAll p texts).discovered,
      classify (.ofList ignore) e.find.toList = none ∧
      NameFilter.ofWhitelists [.ofList ignore] e.kind e.bare.find = false ∧
      ∀ settings : RenamingSettings, settings.ignore = ignore → ∀ asset,
        ∀ r ∈ ((Renamer.ofSettings settings).rename asset).records,
          r.kind = e.kind → r.find = e.bare.find → r.outcome ≠ .whitelisted := by
  intro e he
  obtain ⟨text, s, hopens, hc, hkey⟩ := exists_sighting p es (.ofList ignore) texts he
  obtain ⟨⟨name, htoken⟩, hpre, hblank⟩ := hopens.candidate_spec
  obtain ⟨hkind, hfind⟩ : s.kind = e.kind ∧ String.ofList s.token = e.find := Prod.mk.inj hkey
  have haccepted := Sighting.classify_token hopens hc
  -- the name behind the sigil, which is what stands in assets
  have hbare : e.bare.find = String.ofList name := by
    show e.kind.strip e.find = String.ofList name
    rw [← hfind, htoken, hkind, ← e.kind.strip_token (String.ofList name), Kind.token,
      String.toList_ofList]
  have hkeeps : NameFilter.ofWhitelists [.ofList ignore] e.kind e.bare.find = false := by
    rw [htoken, hkind] at haccepted
    have hblank' : ∀ c ∈ e.kind.sigil :: (String.ofList name).toList, Text.isBlank c = false := by
      rw [String.toList_ofList, ← hkind, ← htoken]
      exact fun c hmem => hblank c (hpre.subset hmem)
    have hname := containsName_of_classify (w := .ofList ignore) hblank'
      (by rwa [String.toList_ofList])
    simp [NameFilter.ofWhitelists, hbare, hname]
  refine ⟨?_, hkeeps, ?_⟩
  · rw [← hfind, String.toList_ofList]
    exact haccepted
  · rintro settings rfl asset r hr hrkind hrfind hout
    have hkept : NameFilter.ofWhitelists [.ofList settings.ignore] r.kind r.find = true :=
      Renamer.keeps_of_mem_records hr hout
    rw [hrkind, hrfind, hkeeps] at hkept
    cases hkept

/-- A class with a path behind it, next to a protected one. -/
theorem discovered_not_protected_path :
    (⟨".btn", ".b", .cls⟩ : Entry) ∈
        ((start [⟨".old", ".a", .cls⟩] (.ofList ["x"])).scanAll .disabled [".btn/y.x{}"]).discovered ∧
      classify (.ofList ["x"]) ".btn".toList = none ∧
      NameFilter.ofWhitelists [.ofList ["x"]] .cls "btn" = false ∧
      (⟨"btn", some "b", .cls, .replaced⟩ : Record) ∈ ((Renamer.ofSettings
        { entries := [⟨"btn", "b", .cls⟩], ignore := ["x"] }).rename
          ⟨"main.js", "className:\"btn x\""⟩).records ∧
      (⟨"btn", some "b", .cls, .replaced⟩ : Record).outcome ≠ .whitelisted := by
  have hfound : ((start [⟨".old", ".a", .cls⟩] (.ofList ["x"])).scanAll .disabled
      [".btn/y.x{}"]).discovered = #[⟨".btn", ".b", .cls⟩] := by decide +kernel
  have hmem : (⟨".btn", ".b", .cls⟩ : Entry) ∈ ((start [⟨".old", ".a", .cls⟩]
      (.ofList ["x"])).scanAll .disabled [".btn/y.x{}"]).discovered := by
    rw [hfound]
    exact Array.mem_singleton.2 rfl
  obtain ⟨haccepted, hkeeps, hrecords⟩ := discovered_not_protected .disabled
    [⟨".old", ".a", .cls⟩] ["x"] [".btn/y.x{}"] _ hmem
  have hrecord : (⟨"btn", some "b", .cls, .replaced⟩ : Record) ∈ ((Renamer.ofSettings
      { entries := [⟨"btn", "b", .cls⟩], ignore := ["x"] }).rename
        ⟨"main.js", "className:\"btn x\""⟩).records := by decide +kernel
  exact ⟨hmem, haccepted, hkeeps, hrecord, hrecords _ rfl _ _ hrecord rfl rfl⟩

end Extraction

end SelectorRename
