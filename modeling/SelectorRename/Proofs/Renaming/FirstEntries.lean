/-
  Which entries of a table decide about an asset.

  * `Entry.firstOf?`: the first entry of a kind and name, which is the one that a lookup finds.
  * `Renamer.rename_congr`: an asset asks the lookup for the replacements of names, and for nothing
    else. The values of attributes ask through `Dictionary.judge`, the literal rules when they are
    prepared (`Renamer.literalsOf_congr`), and whether there is anything to rename shows in the
    replacements too (`KindMap.isEmpty_congr`).
  * `Asset.rename_firstOf`: so the first entries decide, in whatever order they are listed. The longest
    text need not come first: the literal rules are sorted by themselves.
-/
import SelectorRename.Proofs.Renaming.Lookup
import SelectorRename.Proofs.Sorting

namespace SelectorRename

variable {d d' : Dictionary} {l l' : Lookup} {es more : List Entry} {key : Kind × String}

/-! ## First entries -/

/-- The first entry of a kind and name. -/
def Entry.firstOf? (es : List Entry) (key : Kind × String) : Option Entry :=
  es.find? fun e => e.key = key

namespace Entry

theorem firstOf?_isSome_iff : (firstOf? es key).isSome = true ↔ key ∈ es.map Entry.key := by
  rw [firstOf?, List.find?_isSome, List.mem_map]
  simp only [decide_eq_true_eq]

/-- Entries behind those of their kind and name are never first. -/
theorem firstOf?_append (h : ∀ e ∈ more, e.key ∈ es.map Entry.key) (key : Kind × String) :
    firstOf? (es ++ more) key = firstOf? es key := by
  have happend : firstOf? (es ++ more) key = (firstOf? es key).or (firstOf? more key) :=
    List.find?_append
  rw [happend]
  by_cases hkey : key ∈ es.map Entry.key
  · exact Option.or_of_isSome (firstOf?_isSome_iff.2 hkey)
  · have hnone : firstOf? more key = none := by
      refine List.find?_eq_none.2 fun e he hekey => hkey ?_
      rw [← of_decide_eq_true hekey]
      exact h e he
    rw [hnone, Option.or_none]

end Entry

/-! ## What an asset asks the lookup -/

theorem KindMap.isEmpty_congr (h : ∀ k name, l.get? k name = l'.get? k name) :
    l.isEmpty = l'.isEmpty := by
  rw [Bool.eq_iff_iff, isEmpty_iff_get?, isEmpty_iff_get?]
  exact forall₂_congr fun k name => by rw [h]

theorem Dictionary.judge_congr (hkeeps : d.keeps = d'.keeps)
    (h : ∀ k name, d.lookup.get? k name = d'.lookup.get? k name) : d.judge = d'.judge := by
  funext k name
  rw [judge, judge, hkeeps, h]

namespace Attribute

variable {a : Attribute}

theorem renameHead_congr (h : d.judge = d'.judge) : a.renameHead d = a.renameHead d' := by
  have hparts : a.judgeParts d = a.judgeParts d' := by
    funext value
    rw [judgeParts, judgeParts, h]
  funext fragment
  rw [renameHead, renameHead, renameValue, renameValue, hparts]

/-- A pass over an attribute asks for verdicts alone. -/
theorem rename_congr (h : d.judge = d'.judge) : a.rename d = a.rename d' := by
  funext text
  induction text using a.rename_induction with
  | none text hcut => rw [rename_of_cut?_eq_none hcut, rename_of_cut?_eq_none hcut]
  | some text before behind hcut ih =>
    rw [rename_of_cut?_eq_some hcut, rename_of_cut?_eq_some hcut, renameHead_congr h, ih]

end Attribute

namespace Renamer

theorem renameAttributes_congr {w v : Renamer} (h : w.dictionary.judge = v.dictionary.judge)
    (as : List Attribute) : w.renameAttributes as = v.renameAttributes as := by
  induction as with
  | nil => rfl
  | cons a as ih =>
    funext text
    rw [renameAttributes, renameAttributes, Attribute.rename_congr h, ih]

theorem literalsOf_congr (h : ∀ k name, l.get? k name = l'.get? k name) (rules : List LiteralRule) :
    literalsOf l rules = literalsOf l' rules := by
  simp only [literalsOf, h]

/-- **An asset asks the lookup for replacements alone**: where two of them find the same, it is
    renamed the same way. -/
theorem rename_congr (w : Renamer) (hkeeps : d.keeps = w.dictionary.keeps)
    (h : ∀ k name, d.lookup.get? k name = w.dictionary.lookup.get? k name) :
    ({ w with dictionary := d } : Renamer).rename = w.rename := by
  funext asset
  have hpasses : renameAttributes { w with dictionary := d } w.attributes =
      w.renameAttributes w.attributes :=
    renameAttributes_congr (Dictionary.judge_congr hkeeps h) w.attributes
  simp only [rename, KindMap.isEmpty_congr h, hpasses]
  rfl

/-- Settings whose entries give the same replacements prepare the same renaming. -/
theorem rename_ofSettings_congr {s : RenamingSettings}
    (h : ∀ k name, (Lookup.ofEntries es).get? k name = (Lookup.ofEntries s.entries).get? k name) :
    (ofSettings { s with entries := es }).rename = (ofSettings s).rename ∧
      (ofSettings { s with entries := es }).literals = (ofSettings s).literals := by
  have hliterals := literalsOf_congr h s.literals
  have heq : ofSettings { s with entries := es } =
      { ofSettings s with
        dictionary := ⟨Lookup.ofEntries es, (ofSettings s).dictionary.keeps⟩ } := by
    simp only [ofSettings, hliterals]
  refine ⟨?_, hliterals⟩
  rw [heq]
  exact rename_congr (ofSettings s) rfl h

end Renamer

namespace Asset

variable {s : RenamingSettings}

theorem rename_of_get?_eq
    (h : ∀ k name, (Lookup.ofEntries es).get? k name = (Lookup.ofEntries s.entries).get? k name)
    (asset : Asset) : asset.rename { s with entries := es } = asset.rename s := by
  obtain ⟨hrename, hliterals⟩ := Renamer.rename_ofSettings_congr h
  simp only [rename, Renamer.remarks, hrename, hliterals]

/-- **The first entries decide**: an asset comes out the same, in its text, its report and its log,
    when the entries of different kinds or names are listed in another order, when entries are added
    behind others of their kind and name, and for any two tables with the same first entries. Every
    replacement in the report is that of a first entry. -/
theorem rename_firstOf (s : RenamingSettings) (asset : Asset) :
    (∀ es, (s.entries.map Entry.key).Nodup → es.Perm s.entries →
      asset.rename { s with entries := es } = asset.rename s) ∧
    (∀ more, (∀ e ∈ more, e.key ∈ s.entries.map Entry.key) →
      asset.rename { s with entries := s.entries ++ more } = asset.rename s) ∧
    (∀ es, (∀ key, Entry.firstOf? es key = Entry.firstOf? s.entries key) →
      asset.rename { s with entries := es } = asset.rename s) ∧
    ∀ r ∈ (asset.rename s).records, ∀ short, r.replace = some short →
      ∃ e, Entry.firstOf? s.entries (r.kind, r.find) = some e ∧ e.replace = short := by
  have hfirst : ∀ es, (∀ key, Entry.firstOf? es key = Entry.firstOf? s.entries key) →
      asset.rename { s with entries := es } = asset.rename s := by
    intro es h
    refine rename_of_get?_eq (fun k name => ?_) asset
    rw [Lookup.get?_ofEntries, Lookup.get?_ofEntries]
    exact congrArg (Option.map Entry.replace) (h (k, name))
  refine ⟨fun es hnodup hp => ?_, fun more h => hfirst _ (Entry.firstOf?_append h), hfirst,
    fun r hr short hshort => ?_⟩
  · exact rename_of_get?_eq (Lookup.get?_ofEntries_of_perm hnodup hp) asset
  · have hget := Renamer.get?_of_mem_records hr hshort
    rw [Lookup.get?_ofEntries] at hget
    exact Option.map_eq_some_iff.1 hget

/-- A class and an id of one name, and a longer name behind its beginning. -/
def mixedSettings : RenamingSettings where
  entries := [⟨"x", "a", .cls⟩, ⟨"x", "b", .id⟩, ⟨"x-y", "c", .cls⟩]
  literals := [⟨"x", .cls⟩, ⟨"x-y", .cls⟩]

def mixedAsset : Asset := ⟨"main.js", "className:\"x x-y\" id:\"x\" 'x-y'"⟩

theorem content_mixedAsset :
    (mixedAsset.rename mixedSettings).content = "className:\"a c\" id:\"b\" 'c'".toList := by
  simp only [rename, Renamer.rename, Renamer.ofSettings, Renamer.literalsOf_eq_insertionSort]
  decide +kernel

/-- Each name has its replacement, also with the other order and with a second entry for the class. -/
theorem rename_firstOf_mixed :
    (mixedSettings.entries.map Entry.key).Nodup ∧
      (mixedAsset.rename mixedSettings).content = "className:\"a c\" id:\"b\" 'c'".toList ∧
      mixedAsset.rename { mixedSettings with entries := mixedSettings.entries.reverse } =
        mixedAsset.rename mixedSettings ∧
      mixedAsset.rename { mixedSettings with
        entries := mixedSettings.entries ++ [⟨"x", "z", .cls⟩] } = mixedAsset.rename mixedSettings := by
  have hnodup : (mixedSettings.entries.map Entry.key).Nodup := by decide
  obtain ⟨hperm, happend, -⟩ := rename_firstOf mixedSettings mixedAsset
  exact ⟨hnodup, content_mixedAsset, hperm _ hnodup (List.reverse_perm _), happend _ (by decide)⟩

end Asset

end SelectorRename
