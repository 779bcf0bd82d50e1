/-
  What the names in assets are replaced by.

  * `Lookup.get?_ofEntries`: of the entries of one kind and name the first one counts.
  * `Lookup.get?_ofEntries_eq_some_iff`: if no two entries share kind and name, each one counts, in
    whatever order they come.
  * `Renamer.mem_records_cases`: all that the report of an asset can list. Every replacement in it
    comes from the lookup (`Renamer.get?_of_mem_records`), and every name that it lists as protected
    is kept by the filter (`Renamer.keeps_of_mem_records`).
-/
import SelectorRename.Renaming.Asset
import SelectorRename.Proofs.Extraction.Invariant
import Mathlib.Data.List.Nodup

namespace SelectorRename

/-! ## Entries and lookup -/

namespace Lookup

variable {es : List Entry} {k : Kind} {name replacement : String}

theorem get?_foldl (es : List Entry) (l : Lookup) (k : Kind) (name : String) :
    (es.foldl (fun l e => l.insertNew e.kind e.find e.replace) l).get? k name =
      (l.get? k name).or ((es.find? fun e => e.key = (k, name)).map Entry.replace) := by
  induction es generalizing l with
  | nil => simp
  | cons e es ih =>
    rw [List.foldl_cons, ih, KindMap.get?_insertNew, List.find?_cons]
    by_cases h : e.key = (k, name)
    · obtain ⟨rfl, rfl⟩ := Prod.mk.inj h
      cases hl : KindMap.get? l e.kind e.find <;> simp [Entry.key]
    · have hne : ¬ (e.kind = k ∧ e.find = name ∧ KindMap.get? l e.kind e.find = none) :=
        fun hall => h (Prod.ext hall.1 hall.2.1)
      rw [if_neg hne]
      simp [h]

/-- **The first entry of a kind and name counts.** -/
theorem get?_ofEntries (es : List Entry) (k : Kind) (name : String) :
    (ofEntries es).get? k name = (es.find? fun e => e.key = (k, name)).map Entry.replace := by
  rw [ofEntries, get?_foldl, KindMap.get?_empty, Option.none_or]

theorem isSome_get?_ofEntries :
    ((ofEntries es).get? k name).isSome = true ↔ (k, name) ∈ es.map Entry.key := by
  rw [get?_ofEntries, Option.isSome_map, List.find?_isSome, List.mem_map]
  simp only [decide_eq_true_eq]

/-- With one entry for each kind and name, all of them count. -/
theorem get?_ofEntries_eq_some_iff (h : (es.map Entry.key).Nodup) :
    (ofEntries es).get? k name = some replacement ↔ ⟨name, replacement, k⟩ ∈ es := by
  rw [get?_ofEntries, Option.map_eq_some_iff]
  constructor
  · rintro ⟨e, he, rfl⟩
    obtain ⟨rfl, rfl⟩ : e.kind = k ∧ e.find = name := by
      simpa [Entry.key] using List.find?_some he
    exact List.mem_of_find?_eq_some he
  · intro hmem
    obtain ⟨e, he⟩ := Option.isSome_iff_exists.1 (List.find?_isSome.2
      ⟨⟨name, replacement, k⟩, hmem, by simp [Entry.key]⟩ :
        (es.find? fun e => e.key = (k, name)).isSome)
    refine ⟨e, he, ?_⟩
    have hkey : e.key = (k, name) := by simpa using List.find?_some he
    rw [List.inj_on_of_nodup_map h (List.mem_of_find?_eq_some he) hmem hkey]

/-- Then their order does not count. -/
theorem get?_ofEntries_of_perm {fs : List Entry} (h : (es.map Entry.key).Nodup) (hp : fs.Perm es)
    (k : Kind) (name : String) : (ofEntries fs).get? k name = (ofEntries es).get? k name := by
  have hfs : (fs.map Entry.key).Nodup := (hp.map _).nodup_iff.2 h
  refine Option.ext fun replacement => ?_
  rw [get?_ofEntries_eq_some_iff hfs, get?_ofEntries_eq_some_iff h, hp.mem_iff]

end Lookup

/-! ## Records of an asset -/

/-- A record with a replacement has it from the lookup. -/
def Record.From (l : Lookup) (r : Record) : Prop :=
  ∀ s, r.replace = some s → l.get? r.kind r.find = some s

theorem Dictionary.judge_from (d : Dictionary) (k : Kind) (name : String) :
    (d.judge k name).From d.lookup := by
  unfold judge
  split
  · simp [Record.From]
  · split
    · next s hs => simpa [Record.From] using hs
    · simp [Record.From]

theorem Dictionary.keeps_of_judge {d : Dictionary} {k : Kind} {name : String}
    (h : (d.judge k name).outcome = .whitelisted) :
    d.keeps (d.judge k name).kind (d.judge k name).find = true := by
  unfold judge at h ⊢
  split
  · next hkeeps => exact hkeeps
  · next hkeeps =>
    rw [if_neg hkeeps] at h
    split at h <;> cases h

theorem Attribute.exists_judge_of_mem_renameHead {d : Dictionary} {a : Attribute}
    {fragment : List Char} {r : Record} (h : r ∈ (a.renameHead d fragment).records) :
    ∃ name, r = d.judge a.kind name := by
  simp only [renameHead] at h
  split at h
  · simp at h
  · simp only [renameValue, judgeParts, List.mem_filterMap, List.mem_map] at h
    obtain ⟨part, ⟨name, -, rfl⟩, hr⟩ := h
    split at hr
    · simp at hr
    · exact ⟨String.ofList name, by simpa using hr.symm⟩

theorem Attribute.exists_judge_of_mem_rename {d : Dictionary} {a : Attribute} {text : List Char}
    {r : Record} (h : r ∈ (a.rename d text).records) : ∃ name, r = d.judge a.kind name := by
  induction text using a.rename_induction with
  | none text hcut =>
    rw [rename_of_cut?_eq_none hcut] at h
    simp [Renamed.copy] at h
  | some text before behind hcut ih =>
    rw [rename_of_cut?_eq_some hcut] at h
    simp only [Renamed.concat, Renamed.copy, List.flatMap_cons, List.flatMap_nil, List.nil_append,
      List.append_nil, List.mem_append] at h
    rcases h with h | h
    · exact exists_judge_of_mem_renameHead h
    · exact ih h

namespace Renamer

variable {w : Renamer}

theorem exists_judge_of_mem_renameAttributes (as : List Attribute) {text : List Char} {r : Record}
    (h : r ∈ (w.renameAttributes as text).records) : ∃ k name, r = w.dictionary.judge k name := by
  induction as generalizing text with
  | nil => simp [renameAttributes, Renamed.copy] at h
  | cons a as ih =>
    simp only [renameAttributes, Renamed.andThen, List.mem_append] at h
    rcases h with h | h
    · exact ⟨a.kind, Attribute.exists_judge_of_mem_rename h⟩
    · exact ih h

theorem exists_mem_of_mem_applyLiterals (ls : List Substitution) {text : List Char} {r : Record}
    (h : r ∈ (applyLiterals ls text).records) :
    ∃ s ∈ ls, r = ⟨s.find, some s.replacement, s.kind, .forced⟩ := by
  induction ls generalizing text with
  | nil => simp [applyLiterals, Renamed.copy] at h
  | cons s ls ih =>
    simp only [applyLiterals, Renamed.andThen, List.mem_append] at h
    rcases h with h | h
    · simp only [applyLiteral] at h
      split at h
      · exact ⟨s, List.mem_cons_self, List.mem_singleton.1 h⟩
      · simp [Renamed.copy] at h
    · obtain ⟨t, ht, hr⟩ := ih h
      exact ⟨t, List.mem_cons_of_mem _ ht, hr⟩

/-- **Every record of an asset** is the verdict on a name or that of a literal rule. -/
theorem mem_records_cases {asset : Asset} {r : Record} (h : r ∈ (w.rename asset).records) :
    (∃ k name, r = w.dictionary.judge k name) ∨
      ∃ s ∈ w.literals, r = ⟨s.find, some s.replacement, s.kind, .forced⟩ := by
  unfold rename at h
  split at h
  · simp [Renamed.copy] at h
  · simp only [Renamed.andThen, List.mem_append] at h
    rcases h with h | h
    · exact Or.inl (exists_judge_of_mem_renameAttributes _ h)
    · exact Or.inr (exists_mem_of_mem_applyLiterals _ h)

/-- The substitutions are the rules with an entry, each with the replacement of its name. -/
theorem mem_literalsOf {l : Lookup} {rules : List LiteralRule} {s : Substitution} :
    s ∈ literalsOf l rules ↔
      ⟨s.find, s.kind⟩ ∈ rules ∧ l.get? s.kind s.find = some s.replacement := by
  simp only [literalsOf, List.mem_mergeSort, List.mem_filterMap, List.mem_eraseDups,
    Option.map_eq_some_iff]
  constructor
  · rintro ⟨r, hr, replacement, hget, rfl⟩
    exact ⟨hr, hget⟩
  · rintro ⟨hr, hget⟩
    exact ⟨_, hr, s.replacement, hget, rfl⟩

/-- **Every replacement in a report comes from the lookup.** -/
theorem get?_of_mem_records {s : RenamingSettings} {asset : Asset} {r : Record} {replacement : String}
    (h : r ∈ ((ofSettings s).rename asset).records) (hr : r.replace = some replacement) :
    (Lookup.ofEntries s.entries).get? r.kind r.find = some replacement := by
  rcases mem_records_cases h with ⟨k, name, rfl⟩ | ⟨rule, hrule, rfl⟩
  · exact Dictionary.judge_from _ k name _ hr
  · obtain rfl := Option.some.inj hr
    exact (mem_literalsOf.1 hrule).2

/-- Every name that a report lists as protected is protected by the whitelist. -/
theorem keeps_of_mem_records {asset : Asset} {r : Record} (h : r ∈ (w.rename asset).records)
    (hr : r.outcome = .whitelisted) : w.dictionary.keeps r.kind r.find = true := by
  rcases mem_records_cases h with ⟨k, name, rfl⟩ | ⟨rule, -, rfl⟩
  · exact Dictionary.keeps_of_judge hr
  · cases hr

end Renamer

end SelectorRename
