/-
  Assets that a renaming leaves alone.

  * `Record.Silent`: records of which none is about a change, and `Renamed.Honest`: a pass that
    leaves a text alone if its records are silent. So do two such passes one after the other
    (`Renamed.Honest.andThen`), and then the second one meets the text of the first one.
  * `Attribute.silent_rename_iff`: a pass over an attribute is silent if and only if no name in a
    value is replaced; `Attribute.honest_rename`: it is honest.
  * `Literal.count_replace_eq_zero_iff`, `Substitution.silent_applyLiteral_iff`: a literal rule is
    silent if and only if its name is nowhere before a delimiter.
  * `RenamingSettings.Misses`: settings by which nothing in a text is to be renamed.
  * `Asset.rename_unchanged`: an asset whose report is silent stays as it is, and these are the
    assets that the settings miss.
-/
import SelectorRename.Proofs.Renaming.Inverse
import SelectorRename.Proofs.Renaming.Words

namespace SelectorRename

/-! ## Reports without a change -/

/-- No record of a replaced name or of a literal rule that applied. -/
def Record.Silent (rs : List Record) : Prop :=
  ∀ r ∈ rs, r.outcome ≠ .replaced ∧ r.outcome ≠ .forced

namespace Record

variable {r : Record} {rs rs' : List Record}

instance (rs : List Record) : Decidable (Silent rs) :=
  inferInstanceAs (Decidable (∀ r ∈ rs, _ ∧ _))

theorem silent_nil : Silent [] := by simp [Silent]

theorem silent_append : Silent (rs ++ rs') ↔ Silent rs ∧ Silent rs' := List.forall_mem_append

theorem silent_cons : Silent (r :: rs) ↔ Silent [r] ∧ Silent rs := by
  rw [← silent_append, List.singleton_append]

end Record

open Record

namespace Renamed

/-- A pass that changes no text without a record of the change. -/
def Honest (f : List Char → Renamed) : Prop :=
  ∀ text, Silent (f text).records → (f text).content = text

variable {f g : List Char → Renamed} {text : List Char}

theorem honest_copy : Honest copy := fun _ _ => rfl

/-- Two passes are silent if each of them is silent about the text at the beginning. -/
theorem Honest.silent_andThen_iff (hf : Honest f) :
    Silent ((f text).andThen g).records ↔ Silent (f text).records ∧ Silent (g text).records := by
  rw [andThen, silent_append]
  refine and_congr_right fun h => ?_
  rw [hf text h]

theorem Honest.andThen (hf : Honest f) (hg : Honest g) : Honest fun text => (f text).andThen g := by
  intro text h
  obtain ⟨hfirst, hsecond⟩ := hf.silent_andThen_iff.1 h
  show (g (f text).content).content = text
  rw [hf text hfirst, hg text hsecond]

end Renamed

open Renamed

/-! ## A pass over an attribute -/

/-- A name that has an entry and is not kept. -/
def Dictionary.Replaces (d : Dictionary) (k : Kind) (name : List Char) : Prop :=
  d.keeps k (String.ofList name) = false ∧ (d.lookup.get? k (String.ofList name)).isSome

section

variable {d : Dictionary} {k : Kind} {name written : List Char} {r : Record}

theorem Dictionary.Renames.silent_iff (h : d.Renames k name written r) :
    Silent [r] ↔ ¬ d.Replaces k name := by
  cases h with
  | kept hkeeps => simp [Silent, Dictionary.Replaces, hkeeps]
  | replaced hkeeps hget => simp [Silent, Dictionary.Replaces, hkeeps, hget]
  | unknown hkeeps hget => simp [Silent, Dictionary.Replaces, hget]

theorem Dictionary.Renames.eq_of_silent (h : d.Renames k name written r) (hr : Silent [r]) :
    written = name := by
  cases h with
  | kept => rfl
  | replaced => simp [Silent] at hr
  | unknown => rfl

end

namespace Attribute

variable {a : Attribute} {d : Dictionary} {p q v w text : List Char} {ps qs : List (List Char)}
variable {rs : List Record}

theorem RenamesValue.silent_iff (h : a.RenamesValue d v w rs) :
    Silent rs ↔ ∀ name ∈ namesOf v, ¬ d.Replaces a.kind name := by
  induction h with
  | nil => simp [Silent, namesOf]
  | space _ ih => rw [namesOf_space, ih]
  | name hne hname hhead hr _ ih =>
    rw [namesOf_name hne hname hhead, List.forall_mem_cons, silent_cons, hr.silent_iff, ih]

theorem RenamesValue.eq_of_silent (h : a.RenamesValue d v w rs) (hrs : Silent rs) : w = v := by
  induction h with
  | nil => rfl
  | space _ ih => rw [ih hrs]
  | name _ _ _ hr _ ih =>
    obtain ⟨hfirst, hrest⟩ := silent_cons.1 hrs
    rw [hr.eq_of_silent hfirst, ih hrest]

/-- The value that a fragment begins with: something behind it is no character of a value. -/
def ValueOf (p v : List Char) : Prop :=
  ∃ c rest, p = v ++ c :: rest ∧ (∀ x ∈ v, ValueChar x) ∧ ¬ ValueChar c

theorem RenamesFragment.silent_iff (h : a.RenamesFragment d p q rs) :
    Silent rs ↔ ∀ v, ValueOf p v → ∀ name ∈ namesOf v, ¬ d.Replaces a.kind name := by
  cases h with
  | unterminated hp =>
    refine iff_of_true silent_nil ?_
    rintro v ⟨c, rest, rfl, -, hc⟩
    exact absurd (hp c (List.mem_append_right _ List.mem_cons_self)) hc
  | @value v w rest c rs hv hc hvalue =>
    rw [hvalue.silent_iff]
    constructor
    · rintro hnames v' ⟨c', rest', heq, hv', hc'⟩
      have hsame := (Text.longest_cons hv hc rest).unique (Text.longest_cons hv' hc' rest') heq
      exact hsame.1 ▸ hnames
    · exact fun hall => hall v ⟨c, rest, rfl, hv, hc⟩

theorem RenamesFragment.eq_of_silent (h : a.RenamesFragment d p q rs) (hrs : Silent rs) : q = p := by
  cases h with
  | unterminated => rfl
  | value _ _ hvalue => rw [hvalue.eq_of_silent hrs]

theorem RenamesFragments.silent_iff (h : a.RenamesFragments d ps qs rs) :
    Silent rs ↔ ∀ p ∈ ps, ∀ v, ValueOf p v → ∀ name ∈ namesOf v, ¬ d.Replaces a.kind name := by
  induction h with
  | nil => simp [Silent]
  | cons hfirst _ ih => rw [silent_append, List.forall_mem_cons, hfirst.silent_iff, ih]

theorem RenamesFragments.eq_of_silent (h : a.RenamesFragments d ps qs rs) (hrs : Silent rs) :
    qs = ps := by
  induction h with
  | nil => rfl
  | cons hfirst _ ih =>
    obtain ⟨hfragment, hrest⟩ := silent_append.1 hrs
    rw [hfirst.eq_of_silent hfragment, ih hrest]

/-- A value that a pass over an attribute renames. -/
def HasValue (a : Attribute) (text v : List Char) : Prop :=
  ∃ p ps, Text.Pieces a.marker text (p :: ps) ∧ ∃ q ∈ ps, ValueOf q v

/-- **A pass over an attribute is silent** if no name in a value is replaced, and only then. -/
theorem silent_rename_iff :
    Silent (a.rename d text).records ↔
      ∀ v, a.HasValue text v → ∀ name ∈ namesOf v, ¬ d.Replaces a.kind name := by
  have hpieces : ∀ {p ps}, Text.Pieces a.marker text (p :: ps) →
      (Silent (a.rename d text).records ↔
        ∀ q ∈ ps, ∀ v, ValueOf q v → ∀ name ∈ namesOf v, ¬ d.Replaces a.kind name) := by
    intro p ps hp
    obtain ⟨qs, rs, hq⟩ := exists_renamesFragments (a := a) (d := d) ps
    rw [(rename_of_pieces hp hq).2, hq.silent_iff]
  constructor
  · rintro h v ⟨p, ps, hp, q, hq, hv⟩
    exact (hpieces hp).1 h q hq v hv
  · intro h
    obtain ⟨p, ps, hp⟩ := Text.exists_pieces a.marker_ne_nil text
    exact (hpieces hp).2 fun q hq v hv => h v ⟨p, ps, hp, q, hq, hv⟩

/-- The pieces are put together as they were, those without an end too. -/
theorem honest_rename (a : Attribute) (d : Dictionary) : Honest (a.rename d) := by
  intro text h
  obtain ⟨p, ps, hp⟩ := Text.exists_pieces a.marker_ne_nil text
  obtain ⟨qs, rs, hq⟩ := exists_renamesFragments (a := a) (d := d) ps
  obtain ⟨hcontent, hrecords⟩ := rename_of_pieces hp hq
  rw [hrecords] at h
  rw [hcontent, hq.eq_of_silent h, hp.intercalate_eq]

end Attribute

/-! ## A literal rule -/

namespace Literal

variable {find replacement text : List Char}

/-- The text to find stands before a delimiter somewhere. -/
def EndsWord (find text : List Char) : Prop :=
  ∃ u d v, Delimiter d ∧ text = u ++ find ++ d :: v

/-- **Nothing is replaced** if the text to find is nowhere before a delimiter, and only then. -/
theorem count_replace_eq_zero_iff (hne : find ≠ []) :
    (replace find replacement text).2 = 0 ↔ ¬ EndsWord find text := by
  induction text with
  | nil => simp [replace_nil, EndsWord]
  | cons x rest ih =>
    by_cases hjump : ∃ d tail, Delimiter d ∧ x :: rest = find ++ d :: tail
    · obtain ⟨d, tail, hd, heq⟩ := hjump
      rw [heq, replace_jump hne hd]
      exact iff_of_false (Nat.succ_ne_zero _) (not_not.2 ⟨[], d, tail, hd, rfl⟩)
    · have hstep : ∀ d tail, Delimiter d → x :: rest ≠ find ++ d :: tail :=
        fun d tail hd heq => hjump ⟨d, tail, hd, heq⟩
      rw [replace_step hne hstep, ih, not_iff_not]
      constructor
      · rintro ⟨u, d, v, hd, rfl⟩
        exact ⟨x :: u, d, v, hd, rfl⟩
      · rintro ⟨u, d, v, hd, heq⟩
        rcases u with _ | ⟨y, u⟩
        · exact absurd heq (hstep d v hd)
        · exact ⟨u, d, v, hd, (List.cons.inj heq).2⟩

end Literal

/-- The name of a rule, which must not be empty, stands before a delimiter. -/
def LiteralRule.Matches (r : LiteralRule) (text : List Char) : Prop :=
  r.find ≠ "" ∧ Literal.EndsWord r.find.toList text

namespace Substitution

theorem silent_applyLiteral_iff_count {r : Substitution} {text : List Char} :
    Silent (Renamer.applyLiteral r text).records ↔
      (Literal.replace r.find.toList r.replacement.toList text).2 = 0 := by
  simp only [Renamer.applyLiteral]
  split_ifs with h
  · simp [Silent, Nat.ne_of_gt h]
  · simp [Silent, Renamed.copy, Nat.eq_zero_of_not_pos h]

theorem honest_applyLiteral (r : Substitution) : Honest (Renamer.applyLiteral r) := by
  intro text h
  rw [content_applyLiteral, Literal.replace_of_count_eq_zero (silent_applyLiteral_iff_count.1 h)]

theorem silent_applyLiteral_iff {r : Substitution} {text : List Char} :
    Silent (Renamer.applyLiteral r text).records ↔
      ¬ LiteralRule.Matches ⟨r.find, r.kind⟩ text := by
  rw [silent_applyLiteral_iff_count, LiteralRule.Matches]
  by_cases hempty : r.find = ""
  · simp [hempty, Literal.replace]
  · have hne : r.find.toList ≠ [] := mt String.toList_eq_nil_iff.1 hempty
    rw [Literal.count_replace_eq_zero_iff hne, not_and]
    exact ⟨fun h _ => h, fun h => h hempty⟩

end Substitution

/-! ## All passes -/

namespace Renamer

variable {w : Renamer} {as : List Attribute} {ls : List Substitution} {text : List Char}

theorem honest_renameAttributes (w : Renamer) (as : List Attribute) :
    Honest (w.renameAttributes as) := by
  induction as with
  | nil => exact honest_copy
  | cons a as ih => exact (a.honest_rename w.dictionary).andThen ih

theorem honest_applyLiterals (ls : List Substitution) : Honest (applyLiterals ls) := by
  induction ls with
  | nil => exact honest_copy
  | cons r ls ih => exact r.honest_applyLiteral.andThen ih

theorem silent_renameAttributes_iff :
    Silent (w.renameAttributes as text).records ↔
      ∀ a ∈ as, Silent (a.rename w.dictionary text).records := by
  induction as with
  | nil => simp [renameAttributes, copy, Silent]
  | cons a as ih =>
    rw [renameAttributes, (a.honest_rename w.dictionary).silent_andThen_iff, ih,
      List.forall_mem_cons]

theorem silent_applyLiterals_iff :
    Silent (applyLiterals ls text).records ↔ ∀ r ∈ ls, Silent (applyLiteral r text).records := by
  induction ls with
  | nil => simp [applyLiterals, copy, Silent]
  | cons r ls ih =>
    rw [applyLiterals, r.honest_applyLiteral.silent_andThen_iff, ih, List.forall_mem_cons]

end Renamer

/-- Settings by which nothing in a text is to be renamed: no name in a value has an entry, unless the
    whitelist protects it, and no literal rule with an entry has its name before a delimiter. -/
structure RenamingSettings.Misses (s : RenamingSettings) (text : List Char) : Prop where
  values : ∀ a ∈ Renamer.attributesOf s.attributes, ∀ v, a.HasValue text v →
    ∀ name ∈ Attribute.namesOf v, (a.kind, String.ofList name) ∈ s.entries.map Entry.key →
      (Whitelist.ofList s.ignore).containsName a.kind (String.ofList name) = true
  literals : ∀ r ∈ s.literals, (r.kind, r.find) ∈ s.entries.map Entry.key → ¬ r.Matches text

namespace Renamer

variable {s : RenamingSettings} {asset : Asset} {text : List Char}

theorem replaces_ofSettings_iff {k : Kind} {name : List Char} :
    (ofSettings s).dictionary.Replaces k name ↔
      (k, String.ofList name) ∈ s.entries.map Entry.key ∧
        ¬ (Whitelist.ofList s.ignore).containsName k (String.ofList name) = true := by
  rw [Dictionary.Replaces, and_comm, ← Lookup.isSome_get?_ofEntries]
  simp [ofSettings, NameFilter.ofWhitelists]

theorem forall_literals_iff :
    (∀ r ∈ (ofSettings s).literals, Silent (applyLiteral r text).records) ↔
      ∀ r ∈ s.literals, (r.kind, r.find) ∈ s.entries.map Entry.key → ¬ r.Matches text := by
  constructor
  · intro h r hr hentry
    obtain ⟨replacement, hget⟩ := Option.isSome_iff_exists.1 (Lookup.isSome_get?_ofEntries.2 hentry)
    exact Substitution.silent_applyLiteral_iff.1
      (h ⟨r.kind, r.find, replacement⟩ (mem_literalsOf.2 ⟨hr, hget⟩))
  · intro h r hr
    obtain ⟨hrule, hget⟩ := mem_literalsOf.1 hr
    refine Substitution.silent_applyLiteral_iff.2 (h _ hrule (Lookup.isSome_get?_ofEntries.1 ?_))
    rw [hget]
    rfl

/-- The settings miss a text if every pass is silent about it. -/
theorem misses_iff :
    s.Misses text ↔
      (∀ a ∈ (ofSettings s).attributes,
          Silent (a.rename (ofSettings s).dictionary text).records) ∧
        ∀ r ∈ (ofSettings s).literals, Silent (applyLiteral r text).records := by
  rw [forall_literals_iff]
  simp only [Attribute.silent_rename_iff, replaces_ofSettings_iff, not_and, not_not]
  exact ⟨fun h => ⟨h.values, h.literals⟩, fun h => ⟨h.1, h.2⟩⟩

/-- Without entries there is nothing to be renamed. -/
theorem misses_of_isEmpty (h : (ofSettings s).dictionary.lookup.isEmpty = true) : s.Misses text := by
  have hnone : ∀ key, key ∉ s.entries.map Entry.key := by
    intro key hkey
    have hsome := Lookup.isSome_get?_ofEntries.2 hkey
    have hget : (Lookup.ofEntries s.entries).get? key.1 key.2 = none := KindMap.get?_of_isEmpty h ..
    rw [hget] at hsome
    cases hsome
  exact ⟨fun _ _ _ _ _ _ hentry => absurd hentry (hnone _), fun _ _ hentry => absurd hentry (hnone _)⟩

theorem content_rename_of_silent (w : Renamer) (h : Silent (w.rename asset).records) :
    (w.rename asset).content = asset.content.toList := by
  unfold rename at h ⊢
  split_ifs at h ⊢
  · rfl
  · exact (w.honest_renameAttributes w.attributes).andThen (honest_applyLiterals w.literals) _ h

theorem silent_rename_iff :
    Silent ((ofSettings s).rename asset).records ↔ s.Misses asset.content.toList := by
  unfold rename
  split_ifs with hempty
  · exact iff_of_true silent_nil (misses_of_isEmpty hempty)
  · rw [misses_iff, ← silent_renameAttributes_iff, ← silent_applyLiterals_iff]
    exact (honest_renameAttributes _ _).silent_andThen_iff

end Renamer

namespace Asset

open Renamer

/-- **The report hides no change.** An asset whose report is silent stays as it is; the report is
    silent if and only if the settings miss the asset; then the text after each pass is still the
    text at the beginning; and without entries the report is empty as well. -/
theorem rename_unchanged (s : RenamingSettings) (asset : Asset) :
    (Silent (asset.rename s).records → (asset.rename s).content = asset.content.toList) ∧
      (Silent (asset.rename s).records ↔ s.Misses asset.content.toList) ∧
      (s.Misses asset.content.toList → ∀ n,
        ((ofSettings s).renameAttributes ((ofSettings s).attributes.take n)
            asset.content.toList).content = asset.content.toList ∧
          (applyLiterals ((ofSettings s).literals.take n)
            asset.content.toList).content = asset.content.toList) ∧
      (s.entries = [] →
        (asset.rename s).content = asset.content.toList ∧ (asset.rename s).records = []) := by
  refine ⟨fun h => content_rename_of_silent _ h, silent_rename_iff, fun h n => ?_, fun h => ?_⟩
  · obtain ⟨hattributes, hliterals⟩ := misses_iff.1 h
    constructor
    · refine honest_renameAttributes _ _ _ (silent_renameAttributes_iff.2 fun a ha => ?_)
      exact hattributes a (List.mem_of_mem_take ha)
    · refine honest_applyLiterals _ _ (silent_applyLiterals_iff.2 fun r hr => ?_)
      exact hliterals r (List.mem_of_mem_take hr)
  · have hempty : (ofSettings s).dictionary.lookup.isEmpty = true := by
      rw [ofSettings, h]
      rfl
    rw [Asset.rename, Renamer.rename, if_pos hempty]
    exact ⟨rfl, rfl⟩

/-- A name of the other kind, a protected one and one with a literal rule. -/
def idleSettings : RenamingSettings where
  entries := [⟨"btn", "a", .cls⟩, ⟨"active", "b", .cls⟩, ⟨"main", "c", .id⟩]
  attributes := ["extra"]
  ignore := ["act"]
  literals := [⟨"btn", .cls⟩]

/-- A text that has all these names, two of them in a value without an end. -/
def idleAsset : Asset :=
  ⟨"main.js", "extra:\"card  active\",id:\"btn-main\",className:\"main\",btn=id:\"main btn"⟩

theorem rename_unchanged_idle :
    Silent (idleAsset.rename idleSettings).records ∧
      (idleAsset.rename idleSettings).content = idleAsset.content.toList ∧
      idleSettings.Misses idleAsset.content.toList ∧
      ((ofSettings idleSettings).renameAttributes ((ofSettings idleSettings).attributes.take 2)
        idleAsset.content.toList).content = idleAsset.content.toList ∧
      (idleAsset.rename {}).records = [] := by
  have hsilent : Silent (idleAsset.rename idleSettings).records := by decide +kernel
  obtain ⟨hcontent, hiff, hpasses, -⟩ := rename_unchanged idleSettings idleAsset
  obtain ⟨-, -, -, hempty⟩ := rename_unchanged {} idleAsset
  have hmisses := hiff.1 hsilent
  exact ⟨hsilent, hcontent hsilent, hmisses, (hpasses hmisses 2).1, (hempty rfl).2⟩

end Asset

end SelectorRename
