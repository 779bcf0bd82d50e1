/-
  Taking a renaming back.

  * `Entry.inverse`: an entry that puts the find in the place of the replacement, and `OneToOne`:
    entries of one kind that can be taken back, because no two of them share a text.
  * `Attribute.RenamesValue.inverse`: a value is taken back name by name.
  * `Attribute.Reversible`: a text in which no value has a name that only looks like a replacement.
  * `Attribute.Plain.rename_inverse`: in such a text the second pass meets the same markers and values as
    the first one, and takes each of them back.
-/
import SelectorRename.Proofs.Renaming.Markers

namespace SelectorRename

/-! ## Entries that can be taken back -/

/-- The entry that takes a replacement back. -/
def Entry.inverse (e : Entry) : Entry := ⟨e.replace, e.find, e.kind⟩

/-- Entries of one kind by which names replace names. No two have the same find, and no two the same
    replacement; a replacement may be the find of another entry. -/
structure OneToOne (k : Kind) (es : List Entry) : Prop where
  kind_eq : ∀ e ∈ es, e.kind = k
  find_name : ∀ e ∈ es, e.find.toList ≠ [] ∧ Text.NameText e.find.toList
  replace_name : ∀ e ∈ es, e.replace.toList ≠ [] ∧ Text.NameText e.replace.toList
  finds_nodup : (es.map Entry.find).Nodup
  replaces_nodup : (es.map Entry.replace).Nodup

namespace OneToOne

variable {k : Kind} {es : List Entry} {keeps : NameFilter} {name written : List Char} {r : Record}

theorem inverse (h : OneToOne k es) : OneToOne k (es.map Entry.inverse) where
  kind_eq := List.forall_mem_map.2 h.kind_eq
  find_name := List.forall_mem_map.2 h.replace_name
  replace_name := List.forall_mem_map.2 h.find_name
  finds_nodup := by simpa [Function.comp_def, Entry.inverse] using h.replaces_nodup
  replaces_nodup := by simpa [Function.comp_def, Entry.inverse] using h.finds_nodup

theorem keys_nodup (h : OneToOne k es) : (es.map Entry.key).Nodup := by
  refine List.Nodup.of_map Prod.snd ?_
  rw [List.map_map]
  exact h.finds_nodup

theorem get?_eq_some_iff (h : OneToOne k es) {find replacement : String} :
    (Lookup.ofEntries es).get? k find = some replacement ↔
      ∃ e ∈ es, e.find = find ∧ e.replace = replacement := by
  rw [Lookup.get?_ofEntries_eq_some_iff h.keys_nodup]
  constructor
  · exact fun hmem => ⟨_, hmem, rfl, rfl⟩
  · rintro ⟨e, he, rfl, rfl⟩
    obtain rfl := h.kind_eq e he
    exact he

theorem get?_eq_none_iff (h : OneToOne k es) {find : String} :
    (Lookup.ofEntries es).get? k find = none ↔ find ∉ es.map Entry.find := by
  rw [Option.eq_none_iff_forall_ne_some, List.mem_map]
  constructor
  · rintro hnone ⟨e, he, hfind⟩
    exact hnone _ (h.get?_eq_some_iff.2 ⟨e, he, hfind, rfl⟩)
  · intro hno replacement hsome
    obtain ⟨e, he, hfind, -⟩ := h.get?_eq_some_iff.1 hsome
    exact hno ⟨e, he, hfind⟩

theorem lookup_plain (h : OneToOne k es) : (Lookup.ofEntries es).Plain :=
  Lookup.plain_ofEntries fun e he => (h.replace_name e he).2

/-- **One name is taken back**, unless it is not replaced although it is a replacement. -/
theorem renames_inverse (h : OneToOne k es) (hkeeps : ∀ l s, keeps l s = false)
    (hname : String.ofList name ∉ es.map Entry.find → String.ofList name ∉ es.map Entry.replace)
    (hr : Dictionary.Renames ⟨.ofEntries es, keeps⟩ k name written r) :
    ∃ r', Dictionary.Renames ⟨.ofEntries (es.map Entry.inverse), keeps⟩ k written name r' := by
  cases hr with
  | kept hkept => simp [hkeeps] at hkept
  | replaced _ hget =>
    obtain ⟨e, he, hfind, rfl⟩ := h.get?_eq_some_iff.1 hget
    have hback : (Lookup.ofEntries (es.map Entry.inverse)).get? k e.replace = some e.find :=
      h.inverse.get?_eq_some_iff.2 ⟨e.inverse, List.mem_map_of_mem he, rfl, rfl⟩
    rw [← String.ofList_toList (s := e.replace)] at hback
    have hrename := Dictionary.Renames.replaced
      (d := ⟨.ofEntries (es.map Entry.inverse), keeps⟩) (hkeeps k _) hback
    rw [hfind, String.toList_ofList] at hrename
    exact ⟨_, hrename⟩
  | unknown _ hget =>
    have hno : String.ofList name ∉ es.map Entry.replace := hname (h.get?_eq_none_iff.1 hget)
    refine ⟨_, .unknown (hkeeps ..) (h.inverse.get?_eq_none_iff.2 ?_)⟩
    simpa [Entry.inverse] using hno

/-- What stands in the place of a name is a name. -/
theorem written_name (h : OneToOne k es)
    (hr : Dictionary.Renames ⟨.ofEntries es, keeps⟩ k name written r) (hne : name ≠ [])
    (hspace : ' ' ∉ name) : written ≠ [] ∧ ' ' ∉ written := by
  cases hr with
  | kept => exact ⟨hne, hspace⟩
  | replaced _ hget =>
    obtain ⟨e, he, -, rfl⟩ := h.get?_eq_some_iff.1 hget
    obtain ⟨hshort, htext⟩ := h.replace_name e he
    exact ⟨hshort, fun hmem => absurd (htext _ hmem) (by decide)⟩
  | unknown => exact ⟨hne, hspace⟩

end OneToOne

namespace Attribute

variable {a : Attribute} {d d' : Dictionary} {es : List Entry} {keeps : NameFilter}
variable {full passed text q r u v w rest name : List Char} {rs : List Record}

/-! ## One value -/

/-- The names of a value: what stands between its spaces. -/
def namesOf (v : List Char) : List (List Char) := (v.splitOn ' ').filter (· ≠ [])

theorem namesOf_space (v : List Char) : namesOf (' ' :: v) = namesOf v := by
  have hsplit := List.splitOn_append_cons_self_of_not_mem (List.not_mem_nil (a := ' ')) v
  rw [List.nil_append] at hsplit
  simp [namesOf, hsplit]

theorem namesOf_name (hne : name ≠ []) (hname : ' ' ∉ name) (hv : ∀ c ∈ v.head?, c = ' ') :
    namesOf (name ++ v) = name :: namesOf v := by
  rcases v with _ | ⟨c, v⟩
  · simp [namesOf, List.splitOn_eq_singleton hname, hne]
  · obtain rfl : c = ' ' := hv c rfl
    rw [namesOf_space]
    simp [namesOf, List.splitOn_append_cons_self_of_not_mem hname, hne]

/-- A name ends where it did before. -/
theorem RenamesValue.head?_eq_space (h : a.RenamesValue d v w rs) (hv : ∀ c ∈ v.head?, c = ' ') :
    ∀ c ∈ w.head?, c = ' ' := by
  cases h with
  | nil => exact hv
  | space => exact fun c hc => (Option.some.inj hc).symm
  | @name name written v w r rs hne hname =>
    obtain ⟨c, name, rfl⟩ := List.exists_cons_of_ne_nil hne
    exact absurd (hv c rfl) fun hc => hname (hc ▸ List.mem_cons_self)

/-- **A value is taken back** if each of its names is. -/
theorem RenamesValue.inverse (hes : OneToOne a.kind es) (hkeeps : ∀ k s, keeps k s = false)
    (h : a.RenamesValue ⟨.ofEntries es, keeps⟩ v w rs)
    (hv : ∀ name ∈ namesOf v, String.ofList name ∉ es.map Entry.find →
      String.ofList name ∉ es.map Entry.replace) :
    ∃ rs', a.RenamesValue ⟨.ofEntries (es.map Entry.inverse), keeps⟩ w v rs' := by
  induction h with
  | nil => exact ⟨[], .nil⟩
  | space _ ih =>
    rw [namesOf_space] at hv
    obtain ⟨rs', h'⟩ := ih hv
    exact ⟨rs', .space h'⟩
  | name hne hname hhead hr hrest ih =>
    rw [namesOf_name hne hname hhead, List.forall_mem_cons] at hv
    obtain ⟨rs', h'⟩ := ih hv.2
    obtain ⟨r', hr'⟩ := hes.renames_inverse hkeeps hv.1 hr
    obtain ⟨hne', hname'⟩ := hes.written_name hr hne hname
    exact ⟨r' :: rs', .name hne' hname' (hrest.head?_eq_space hhead) hr' h'⟩

/-! ## A whole text -/

/-- A text in whose values every name that is a replacement is replaced itself. -/
def Reversible (a : Attribute) (es : List Entry) (text : List Char) : Prop :=
  ∀ u v rest, text = u ++ a.marker ++ v ++ rest → Text.Longest ValueChar v rest →
    ∀ name ∈ namesOf v, String.ofList name ∉ es.map Entry.find →
      String.ofList name ∉ es.map Entry.replace

instance (a : Attribute) (es : List Entry) (text : List Char) : Decidable (a.Reversible es text) :=
  decidable_of_iff _ (forall_value_iff (P := fun v _ => ∀ name ∈ namesOf v,
    String.ofList name ∉ es.map Entry.find → String.ofList name ∉ es.map Entry.replace)).symm

/-- Both passes over a piece: the second one takes its value back. -/
theorem renamePiece_renamePiece (hd : d.lookup.Plain)
    (hback : a.name.toList <:+ q → ∀ v c t, r = v ++ c :: t → (∀ x ∈ v, ValueChar x) →
      ¬ ValueChar c → (a.renameValue d' (a.renameValue d v).content).content = v) :
    a.renamePiece d' q (a.renamePiece d q r) = r := by
  by_cases hq : a.name.toList <:+ q
  · rcases forall_or_exists_end r with hr | ⟨v, c, t, rfl, hv, hc⟩
    · rw [renamePiece_of_forall hr, renamePiece_of_forall hr]
    · have hw := valueChar_of_renamesValue hd (a := a) (renamesValue_iff.2 ⟨rfl, rfl⟩) hv
      rw [renamePiece_of_name hq hv hc, renamePiece_of_name hq hw hc, hback hq v c t rfl hv hc]
  · rw [renamePiece_of_not_name hq, renamePiece_of_not_name hq]

/-- **The second pass goes over the same pieces** as the first one and takes back each value. -/
theorem Passed.renameBehind_renameBehind {mid : List Char} (ha : a.Plain) (hd : d.lookup.Plain)
    (hback : ∀ u v rest, full = u ++ a.marker ++ v ++ rest → Text.Longest ValueChar v rest →
      (a.renameValue d' (a.renameValue d v).content).content = v)
    (h : Passed [a] [] d q text mid) (heq : passed ++ text = full) (hp : Begins [a] passed q) :
    a.renameBehind d' q (a.renameBehind d q mid) = mid := by
  have has : ∀ b ∈ [a], b.Plain := by simpa using ha
  have hpiece : ∀ {passed q r : List Char} (t : List Char), Begins [a] passed q →
      passed ++ (r ++ t) = full → a.renamePiece d' q (a.renamePiece d q r) = r := by
    intro passed q r t hp heq
    refine renamePiece_renamePiece hd fun hq v c s hr hv hc => ?_
    obtain ⟨u, rfl⟩ := (hp.marker_iff a (List.mem_singleton_self a)).2 hq
    exact hback u v (c :: s ++ t) (by simp [← heq, hr]) (Text.longest_cons hv hc _)
  induction h generalizing passed with
  | @last q r hr =>
    have hr' : ¬ site <:+: a.renamePiece d q r := (site_infix_renamePieceAll_iff hd [a]).not.2 hr
    show a.renameBehind d' q (a.renameBehind d q r) = r
    rw [renameBehind_last hr, renameBehind_last hr', hpiece [] hp (by simpa using heq)]
  | @next q r text out hr hend _ ih =>
    have hr' : ¬ site <:+: a.renamePiece d q r := (site_infix_renamePieceAll_iff hd [a]).not.2 hr
    have hend' : a.name.toList <:+ q → ¬ ∀ x ∈ a.renamePiece d q r, ValueChar x :=
      fun hq => (forall_renamePieceAll_iff hd [a]).not.2 (hend a (List.mem_singleton_self a) hq)
    -- the renamed piece still ends with the name if it did before
    have hnext : a.renameBehind d' (a.renamePiece d q r) (a.renameBehind d r out) =
        a.renameBehind d' r (a.renameBehind d r out) :=
      renameBehind_congr (ha.name_suffix_renamePieceAll_iff hd [a])
    show a.renameBehind d' q (a.renameBehind d q (r ++ site ++ out)) = r ++ site ++ out
    rw [ha.renameBehind_site hr (hend a (List.mem_singleton_self a)),
      ha.renameBehind_site hr' hend', hpiece (site ++ text) hp (by simpa using heq), hnext,
      ih (by simpa using heq) (hp.next has r)]

/-- **Renaming is taken back by the inverse entries**, if no value runs into a marker and no name
    looks like a replacement that it is not. -/
theorem Plain.rename_inverse (ha : a.Plain) (hes : OneToOne a.kind es)
    (hkeeps : ∀ k s, keeps k s = false) (htext : Closed [a] text) (hrev : a.Reversible es text) :
    (a.rename ⟨.ofEntries (es.map Entry.inverse), keeps⟩
      (a.rename ⟨.ofEntries es, keeps⟩ text).content).content = text := by
  have has : ∀ b ∈ [a], b.Plain := by simpa using ha
  obtain ⟨p, ps, hps⟩ := Text.exists_pieces (m := site) (by simp [site]) text
  have hpassed : Passed [a] [] ⟨.ofEntries es, keeps⟩ [] text text :=
    htext.passed_self has hps rfl (begins_nil has)
  have hback : ∀ u v rest, text = u ++ a.marker ++ v ++ rest → Text.Longest ValueChar v rest →
      (a.renameValue ⟨.ofEntries (es.map Entry.inverse), keeps⟩
        (a.renameValue ⟨.ofEntries es, keeps⟩ v).content).content = v := by
    intro u v rest heq hlongest
    obtain ⟨rs, h⟩ := (renamesValue_iff.2 ⟨rfl, rfl⟩ : a.RenamesValue ⟨.ofEntries es, keeps⟩ v _ _)
      |>.inverse hes hkeeps (hrev u v rest heq hlongest)
    exact (renamesValue_iff.1 h).1
  have hboth := hpassed.renameBehind_renameBehind ha hes.lookup_plain hback rfl (begins_nil has)
  -- at the beginning of the text no value is open
  have hstart : ¬ a.name.toList <:+ [] := fun hs => ha.ne_nil (List.suffix_nil.1 hs)
  rwa [renameBehind, if_neg hstart, renameBehind, if_neg hstart] at hboth

/-- Two entries in a row: the replacement of the first one is the find of the second one. -/
def chainedEntries : List Entry := [⟨"btn", "a", .cls⟩, ⟨"a", "b", .cls⟩]

theorem rename_inverse_chained :
    Plain ⟨"className"⟩ ∧ OneToOne (⟨"className"⟩ : Attribute).kind chainedEntries ∧
      Closed [⟨"className"⟩] "className:\"btn  a x\",className:\"btn".toList ∧
      Reversible ⟨"className"⟩ chainedEntries "className:\"btn  a x\",className:\"btn".toList ∧
      ((⟨"className"⟩ : Attribute).rename ⟨.ofEntries (chainedEntries.map Entry.inverse), fun _ _ => false⟩
        "className:\"a  b x\",className:\"btn".toList).content =
        "className:\"btn  a x\",className:\"btn".toList := by
  have ha : Plain ⟨"className"⟩ := by decide
  have hes : OneToOne (⟨"className"⟩ : Attribute).kind chainedEntries :=
    ⟨by decide, by decide, by decide, by decide, by decide⟩
  have htext : Closed [⟨"className"⟩] "className:\"btn  a x\",className:\"btn".toList := by
    decide +kernel
  have hrev : Reversible ⟨"className"⟩ chainedEntries
      "className:\"btn  a x\",className:\"btn".toList := by decide +kernel
  have hkeeps : ∀ k s, (fun _ _ => false : NameFilter) k s = false := fun _ _ => rfl
  have hback := ha.rename_inverse hes hkeeps htext hrev
  have hfirst : ((⟨"className"⟩ : Attribute).rename ⟨.ofEntries chainedEntries, fun _ _ => false⟩
      "className:\"btn  a x\",className:\"btn".toList).content =
      "className:\"a  b x\",className:\"btn".toList := by decide +kernel
  rw [hfirst] at hback
  exact ⟨ha, hes, htext, hrev, hback⟩

end Attribute

end SelectorRename
