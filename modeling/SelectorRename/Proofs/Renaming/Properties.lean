/-
  Whose values a pass over an attribute renames.

  * `Attribute.Opens`: the value of a property begins behind its name, a colon and a quote. The name
    is the longest run of name characters and dollar signs there.
  * `Attribute.ChangesValues`: a text with the values of some properties replaced and nothing else.
  * `Attribute.changes_iff`: a pass over an attribute renames the values of all properties whose names
    end with its name, not of this one property alone.
  * `Renamer.Passes`, `Renamer.rename_passes`: every pass over an asset does so in the text that the
    passes before it left.
  * `Renamer.not_onlyConfigured_grid`: hence the value of a property that is no attribute may change.
-/
import SelectorRename.Proofs.Renaming.Unchanged

namespace SelectorRename

namespace Attribute

/-! ## Properties -/

/-- A letter, a digit, an underscore, a hyphen or a dollar sign. -/
def PropertyChar (c : Char) : Prop := Text.NameChar c ∨ c = '$'

instance : DecidablePred PropertyChar := fun _ => inferInstanceAs (Decidable (_ ∨ _))

/-- Behind `passed` the value of a property begins, whose name is the longest one that stands there. -/
def Opens (property passed : List Char) : Prop :=
  ∃ u, passed = u ++ property ++ site ∧ Text.Longest PropertyChar property.reverse u.reverse

variable {a : Attribute} {d : Dictionary}
variable {property passed text out u v w t rest : List Char} {c : Char}

/-- The name of the property is read from the right. -/
theorem Opens.eq (h : Opens property passed) :
    property = ((passed.reverse.drop 2).takeWhile fun c => PropertyChar c).reverse := by
  obtain ⟨u, rfl, hlongest⟩ := h
  have hdrop : (u ++ property ++ site).reverse.drop 2 = property.reverse ++ u.reverse := by
    simp [site]
  rw [hdrop, hlongest.takeWhile_eq fun _ => decide_eq_true_iff, List.reverse_reverse]

/-- The marker of an attribute stands before the values of the properties that its name ends. -/
theorem marker_suffix_iff_opens (ha : ∀ c ∈ a.name.toList, PropertyChar c) :
    a.marker <:+ passed ↔ ∃ property, Opens property passed ∧ a.name.toList <:+ property := by
  constructor
  · rintro ⟨u, rfl⟩
    have hlongest := Text.longest_takeWhile (p := fun c => decide (PropertyChar c))
      (fun _ => decide_eq_true_iff) u.reverse
    refine ⟨(u.reverse.takeWhile fun c => PropertyChar c).reverse ++ a.name.toList,
      ⟨(u.reverse.dropWhile fun c => PropertyChar c).reverse, ?_, ?_⟩, List.suffix_append ..⟩
    · rw [← List.append_assoc, ← List.reverse_append, List.takeWhile_append_dropWhile,
        List.reverse_reverse, marker_eq, List.append_assoc]
    · rw [List.reverse_append, List.reverse_reverse, List.reverse_reverse]
      refine ⟨fun c hc => ?_, hlongest.2⟩
      rcases List.mem_append.1 hc with hc | hc
      · exact ha c (List.mem_reverse.1 hc)
      · exact hlongest.1 c hc
  · rintro ⟨property, ⟨u, rfl, -⟩, ⟨p, rfl⟩⟩
    exact ⟨u ++ p, by simp [marker_eq]⟩

/-! ## Texts with some values replaced -/

/-- What becomes of a text that stands behind `passed` if the values of the properties `mine` are
    replaced, each one together with what follows it as `becomes` says, and all else stays. -/
inductive ChangesValues (mine : List Char → Prop)
    (becomes : List Char → List Char → List Char → Prop) :
    List Char → List Char → List Char → Prop
  | nil {passed : List Char} : ChangesValues mine becomes passed [] []
  | stays {passed text out : List Char} {c : Char} :
      (∀ property, Opens property passed → ¬ mine property) →
      ChangesValues mine becomes (passed ++ [c]) text out →
      ChangesValues mine becomes passed (c :: text) (c :: out)
  | value {property passed v w text out : List Char} {c : Char} : Opens property passed →
      mine property → (∀ x ∈ v, ValueChar x) → ¬ ValueChar c → becomes v (c :: text) w →
      ChangesValues mine becomes (passed ++ v ++ [c]) text out →
      ChangesValues mine becomes passed (v ++ c :: text) (w ++ c :: out)
  | last {property passed v w : List Char} : Opens property passed → mine property →
      (∀ x ∈ v, ValueChar x) → becomes v [] w → ChangesValues mine becomes passed v w

variable {mine : List Char → Prop} {becomes : List Char → List Char → List Char → Prop}

/-- A text stays if all of its values do. -/
theorem ChangesValues.eq_of_forall (h : ChangesValues mine becomes passed text out)
    (hsame : ∀ property u v rest w, passed ++ text = u ++ v ++ rest → Opens property u →
      mine property → becomes v rest w → w = v) : out = text := by
  induction h with
  | nil => rfl
  | stays _ _ ih => rw [ih (by simpa using hsame)]
  | value hopens hmine _ _ hw _ ih =>
    rw [hsame _ _ _ _ _ (List.append_assoc ..).symm hopens hmine hw, ih (by simpa using hsame)]
  | last hopens hmine _ hw => exact hsame _ _ _ [] _ (by simp) hopens hmine hw

/-- Characters that are not in front of a value of these properties stay. -/
theorem ChangesValues.stays_append
    (hno : ∀ y, y <+: u → y ≠ u → ∀ property, Opens property (passed ++ y) → ¬ mine property)
    (h : ChangesValues mine becomes (passed ++ u) text out) :
    ChangesValues mine becomes passed (u ++ text) (u ++ out) := by
  induction u generalizing passed with
  | nil => simpa using h
  | cons c u ih =>
    refine .stays (by simpa using hno [] List.nil_prefix) (ih (fun y hy hne => ?_) (by simpa using h))
    simpa using hno (c :: y) (List.cons_prefix_cons.2 ⟨rfl, hy⟩) (by simpa using hne)

/-- Nothing else can become of a text, if nothing else can become of a value. -/
theorem ChangesValues.unique {out' : List Char} (hnil : ∀ w, becomes [] [] w → w = [])
    (hunique : ∀ v rest w w', becomes v rest w → becomes v rest w' → w = w')
    (h : ChangesValues mine becomes passed text out)
    (h' : ChangesValues mine becomes passed text out') : out = out' := by
  induction h generalizing out' with
  | nil =>
    generalize hs : ([] : List Char) = s at h'
    cases h' with
    | nil => rfl
    | stays => cases hs
    | value => simp at hs
    | last _ _ _ hw =>
      subst hs
      exact (hnil _ hw).symm
  | @stays passed text out c hno _ ih =>
    generalize hs : c :: text = s at h'
    cases h' with
    | nil => cases hs
    | stays _ h' =>
      obtain ⟨rfl, rfl⟩ := List.cons.inj hs
      rw [ih h']
    | value hopens hmine => exact absurd hmine (hno _ hopens)
    | last hopens hmine => exact absurd hmine (hno _ hopens)
  | @value property passed v w text out c hopens hmine hv hc hw _ ih =>
    generalize hs : v ++ c :: text = s at h'
    cases h' with
    | nil => simp at hs
    | stays hno => exact absurd hmine (hno _ hopens)
    | value _ _ hv' hc' hw' h' =>
      obtain ⟨rfl, htail⟩ := (Text.longest_cons hv hc text).unique (Text.longest_cons hv' hc' _) hs
      obtain ⟨rfl, rfl⟩ := List.cons.inj htail
      rw [hunique _ _ _ _ hw hw', ih h']
    | last _ _ hall => exact absurd (hall c (hs ▸ by simp)) hc
  | last hopens hmine hv hw =>
    cases h' with
    | nil => exact hnil _ hw
    | stays hno => exact absurd hmine (hno _ hopens)
    | value _ _ _ hc' => exact absurd (hv _ (by simp)) hc'
    | last _ _ _ hw' => exact hunique _ _ _ _ hw hw'

/-! ## The values that a pass renames -/

variable (a) in
/-- A character ends the value `v` and stands before the next marker. -/
def Ended (v rest : List Char) : Prop :=
  rest ≠ [] ∧ ∀ u t, v ++ rest = u ++ a.marker ++ t → v.length < u.length

variable (a d) in
/-- What a pass makes of a value in front of `rest`. -/
inductive Becomes : List Char → List Char → List Char → Prop
  | ended {v rest w : List Char} {rs : List Record} : a.Ended v rest → a.RenamesValue d v w rs →
      Becomes v rest w
  | running {v rest : List Char} : ¬ a.Ended v rest → Becomes v rest v

theorem Becomes.eq_of_nil (h : a.Becomes d v [] w) : w = v := by
  cases h with
  | ended hend => exact absurd rfl hend.1
  | running => rfl

theorem Becomes.unique {w' : List Char} (h : a.Becomes d v rest w) (h' : a.Becomes d v rest w') :
    w = w' := by
  cases h with
  | ended hend hw =>
    cases h' with
    | ended _ hw' => rw [← (renamesValue_iff.1 hw).1, (renamesValue_iff.1 hw').1]
    | running hnot => exact absurd hend hnot
  | running hnot =>
    cases h' with
    | ended hend => exact absurd hend hnot
    | running => rfl

/-- Without an entry, a value stays. -/
theorem RenamesValue.eq_of_get?_eq_none {rs : List Record}
    (hd : ∀ k name, d.lookup.get? k name = none) (h : a.RenamesValue d v w rs) : w = v := by
  refine h.eq_of_silent (h.silent_iff.2 fun name _ hreplaces => ?_)
  simpa [hd] using hreplaces.2

theorem Becomes.eq_of_get?_eq_none (hd : ∀ k name, d.lookup.get? k name = none)
    (h : a.Becomes d v rest w) : w = v := by
  cases h with
  | ended _ hw => exact hw.eq_of_get?_eq_none hd
  | running => rfl

variable (a d) in
/-- What a pass makes of a text that stands behind `passed`. -/
abbrev Changes (passed text out : List Char) : Prop :=
  ChangesValues (fun property => a.name.toList <:+ property) (a.Becomes d) passed text out

variable (a) in
/-- Behind `passed`, every marker that ends in the text begins in it. -/
def Fresh (passed text : List Char) : Prop :=
  ∀ y, y <+: text → a.marker <:+ passed ++ y → a.marker <:+ y

variable {m y before behind : List Char}

theorem marker_eq_concat (a : Attribute) : a.marker = a.name.toList ++ [':'] ++ ['"'] := by
  simp [marker_eq, site]

theorem exists_eq_append_cons (h : v ++ c :: text = u ++ t) (hlen : v.length < u.length) :
    ∃ w, u = v ++ c :: w := by
  have hvalue : v ++ [c] <+: v ++ c :: text := ⟨text, by simp⟩
  have hbegin : u <+: v ++ c :: text := ⟨t, h.symm⟩
  obtain ⟨w, rfl⟩ := List.prefix_of_prefix_length_le hvalue hbegin
    (by simpa [Nat.succ_le_iff] using hlen)
  exact ⟨w, by simp⟩

theorem length_behind_lt (before behind : List Char) :
    behind.length < (before ++ a.marker ++ behind).length := by
  have := List.length_pos_iff.2 a.marker_ne_nil
  simp only [List.length_append]
  omega

/-- A text behind a marker ends with a quote. -/
theorem quote_mem_of_suffix (h : a.marker <:+ passed) (hm : m <:+ passed) (hne : m ≠ []) :
    '"' ∈ m := by
  obtain rfl | ⟨m, c, rfl⟩ := List.eq_nil_or_concat m
  · exact absurd rfl hne
  · obtain ⟨u, rfl⟩ := h
    obtain ⟨v, hv⟩ := hm
    rw [marker_eq_concat, ← List.append_assoc, List.concat_eq_append, ← List.append_assoc] at hv
    obtain ⟨-, rfl⟩ := List.append_singleton_inj.1 hv
    simp

section
variable (ha : ∀ c ∈ a.name.toList, PropertyChar c)
include ha

theorem quote_not_mem_beginning (hm : m <+: a.marker) (hne : m ≠ a.marker) : '"' ∉ m := by
  rw [marker_eq_concat] at hm hne
  intro hmem
  rcases List.mem_append.1 (((List.prefix_concat_iff.1 hm).resolve_left hne).subset hmem) with
    hname | hcolon
  · exact absurd (ha _ hname) (by decide)
  · simp at hcolon

/-- Markers do not overlap. -/
theorem marker_suffix_of_append (hpassed : a.marker <:+ passed) (hy : y ≠ [])
    (h : a.marker <:+ passed ++ y) : a.marker <:+ y := by
  rcases List.suffix_or_suffix_of_suffix h (List.suffix_append passed y) with hs | ⟨m, hm⟩
  · exact hs
  · -- a beginning of the marker that ends `passed` would end with the quote
    obtain rfl | hne := eq_or_ne m []
    · rw [List.nil_append] at hm
      rw [hm]
    · rw [← hm, List.suffix_append_self_iff] at h
      have hmarker : m ≠ a.marker := fun heq => hy (by simpa [heq] using hm)
      exact absurd (quote_mem_of_suffix hpassed h hne)
        (quote_not_mem_beginning ha ⟨y, hm⟩ hmarker)

end

/-! ## One pass -/

theorem content_rename_cons (h : ¬ a.marker <+: c :: text) :
    (a.rename d (c :: text)).content = c :: (a.rename d text).content := by
  have hcut := Text.cut?_cons a.marker c text
  rw [if_neg (mt List.isPrefixOf_iff_prefix.1 h)] at hcut
  rcases htext : Text.cut? a.marker text with _ | ⟨before, behind⟩
  · rw [htext] at hcut
    rw [rename_of_cut?_eq_none hcut, rename_of_cut?_eq_none htext]
    rfl
  · rw [htext] at hcut
    rw [rename_of_cut?_eq_some hcut, rename_of_cut?_eq_some htext]
    simp [Renamed.concat, Renamed.copy]

/-- A value without an end. -/
theorem renameBehind_of_not_ended (hv : ∀ x ∈ v, ValueChar x) :
    a.renameBehind d a.name.toList v = v := by
  have hsite : ¬ site <:+: v := fun h => absurd (hv ':' (h.subset (by simp [site]))) (by decide)
  rw [renameBehind_last hsite, renamePiece_of_forall hv]

/-- A value with an end in front of the next marker. -/
theorem renameBehind_of_ended (hv : ∀ x ∈ v, ValueChar x) (hc : ¬ ValueChar c)
    (hend : a.Ended v (c :: text)) :
    a.renameBehind d a.name.toList (v ++ c :: text) =
      (a.renameValue d v).content ++ c :: (a.rename d text).content := by
  obtain ⟨f, hf⟩ : ∃ f, Text.front a.marker (v ++ c :: text) = v ++ c :: f := by
    unfold Text.front
    rcases hcut : Text.cut? a.marker (v ++ c :: text) with _ | ⟨before, behind⟩
    · exact ⟨text, rfl⟩
    · have heq := Text.eq_of_cut? hcut
      have hlen := hend.2 before behind heq
      rw [List.append_assoc] at heq
      exact exists_eq_append_cons heq hlen
  have hprefix : ¬ a.marker <+: c :: text := by
    rintro ⟨t, ht⟩
    exact absurd (hend.2 v t (by rw [List.append_assoc, ht])) (lt_irrefl _)
  rw [renameBehind, if_pos List.suffix_rfl, hf, takeWhile_append_cons hv hc, List.drop_left,
    content_rename_cons hprefix, renameHead, takeWhile_append_cons hv hc, if_neg (by simp)]

theorem exists_leftmost_of_not_ended (hv : ∀ x ∈ v, ValueChar x) (h : ¬ a.Ended v (c :: text)) :
    ∃ u behind, v ++ c :: text = u ++ a.marker ++ behind ∧ Text.Leftmost a.marker u behind ∧
      ∀ x ∈ u, ValueChar x := by
  obtain ⟨u', t', heq, hlen'⟩ : ∃ u t, v ++ c :: text = u ++ a.marker ++ t ∧ u.length ≤ v.length := by
    simpa [Ended, and_comm] using h
  rcases hcut : Text.cut? a.marker (v ++ c :: text) with _ | ⟨u, behind⟩
  · exact absurd ⟨u', t', heq.symm⟩ (Text.cut?_eq_none_iff.1 hcut)
  · obtain ⟨hu, hleft⟩ := Text.cut?_eq_some_iff.1 hcut
    have hlen : u.length ≤ v.length := (hleft u' t' (heq.symm.trans hu)).trans hlen'
    have hbegin : u <+: v ++ c :: text := ⟨a.marker ++ behind, by simp [hu]⟩
    have huv := List.prefix_of_prefix_length_le hbegin (List.prefix_append ..) hlen
    exact ⟨u, behind, hu, hleft, fun x hx => hv x (huv.subset hx)⟩

/-- A value that runs into the next marker. -/
theorem renameBehind_of_running (hu : ∀ x ∈ u, ValueChar x) (h : Text.Leftmost a.marker u behind) :
    a.renameBehind d a.name.toList (u ++ a.marker ++ behind) =
      u ++ a.marker ++ a.renameBehind d a.name.toList behind := by
  have hcut := Text.cut?_eq_some_iff.2 ⟨rfl, h⟩
  rw [renameBehind, if_pos List.suffix_rfl]
  have hfront : Text.front a.marker (u ++ a.marker ++ behind) = u := by
    rw [Text.front, hcut]
  have hmarker : Text.cut? a.marker (a.marker ++ behind) = some ([], behind) :=
    Text.cut?_eq_some_iff.2 ⟨rfl, fun _ _ _ => Nat.zero_le _⟩
  rw [hfront, takeWhile_of_forall hu, List.append_assoc, List.drop_left,
    content_rename_of_cut? hmarker List.suffix_rfl]
  simp [renameHead, takeWhile_of_forall hu]

section
variable (ha : ∀ c ∈ a.name.toList, PropertyChar c)
include ha

theorem forall_opens_iff :
    (∀ property, Opens property passed → ¬ a.name.toList <:+ property) ↔ ¬ a.marker <:+ passed := by
  rw [marker_suffix_iff_opens ha]
  exact ⟨fun h ⟨property, hopens, hname⟩ => h property hopens hname,
    fun h property hopens hname => h ⟨property, hopens, hname⟩⟩

/-- Up to a marker a text stays. -/
theorem changes_of_fresh (hfresh : a.Fresh passed text)
    (hbehind : ∀ before behind, text = before ++ a.marker ++ behind →
      a.Changes d (passed ++ (before ++ a.marker)) behind (a.renameBehind d a.name.toList behind)) :
    a.Changes d passed text (a.rename d text).content := by
  rcases hcut : Text.cut? a.marker text with _ | ⟨before, behind⟩
  · rw [rename_of_cut?_eq_none hcut]
    have hstay : a.Changes d passed (text ++ []) (text ++ []) :=
      .stays_append (fun y hy _ => (forall_opens_iff ha).2 fun hm =>
        Text.cut?_eq_none_iff.1 hcut ((hfresh y hy hm).isInfix.trans hy.isInfix)) .nil
    simpa [Renamed.copy] using hstay
  · obtain ⟨rfl, hleft⟩ := Text.cut?_eq_some_iff.1 hcut
    rw [content_rename_of_cut? hcut List.suffix_rfl]
    refine .stays_append (fun y hy hne => (forall_opens_iff ha).2 fun hm => ?_) (hbehind _ _ rfl)
    -- a marker that ends in front of the first one would begin in front of it
    obtain ⟨u, rfl⟩ := hfresh y (hy.trans (List.prefix_append ..)) hm
    obtain ⟨t, ht⟩ := hy
    have hlen := hleft u (t ++ behind) (by rw [← ht]; simp)
    have ht' := congrArg List.length ht
    simp only [List.length_append] at ht'
    obtain rfl : t = [] := List.length_eq_zero_iff.1 (by omega)
    exact hne (by simpa using ht)

/-- Behind a value with an end, markers begin behind it. -/
theorem fresh_of_ended (hm : a.marker <:+ passed) (hend : a.Ended v (c :: text)) :
    a.Fresh (passed ++ v ++ [c]) text := by
  rintro y ⟨t, rfl⟩ hy
  rw [List.append_assoc, List.append_assoc] at hy
  obtain ⟨u, hu⟩ := marker_suffix_of_append ha hm (by simp) hy
  have hlen := hend.2 u t (by rw [hu]; simp)
  obtain ⟨u', rfl⟩ := exists_eq_append_cons hu.symm hlen
  exact ⟨u', by simpa using hu⟩

/-- A value that runs into the next marker stays, and so does this marker. -/
theorem changes_of_running (hm : a.marker <:+ passed) (hu : ∀ x ∈ u, ValueChar x)
    (hleft : Text.Leftmost a.marker u behind)
    (h : a.Changes d (passed ++ (u ++ a.marker)) behind (a.renameBehind d a.name.toList behind)) :
    a.Changes d passed (u ++ a.marker ++ behind)
      (a.renameBehind d a.name.toList (u ++ a.marker ++ behind)) := by
  rw [renameBehind_of_running hu hleft]
  obtain hall | ⟨n, c, k, hmarker, hn, hc⟩ := forall_or_exists_end a.marker
  · exact absurd (hall ':' (by simp [marker_eq, site])) (by decide)
  · have hrunning : ¬ a.Ended (u ++ n) (c :: (k ++ behind)) := by
      intro hend
      have hlen := hend.2 u behind (by simp [hmarker])
      rw [List.length_append] at hlen
      omega
    have hrest : a.Changes d (passed ++ (u ++ n) ++ [c]) (k ++ behind)
        (k ++ a.renameBehind d a.name.toList behind) := by
      refine .stays_append (fun y hy hne => (forall_opens_iff ha).2 fun hs => ?_)
        (by simpa [hmarker] using h)
      -- the part of the marker that was passed is no marker yet
      have hpart : n ++ c :: y <+: a.marker := by
        rw [hmarker]
        exact (List.prefix_append_right_inj n).2 (List.cons_prefix_cons.2 ⟨rfl, hy⟩)
      exact absurd (quote_mem_of_suffix (m := n ++ c :: y) hs ⟨passed ++ u, by simp⟩ (by simp))
        (quote_not_mem_beginning ha hpart (by simpa [hmarker] using hne))
    obtain ⟨property, hopens, hname⟩ := (marker_suffix_iff_opens ha).1 hm
    have hvalue : a.Changes d passed (u ++ n ++ c :: (k ++ behind))
        (u ++ n ++ c :: (k ++ a.renameBehind d a.name.toList behind)) :=
      .value hopens hname (List.forall_mem_append.2 ⟨hu, hn⟩) hc (.running hrunning) hrest
    simpa [hmarker] using hvalue

/-- A value with an end is renamed, and the pass goes on behind it. -/
theorem changes_of_ended (hm : a.marker <:+ passed) (hv : ∀ x ∈ v, ValueChar x)
    (hc : ¬ ValueChar c) (hend : a.Ended v (c :: text))
    (h : a.Changes d (passed ++ v ++ [c]) text (a.rename d text).content) :
    a.Changes d passed (v ++ c :: text) (a.renameBehind d a.name.toList (v ++ c :: text)) := by
  obtain ⟨property, hopens, hname⟩ := (marker_suffix_iff_opens ha).1 hm
  rw [renameBehind_of_ended hv hc hend]
  exact .value hopens hname hv hc (.ended hend (renamesValue_iff.2 ⟨rfl, rfl⟩)) h

/-- **What a pass does to a text**, from its beginning or from a value on. -/
theorem changes_rename_and_renameBehind (text : List Char) :
    (∀ passed, a.Fresh passed text → a.Changes d passed text (a.rename d text).content) ∧
      ∀ passed, a.marker <:+ passed →
        a.Changes d passed text (a.renameBehind d a.name.toList text) := by
  induction hlen : text.length using Nat.strong_induction_on generalizing text with
  | _ n ih =>
    constructor
    · refine fun passed hfresh => changes_of_fresh ha hfresh fun before behind htext => ?_
      have hlt : behind.length < n := hlen ▸ htext ▸ length_behind_lt before behind
      exact (ih _ hlt behind rfl).2 _ ⟨passed ++ before, by simp⟩
    · intro passed hm
      obtain hall | ⟨v, c, t, rfl, hv, hc⟩ := forall_or_exists_end text
      · obtain ⟨property, hopens, hname⟩ := (marker_suffix_iff_opens ha).1 hm
        rw [renameBehind_of_not_ended hall]
        exact .last hopens hname hall (.running fun hend => hend.1 rfl)
      · by_cases hend : a.Ended v (c :: t)
        · have hlt : t.length < n := by
            rw [← hlen]
            simp only [List.length_append, List.length_cons]
            omega
          exact changes_of_ended ha hm hv hc hend
            ((ih _ hlt t rfl).1 _ (fresh_of_ended ha hm hend))
        · obtain ⟨u, behind, htext, hleft, hu⟩ := exists_leftmost_of_not_ended hv hend
          have hlt : behind.length < n := hlen ▸ htext ▸ length_behind_lt u behind
          rw [htext]
          exact changes_of_running ha hm hu hleft
            ((ih _ hlt behind rfl).2 _ ⟨passed ++ u, by simp⟩)

/-- **A pass renames the values of the properties whose names end with that of the attribute**, and
    changes nothing else. -/
theorem changes_iff : a.Changes d [] text out ↔ (a.rename d text).content = out := by
  have hall := (changes_rename_and_renameBehind ha (d := d) text).1 [] fun _ _ hm => hm
  constructor
  · exact fun h => hall.unique (fun w hw => hw.eq_of_nil) (fun _ _ _ _ hw hw' => hw.unique hw') h
  · rintro rfl
    exact hall

end

end Attribute

/-! ## All passes -/

namespace Renamer

open Attribute

/-- What several passes make of a text, each one of what the one before it left. -/
inductive Passes (d : Dictionary) : List Attribute → List Char → List Char → Prop
  | nil {text : List Char} : Passes d [] text text
  | cons {a : Attribute} {as : List Attribute} {text mid out : List Char} :
      a.Changes d [] text mid → Passes d as mid out → Passes d (a :: as) text out

variable {w : Renamer} {d : Dictionary} {a : Attribute} {as : List Attribute}
variable {text out : List Char} {s : RenamingSettings}

theorem passes_iff (has : ∀ a ∈ as, ∀ c ∈ a.name.toList, PropertyChar c) :
    Passes w.dictionary as text out ↔ (w.renameAttributes as text).content = out := by
  induction as generalizing text with
  | nil =>
    refine ⟨fun h => ?_, fun h => ?_⟩
    · cases h
      rfl
    · obtain rfl : text = out := h
      exact .nil
  | cons a as ih =>
    rw [List.forall_mem_cons] at has
    refine ⟨fun h => ?_, fun h => ?_⟩
    · cases h with
      | cons hpass hrest =>
        obtain rfl := (changes_iff has.1).1 hpass
        exact (ih has.2).1 hrest
    · exact .cons ((changes_iff has.1).2 rfl) ((ih has.2).2 h)

/-- The attributes are those that are named. -/
theorem mem_attributesOf {extra : List String} :
    a ∈ attributesOf extra ↔ a.name ≠ "" ∧ a.name ∈ defaultAttributes ++ extra := by
  rw [attributesOf, List.mem_map]
  simp only [List.mem_eraseDups, List.mem_filter, decide_eq_true_eq, and_comm]
  constructor
  · rintro ⟨name, h, rfl⟩
    exact h
  · exact fun h => ⟨a.name, h, rfl⟩

/-- With an empty lookup, passes change nothing. -/
theorem content_renameAttributes_of_isEmpty (h : w.dictionary.lookup.isEmpty = true)
    (has : ∀ a ∈ as, ∀ c ∈ a.name.toList, PropertyChar c) (text : List Char) :
    (w.renameAttributes as text).content = text := by
  induction as with
  | nil => rfl
  | cons a as ih =>
    rw [List.forall_mem_cons] at has
    have hpass : (a.rename w.dictionary text).content = text :=
      ((changes_iff has.1).2 rfl).eq_of_forall fun _ _ _ _ _ _ _ _ hw =>
        hw.eq_of_get?_eq_none (KindMap.get?_of_isEmpty h)
    simp only [renameAttributes, Renamed.andThen, hpass, ih has.2]

/-- The names of properties that are attributes. -/
def Configured (s : RenamingSettings) (property : List Char) : Prop :=
  String.ofList property ∈ defaultAttributes ++ s.attributes

/-- The configured names consist of characters that the name of a property may have. -/
def PropertyNames (s : RenamingSettings) : Prop :=
  ∀ name ∈ s.attributes, ∀ c ∈ name.toList, PropertyChar c

instance (s : RenamingSettings) : DecidablePred (Configured s) :=
  fun _ => inferInstanceAs (Decidable (_ ∈ _))

instance : DecidablePred PropertyNames :=
  fun s => inferInstanceAs (Decidable (∀ name ∈ s.attributes, ∀ c ∈ name.toList, PropertyChar c))

theorem PropertyNames.of_mem (hs : PropertyNames s) (ha : a ∈ attributesOf s.attributes) :
    ∀ c ∈ a.name.toList, PropertyChar c := by
  have hdefault : ∀ name ∈ defaultAttributes, ∀ c ∈ name.toList, PropertyChar c := by
    simp [defaultAttributes, PropertyChar, Text.NameChar, Text.Alnum]
  rcases List.mem_append.1 (mem_attributesOf.1 ha).2 with h | h
  · exact hdefault _ h
  · exact hs _ h

/-- **Without literal rules, an asset is renamed by passes over configured attributes.** Each one
    renames the values of all properties whose names end with that of its attribute, and these
    alone. -/
theorem rename_passes (hs : PropertyNames s) (hliterals : s.literals = []) (asset : Asset)
    (out : List Char) :
    (((ofSettings s).rename asset).content = out ↔
        Passes (ofSettings s).dictionary (attributesOf s.attributes) asset.content.toList out) ∧
      ∀ a ∈ attributesOf s.attributes, Configured s a.name.toList := by
  have has : ∀ a ∈ attributesOf s.attributes, ∀ c ∈ a.name.toList, PropertyChar c :=
    fun a ha => hs.of_mem ha
  have hcontent : ((ofSettings s).rename asset).content =
      ((ofSettings s).renameAttributes (attributesOf s.attributes) asset.content.toList).content := by
    unfold rename
    split
    · next hempty => exact (content_renameAttributes_of_isEmpty hempty has _).symm
    · simp [ofSettings, hliterals, literalsOf, applyLiterals, Renamed.andThen, Renamed.copy]
  refine ⟨?_, fun a ha => ?_⟩
  · rw [hcontent, passes_iff has]
  · rw [Configured, String.ofList_toList]
    exact (mem_attributesOf.1 ha).2

/-- An entry for an id. -/
def gridSettings : RenamingSettings := { entries := [⟨"main", "c", .id⟩] }

/-- A text without class names and ids. -/
def gridAsset : Asset := ⟨"grid.js", "\x7bgrid:\"main\"\x7d"⟩

theorem rename_passes_grid :
    PropertyNames gridSettings ∧ gridSettings.literals = [] ∧
      Passes (ofSettings gridSettings).dictionary (attributesOf gridSettings.attributes)
        gridAsset.content.toList "\x7bgrid:\"c\"\x7d".toList :=
  have hs : PropertyNames gridSettings := by decide
  ⟨hs, rfl, (rename_passes hs rfl gridAsset _).1.1 (by decide +kernel)⟩

/-- What may become of a text in which at most values of configured attributes change. -/
def OnlyConfigured (s : RenamingSettings) (text out : List Char) : Prop :=
  ChangesValues (Configured s) (fun _ _ _ => True) [] text out

/-- **The value of a property that is not configured may change**, since its name may end with that
    of an attribute. -/
theorem not_onlyConfigured_grid :
    PropertyNames gridSettings ∧ gridSettings.literals = [] ∧
      ¬ OnlyConfigured gridSettings gridAsset.content.toList
        ((ofSettings gridSettings).rename gridAsset).content := by
  refine ⟨by decide, rfl, fun h => ?_⟩
  -- no property of the text is configured
  have hnone : ∀ u ∈ gridAsset.content.toList.inits, site <:+ u →
      ¬ Configured gridSettings
        ((u.reverse.drop 2).takeWhile fun c => PropertyChar c).reverse := by
    decide +kernel
  have hsame := h.eq_of_forall fun property u v rest w htext hopens hmine _ => by
    refine absurd (hopens.eq ▸ hmine) (hnone u ?_ ?_)
    · exact (List.mem_inits ..).2 ⟨v ++ rest, by simpa using htext.symm⟩
    · obtain ⟨t, rfl, -⟩ := hopens
      exact List.suffix_append ..
  have hchanged : ((ofSettings gridSettings).rename gridAsset).content ≠ gridAsset.content.toList := by
    decide +kernel
  exact hchanged hsame

end Renamer

end SelectorRename
