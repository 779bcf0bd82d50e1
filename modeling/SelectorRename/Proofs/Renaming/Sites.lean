/-
  A pass over an attribute, between one colon with a quote and the next.

  * `Attribute.site`: the colon and the quote that every marker ends with. They cut a text into pieces
    in which no marker ends, so the piece in front of a value tells whose value it is.
  * `Attribute.renamePiece`: a piece after a pass; only the value that it begins with may change.
  * `Attribute.renameBehind_last`, `Attribute.renameBehind_site`: a pass does this to one piece after
    the other.
-/
import SelectorRename.Proofs.Renaming.Attribute
import Mathlib.Tactic.MkIffOfInductiveProp

namespace SelectorRename

/-! ## Texts with a character that others do not have -/

namespace Text

variable {c : Char} {m v x t : List Char}

theorem suffix_append_cons_iff (h : c ∉ m) : m <:+ x ++ c :: t ↔ m <:+ t := by
  constructor
  · intro hm
    rcases List.suffix_or_suffix_of_suffix hm (List.suffix_append x (c :: t)) with hs | hs
    · rcases List.suffix_cons_iff.1 hs with rfl | hs
      · exact absurd List.mem_cons_self h
      · exact hs
    · exact absurd (hs.subset List.mem_cons_self) h
  · exact fun hm => hm.trans ⟨x ++ [c], by simp⟩

theorem infix_append_iff (h : c ∉ v) : c :: m <:+: v ++ t ↔ c :: m <:+: t := by
  induction v with
  | nil => rw [List.nil_append]
  | cons x v ih =>
    rw [List.mem_cons, not_or] at h
    rw [List.cons_append, List.infix_cons_iff, ih h.2, List.cons_prefix_cons]
    simp [h.1]

end Text

namespace Attribute

variable {a : Attribute} {d : Dictionary} {p q r s u v t : List Char} {c : Char}

/-! ## Names and sites -/

instance : DecidablePred ValueChar := fun _ => decidable_of_iff _ isValueChar_iff

theorem valueChar_iff : ValueChar c ↔ Text.NameChar c ∨ c = ' ' := by
  simp only [ValueChar, Text.NameChar, Text.Alnum, or_assoc]

/-- The name of an attribute is a name. -/
@[mk_iff]
structure Plain (a : Attribute) : Prop where
  ne_nil : a.name.toList ≠ []
  nameText : Text.NameText a.name.toList

instance : DecidablePred Plain := fun a => decidable_of_iff _ (plain_iff a).symm

theorem Plain.not_mem (ha : a.Plain) (hc : ¬ ValueChar c) : c ∉ a.name.toList :=
  fun hmem => hc (valueChar_iff.2 (.inl (ha.nameText c hmem)))

/-- What stands between the name of an attribute and a value. -/
def site : List Char := [':', '"']

theorem marker_eq (a : Attribute) : a.marker = a.name.toList ++ site := rfl

/-- Sites do not overlap. -/
theorem leftmost_site (hp : ¬ site <:+: p) (s : List Char) : Text.Leftmost site p s := by
  intro u v huv
  rw [List.append_assoc, List.append_assoc] at huv
  rcases List.append_eq_append_iff.1 huv with ⟨b, rfl, hb⟩ | ⟨b, rfl, -⟩
  · rcases b with _ | ⟨x, _ | ⟨y, b⟩⟩
    · simp
    · simp [site] at hb
    · obtain ⟨rfl, rfl, -⟩ : ':' = x ∧ '"' = y ∧ v = b ++ (site ++ s) := by simpa [site] using hb
      exact absurd ⟨u, b, by simp [site]⟩ hp
  · simp

theorem not_site_infix_of_leftmost (h : Text.Leftmost site p s) : ¬ site <:+: p := by
  rintro ⟨u, v, rfl⟩
  have hlen := h u (v ++ site ++ s) (by simp)
  simp only [site, List.length_append, List.length_cons] at hlen
  omega

/-- A piece in front of a site is in front of all sites. -/
theorem exists_append_of_site (hq : ¬ site <:+: q) (h : p ++ (site ++ v) = q ++ (site ++ s)) :
    ∃ t, p = q ++ t := by
  have hlen : q.length ≤ p.length := leftmost_site hq s p v (by simpa using h)
  obtain ⟨t, rfl⟩ := List.prefix_of_prefix_length_le ⟨site ++ s, rfl⟩ ⟨site ++ v, h⟩ hlen
  exact ⟨t, rfl⟩

theorem site_infix_append_iff (hv : ∀ x ∈ v, ValueChar x) : site <:+: v ++ t ↔ site <:+: t :=
  Text.infix_append_iff fun hmem => absurd (hv _ hmem) (by decide)

/-- Behind a piece that the name does not end, markers stand where they stand in the rest. -/
theorem Plain.exists_of_marker (ha : a.Plain) (hq : ¬ site <:+: q) (hname : ¬ a.name.toList <:+ q)
    (h : u ++ a.marker ++ v = q ++ site ++ s) :
    ∃ u', u = q ++ site ++ u' ∧ u' ++ a.marker ++ v = s := by
  have hsite : (u ++ a.name.toList) ++ (site ++ v) = q ++ (site ++ s) := by
    simpa [marker_eq] using h
  obtain ⟨b, hb⟩ := exists_append_of_site hq hsite
  rw [hb, List.append_assoc] at hsite
  have hrest := List.append_cancel_left hsite
  rcases b with _ | ⟨x, _ | ⟨y, b⟩⟩
  · exact absurd ⟨u, by simpa using hb⟩ hname
  · simp [site] at hrest
  · obtain ⟨rfl, rfl, hs⟩ : x = ':' ∧ y = '"' ∧ b ++ site ++ v = s := by
      simpa [site] using hrest
    -- the name does not reach back over the quote
    have hsuffix : a.name.toList <:+ (q ++ [':']) ++ '"' :: b := ⟨u, by simpa using hb⟩
    obtain ⟨u', hu'⟩ := (Text.suffix_append_cons_iff (ha.not_mem (by decide))).1 hsuffix
    rw [← hu'] at hb hs
    refine ⟨u', ?_, by simpa [marker_eq] using hs⟩
    exact List.append_cancel_right (show u ++ a.name.toList = _ by simpa [site] using hb)

theorem cut?_of_not_site (h : ¬ site <:+: s) : Text.cut? a.marker s = none :=
  Text.cut?_eq_none_iff.2 fun hm => h ((List.suffix_append a.name.toList site).isInfix.trans hm)

theorem cut?_of_name (hq : ¬ site <:+: u ++ a.name.toList) (s : List Char) :
    Text.cut? a.marker (u ++ a.name.toList ++ site ++ s) = some (u, s) := by
  refine Text.cut?_eq_some_iff.2 ⟨by simp [marker_eq], fun u' v huv => ?_⟩
  have hlen := leftmost_site hq s (u' ++ a.name.toList) v (by simpa [marker_eq] using huv)
  simpa using hlen

theorem Plain.cut?_of_not_name (ha : a.Plain) (hq : ¬ site <:+: q) (hname : ¬ a.name.toList <:+ q)
    (s : List Char) :
    Text.cut? a.marker (q ++ site ++ s) =
      (Text.cut? a.marker s).map fun parts => (q ++ site ++ parts.1, parts.2) := by
  rcases hcut : Text.cut? a.marker s with _ | ⟨before, behind⟩
  · refine Text.cut?_eq_none_iff.2 fun ⟨u, v, huv⟩ => ?_
    obtain ⟨u', -, rfl⟩ := ha.exists_of_marker hq hname huv
    exact Text.cut?_eq_none_iff.1 hcut ⟨u', v, rfl⟩
  · obtain ⟨rfl, hleft⟩ := Text.cut?_eq_some_iff.1 hcut
    refine Text.cut?_eq_some_iff.2 ⟨by simp, fun u v huv => ?_⟩
    obtain ⟨u', rfl, hu'⟩ := ha.exists_of_marker hq hname (by simpa using huv)
    have hlen := hleft u' v (by simpa using hu')
    simp only [List.length_append]
    omega

/-! ## A pass over the text behind a piece -/

variable (a d) in
/-- A piece after a pass, given the piece before it. -/
def renamePiece (q r : List Char) : List Char :=
  if a.name.toList <:+ q then
    (a.renameHead d r).content ++ r.drop (r.takeWhile isValueChar).length
  else r

variable (a d) in
/-- The text behind a piece after a pass: a value comes first if the attribute's name ends the
    piece. -/
def renameBehind (q s : List Char) : List Char :=
  if a.name.toList <:+ q then
    (a.renameHead d (Text.front a.marker s)).content ++
      (a.rename d (s.drop ((Text.front a.marker s).takeWhile isValueChar).length)).content
  else (a.rename d s).content

theorem renamePiece_of_forall (hr : ∀ x ∈ r, ValueChar x) : a.renamePiece d q r = r := by
  simp [renamePiece, renameHead, takeWhile_of_forall hr]

theorem renamePiece_of_name (hq : a.name.toList <:+ q) (hv : ∀ x ∈ v, ValueChar x)
    (hc : ¬ ValueChar c) :
    a.renamePiece d q (v ++ c :: t) = (a.renameValue d v).content ++ c :: t := by
  simp [renamePiece, hq, renameHead, takeWhile_append_cons hv hc]

theorem renamePiece_of_not_name (hq : ¬ a.name.toList <:+ q) : a.renamePiece d q r = r :=
  if_neg hq

theorem renameBehind_congr (h : a.name.toList <:+ p ↔ a.name.toList <:+ q) :
    a.renameBehind d p s = a.renameBehind d q s := by
  simp only [renameBehind, h]

theorem content_rename_of_cut? {before behind : List Char}
    (h : Text.cut? a.marker s = some (before, behind)) (hq : a.name.toList <:+ q) :
    (a.rename d s).content = before ++ a.marker ++ a.renameBehind d q behind := by
  rw [rename_of_cut?_eq_some h, renameBehind, if_pos hq]
  simp [Renamed.concat, Renamed.copy]

theorem content_rename_of_not_site (h : ¬ site <:+: s) : (a.rename d s).content = s := by
  rw [rename_of_cut?_eq_none (cut?_of_not_site h)]
  rfl

theorem renameBehind_last (hr : ¬ site <:+: r) : a.renameBehind d q r = a.renamePiece d q r := by
  have hdrop : ∀ n, ¬ site <:+: r.drop n := fun n hs => hr (hs.trans (List.drop_suffix n r).isInfix)
  simp only [renameBehind, renamePiece, Text.front, cut?_of_not_site hr, content_rename_of_not_site (hdrop _),
    content_rename_of_not_site hr]

/-- Where no value begins, a piece stays. -/
theorem Plain.content_rename_site (ha : a.Plain) (hr : ¬ site <:+: r) :
    (a.rename d (r ++ site ++ s)).content = r ++ site ++ a.renameBehind d r s := by
  by_cases hname : a.name.toList <:+ r
  · obtain ⟨u, rfl⟩ := hname
    rw [content_rename_of_cut? (cut?_of_name hr s) (List.suffix_append ..), marker_eq,
      ← List.append_assoc]
  · rw [renameBehind, if_neg hname]
    have hcut := ha.cut?_of_not_name hr hname s
    rcases hs : Text.cut? a.marker s with _ | ⟨before, behind⟩
    · rw [hs] at hcut
      rw [rename_of_cut?_eq_none hcut, rename_of_cut?_eq_none hs]
      rfl
    · rw [hs] at hcut
      rw [rename_of_cut?_eq_some hcut, rename_of_cut?_eq_some hs]
      simp [Renamed.concat, Renamed.copy]

/-- A character that ends the value stands before the next marker. -/
theorem Plain.exists_front_eq (ha : a.Plain) (hc : ¬ ValueChar c)
    (hr : ¬ site <:+: v ++ c :: t) (s : List Char) :
    ∃ rest, Text.front a.marker (v ++ c :: t ++ site ++ s) = v ++ c :: rest := by
  unfold Text.front
  rcases hcut : Text.cut? a.marker (v ++ c :: t ++ site ++ s) with _ | ⟨before, behind⟩
  · exact ⟨t ++ site ++ s, by simp⟩
  · have heq := Text.eq_of_cut? hcut
    have hsite : v ++ c :: t ++ (site ++ s) = (before ++ a.name.toList) ++ (site ++ behind) := by
      simpa [marker_eq] using heq
    obtain ⟨b, hb⟩ := exists_append_of_site hr hsite.symm
    have hsuffix : a.name.toList <:+ v ++ c :: (t ++ b) := ⟨before, by simpa using hb⟩
    obtain ⟨u, hu⟩ := (Text.suffix_append_cons_iff (ha.not_mem hc)).1 hsuffix
    rw [List.append_assoc, List.cons_append, ← hu] at hb
    exact ⟨u, List.append_cancel_right (show before ++ a.name.toList = _ by simpa using hb)⟩

/-- **A pass goes from piece to piece.** If a value begins the piece, it has an end there. -/
theorem Plain.renameBehind_site (ha : a.Plain) (hr : ¬ site <:+: r)
    (hend : a.name.toList <:+ q → ¬ ∀ x ∈ r, ValueChar x) :
    a.renameBehind d q (r ++ site ++ s) = a.renamePiece d q r ++ site ++ a.renameBehind d r s := by
  by_cases hq : a.name.toList <:+ q
  · obtain hall | ⟨v, c, t, rfl, hv, hc⟩ := forall_or_exists_end r
    · exact absurd hall (hend hq)
    · obtain ⟨rest, hrest⟩ := ha.exists_front_eq hc hr s
      have hct : ¬ site <:+: c :: t := (site_infix_append_iff hv).not.1 hr
      have hdrop : (v ++ c :: t ++ site ++ s).drop v.length = c :: t ++ site ++ s := by simp
      have hnext : a.renameBehind d (c :: t) s = a.renameBehind d (v ++ c :: t) s :=
        renameBehind_congr ((Text.suffix_append_cons_iff (x := []) (ha.not_mem hc)).trans
          (Text.suffix_append_cons_iff (ha.not_mem hc)).symm)
      rw [renameBehind, if_pos hq, hrest, takeWhile_append_cons hv hc, hdrop,
        ha.content_rename_site hct, renamePiece_of_name hq hv hc, hnext]
      simp [renameHead, takeWhile_append_cons hv hc]
  · rw [renameBehind, if_neg hq, renamePiece_of_not_name hq, ha.content_rename_site hr]

end Attribute

end SelectorRename
