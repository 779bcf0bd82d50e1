/-
  All attributes of a text, one pass after another.

  * `Attribute.RenamesMarked`: what becomes of a text if each value behind a marker is renamed once,
    all of them at the same time.
  * `Attribute.Passed`: a text after some passes, piece by piece. `Attribute.Passed.pass` is what one
    more pass does, `Attribute.Passed.renameAttributes` what several of them do, and
    `Attribute.Passed.renamesMarked` says that this comes to renaming all values at once.
  * `Renamer.renameAttributes_iff`: whatever the order of the passes, the result is the same as if
    they were one, if no name of an attribute ends another one and no value runs into a marker.
-/
import SelectorRename.Proofs.Renaming.Lookup
import SelectorRename.Proofs.Renaming.Sites

namespace SelectorRename

/-- Only names replace names. -/
def Lookup.Plain (l : Lookup) : Prop :=
  ∀ k name short, l.get? k name = some short → Text.NameText short.toList

theorem Lookup.plain_ofEntries {es : List Entry} (h : ∀ e ∈ es, Text.NameText e.replace.toList) :
    (ofEntries es).Plain := by
  intro k name short hget
  rw [get?_ofEntries, Option.map_eq_some_iff] at hget
  obtain ⟨e, he, rfl⟩ := hget
  exact h e (List.mem_of_find?_eq_some he)

namespace Attribute

/-! ## All values at once -/

/-- What becomes of a text that stands behind `passed`. A value right behind the marker of an
    attribute is renamed if another character ends it, and everything else stays. -/
inductive RenamesMarked (as : List Attribute) (d : Dictionary) :
    List Char → List Char → List Char → Prop
  | nil {passed : List Char} : RenamesMarked as d passed [] []
  | stays {passed text out : List Char} {c : Char} : (∀ a ∈ as, ¬ a.marker <:+ passed) →
      RenamesMarked as d (passed ++ [c]) text out →
      RenamesMarked as d passed (c :: text) (c :: out)
  | value {a : Attribute} {passed v w text out : List Char} {c : Char} {rs : List Record} :
      a ∈ as → a.marker <:+ passed → (∀ x ∈ v, ValueChar x) → ¬ ValueChar c →
      a.RenamesValue d v w rs → RenamesMarked as d (passed ++ v ++ [c]) text out →
      RenamesMarked as d passed (v ++ c :: text) (w ++ c :: out)
  | unterminated {a : Attribute} {passed v : List Char} : a ∈ as → a.marker <:+ passed →
      (∀ x ∈ v, ValueChar x) → RenamesMarked as d passed v v

/-- Attributes with different names, none of which ends another one. -/
@[mk_iff]
structure Separate (as : List Attribute) : Prop where
  plain : ∀ a ∈ as, a.Plain
  nodup : as.Nodup
  eq_of_suffix : ∀ a ∈ as, ∀ b ∈ as, a.name.toList <:+ b.name.toList → a = b

/-- A text in which no longest value behind a marker runs into a site. -/
def Closed (as : List Attribute) (text : List Char) : Prop :=
  ∀ a ∈ as, ∀ u v rest, text = u ++ a.marker ++ v ++ rest → Text.Longest ValueChar v rest →
    ¬ site <+: rest

variable {as bs : List Attribute} {a b : Attribute} {d : Dictionary}
variable {p q r u v w t text rest out passed : List Char} {c : Char}

instance : DecidablePred Separate := fun as => decidable_of_iff _ (separate_iff as).symm

/-- The values behind the markers of an attribute are found by looking at every end of the text. -/
theorem forall_value_iff {P : List Char → List Char → Prop} :
    (∀ u v rest, text = u ++ a.marker ++ v ++ rest → Text.Longest ValueChar v rest → P v rest) ↔
      ∀ s ∈ text.tails, a.marker <+: s →
        P ((s.drop a.marker.length).takeWhile isValueChar)
          ((s.drop a.marker.length).dropWhile isValueChar) := by
  constructor
  · rintro h s hs ⟨t, rfl⟩
    obtain ⟨u, hu⟩ := List.mem_tails _ _ |>.1 hs
    have hlongest := Text.longest_takeWhile (fun c => isValueChar_iff (c := c)) t
    rw [List.drop_left]
    refine h u (t.takeWhile isValueChar) _ ?_ hlongest
    rw [← hu, List.append_assoc _ (t.takeWhile _), List.takeWhile_append_dropWhile,
      List.append_assoc]
  · rintro h u v rest rfl hlongest
    have hrest := h (a.marker ++ (v ++ rest))
      ((List.mem_tails _ _).2 ⟨u, by simp⟩) (List.prefix_append ..)
    rwa [List.drop_left, hlongest.takeWhile_eq fun _ => isValueChar_iff,
      hlongest.dropWhile_eq fun _ => isValueChar_iff] at hrest

theorem closed_iff : Closed as text ↔ ∀ a ∈ as, ∀ s ∈ text.tails, a.marker <+: s →
    ¬ site <+: (s.drop a.marker.length).dropWhile isValueChar :=
  forall₂_congr fun _ _ => forall_value_iff (P := fun _ rest => ¬ site <+: rest)

instance (as : List Attribute) (text : List Char) : Decidable (Closed as text) :=
  decidable_of_iff _ closed_iff.symm

theorem Separate.of_perm (h : Separate as) (hp : bs.Perm as) : Separate bs where
  plain a ha := h.plain a (hp.mem_iff.1 ha)
  nodup := hp.nodup_iff.2 h.nodup
  eq_of_suffix a ha b hb := h.eq_of_suffix a (hp.mem_iff.1 ha) b (hp.mem_iff.1 hb)

theorem Separate.eq_of_name (h : Separate as) (ha : a ∈ as) (hb : b ∈ as)
    (haq : a.name.toList <:+ q) (hbq : b.name.toList <:+ q) : a = b := by
  rcases List.suffix_or_suffix_of_suffix haq hbq with hs | hs
  · exact h.eq_of_suffix a ha b hb hs
  · exact (h.eq_of_suffix b hb a ha hs).symm

theorem marker_suffix_iff : a.marker <:+ q ++ site ↔ a.name.toList <:+ q := by
  rw [marker_eq, List.suffix_append_self_iff]

theorem Separate.eq_of_marker (h : Separate as) (ha : a ∈ as) (hb : b ∈ as)
    (haq : a.marker <:+ passed) (hbq : b.marker <:+ passed) : a = b := by
  obtain ⟨u, hu⟩ := haq
  rw [marker_eq, ← List.append_assoc] at hu
  subst hu
  exact h.eq_of_name ha hb (List.suffix_append ..) (marker_suffix_iff.1 hbq)

theorem RenamesMarked.of_nil (h : RenamesMarked as d passed [] out) : out = [] := by
  generalize hs : ([] : List Char) = s at h
  cases h with
  | nil => rfl
  | stays => cases hs
  | value => simp at hs
  | unterminated => rfl

theorem RenamesMarked.of_not_marker (h : RenamesMarked as d passed (c :: text) out)
    (hno : ∀ a ∈ as, ¬ a.marker <:+ passed) :
    ∃ out', out = c :: out' ∧ RenamesMarked as d (passed ++ [c]) text out' := by
  generalize hs : c :: text = s at h
  cases h with
  | nil => cases hs
  | stays _ h =>
    obtain ⟨rfl, rfl⟩ := List.cons.inj hs
    exact ⟨_, rfl, h⟩
  | value ha hm => exact absurd hm (hno _ ha)
  | unterminated ha hm => exact absurd hm (hno _ ha)

theorem RenamesMarked.of_value (h : RenamesMarked as d passed (v ++ c :: text) out)
    (has : Separate as) (ha : a ∈ as) (hm : a.marker <:+ passed) (hv : ∀ x ∈ v, ValueChar x)
    (hc : ¬ ValueChar c) :
    ∃ out', out = (a.renameValue d v).content ++ c :: out' ∧
      RenamesMarked as d (passed ++ v ++ [c]) text out' := by
  generalize hs : v ++ c :: text = s at h
  cases h with
  | nil => simp at hs
  | stays hno => exact absurd hm (hno _ ha)
  | value hb hmb hv' hc' hw h =>
    obtain rfl := has.eq_of_marker ha hb hm hmb
    obtain ⟨rfl, htail⟩ := (Text.longest_cons hv hc text).unique (Text.longest_cons hv' hc' _) hs
    obtain ⟨rfl, rfl⟩ := List.cons.inj htail
    exact ⟨_, by rw [(renamesValue_iff.1 hw).1], h⟩
  | unterminated _ _ hall => exact absurd (hall c (hs ▸ by simp)) hc

theorem RenamesMarked.of_unterminated (h : RenamesMarked as d passed v out) (ha : a ∈ as)
    (hm : a.marker <:+ passed) (hv : ∀ x ∈ v, ValueChar x) : out = v := by
  cases h with
  | nil => rfl
  | stays hno => exact absurd hm (hno _ ha)
  | value _ _ _ hc => exact absurd (hv _ (by simp)) hc
  | unterminated => rfl

/-- Nothing else can become of a text. -/
theorem RenamesMarked.unique {out' : List Char} (has : Separate as)
    (h : RenamesMarked as d passed text out) (h' : RenamesMarked as d passed text out') :
    out = out' := by
  induction h generalizing out' with
  | nil => exact h'.of_nil.symm
  | stays hno _ ih =>
    obtain ⟨rest, rfl, hrest⟩ := h'.of_not_marker hno
    rw [ih hrest]
  | value ha hm hv hc hw _ ih =>
    obtain ⟨rest, rfl, hrest⟩ := h'.of_value has ha hm hv hc
    rw [(renamesValue_iff.1 hw).1, ih hrest]
  | unterminated ha hm hv => exact (h'.of_unterminated ha hm hv).symm

/-! ## Passes, piece by piece -/

/-- A piece after several passes, given the piece before it. -/
def renamePieceAll (as : List Attribute) (d : Dictionary) (q r : List Char) : List Char :=
  as.foldl (fun r a => a.renamePiece d q r) r

/-- A text behind the piece `q` and what it is after the passes over `bs`. The pieces that are values
    of some of `as` have an end, except at the end of the text. -/
inductive Passed (as bs : List Attribute) (d : Dictionary) :
    List Char → List Char → List Char → Prop
  | last {q r : List Char} : ¬ site <:+: r → Passed as bs d q r (renamePieceAll bs d q r)
  | next {q r text out : List Char} : ¬ site <:+: r →
      (∀ a ∈ as, a.name.toList <:+ q → ¬ ∀ x ∈ r, ValueChar x) → Passed as bs d r text out →
      Passed as bs d q (r ++ site ++ text) (renamePieceAll bs d q r ++ site ++ out)

theorem renamePieceAll_cons :
    renamePieceAll (a :: bs) d q r = renamePieceAll bs d q (a.renamePiece d q r) := rfl

theorem renamePieceAll_append :
    renamePieceAll (as ++ bs) d q r = renamePieceAll bs d q (renamePieceAll as d q r) :=
  List.foldl_append

theorem renamePieceAll_concat :
    renamePieceAll (bs ++ [a]) d q r = a.renamePiece d q (renamePieceAll bs d q r) :=
  renamePieceAll_append

theorem renamePieceAll_of_forall (hr : ∀ x ∈ r, ValueChar x) : renamePieceAll bs d q r = r := by
  induction bs with
  | nil => rfl
  | cons a bs ih => rw [renamePieceAll_cons, renamePiece_of_forall hr, ih]

theorem renamePieceAll_of_not_name (hq : ∀ a ∈ bs, ¬ a.name.toList <:+ q) :
    renamePieceAll bs d q r = r := by
  induction bs with
  | nil => rfl
  | cons a bs ih =>
    rw [List.forall_mem_cons] at hq
    rw [renamePieceAll_cons, renamePiece_of_not_name hq.1, ih hq.2]

/-- Only the one attribute whose name ends the piece in front renames the value. -/
theorem Separate.renamePieceAll_of_name (h : Separate bs) (ha : a ∈ bs) (hq : a.name.toList <:+ q) :
    renamePieceAll bs d q r = a.renamePiece d q r := by
  obtain ⟨before, behind, rfl⟩ := List.append_of_mem ha
  have hother : ∀ b ∈ before ++ behind, ¬ b.name.toList <:+ q := by
    intro b hb hbq
    have hnodup := List.nodup_middle.1 h.nodup
    have hbmem : b ∈ before ++ a :: behind := by
      rw [List.mem_append, List.mem_cons]
      exact (List.mem_append.1 hb).imp_right .inr
    exact (List.nodup_cons.1 hnodup).1 (h.eq_of_name ha hbmem hq hbq ▸ hb)
  rw [renamePieceAll_append, renamePieceAll_cons,
    renamePieceAll_of_not_name fun b hb => hother b (List.mem_append_left _ hb),
    renamePieceAll_of_not_name fun b hb => hother b (List.mem_append_right _ hb)]

/-! ### What a pass keeps -/

theorem valueChar_of_renamesValue {rs : List Record} (hd : d.lookup.Plain)
    (h : a.RenamesValue d v w rs) (hv : ∀ x ∈ v, ValueChar x) : ∀ x ∈ w, ValueChar x := by
  induction h with
  | nil => simp
  | space _ ih =>
    rw [List.forall_mem_cons] at hv ⊢
    exact ⟨hv.1, ih hv.2⟩
  | name _ _ _ hr _ ih =>
    rw [List.forall_mem_append] at hv ⊢
    refine ⟨?_, ih hv.2⟩
    cases hr with
    | kept => exact hv.1
    | replaced _ hget => exact fun x hx => valueChar_iff.2 (.inl (hd _ _ _ hget x hx))
    | unknown => exact hv.1

theorem exists_renamePieceAll (hd : d.lookup.Plain) (hv : ∀ x ∈ v, ValueChar x)
    (hc : ¬ ValueChar c) (t : List Char) (bs : List Attribute) :
    ∃ w, (∀ x ∈ w, ValueChar x) ∧ renamePieceAll bs d q (v ++ c :: t) = w ++ c :: t := by
  induction bs generalizing v with
  | nil => exact ⟨v, hv, rfl⟩
  | cons a bs ih =>
    rw [renamePieceAll_cons]
    by_cases hq : a.name.toList <:+ q
    · rw [renamePiece_of_name hq hv hc]
      exact ih (valueChar_of_renamesValue hd (renamesValue_iff.2 ⟨rfl, rfl⟩) hv)
    · rw [renamePiece_of_not_name hq]
      exact ih hv

variable (hd : d.lookup.Plain)
include hd

/-- A value becomes a value, and what stands behind it stays. -/
theorem renamePieceAll_eq_or (bs : List Attribute) (q r : List Char) :
    renamePieceAll bs d q r = r ∨ ∃ v w c t, r = v ++ c :: t ∧
      renamePieceAll bs d q r = w ++ c :: t ∧ (∀ x ∈ v, ValueChar x) ∧ (∀ x ∈ w, ValueChar x) ∧
      ¬ ValueChar c := by
  rcases forall_or_exists_end r with hr | ⟨v, c, t, rfl, hv, hc⟩
  · exact .inl (renamePieceAll_of_forall hr)
  · obtain ⟨w, hw, heq⟩ := exists_renamePieceAll (q := q) hd hv hc t bs
    exact .inr ⟨v, w, c, t, rfl, heq, hv, hw, hc⟩

theorem site_infix_renamePieceAll_iff (bs : List Attribute) :
    site <:+: renamePieceAll bs d q r ↔ site <:+: r := by
  rcases renamePieceAll_eq_or hd bs q r with heq | ⟨v, w, c, t, rfl, heq, hv, hw, -⟩
  · rw [heq]
  · rw [heq, site_infix_append_iff hw, site_infix_append_iff hv]

theorem Plain.name_suffix_renamePieceAll_iff (ha : a.Plain) (bs : List Attribute) :
    a.name.toList <:+ renamePieceAll bs d q r ↔ a.name.toList <:+ r := by
  rcases renamePieceAll_eq_or hd bs q r with heq | ⟨v, w, c, t, rfl, heq, -, -, hc⟩
  · rw [heq]
  · rw [heq, Text.suffix_append_cons_iff (ha.not_mem hc),
      Text.suffix_append_cons_iff (ha.not_mem hc)]

theorem forall_renamePieceAll_iff (bs : List Attribute) :
    (∀ x ∈ renamePieceAll bs d q r, ValueChar x) ↔ ∀ x ∈ r, ValueChar x := by
  rcases renamePieceAll_eq_or hd bs q r with heq | ⟨v, w, c, t, rfl, heq, -, -, hc⟩
  · rw [heq]
  · rw [heq]
    exact ⟨fun h => absurd (h c (by simp)) hc, fun h => absurd (h c (by simp)) hc⟩

/-! ### One pass, and all of them -/

/-- **One more pass** renames the values of its attribute in every piece. -/
theorem Passed.pass {mid : List Char} (has : ∀ b ∈ as, b.Plain) (ha : a ∈ as)
    (h : Passed as bs d q text mid) :
    Passed as (bs ++ [a]) d q text (a.renameBehind d q mid) := by
  induction h with
  | last hr =>
    rw [renameBehind_last ((site_infix_renamePieceAll_iff hd bs).not.2 hr), ← renamePieceAll_concat]
    exact .last hr
  | next hr hend _ ih =>
    rw [(has a ha).renameBehind_site ((site_infix_renamePieceAll_iff hd bs).not.2 hr)
        fun hq => (forall_renamePieceAll_iff hd bs).not.2 (hend a ha hq),
      ← renamePieceAll_concat,
      renameBehind_congr ((has a ha).name_suffix_renamePieceAll_iff hd bs)]
    exact .next hr hend ih

theorem Passed.renameAttributes {w : Renamer} {cs : List Attribute} {mid : List Char}
    (hw : w.dictionary = d) (has : ∀ b ∈ as, b.Plain) (hcs : ∀ b ∈ cs, b ∈ as)
    (h : Passed as bs d [] text mid) :
    Passed as (bs ++ cs) d [] text (w.renameAttributes cs mid).content := by
  induction cs generalizing bs mid with
  | nil => simpa [Renamer.renameAttributes, Renamed.copy] using h
  | cons a cs ih =>
    rw [List.forall_mem_cons] at hcs
    have hpass := h.pass hd has hcs.1
    have hstart : ¬ a.name.toList <:+ [] := fun hs =>
      (has a hcs.1).ne_nil (List.suffix_nil.1 hs)
    rw [renameBehind, if_neg hstart] at hpass
    have hrun := ih hcs.2 hpass
    rw [List.append_assoc, List.singleton_append] at hrun
    simpa [Renamer.renameAttributes, Renamed.andThen, hw] using hrun

omit hd

/-! ## The passes together -/

/-- Where a piece begins: behind `passed` stands a marker if its name ends the piece before. -/
structure Begins (as : List Attribute) (passed q : List Char) : Prop where
  marker_iff : ∀ a ∈ as, a.marker <:+ passed ↔ a.name.toList <:+ q
  quote : passed = [] ∨ ∃ u, passed = u ++ ['"']

theorem begins_nil (has : ∀ a ∈ as, a.Plain) : Begins as [] [] where
  marker_iff a ha := by simp [marker, (has a ha).ne_nil]
  quote := .inl rfl

theorem Begins.next (h : Begins as passed q) (has : ∀ a ∈ as, a.Plain) (r : List Char) :
    Begins as (passed ++ (r ++ site)) r where
  marker_iff a ha := by
    rw [← List.append_assoc, marker_suffix_iff]
    rcases h.quote with rfl | ⟨u, rfl⟩
    · rw [List.nil_append]
    · rw [List.append_assoc]
      exact Text.suffix_append_cons_iff ((has a ha).not_mem (by decide))
  quote := .inr ⟨passed ++ r ++ [':'], by simp [site]⟩

/-- No marker ends inside a piece. -/
theorem Begins.not_marker {s : List Char} (h : Begins as passed q) (hs : s ≠ [])
    (hsite : ¬ site <:+: s) (a : Attribute) : ¬ a.marker <:+ passed ++ s := by
  intro hm
  have hend : site <:+ passed ++ s := (List.suffix_append a.name.toList site).trans hm
  rcases h.quote with rfl | ⟨u, rfl⟩
  · exact hsite hend.isInfix
  · rw [List.append_assoc] at hend
    rcases List.suffix_or_suffix_of_suffix hend (List.suffix_append u (['"'] ++ s)) with he | he
    · rcases List.suffix_cons_iff.1 he with he | he
      · simp [site] at he
      · exact hsite he.isInfix
    · simp [site, List.suffix_cons_iff, hs] at he

/-- A text without a site, unless it is at the end. -/
def Unbroken (s : List Char) : Prop := ∀ u c t, u ++ c :: t = s → ¬ site <:+: u

theorem unbroken_piece (hr : ¬ site <:+: r) : Unbroken r :=
  fun u c t h hu => hr (hu.trans ⟨[], c :: t, by simpa using h⟩)

theorem unbroken_piece_site (hr : ¬ site <:+: r) : Unbroken (r ++ site) := by
  rintro u c t h ⟨x, y, rfl⟩
  have hlen := leftmost_site hr [] x (y ++ c :: t) (by simpa using h)
  have hall := congrArg List.length h
  simp only [site, List.length_append, List.length_cons, List.length_nil] at hlen hall
  omega

/-- Where no marker ends, a text stays. -/
theorem RenamesMarked.stays_append {s : List Char}
    (hs : ∀ u c t, u ++ c :: t = s → ∀ a ∈ as, ¬ a.marker <:+ passed ++ u)
    (h : RenamesMarked as d (passed ++ s) text out) :
    RenamesMarked as d passed (s ++ text) (s ++ out) := by
  induction s generalizing passed with
  | nil => simpa using h
  | cons x s ih =>
    have hnext : RenamesMarked as d (passed ++ [x]) (s ++ text) (s ++ out) := by
      refine ih (fun u c t hu => ?_) (by simpa using h)
      simpa using hs (x :: u) c t (by simp [hu])
    exact .stays (by simpa using hs [] x s rfl) hnext

/-- A piece, with the site behind it if there is one, stays but for the value that it begins with. -/
theorem RenamesMarked.piece {e : List Char} (has : Separate as) (hbs : bs.Perm as)
    (hp : Begins as passed q) (he : Unbroken (r ++ e))
    (hend : ∀ a ∈ as, a.name.toList <:+ q → ¬ ∀ x ∈ r, ValueChar x)
    (h : RenamesMarked as d (passed ++ (r ++ e)) text out) :
    RenamesMarked as d passed (r ++ e ++ text) (renamePieceAll bs d q r ++ e ++ out) := by
  have hinside : ∀ u c t, u ++ c :: t = r ++ e → u ≠ [] → ∀ a ∈ as, ¬ a.marker <:+ passed ++ u :=
    fun u c t hu hne a _ => hp.not_marker hne (he u c t hu) a
  by_cases hmarked : ∃ a ∈ as, a.name.toList <:+ q
  · obtain ⟨a, ha, hq⟩ := hmarked
    obtain hall | ⟨v, c, t, rfl, hv, hc⟩ := forall_or_exists_end r
    · exact absurd hall (hend a ha hq)
    · rw [(has.of_perm hbs).renamePieceAll_of_name (hbs.mem_iff.2 ha) hq,
        renamePiece_of_name hq hv hc]
      have hrest : RenamesMarked as d (passed ++ v ++ [c]) (t ++ e ++ text) (t ++ e ++ out) := by
        refine stays_append (fun u x y hu b hb => ?_) (by simpa using h)
        have := hinside (v ++ c :: u) x y (by simpa using hu) (by simp) b hb
        simpa using this
      have hvalue := RenamesMarked.value ha ((hp.marker_iff a ha).2 hq) hv hc
        (renamesValue_iff.2 ⟨rfl, rfl⟩) hrest
      simpa using hvalue
  · have hno : ∀ a ∈ as, ¬ a.name.toList <:+ q := fun a ha hq => hmarked ⟨a, ha, hq⟩
    rw [renamePieceAll_of_not_name fun a ha => hno a (hbs.mem_iff.1 ha)]
    refine stays_append (fun u c t hu a ha => ?_) h
    by_cases hne : u = []
    · rw [hne, List.append_nil, hp.marker_iff a ha]
      exact hno a ha
    · exact hinside u c t hu hne a ha

/-- **After passes over all attributes, each value is renamed once.** -/
theorem Passed.renamesMarked (has : Separate as) (hbs : bs.Perm as)
    (h : Passed as bs d q text out) (hp : Begins as passed q) :
    RenamesMarked as d passed text out := by
  induction h generalizing passed with
  | @last q r hr =>
    by_cases hend : ∃ a ∈ as, a.name.toList <:+ q ∧ ∀ x ∈ r, ValueChar x
    · obtain ⟨a, ha, hq, hall⟩ := hend
      rw [renamePieceAll_of_forall hall]
      exact .unterminated ha ((hp.marker_iff a ha).2 hq) hall
    · have hlast := RenamesMarked.piece (e := []) has hbs hp (by simpa using unbroken_piece hr)
        (fun a ha hq hall => hend ⟨a, ha, hq, hall⟩) (RenamesMarked.nil (d := d))
      simpa using hlast
  | next hr hend _ ih =>
    exact RenamesMarked.piece has hbs hp (unbroken_piece_site hr) hend (ih (hp.next has.plain _))

/-- A text is cut into pieces at its sites. -/
theorem Closed.passed_self {full : List Char} {ps : List (List Char)} (has : ∀ a ∈ as, a.Plain)
    (hfull : Closed as full) (h : Text.Pieces site text ps) (heq : passed ++ text = full)
    (hp : Begins as passed q) : Passed as [] d q text text := by
  induction h generalizing passed q with
  | last hr => exact .last hr
  | @cut r rest ps hleft _ ih =>
    have hr := not_site_infix_of_leftmost hleft
    refine .next hr (fun a ha hq hall => ?_) (ih (by simpa using heq) (hp.next has r))
    obtain ⟨u, rfl⟩ := (hp.marker_iff a ha).2 hq
    exact hfull a ha u r (site ++ rest) (by simpa using heq.symm)
      (Text.longest_cons hall (by decide) _) (List.prefix_append ..)

end Attribute

/-- **The passes over the attributes do not interfere.** In whatever order they come, every value
    behind a marker is renamed once, by the attribute it belongs to. -/
theorem Renamer.renameAttributes_iff (w : Renamer) {as bs : List Attribute}
    (has : Attribute.Separate as) (hbs : bs.Perm as) (hd : w.dictionary.lookup.Plain)
    {text : List Char} (htext : Attribute.Closed as text) (out : List Char) :
    Attribute.RenamesMarked as w.dictionary [] text out ↔
      (w.renameAttributes bs text).content = out := by
  obtain ⟨p, ps, hps⟩ := Text.exists_pieces (m := Attribute.site) (by simp [Attribute.site]) text
  have hstart : Attribute.Passed as [] w.dictionary [] text text :=
    htext.passed_self has.plain hps rfl (Attribute.begins_nil has.plain)
  have hrun := hstart.renameAttributes hd rfl has.plain fun b hb => hbs.mem_iff.1 hb
  have hall := hrun.renamesMarked has hbs (Attribute.begins_nil has.plain)
  constructor
  · exact fun h => hall.unique has h
  · rintro rfl
    exact hall

/-- A renamer with a class name and an id that share a text. -/
def Renamer.ofSharedName : Renamer where
  dictionary := ⟨.ofEntries [⟨"btn", "a", .cls⟩, ⟨"btn", "b", .id⟩], fun _ name => name = "x"⟩
  attributes := []
  literals := []
  displayResult := false

/-- The pass over ids comes first; one class name is filtered out, and the last id has no end. -/
theorem Renamer.renamesMarked_ofSharedName :
    Attribute.Separate [⟨"className"⟩, ⟨"id"⟩] ∧
      [⟨"id"⟩, ⟨"className"⟩].Perm [(⟨"className"⟩ : Attribute), ⟨"id"⟩] ∧
      ofSharedName.dictionary.lookup.Plain ∧
      Attribute.Closed [⟨"className"⟩, ⟨"id"⟩] "className:\"btn x\",id:\"btn\",id:\"btn".toList ∧
      Attribute.RenamesMarked [⟨"className"⟩, ⟨"id"⟩] ofSharedName.dictionary []
        "className:\"btn x\",id:\"btn\",id:\"btn".toList
        "className:\"a x\",id:\"b\",id:\"btn".toList := by
  have has : Attribute.Separate [⟨"className"⟩, ⟨"id"⟩] := by decide
  have hbs : [⟨"id"⟩, ⟨"className"⟩].Perm [(⟨"className"⟩ : Attribute), ⟨"id"⟩] :=
    List.Perm.swap ..
  have hd : ofSharedName.dictionary.lookup.Plain := Lookup.plain_ofEntries (by decide)
  have htext : Attribute.Closed [⟨"className"⟩, ⟨"id"⟩]
      "className:\"btn x\",id:\"btn\",id:\"btn".toList := by decide +kernel
  exact ⟨has, hbs, hd, htext,
    (ofSharedName.renameAttributes_iff has hbs hd htext _).2 (by decide +kernel)⟩

end SelectorRename
