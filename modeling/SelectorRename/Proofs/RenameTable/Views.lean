/-
  The order of both views of a table, whatever its entries are.

  * `Entry.HasSigil`: the text of an entry begins with the sigil of its kind, which is left out of the
    view without sigils (`Entry.findSize_bare`).
  * `NoneAfterPrefix`: no text comes after one that it begins with. This is so if no text is longer than
    one before it (`Decreasing.noneAfterPrefix`).
  * `pairwise_iff_filter_size`: what is said of elements of one size can be said of each size alone, so
    a stable sort does not change it.
  * `Entry.TiesBySigil`: two texts of one size, of which the first alone has a sigil. Without sigils the
    first one is the shorter.
  * `RenameTable.ofEntries_ordered_iff`: the view with sigils is sorted, and the view without them has the
    order of that one. It is sorted itself exactly if no entry ties by its sigil with a later one.
  * `RenameTable.not_ordered_tied`: so the second view need not be sorted.
-/
import SelectorRename.Proofs.Sorting

namespace SelectorRename

/-! ## Sizes without sigils -/

namespace Entry

/-- The text of an entry begins with the sigil of its kind. -/
def HasSigil (e : Entry) : Prop := e.find.toList.head? = some e.kind.sigil

instance (e : Entry) : Decidable e.HasSigil := inferInstanceAs (Decidable (_ = _))

end Entry

open RenameTable (findSize)

/-- A text loses a sigil or stays. -/
theorem Entry.findSize_bare (e : Entry) :
    (e.HasSigil ∧ findSize e = findSize e.bare + 1) ∨ (¬ e.HasSigil ∧ e.bare.find = e.find) := by
  rw [HasSigil, findSize, findSize, bare, Kind.strip]
  cases hfind : e.find.toList with
  | nil => exact Or.inr ⟨by simp, rfl⟩
  | cons c rest =>
    by_cases hc : c = e.kind.sigil
    · have htoken : e.find = e.kind.token (String.ofList rest) := by
        rw [Kind.token, String.toList_ofList, ← hc, ← hfind, String.ofList_toList]
      refine Or.inl ⟨by rw [hc]; rfl, ?_⟩
      simp only [if_pos hc]
      rw [htoken, Kind.utf8ByteSize_token]
    · refine Or.inr ⟨?_, by simp only [if_neg hc]⟩
      rw [List.head?_cons, Option.some.injEq]
      exact hc

/-! ## Texts and what they begin with -/

/-- A text is the beginning of another one, and not all of it. -/
def IsProperPrefix (s t : String) : Prop := s.toList <+: t.toList ∧ s ≠ t

theorem IsProperPrefix.utf8ByteSize_lt {s t : String} (h : IsProperPrefix s t) :
    s.utf8ByteSize < t.utf8ByteSize := by
  obtain ⟨⟨rest, hrest⟩, hne⟩ := h
  have ht : t = s ++ String.ofList rest := by
    rw [← String.toList_inj, String.toList_append, String.toList_ofList, hrest]
  rw [ht, String.utf8ByteSize_append]
  by_contra hle
  have hempty : String.ofList rest = "" := String.utf8ByteSize_eq_zero_iff.1 (by omega)
  exact hne (by rw [ht, hempty, String.append_empty])

/-- No text comes after one that it begins with, unless they are the same. -/
def NoneAfterPrefix (es : List Entry) : Prop := es.Pairwise fun a b => ¬ IsProperPrefix a.find b.find

theorem Decreasing.noneAfterPrefix {es : List Entry} (h : Decreasing findSize es) :
    NoneAfterPrefix es := by
  refine List.Pairwise.imp (fun {a b} hle => ?_) h
  intro hprefix
  exact Nat.not_lt.2 hle hprefix.utf8ByteSize_lt

/-! ## Relations within one size -/

/-- What never holds of an element and a later one of its size can be said of each size alone. -/
theorem pairwise_iff_filter_size {α : Type} (size : α → ℕ) {R : α → α → Prop}
    (hsize : ∀ a b, R a b → size a = size b) {l : List α} :
    (l.Pairwise fun a b => ¬ R a b) ↔
      ∀ n, (l.filter (size · = n)).Pairwise fun a b => ¬ R a b := by
  refine ⟨fun h n => h.filter _, fun h => ?_⟩
  induction l with
  | nil => exact .nil
  | cons a l ih =>
    refine .cons (fun b hb hab => ?_) (ih fun n => ?_)
    · have hfirst := h (size a)
      rw [List.filter_cons_of_pos (by simp)] at hfirst
      have hmem : b ∈ l.filter (size · = size a) :=
        List.mem_filter.2 ⟨hb, by simp [hsize a b hab]⟩
      exact List.rel_of_pairwise_cons hfirst hmem hab
    · exact (h n).sublist ((List.sublist_cons_self a l).filter _)

namespace RenameTable

/-- Entries of one length stay in order. -/
theorem filter_findSize_longestFirst (n : ℕ) (es : List Entry) :
    (longestFirst es).filter (findSize · = n) = es.filter (findSize · = n) :=
  filter_size_mergeSort findSize n es

/-- Sorting keeps what is said of entries of one length. -/
theorem pairwise_longestFirst_iff {R : Entry → Entry → Prop}
    (hsize : ∀ a b, R a b → findSize a = findSize b) (es : List Entry) :
    ((longestFirst es).Pairwise fun a b => ¬ R a b) ↔ es.Pairwise fun a b => ¬ R a b := by
  rw [pairwise_iff_filter_size findSize hsize, pairwise_iff_filter_size findSize hsize]
  simp only [filter_findSize_longestFirst]

/-- In a sorted list, what is said of the entries without sigils can be said of pairs of one length. -/
theorem pairwise_bare_longestFirst_iff {P R : Entry → Entry → Prop}
    (hsize : ∀ a b, R a b → findSize a = findSize b)
    (hiff : ∀ a b, findSize b ≤ findSize a → (P a.bare b.bare ↔ ¬ R a b)) (es : List Entry) :
    ((longestFirst es).map Entry.bare).Pairwise P ↔ es.Pairwise fun a b => ¬ R a b := by
  have hsorted := decreasing_longestFirst es
  rw [List.pairwise_map, ← pairwise_longestFirst_iff hsize]
  exact ⟨fun h => (hsorted.and h).imp fun hab => (hiff _ _ hab.1).1 hab.2,
    fun h => (hsorted.and h).imp fun hab => (hiff _ _ hab.1).2 hab.2⟩

end RenameTable

/-! ## The view without sigils -/

/-- Two texts of one size, of which the first alone has a sigil. -/
def Entry.TiesBySigil (a b : Entry) : Prop := findSize a = findSize b ∧ a.HasSigil ∧ ¬ b.HasSigil

/-- A text that is no longer than another one is longer without sigils only if they tie. -/
theorem Entry.findSize_bare_le_iff {a b : Entry} (h : findSize b ≤ findSize a) :
    findSize b.bare ≤ findSize a.bare ↔ ¬ a.TiesBySigil b := by
  rw [TiesBySigil]
  obtain ⟨ha, hasize⟩ | ⟨ha, hafind⟩ := a.findSize_bare
  · obtain ⟨hb, hbsize⟩ | ⟨hb, hbfind⟩ := b.findSize_bare
    · simp only [ha, hb, not_true_eq_false, and_false, not_false_eq_true, iff_true]
      omega
    · have hbsize : findSize b.bare = findSize b := congrArg String.utf8ByteSize hbfind
      simp only [ha, hb, not_false_eq_true, and_true]
      omega
  · have hasize : findSize a.bare = findSize a := congrArg String.utf8ByteSize hafind
    have hble : findSize b.bare ≤ findSize b := by
      obtain ⟨-, hbsize⟩ | ⟨-, hbfind⟩ := b.findSize_bare
      · omega
      · exact Nat.le_of_eq (congrArg String.utf8ByteSize hbfind)
    simp only [ha, false_and, and_false, not_false_eq_true, iff_true]
    omega

/-- Without sigils, a text that is no longer than another one has it as a beginning only if they tie. -/
theorem Entry.isProperPrefix_bare_iff {a b : Entry} (h : findSize b ≤ findSize a) :
    IsProperPrefix a.bare.find b.bare.find ↔
      a.TiesBySigil b ∧ a.bare.find.toList <+: b.find.toList := by
  constructor
  · intro hprefix
    have hties : a.TiesBySigil b := by
      by_contra hnot
      exact Nat.not_lt.2 ((findSize_bare_le_iff h).2 hnot) hprefix.utf8ByteSize_lt
    obtain ⟨hb, -⟩ | ⟨-, hbfind⟩ := b.findSize_bare
    · exact absurd hb hties.2.2
    · exact ⟨hties, hbfind ▸ hprefix.1⟩
  · rintro ⟨hties, hprefix⟩
    have hlt := (not_congr (findSize_bare_le_iff h)).2 (not_not.2 hties)
    obtain ⟨hb, -⟩ | ⟨-, hbfind⟩ := b.findSize_bare
    · exact absurd hb hties.2.2
    · refine ⟨by rw [hbfind]; exact hprefix, fun heq => hlt ?_⟩
      exact Nat.le_of_eq (congrArg String.utf8ByteSize heq.symm)

namespace RenameTable

/-- **The order of both views**, whatever the entries are. The view with sigils has the entries with the
    longest text first, those of one length in the order they came in, and so none comes after one that
    it begins with. The view without sigils has the same entries in the same order. Its texts are in
    order of length exactly if no entry ties by its sigil with a later one, and one comes after a text
    that it begins with exactly if two entries tie in this way and the later one begins with the first. -/
theorem ofEntries_ordered_iff (es : List Entry) :
    ((ofEntries es).css.Perm es ∧ Decreasing findSize (ofEntries es).css ∧
        (∀ n, (ofEntries es).css.filter (findSize · = n) = es.filter (findSize · = n)) ∧
        NoneAfterPrefix (ofEntries es).css) ∧
      (ofEntries es).js = (ofEntries es).css.map Entry.bare ∧
      (Decreasing findSize (ofEntries es).js ↔ es.Pairwise fun a b => ¬ a.TiesBySigil b) ∧
      (NoneAfterPrefix (ofEntries es).js ↔
        es.Pairwise fun a b => ¬ (a.TiesBySigil b ∧ a.bare.find.toList <+: b.find.toList)) := by
  have hsorted := decreasing_longestFirst es
  refine ⟨⟨longestFirst_perm es, hsorted, fun n => filter_findSize_longestFirst n es,
    hsorted.noneAfterPrefix⟩, rfl, ?_, ?_⟩
  · exact pairwise_bare_longestFirst_iff (fun _ _ h => h.1) (fun _ _ => Entry.findSize_bare_le_iff) es
  · exact pairwise_bare_longestFirst_iff (fun _ _ h => h.1.1)
      (fun _ _ h => not_congr (Entry.isProperPrefix_bare_iff h)) es

/-- A text with a sigil, and one of the same size without. -/
def tiedEntries : List Entry := [⟨".ab", ".x", .cls⟩, ⟨"abc", "y", .cls⟩]

/-- **The view without sigils need not be in order**: here `ab` comes before `abc`. -/
theorem not_ordered_tied :
    ¬ Decreasing findSize (ofEntries tiedEntries).js ∧ ¬ NoneAfterPrefix (ofEntries tiedEntries).js := by
  have hsorted : Decreasing findSize tiedEntries := by unfold Decreasing; decide
  have hjs : (ofEntries tiedEntries).js = [⟨"ab", "x", .cls⟩, ⟨"abc", "y", .cls⟩] := by
    rw [ofEntries, longestFirst_of_decreasing hsorted]
    decide
  rw [hjs]
  refine ⟨fun h => ?_, fun h => ?_⟩
  · exact absurd (List.rel_of_pairwise_cons h List.mem_cons_self) (by decide)
  · exact List.rel_of_pairwise_cons h List.mem_cons_self ⟨⟨['c'], rfl⟩, by decide⟩

end RenameTable

end SelectorRename
