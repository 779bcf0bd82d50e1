/-
  Sorting by size, the largest first.

  * `filter_size_mergeSort`: elements of one size stay in order.
  * `eq_of_filter_size_eq`: a list with the largest first is known from its elements of each size. So
    sorting by insertion comes to the same (`mergeSort_eq_insertionSort`).
  * `RenameTable.longestFirst_append_longestFirst`: sorted entries and new ones behind them sort to
    the same list as if nothing had been sorted before.
-/
import SelectorRename.Renaming.Asset
import Mathlib.Data.List.Pairwise
import Mathlib.Data.List.Sort
import Mathlib.Tactic.SplitIfs

namespace SelectorRename

section
variable {α : Type} (size : α → ℕ)

/-- No element is larger than one before it. -/
def Decreasing (l : List α) : Prop := l.Pairwise fun a b => size b ≤ size a

theorem size_trans (a b c : α) (hab : decide (size b ≤ size a) = true)
    (hbc : decide (size c ≤ size b) = true) : decide (size c ≤ size a) = true := by
  simp only [decide_eq_true_eq] at *
  omega

theorem size_total (a b : α) : (decide (size b ≤ size a) || decide (size a ≤ size b)) = true := by
  simp only [Bool.or_eq_true, decide_eq_true_eq]
  omega

theorem decreasing_mergeSort (l : List α) :
    Decreasing size (l.mergeSort fun a b => decide (size b ≤ size a)) :=
  (List.pairwise_mergeSort (size_trans size) (size_total size) l).imp of_decide_eq_true

/-- What keeps every sublist that is in order keeps the elements of one size in order. -/
theorem filter_size_of_sublist {l m : List α} (hperm : m.Perm l)
    (hsub : ∀ c, Decreasing size c → c.Sublist l → c.Sublist m) (n : ℕ) :
    m.filter (size · = n) = l.filter (size · = n) := by
  have hone : Decreasing size (l.filter (size · = n)) := by
    refine List.pairwise_of_forall_mem_list fun a ha b hb => ?_
    simp only [List.mem_filter, decide_eq_true_eq] at ha hb
    omega
  have hkept := (hsub _ hone List.filter_sublist).filter (size · = n)
  rw [List.filter_filter] at hkept
  simp only [Bool.and_self] at hkept
  exact (hkept.eq_of_length (hperm.filter _).length_eq.symm).symm

/-- **Sorting is stable**: elements of one size stay in order. -/
theorem filter_size_mergeSort (n : ℕ) (l : List α) :
    (l.mergeSort fun a b => decide (size b ≤ size a)).filter (size · = n) =
      l.filter (size · = n) :=
  filter_size_of_sublist size (List.mergeSort_perm l _) (fun _ hc hsub =>
    List.sublist_mergeSort (size_trans size) (size_total size) (hc.imp decide_eq_true) hsub) n

/-- The first element of some of one size stays the first one of them. -/
theorem find?_mergeSort (n : ℕ) {p : α → Bool} (hp : ∀ a, p a = true → size a = n) (l : List α) :
    (l.mergeSort fun a b => decide (size b ≤ size a)).find? p = l.find? p := by
  have hfilter : ∀ m : List α, m.find? p = (m.filter (size · = n)).find? p := by
    intro m
    rw [List.find?_filter]
    refine congrArg (List.find? · m) (funext fun a => ?_)
    by_cases ha : p a = true
    · simp [ha, hp a ha]
    · simp [ha]
  rw [hfilter, filter_size_mergeSort, ← hfilter]

theorem mem_of_filter_size_eq {l m : List α}
    (h : ∀ n, l.filter (size · = n) = m.filter (size · = n)) {a : α} (ha : a ∈ l) : a ∈ m := by
  have hf : a ∈ l.filter (size · = size a) := by simp [ha]
  rw [h] at hf
  exact (List.mem_filter.1 hf).1

theorem Decreasing.le_head {a b : α} {l : List α} (h : Decreasing size (b :: l))
    (ha : a ∈ b :: l) : size a ≤ size b := by
  rcases List.mem_cons.1 ha with rfl | ha
  · exact Nat.le_refl _
  · exact List.rel_of_pairwise_cons h ha

/-- A list with the largest elements first is known from its elements of each size. -/
theorem eq_of_filter_size_eq {l m : List α} (hl : Decreasing size l) (hm : Decreasing size m)
    (h : ∀ n, l.filter (size · = n) = m.filter (size · = n)) : l = m := by
  induction l generalizing m with
  | nil =>
    cases m with
    | nil => rfl
    | cons b m =>
      have hb := mem_of_filter_size_eq size (fun n => (h n).symm) (List.mem_cons_self (a := b))
      exact absurd hb (by simp)
  | cons a l ih =>
    cases m with
    | nil =>
      have ha := mem_of_filter_size_eq size h (List.mem_cons_self (a := a))
      exact absurd ha (by simp)
    | cons b m =>
      -- neither head is larger than the other, so they are the first of their size
      have ha := mem_of_filter_size_eq size h (List.mem_cons_self (a := a))
      have hb := mem_of_filter_size_eq size (fun n => (h n).symm) (List.mem_cons_self (a := b))
      have hab : size b = size a := Nat.le_antisymm (hl.le_head size hb) (hm.le_head size ha)
      have hhead := h (size a)
      rw [List.filter_cons_of_pos (by simp), List.filter_cons_of_pos (by simp [hab])] at hhead
      obtain ⟨rfl, -⟩ := List.cons.inj hhead
      refine congrArg (a :: ·) (ih hl.of_cons hm.of_cons fun n => ?_)
      have hn := h n
      simp only [List.filter_cons] at hn
      split_ifs at hn
      · exact (List.cons.inj hn).2
      · exact hn

/-- Elements put in front of the smaller ones, one after another, come out in the same order. -/
theorem mergeSort_eq_insertionSort (l : List α) :
    (l.mergeSort fun a b => decide (size b ≤ size a)) =
      l.insertionSort fun a b => size b ≤ size a := by
  have : Std.Total fun a b : α => size b ≤ size a := ⟨fun a b => Nat.le_total _ _⟩
  have : IsTrans α fun a b => size b ≤ size a := ⟨fun _ _ _ hab hbc => Nat.le_trans hbc hab⟩
  refine eq_of_filter_size_eq size (decreasing_mergeSort size l) (List.pairwise_insertionSort _ l)
    fun n => ?_
  rw [filter_size_mergeSort]
  exact (filter_size_of_sublist size (List.perm_insertionSort _ l)
    (fun _ hc hsub => List.sublist_insertionSort hc hsub) n).symm

end

namespace RenameTable

/-! ## The order of entries -/

/-- The encoded size of the text to find, by which entries are sorted. -/
abbrev findSize (e : Entry) : ℕ := e.find.utf8ByteSize

theorem longestFirst_perm (es : List Entry) : (longestFirst es).Perm es :=
  List.mergeSort_perm es _

theorem decreasing_longestFirst (es : List Entry) : Decreasing findSize (longestFirst es) :=
  decreasing_mergeSort findSize es

theorem longestFirst_of_decreasing {es : List Entry} (h : Decreasing findSize es) :
    longestFirst es = es :=
  List.mergeSort_of_pairwise (h.imp decide_eq_true)

theorem longestFirst_append_longestFirst (es fs : List Entry) :
    longestFirst (longestFirst es ++ fs) = longestFirst (es ++ fs) := by
  refine eq_of_filter_size_eq findSize (decreasing_longestFirst _) (decreasing_longestFirst _)
    fun n => ?_
  unfold longestFirst
  simp only [filter_size_mergeSort findSize, List.filter_append]

end RenameTable

/-! ## The order of literal rules -/

/-- The literal rules, sorted by insertion. -/
theorem Renamer.literalsOf_eq_insertionSort (lookup : Lookup) (rules : List LiteralRule) :
    literalsOf lookup rules =
      (rules.eraseDups.filterMap fun r =>
        (lookup.get? r.kind r.find).map (Substitution.mk r.kind r.find)).insertionSort
          fun a b => b.find.utf8ByteSize ≤ a.find.utf8ByteSize :=
  mergeSort_eq_insertionSort (fun s : Substitution => s.find.utf8ByteSize) _

end SelectorRename
