/-
  Which short names are still to be had.

  * `ShortName.name`: the short name at a position; no two positions share one (`name_injective`).
  * `Allocator.free`: the positions whose names can still be given out.
  * `Allocator.alloc_spec`: the next short name is that of the least free position, and this
    position alone is not free any more; `Allocator.free_reserve` says what setting names aside does.
  * `Allocator.alloc_eq_of_free_eq`: nothing else about an allocator matters.
-/
import SelectorRename.ShortName
import Mathlib.Order.Bounds.Basic

namespace SelectorRename

namespace ShortName

/-! ## Positions and names -/

/-- The short name at a position. -/
def name (position : ℕ) : String := String.ofList (word position)

theorem toNat_letter : ∀ n < 26, (letter n).toNat = 'a'.toNat + n := by decide

theorem letter_inj {m n : ℕ} (hm : m < 26) (hn : n < 26) (h : letter m = letter n) : m = n := by
  have := congrArg Char.toNat h
  rw [toNat_letter m hm, toNat_letter n hn] at this
  omega

theorem word_ne_nil (n : ℕ) : word n ≠ [] := by
  rw [word]; split_ifs <;> simp

/-- The words of one letter are the first 26. -/
theorem length_word_eq_one_iff (n : ℕ) : (word n).length = 1 ↔ n < 26 := by
  rw [word]
  split_ifs with h
  · simp [h]
  · simp [h, word_ne_nil]

theorem word_injective : Function.Injective word := by
  intro m n h
  induction m using Nat.strongRecOn generalizing n with
  | ind m ih =>
    have hlt : m < 26 ↔ n < 26 := by rw [← length_word_eq_one_iff, h, length_word_eq_one_iff]
    rw [word.eq_1 m, word.eq_1 n] at h
    by_cases hm : m < 26
    · rw [if_pos hm, if_pos (hlt.1 hm)] at h
      exact letter_inj hm (hlt.1 hm) (List.singleton_inj.1 h)
    · -- the last letters and the words before them agree
      rw [if_neg hm, if_neg (mt hlt.2 hm)] at h
      obtain ⟨hw, hl⟩ := List.append_inj' h rfl
      have hquot := ih _ (by omega) hw
      have hrem := letter_inj (by omega) (by omega) (List.singleton_inj.1 hl)
      omega

theorem name_injective : Function.Injective name :=
  fun _ _ h => word_injective (String.ofList_injective h)

theorem nextFree_isLeast (reserved : Std.TreeSet String) (position : ℕ) :
    IsLeast {i | position ≤ i ∧ name i ∉ reserved} (nextFree reserved position) := by
  fun_induction nextFree reserved position with
  | case1 n hn ih =>
    obtain ⟨⟨hle, hfree⟩, hmin⟩ := ih
    refine ⟨⟨by omega, hfree⟩, fun i ⟨hi, hfi⟩ => hmin ⟨?_, hfi⟩⟩
    rcases Nat.lt_or_eq_of_le hi with hi | rfl
    · exact hi
    · exact absurd hn hfi
  | case2 n hn => exact ⟨⟨le_rfl, hn⟩, fun i hi => hi.1⟩

end ShortName

namespace Allocator

open ShortName

/-! ## Free positions -/

/-- The positions whose names can still be given out. -/
def free (a : Allocator) : Set ℕ := {i | a.position ≤ i ∧ name i ∉ a.reserved}

theorem free_new : ({} : Allocator).free = Set.univ := by
  ext i; simp [free]

theorem mem_foldl_insert (names : List String) (s : Std.TreeSet String) (n : String) :
    n ∈ names.foldl Std.TreeSet.insert s ↔ n ∈ s ∨ n ∈ names := by
  induction names generalizing s with
  | nil => simp
  | cons m names ih =>
    rw [List.foldl_cons, ih, Std.TreeSet.mem_insert, Std.LawfulEqCmp.compare_eq_iff_eq]
    simp only [List.mem_cons]
    tauto

/-- Names set aside are not free, and all others stay as they were. -/
theorem free_reserve (a : Allocator) (names : List String) :
    (a.reserve names).free = {i ∈ a.free | name i ∉ names} := by
  ext i
  simp only [free, reserve, mem_foldl_insert, Set.mem_ofPred_eq]
  tauto

/-- **The next short name** is that of the least free position, which is free no more. -/
theorem alloc_spec (a : Allocator) :
    ∃ i, IsLeast a.free i ∧ a.alloc.1 = name i ∧ a.alloc.2.free = a.free \ {i} := by
  have hleast := nextFree_isLeast a.reserved a.position
  refine ⟨_, hleast, rfl, ?_⟩
  obtain ⟨⟨hpos, -⟩, hmin⟩ := hleast
  ext j
  simp only [free, alloc, Set.mem_ofPred_eq, Set.mem_sdiff, Set.mem_singleton_iff]
  constructor
  · rintro ⟨hj, hfree⟩
    exact ⟨⟨by omega, hfree⟩, by omega⟩
  · rintro ⟨hj, hne⟩
    have hle : nextFree a.reserved a.position ≤ j := hmin hj
    exact ⟨by omega, hj.2⟩

/-- Allocators with the same free positions give out the same name next. -/
theorem alloc_eq_of_free_eq {a b : Allocator} (h : a.free = b.free) : a.alloc.1 = b.alloc.1 := by
  obtain ⟨i, hi, ha, -⟩ := a.alloc_spec
  obtain ⟨j, hj, hb, -⟩ := b.alloc_spec
  rw [h] at hi
  rw [ha, hb, hi.unique hj]

end Allocator

end SelectorRename
