/-
  Short names in shortlex order: shorter words come first, words of one length in alphabetical order.

  * `ShortName.IsWord`: the words that short names are: not empty, over `a` to `z`.
  * `ShortName.shortlex_word_iff`, `ShortName.exists_word_eq`: the positions number all of these words
    in this order.
  * `ShortName.unused`: the words that are none of some names.
  * `ShortName.IsFirst`, `ShortName.IsNth`: the first word of a set, and the one that exactly `n` others
    come before. Both are found by position (`ShortName.isFirst_word`, `ShortName.isNth_nth`).
-/
import SelectorRename.Proofs.ShortName.Free
import Mathlib.Data.List.Shortlex
import Mathlib.Data.Nat.Nth
import Mathlib.Data.Set.Card

namespace SelectorRename.ShortName

/-! ## Letters -/

/-- A letter of short names. -/
def IsLetter (c : Char) : Prop := 'a' ≤ c ∧ c ≤ 'z'

theorem isLetter_letter : ∀ n < 26, IsLetter (letter n) := by
  unfold IsLetter; decide

theorem letter_lt_letter_iff {m n : ℕ} (hm : m < 26) (hn : n < 26) :
    letter m < letter n ↔ m < n := by
  have hval : letter m < letter n ↔ (letter m).toNat < (letter n).toNat := Iff.rfl
  rw [hval, toNat_letter m hm, toNat_letter n hn]
  omega

theorem exists_letter_eq {c : Char} (hc : IsLetter c) : ∃ n < 26, letter n = c := by
  have hlow : 'a'.toNat ≤ c.toNat := hc.1
  have hhigh : c.toNat ≤ 'z'.toNat := hc.2
  have hsize : 'z'.toNat = 'a'.toNat + 25 := rfl
  refine ⟨c.toNat - 'a'.toNat, by omega, ?_⟩
  rw [letter, Nat.add_sub_cancel' hlow, Char.ofNat_toNat]

/-! ## Words and positions -/

/-- A word that is not empty. -/
structure IsWord (w : List Char) : Prop where
  ne_nil : w ≠ []
  letters : ∀ c ∈ w, IsLetter c

theorem isWord_word (n : ℕ) : IsWord (word n) := by
  refine ⟨word_ne_nil n, ?_⟩
  induction n using Nat.strongRecOn with
  | ind n ih =>
    rw [word]
    split_ifs with hn
    · simpa using isLetter_letter n hn
    · rw [List.forall_mem_append]
      exact ⟨ih _ (by omega), by simpa using isLetter_letter (n % 26) (by omega)⟩

theorem lex_append {v w : List Char} (h : List.Lex (· < ·) v w) (hlen : v.length = w.length)
    (s t : List Char) : List.Lex (· < ·) (v ++ s) (w ++ t) := by
  induction h with
  | nil => simp at hlen
  | rel hlt => exact .rel hlt
  | cons _ ih => exact .cons (ih (Nat.succ.inj hlen))

/-- Of two different words the same one comes first with a letter behind each of them. -/
theorem shortlex_append_letter {v w : List Char} (h : List.Shortlex (· < ·) v w) (c d : Char) :
    List.Shortlex (· < ·) (v ++ [c]) (w ++ [d]) := by
  obtain hlen | ⟨hlen, hlex⟩ := List.shortlex_def.1 h
  · exact .of_length_lt (by simpa using hlen)
  · exact .of_lex (by simpa using hlen) (lex_append hlex hlen _ _)

theorem shortlex_word {m n : ℕ} (h : m < n) : List.Shortlex (· < ·) (word m) (word n) := by
  induction n using Nat.strongRecOn generalizing m with
  | ind n ih =>
    rw [word.eq_1 m, word.eq_1 n]
    by_cases hn : n < 26
    · rw [if_pos hn, if_pos (h.trans hn), List.shortlex_singleton_iff]
      exact (letter_lt_letter_iff (h.trans hn) hn).2 h
    · rw [if_neg hn]
      split_ifs with hm
      · refine .of_length_lt ?_
        have := List.length_pos_iff.2 (word_ne_nil (n / 26 - 1))
        simp only [List.length_append, List.length_singleton]
        omega
      · obtain hlt | heq : m / 26 - 1 < n / 26 - 1 ∨ m / 26 - 1 = n / 26 - 1 := by omega
        · exact shortlex_append_letter (ih _ (by omega) hlt) _ _
        · rw [heq]
          refine List.Shortlex.append_left ?_ _
          rw [List.shortlex_singleton_iff, letter_lt_letter_iff (by omega) (by omega)]
          omega

theorem shortlex_word_iff {m n : ℕ} : List.Shortlex (· < ·) (word m) (word n) ↔ m < n := by
  refine ⟨fun h => ?_, shortlex_word⟩
  by_contra hle
  obtain hlt | rfl := Nat.lt_or_eq_of_le (not_lt.1 hle)
  · exact Std.Asymm.asymm _ _ h (shortlex_word hlt)
  · exact Std.Asymm.asymm _ _ h h

/-- Every word has a position. -/
theorem exists_word_eq {w : List Char} (h : IsWord w) : ∃ n, word n = w := by
  induction w using List.reverseRecOn with
  | nil => exact absurd rfl h.ne_nil
  | append_singleton w c ih =>
    have hletters := List.forall_mem_append.1 h.letters
    obtain ⟨n, hn, hc⟩ := exists_letter_eq (hletters.2 c (List.mem_singleton_self c))
    by_cases hw : w = []
    · refine ⟨n, ?_⟩
      rw [word, if_pos hn, hc, hw, List.nil_append]
    · obtain ⟨m, rfl⟩ := ih ⟨hw, hletters.1⟩
      refine ⟨(m + 1) * 26 + n, ?_⟩
      have hquot : ((m + 1) * 26 + n) / 26 - 1 = m := by omega
      have hrem : ((m + 1) * 26 + n) % 26 = n := by omega
      rw [word, if_neg (by omega), hquot, hrem, hc]

/-! ## Words that are not used -/

/-- Finitely many names leave infinitely many positions. -/
theorem infinite_free (taken : List String) : (Set.ofPred fun i => name i ∉ taken).Infinite := by
  have hfin : {i | name i ∈ taken}.Finite :=
    (List.finite_toSet taken).preimage name_injective.injOn
  exact hfin.infinite_compl

/-- The words that are none of some names. -/
def unused (names : List String) : Set (List Char) := {w | IsWord w ∧ String.ofList w ∉ names}

theorem mem_unused_iff {names : List String} {w : List Char} :
    w ∈ unused names ↔ ∃ n, name n ∉ names ∧ word n = w := by
  constructor
  · rintro ⟨hw, hnot⟩
    obtain ⟨n, rfl⟩ := exists_word_eq hw
    exact ⟨n, hnot, rfl⟩
  · rintro ⟨n, hnot, rfl⟩
    exact ⟨isWord_word n, hnot⟩

/-- The first word of a set, which all others come behind. -/
structure IsFirst (S : Set (List Char)) (w : List Char) : Prop where
  mem : w ∈ S
  before : ∀ v ∈ S, v = w ∨ List.Shortlex (· < ·) w v

theorem IsFirst.length_le {S : Set (List Char)} {v w : List Char} (h : IsFirst S w) (hv : v ∈ S) :
    w.length ≤ v.length := by
  obtain rfl | hlt := h.before v hv
  · exact le_rfl
  · obtain hlen | ⟨hlen, -⟩ := List.shortlex_def.1 hlt
    · exact hlen.le
    · exact hlen.le

/-- The first unused word is that of the least position that is left. -/
theorem isFirst_word {names : List String} {n : ℕ} (h : IsLeast {i | name i ∉ names} n) :
    IsFirst (unused names) (word n) := by
  refine ⟨mem_unused_iff.2 ⟨n, h.1, rfl⟩, fun v hv => ?_⟩
  obtain ⟨i, hi, rfl⟩ := mem_unused_iff.1 hv
  obtain rfl | hlt := (h.2 hi).eq_or_lt
  · exact .inl rfl
  · exact .inr (shortlex_word hlt)

/-- A word of a set that exactly `n` others of the set come before. -/
structure IsNth (S : Set (List Char)) (n : ℕ) (w : List Char) : Prop where
  mem : w ∈ S
  encard_before : {v ∈ S | List.Shortlex (· < ·) v w}.encard = n

/-- **The unused words come in the order of their positions.** -/
theorem isNth_nth (names : List String) (n : ℕ) :
    IsNth (unused names) n (word (Nat.nth (fun i => name i ∉ names) n)) := by
  classical
  have hinf := infinite_free names
  refine ⟨mem_unused_iff.2 ⟨_, Nat.nth_mem_of_infinite hinf n, rfl⟩, ?_⟩
  have hbefore : {v ∈ unused names |
      List.Shortlex (· < ·) v (word (Nat.nth (fun i => name i ∉ names) n))} =
      word '' ((Finset.range (Nat.nth (fun i => name i ∉ names) n)).filter
        fun i => name i ∉ names) := by
    ext v
    simp only [Set.mem_ofPred_eq, mem_unused_iff, Set.mem_image, Finset.coe_filter,
      Finset.mem_range]
    constructor
    · rintro ⟨⟨i, hi, rfl⟩, hlt⟩
      exact ⟨i, ⟨shortlex_word_iff.1 hlt, hi⟩, rfl⟩
    · rintro ⟨i, ⟨hlt, hi⟩, rfl⟩
      exact ⟨⟨i, hi, rfl⟩, shortlex_word_iff.2 hlt⟩
  rw [hbefore, word_injective.encard_image, Set.encard_coe_eq_coe_finsetCard,
    ← Nat.count_eq_card_filter_range, Nat.count_nth_of_infinite hinf]

end SelectorRename.ShortName
