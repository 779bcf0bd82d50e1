/-
  Positions as numbers of words.

  * `ShortName.Word`, `ShortName.Word.Precedes`: the words that short names are, as texts, and their
    order: the shorter word first, of two words of one length the one that the alphabet has first.
  * `ShortName.numeral`, `ShortName.positionOf`: what a word is as a numeral with 26 digits and no zero,
    and the position that it stands at (`positionOf_word`, `word_positionOf`).
  * `ShortName.roundLetters`: the letters of a round, one step for each, from the right. A word is the
    letters of its round and one more (`word_eq_roundLetters`).
  * `ShortName.exists_numbering`: a new allocator at some position gives out the word with that number;
    this is an isomorphism of the natural numbers and all words, in their orders.
-/
import SelectorRename.Proofs.ShortName.Shortlex

namespace SelectorRename.ShortName

/-! ## Words and their order -/

/-- A text that is a word. -/
@[ext]
structure Word where
  text : String
  isWord : IsWord text.toList

/-- A shorter word comes first, of two words of one length the one that the alphabet has first. -/
def Word.Precedes (v w : Word) : Prop :=
  v.text.length < w.text.length ∨ v.text.length = w.text.length ∧ v.text < w.text

theorem Word.precedes_iff_shortlex {v w : Word} :
    v.Precedes w ↔ List.Shortlex (· < ·) v.text.toList w.text.toList := by
  rw [List.shortlex_def, String.length_toList, String.length_toList]
  rfl

/-- The word at a position. -/
def Word.ofPosition (n : ℕ) : Word := ⟨name n, by rw [name, String.toList_ofList]; exact isWord_word n⟩

theorem Word.toList_ofPosition (n : ℕ) : (Word.ofPosition n).text.toList = word n := String.toList_ofList

/-! ## The position of a word -/

/-- A word as a numeral whose digits are 1 to 26. -/
def numeral (w : List Char) : ℕ := w.foldl (fun n c => 26 * n + (c.toNat - 'a'.toNat + 1)) 0

@[simp]
theorem numeral_nil : numeral [] = 0 := rfl

theorem numeral_append_letter (w : List Char) {n : ℕ} (hn : n < 26) :
    numeral (w ++ [letter n]) = 26 * numeral w + (n + 1) := by
  rw [numeral, List.foldl_append, ← numeral, List.foldl_cons, List.foldl_nil, toNat_letter n hn]
  omega

theorem numeral_word (n : ℕ) : numeral (word n) = n + 1 := by
  induction n using Nat.strongRecOn with
  | ind n ih =>
    rw [word]
    split_ifs with hn
    · have hone := numeral_append_letter [] hn
      rwa [List.nil_append, numeral_nil, Nat.mul_zero, Nat.zero_add] at hone
    · rw [numeral_append_letter _ (by omega), ih _ (by omega)]
      omega

/-- The position of a word. -/
def positionOf (w : List Char) : ℕ := numeral w - 1

theorem positionOf_word (n : ℕ) : positionOf (word n) = n := by
  rw [positionOf, numeral_word, Nat.add_sub_cancel]

theorem word_positionOf {w : List Char} (h : IsWord w) : word (positionOf w) = w := by
  obtain ⟨n, rfl⟩ := exists_word_eq h
  rw [positionOf_word]

/-! ## Rounds -/

/-- The letters of a round, the last one first. Every round of 26 words shares these letters, and the
first round has none. -/
def roundLetters (round : ℕ) : List Char :=
  if round = 0 then []
  else letter ((round - 1) % 26) :: roundLetters ((round - 1) / 26)
  termination_by round

/-- A word is the letters of its round, and one more. -/
theorem word_eq_roundLetters (n : ℕ) :
    word n = (roundLetters (n / 26)).reverse ++ [letter (n % 26)] := by
  induction n using Nat.strongRecOn with
  | ind n ih =>
    rw [word, roundLetters]
    split_ifs with hn hround hround
    · rw [Nat.mod_eq_of_lt hn]
      rfl
    · omega
    · omega
    · -- the word of the round is the word at an earlier position
      rw [List.reverse_cons, ih _ (by omega)]

/-! ## The numbering -/

theorem alloc_of_position (n : ℕ) : ({ position := n } : Allocator).alloc.1 = name n := by
  have hfree : nextFree ∅ n = n := by
    rw [nextFree, if_neg (by simp)]
  rw [Allocator.alloc, hfree, name]

/-- The positions in their order are the words in theirs. -/
def numbering : ((· < ·) : ℕ → ℕ → Prop) ≃r Word.Precedes where
  toFun := Word.ofPosition
  invFun w := positionOf w.text.toList
  left_inv n := by
    show positionOf (Word.ofPosition n).text.toList = n
    rw [Word.toList_ofPosition, positionOf_word]
  right_inv w := by
    refine Word.ext (String.toList_injective ?_)
    show (Word.ofPosition (positionOf w.text.toList)).text.toList = w.text.toList
    rw [Word.toList_ofPosition, word_positionOf w.isWord]
  map_rel_iff' {m n} := by
    rw [Word.precedes_iff_shortlex]
    show List.Shortlex (· < ·) (Word.ofPosition m).text.toList (Word.ofPosition n).text.toList ↔ m < n
    rw [Word.toList_ofPosition, Word.toList_ofPosition, shortlex_word_iff]

/-- **The positions number the words**: there is an isomorphism of the natural numbers and all words over
    `a` to `z` but the empty one, where shorter words come first and words of one length in alphabetical
    order. It leads from a position to the name that an allocator gives out there when nothing is set
    aside, which is the letters of its round and one more. -/
theorem exists_numbering :
    ∃ e : ((· < ·) : ℕ → ℕ → Prop) ≃r Word.Precedes,
      (∀ n, (e n).text = ({ position := n } : Allocator).alloc.1) ∧
      (∀ n, (e n).text.toList = (roundLetters (n / 26)).reverse ++ [letter (n % 26)]) ∧
      ∀ w, e.symm w = positionOf w.text.toList := by
  refine ⟨numbering, fun n => ?_, fun n => ?_, fun _ => rfl⟩
  · exact (alloc_of_position n).symm
  · rw [← word_eq_roundLetters]
    exact Word.toList_ofPosition n

-- The words of two letters end, and those of three begin.
example : positionOf "zz".toList = 701 ∧ positionOf "aaa".toList = 702 := by decide +kernel

end SelectorRename.ShortName
