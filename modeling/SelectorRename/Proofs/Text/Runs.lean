/-
  Runs of characters of one class.

  * `Alnum`, `NameChar`: the letters and digits of ASCII, and the characters of a name.
  * `Longest`: the longest beginning of a text whose characters have a property.
  * `Longest.takeWhile_eq`, `Longest.dropWhile_eq`: a search by characters finds it;
    `longest_takeWhile`: every text has one, and `Longest.unique`: only one.
-/
import SelectorRename.Stylesheet
import Mathlib.Data.List.TakeWhile

namespace SelectorRename.Text

/-! ## Characters -/

/-- A letter or a digit of ASCII. -/
def Alnum (c : Char) : Prop := 'A' ≤ c ∧ c ≤ 'Z' ∨ 'a' ≤ c ∧ c ≤ 'z' ∨ '0' ≤ c ∧ c ≤ '9'

/-- A character of a class or id name: a letter, a digit, an underscore or a hyphen. -/
def NameChar (c : Char) : Prop := Alnum c ∨ c = '_' ∨ c = '-'

theorem isAlphanum_iff (c : Char) : c.isAlphanum = true ↔ Alnum c := by
  delta Char.isAlphanum Char.isAlpha Char.isUpper Char.isLower Char.isDigit
  simp only [Bool.or_eq_true, Bool.and_eq_true, decide_eq_true_eq, or_assoc]
  exact Iff.rfl

theorem isNameChar_iff (c : Char) : Stylesheet.isNameChar c = true ↔ NameChar c := by
  simp only [Stylesheet.isNameChar, Bool.or_eq_true, decide_eq_true_eq, isAlphanum_iff, or_assoc]
  exact Iff.rfl

instance : DecidablePred NameChar := fun c => decidable_of_iff _ (isNameChar_iff c)

/-- A text of such characters alone. -/
def NameText (s : List Char) : Prop := ∀ c ∈ s, NameChar c

instance : DecidablePred NameText := fun s => List.decidableBAll NameChar s

/-! ## Longest runs -/

/-- In `run ++ rest`, the longest beginning of characters with a property is `run`. -/
def Longest (P : Char → Prop) (run rest : List Char) : Prop :=
  (∀ c ∈ run, P c) ∧ ∀ c ∈ rest.head?, ¬ P c

variable {P : Char → Prop} {p : Char → Bool} {run rest : List Char}

/-- A run is the longest one if another character ends it. -/
theorem longest_cons {c : Char} (h : ∀ x ∈ run, P x) (hc : ¬ P c) (rest : List Char) :
    Longest P run (c :: rest) :=
  ⟨h, fun d hd => by obtain rfl := Option.some.inj hd; exact hc⟩

theorem Longest.takeWhile_eq (h : Longest P run rest) (hp : ∀ c, p c = true ↔ P c) :
    (run ++ rest).takeWhile p = run := by
  rw [List.takeWhile_append_of_pos fun c hc => (hp c).2 (h.1 c hc)]
  cases rest with
  | nil => simp
  | cons c rest => rw [List.takeWhile_cons_of_neg (mt (hp c).1 (h.2 c rfl)), List.append_nil]

theorem Longest.dropWhile_eq (h : Longest P run rest) (hp : ∀ c, p c = true ↔ P c) :
    (run ++ rest).dropWhile p = rest := by
  rw [List.dropWhile_append_of_pos fun c hc => (hp c).2 (h.1 c hc)]
  cases rest with
  | nil => rfl
  | cons c rest => exact List.dropWhile_cons_of_neg (mt (hp c).1 (h.2 c rfl))

theorem Longest.unique {run' rest' : List Char} (h : Longest P run rest)
    (h' : Longest P run' rest') (he : run ++ rest = run' ++ rest') : run = run' ∧ rest = rest' := by
  classical
  have hp : ∀ c, decide (P c) = true ↔ P c := fun c => decide_eq_true_iff
  constructor
  · rw [← h.takeWhile_eq hp, he, h'.takeWhile_eq hp]
  · rw [← h.dropWhile_eq hp, he, h'.dropWhile_eq hp]

/-- Another character behind the text does not make the run longer. -/
theorem Longest.append (h : Longest P run rest) {more : List Char} (hmore : ∀ c ∈ more.head?, ¬ P c) :
    Longest P run (rest ++ more) := by
  refine ⟨h.1, fun c hc => ?_⟩
  cases rest with
  | nil => exact hmore c hc
  | cons d rest => exact h.2 c hc

theorem longest_takeWhile (hp : ∀ c, p c = true ↔ P c) (text : List Char) :
    Longest P (text.takeWhile p) (text.dropWhile p) := by
  refine ⟨fun c hc => (hp c).1 (List.mem_takeWhile_imp hc), fun c hc hP => ?_⟩
  have hnot := List.head?_dropWhile_not p text
  rw [Option.mem_def.1 hc] at hnot
  exact absurd ((hp c).2 hP) (by simp [hnot])

end SelectorRename.Text
