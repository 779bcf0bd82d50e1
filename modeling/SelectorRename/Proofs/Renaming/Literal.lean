/-
  What replacing a text before delimiters does.

  * `Literal.replace_cons`: at each character, either the text to find stands there before a
    delimiter and is replaced, or the character stays. Searching from occurrence to occurrence
    comes to the same.
  * `Literal.Scanned`: this scan as rules, with the number of replacements. `Literal.replace_eq_iff`:
    replacing is exactly that.
  * `Literal.replace_word`, `Literal.replace_tail`: hence a text without delimiters is replaced
    exactly at the ends of words.
-/
import SelectorRename.Renaming.Literal
import SelectorRename.Proofs.Text.Runs
import Mathlib.Tactic.SplitIfs

namespace SelectorRename.Literal

variable {c : Char} {find replacement text before after : List Char}

/-! ## From occurrence to occurrence -/

theorem replaceFrom_of_cut?_eq_none (h : Text.cut? (c :: find) text = none)
    (done : List (List Char)) (count : ℕ) :
    replaceFrom c find replacement done count text = ((text :: done).reverse.flatten, count) := by
  rw [replaceFrom]
  split
  · rfl
  · simp_all

theorem replaceFrom_of_cut?_eq_some (h : Text.cut? (c :: find) text = some (before, after))
    (done : List (List Char)) (count : ℕ) :
    replaceFrom c find replacement done count text =
      if opensWithDelimiter after then
        replaceFrom c find replacement (replacement :: before :: done) (count + 1) after
      else replaceFrom c find replacement ([c] :: before :: done) count (find ++ after) := by
  rw [replaceFrom]
  split
  · simp_all
  · next hcut =>
    obtain ⟨rfl, rfl⟩ := Prod.mk.inj (Option.some.inj (h.symm.trans hcut))
    rfl

/-- What is done stands in front of the rest, and its count is added. -/
theorem replaceFrom_eq (c : Char) (find replacement text : List Char) (done : List (List Char))
    (count : ℕ) :
    replaceFrom c find replacement done count text =
      (done.reverse.flatten ++ (replace (c :: find) replacement text).1,
        count + (replace (c :: find) replacement text).2) := by
  simp only [replace]
  induction hn : text.length using Nat.strong_induction_on generalizing text done count with
  | _ n ih =>
    subst hn
    rcases hcut : Text.cut? (c :: find) text with _ | ⟨before, after⟩
    · simp [replaceFrom_of_cut?_eq_none hcut]
    · have hlen := Text.length_of_cut? hcut
      simp only [List.length_cons] at hlen
      have hafter := ih after.length (by omega)
      have hrest := ih (find ++ after).length (by simp only [List.length_append]; omega)
      rw [replaceFrom_of_cut?_eq_some hcut, replaceFrom_of_cut?_eq_some hcut]
      split_ifs
      · rw [hafter _ _ _ rfl, hafter _ [replacement, before] _ rfl]
        simp [Nat.add_assoc]
      · rw [hrest _ _ _ rfl, hrest _ [[c], before] _ rfl]
        simp

theorem replace_of_cut?_eq_none (h : Text.cut? (c :: find) text = none) :
    replace (c :: find) replacement text = (text, 0) := by
  rw [replace, replaceFrom_of_cut?_eq_none h]
  simp

theorem replace_of_cut?_eq_some (h : Text.cut? (c :: find) text = some (before, after)) :
    replace (c :: find) replacement text =
      if opensWithDelimiter after then
        (before ++ replacement ++ (replace (c :: find) replacement after).1,
          (replace (c :: find) replacement after).2 + 1)
      else (before ++ c :: (replace (c :: find) replacement (find ++ after)).1,
        (replace (c :: find) replacement (find ++ after)).2) := by
  rw [replace, replaceFrom_of_cut?_eq_some h]
  split_ifs
  · rw [replaceFrom_eq]
    simp [Nat.add_comm]
  · rw [replaceFrom_eq]
    simp

/-! ## From character to character -/

theorem replace_nil (find replacement : List Char) : replace find replacement [] = ([], 0) := by
  cases find with
  | nil => rfl
  | cons c find => exact replace_of_cut?_eq_none (by simp [Text.cut?_nil])

/-- **Replacing is a scan over the characters.** -/
theorem replace_cons (hne : find ≠ []) (replacement : List Char) (x : Char) (s : List Char) :
    replace find replacement (x :: s) =
      if find <+: x :: s ∧ opensWithDelimiter ((x :: s).drop find.length) then
        (replacement ++ (replace find replacement ((x :: s).drop find.length)).1,
          (replace find replacement ((x :: s).drop find.length)).2 + 1)
      else (x :: (replace find replacement s).1, (replace find replacement s).2) := by
  obtain ⟨c, find, rfl⟩ := List.exists_cons_of_ne_nil hne
  have hcons := Text.cut?_cons (c :: find) x s
  by_cases hp : c :: find <+: x :: s
  · rw [if_pos (List.isPrefixOf_iff_prefix.2 hp)] at hcons
    rw [replace_of_cut?_eq_some hcons]
    simp only [hp, true_and, List.nil_append]
    split_ifs with hd
    · rfl
    · -- the occurrence stays, and the search goes on behind its first character
      obtain ⟨tail, htail⟩ := hp
      obtain ⟨rfl, rfl⟩ := List.cons.inj htail
      simp
  · rw [if_neg (mt List.isPrefixOf_iff_prefix.1 hp)] at hcons
    rw [if_neg fun h => hp h.1]
    rcases hcut : Text.cut? (c :: find) s with _ | ⟨before, after⟩
    · rw [hcut] at hcons
      rw [replace_of_cut?_eq_none hcons, replace_of_cut?_eq_none hcut]
    · rw [hcut] at hcons
      rw [replace_of_cut?_eq_some hcons, replace_of_cut?_eq_some hcut]
      split_ifs <;> rfl

/-! ## Delimiters -/

/-- A space or a quote. -/
def Delimiter (d : Char) : Prop := d = ' ' ∨ d = '\'' ∨ d = '"'

instance (d : Char) : Decidable (Delimiter d) := inferInstanceAs (Decidable (_ ∨ _ ∨ _))

theorem isDelimiter_iff (d : Char) : isDelimiter d = true ↔ Delimiter d := by
  simp [isDelimiter, Delimiter, or_assoc]

variable {w rest : List Char} {d : Char}

theorem opensWithDelimiter_iff {s : List Char} :
    opensWithDelimiter s = true ↔ ∃ d rest, s = d :: rest ∧ Delimiter d := by
  cases s <;> simp [opensWithDelimiter, isDelimiter_iff]

/-! ## A scan over the characters -/

/-- What becomes of a text: where the text to find stands before a delimiter, it is replaced and the
    scan goes on at the delimiter; any other character stays, and the scan goes on behind it. The
    number counts the replacements. -/
inductive Scanned (find replacement : List Char) : List Char → List Char → ℕ → Prop
  | nil : Scanned find replacement [] [] 0
  | jump {d : Char} {rest out : List Char} {n : ℕ} : Delimiter d →
      Scanned find replacement (d :: rest) out n →
      Scanned find replacement (find ++ d :: rest) (replacement ++ out) (n + 1)
  | step {x : Char} {rest out : List Char} {n : ℕ} :
      (∀ d tail, Delimiter d → x :: rest ≠ find ++ d :: tail) →
      Scanned find replacement rest out n → Scanned find replacement (x :: rest) (x :: out) n

variable {out : List Char} {n : ℕ}

theorem replace_jump (hne : find ≠ []) (hd : Delimiter d) :
    replace find replacement (find ++ d :: rest) =
      (replacement ++ (replace find replacement (d :: rest)).1,
        (replace find replacement (d :: rest)).2 + 1) := by
  obtain ⟨c, f, rfl⟩ := List.exists_cons_of_ne_nil hne
  have hopen : opensWithDelimiter (d :: rest) = true := opensWithDelimiter_iff.2 ⟨d, rest, rfl, hd⟩
  have hdrop : (c :: (f ++ d :: rest)).drop (c :: f).length = d :: rest := by simp
  rw [List.cons_append, replace_cons hne, hdrop, if_pos ⟨List.prefix_append (c :: f) _, hopen⟩]

theorem replace_step {x : Char} (hne : find ≠ [])
    (h : ∀ d tail, Delimiter d → x :: rest ≠ find ++ d :: tail) :
    replace find replacement (x :: rest) =
      (x :: (replace find replacement rest).1, (replace find replacement rest).2) := by
  rw [replace_cons hne, if_neg]
  rintro ⟨⟨tail, htail⟩, hopen⟩
  rw [← htail, List.drop_left, opensWithDelimiter_iff] at hopen
  obtain ⟨d, tail, rfl, hd⟩ := hopen
  exact h d tail hd htail.symm

theorem scanned_replace (hne : find ≠ []) (text : List Char) :
    Scanned find replacement text (replace find replacement text).1
      (replace find replacement text).2 := by
  induction hn : text.length using Nat.strong_induction_on generalizing text with
  | _ n ih =>
    subst hn
    by_cases hjump : ∃ d rest, Delimiter d ∧ text = find ++ d :: rest
    · obtain ⟨d, rest, hd, rfl⟩ := hjump
      have hlt : (d :: rest).length < (find ++ d :: rest).length := by
        have := List.length_pos_iff.2 hne
        simp only [List.length_append]
        omega
      rw [replace_jump hne hd]
      exact .jump hd (ih _ hlt _ rfl)
    · cases text with
      | nil =>
        rw [replace_nil]
        exact .nil
      | cons x rest =>
        have hstep : ∀ d tail, Delimiter d → x :: rest ≠ find ++ d :: tail :=
          fun d tail hd heq => hjump ⟨d, tail, hd, heq⟩
        rw [replace_step hne hstep]
        exact .step hstep (ih _ (Nat.lt_succ_self _) _ rfl)

/-- **Replacing is the scan from left to right**, whatever the text to find overlaps with; an empty
    one is nowhere. -/
theorem replace_eq_iff (find replacement text out : List Char) (n : ℕ) :
    replace find replacement text = (out, n) ↔
      find = [] ∧ out = text ∧ n = 0 ∨ find ≠ [] ∧ Scanned find replacement text out n := by
  by_cases hne : find = []
  · subst hne
    simp only [replace, Prod.mk.injEq, true_and, ne_eq, not_true_eq_false, false_and, or_false]
    exact and_congr eq_comm eq_comm
  · simp only [hne, false_and, false_or, ne_eq, not_false_eq_true, true_and]
    constructor
    · intro h
      have hscan : Scanned find replacement text _ _ := scanned_replace hne text
      rwa [h] at hscan
    · intro h
      induction h with
      | nil => exact replace_nil ..
      | jump hd _ ih => rw [replace_jump hne hd, ih]
      | step hstep _ ih => rw [replace_step hne hstep, ih]

-- The first of two occurrences that overlap has no delimiter behind it.
example : replace "aa".toList "x".toList "aaa' aa".toList = ("ax' aa".toList, 1) := by decide +kernel

/-! ## Words -/

/-- A text without delimiters that stands before one is all that is left of the word there. -/
theorem prefix_and_opensWithDelimiter_iff (rest : List Char) (hf : ∀ x ∈ find, ¬ Delimiter x)
    (hw : ∀ x ∈ w, ¬ Delimiter x) (hd : Delimiter d) :
    find <+: w ++ d :: rest ∧ opensWithDelimiter ((w ++ d :: rest).drop find.length) = true ↔
      find = w := by
  constructor
  · rintro ⟨⟨tail, htail⟩, hopen⟩
    rw [← htail, List.drop_left, opensWithDelimiter_iff] at hopen
    obtain ⟨e, tail, rfl, he⟩ := hopen
    exact ((Text.longest_cons hf (not_not.2 he) tail).unique
      (Text.longest_cons hw (not_not.2 hd) rest) htail).1
  · rintro rfl
    exact ⟨List.prefix_append .., by simp [opensWithDelimiter_iff, hd]⟩

/-- A word with the text to find at its end replaced. -/
def replaceEnd (find replacement w : List Char) : List Char :=
  if find <:+ w then w.take (w.length - find.length) ++ replacement else w

theorem replaceEnd_append (find replacement u : List Char) :
    replaceEnd find replacement (u ++ find) = u ++ replacement := by
  simp [replaceEnd]

theorem replaceEnd_of_not_suffix (h : ¬ find <:+ w) : replaceEnd find replacement w = w :=
  if_neg h

theorem replaceEnd_cons (x : Char) (h : find ≠ x :: w) :
    replaceEnd find replacement (x :: w) = x :: replaceEnd find replacement w := by
  by_cases hs : find <:+ w
  · obtain ⟨u, rfl⟩ := hs
    rw [replaceEnd_append, ← List.cons_append, replaceEnd_append, List.cons_append]
  · rw [replaceEnd_of_not_suffix hs,
      replaceEnd_of_not_suffix (by rw [List.suffix_cons_iff]; exact not_or.2 ⟨h, hs⟩)]

theorem replace_delimiter (hne : find ≠ []) (hf : ∀ x ∈ find, ¬ Delimiter x) (hd : Delimiter d) :
    (replace find replacement (d :: rest)).1 = d :: (replace find replacement rest).1 := by
  have hiff := prefix_and_opensWithDelimiter_iff (w := []) rest hf (by simp) hd
  rw [List.nil_append] at hiff
  rw [replace_cons hne, if_neg (mt hiff.1 hne)]

/-- **In a word, the text to find is replaced at the end and nowhere else.** -/
theorem replace_word (hne : find ≠ []) (hf : ∀ x ∈ find, ¬ Delimiter x)
    (hw : ∀ x ∈ w, ¬ Delimiter x) (hd : Delimiter d) :
    (replace find replacement (w ++ d :: rest)).1 =
      replaceEnd find replacement w ++ d :: (replace find replacement rest).1 := by
  induction w with
  | nil =>
    rw [List.nil_append, replace_delimiter hne hf hd,
      replaceEnd_of_not_suffix (mt List.suffix_nil.1 hne), List.nil_append]
  | cons x w ih =>
    have hiff := prefix_and_opensWithDelimiter_iff rest hf hw hd
    rw [List.cons_append] at hiff ⊢
    rw [replace_cons hne]
    by_cases heq : find = x :: w
    · have hend := replaceEnd_append find replacement []
      rw [List.nil_append, List.nil_append] at hend
      rw [if_pos (hiff.2 heq), ← List.cons_append, ← heq, List.drop_left, hend,
        replace_delimiter hne hf hd]
    · rw [if_neg (mt hiff.1 heq), replaceEnd_cons x heq, List.cons_append,
        ih fun y hy => hw y (List.mem_cons_of_mem _ hy)]

/-- Without a delimiter behind it nothing is replaced. -/
theorem replace_tail (hne : find ≠ []) (hw : ∀ x ∈ w, ¬ Delimiter x) :
    (replace find replacement w).1 = w := by
  induction w with
  | nil => rw [replace_nil]
  | cons x w ih =>
    have hno : opensWithDelimiter ((x :: w).drop find.length) ≠ true := by
      intro hopen
      obtain ⟨d, rest, heq, hd⟩ := opensWithDelimiter_iff.1 hopen
      exact hw d (List.mem_of_mem_drop (heq ▸ List.mem_cons_self)) hd
    rw [replace_cons hne, if_neg fun h => hno h.2, ih fun y hy => hw y (List.mem_cons_of_mem _ hy)]

end SelectorRename.Literal
