/-
  Replacing a text wherever it ends a word.

  * `Literal.isDelimiter`: a space or a quote, which ends a word.
  * `Literal.replace`: every occurrence directly before a delimiter, and how many there were.
-/
import SelectorRename.Text.Search

namespace SelectorRename.Literal

/-- A character that ends a word. -/
def isDelimiter (c : Char) : Bool := c = ' ' || c = '\'' || c = '"'

/-- Whether a text begins with a delimiter. -/
def opensWithDelimiter : List Char → Bool
  | c :: _ => isDelimiter c
  | [] => false

/-- Replaces a text, given by its first character and the others, before every delimiter. An
    occurrence elsewhere is left, and the search goes on at its second character. `done` holds the
    parts of the result so far, the last one first, and `count` how many were replaced. -/
def replaceFrom (c : Char) (find replacement : List Char) (done : List (List Char)) (count : Nat)
    (text : List Char) : List Char × Nat :=
  match _h : Text.cut? (c :: find) text with
  | none => ((text :: done).reverse.flatten, count)
  | some (before, after) =>
    if opensWithDelimiter after then
      replaceFrom c find replacement (replacement :: before :: done) (count + 1) after
    else replaceFrom c find replacement ([c] :: before :: done) count (find ++ after)
  termination_by text.length
  decreasing_by
    all_goals
      have := Text.length_of_cut? _h
      simp at this ⊢
      omega

/-- Replaces a text before every delimiter; an empty one is nowhere. -/
def replace (find replacement text : List Char) : List Char × Nat :=
  match find with
  | [] => (text, 0)
  | c :: find => replaceFrom c find replacement [] 0 text

end SelectorRename.Literal
