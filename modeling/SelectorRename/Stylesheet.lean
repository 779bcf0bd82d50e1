/-
  Stylesheets as lines, and what looks like a selector on a line.

  * `Stylesheet.lines`: a new line starts at every line break and before every opening brace.
  * `Occurrence`: a sigil with a name behind it. Its `token` is the written selector; its
    `candidate` has the url or path text that trails the name as well, which tells the two apart.
  * `Stylesheet.occurrences`: all of a line, the classes before the ids. `Stylesheet.occurrencesOf`
    finds those of one kind; `Stylesheet.occurrencesOf_cons` says how.

  A name holds no sigil, so the occurrences of one kind are the places where its sigil stands before
  a name character: none of them lies inside another.
-/
import SelectorRename.Candidate

namespace SelectorRename

/-- A sigil, the name behind it and the rest of the line. -/
structure Occurrence where
  kind : Kind
  name : List Char
  rest : List Char
  deriving DecidableEq, Repr

namespace Stylesheet

/-- A text with a line break before every opening brace. -/
def breakAtBraces (text : List Char) : List Char :=
  text.flatMap fun c => if c = '{' then ['\n', '{'] else [c]

/-- The lines that a stylesheet is scanned by. -/
def lines (text : String) : List (List Char) := (breakAtBraces text.toList).splitOn '\n'

/-- A character of a class or id name. -/
def isNameChar (c : Char) : Bool := c.isAlphanum || c = '_' || c = '-'

/-- A character that a url or path goes on with after what looks like a name. -/
def isTrailingChar (c : Char) : Bool :=
  c.isAlphanum || c = '?' || c = '&' || c = '=' || c = '/' || c = '%' || c = '.' || c = '_' || c = '-'

/-- What trails a name: the rest of a url or path, and a quote if that closes it. -/
def trailingOf (rest : List Char) : List Char :=
  rest.takeWhile isTrailingChar ++ ((rest.dropWhile isTrailingChar).take 1).filter Candidate.isQuote

end Stylesheet

namespace Occurrence

/-- The written selector. -/
def token (o : Occurrence) : String := String.ofList (o.kind.sigil :: o.name)

theorem token_eq (o : Occurrence) : o.token = o.kind.token (String.ofList o.name) := by
  simp [token, Kind.token]

/-- The written selector with the text that trails it. -/
def candidate (o : Occurrence) : List Char :=
  o.kind.sigil :: o.name ++ Stylesheet.trailingOf o.rest

end Occurrence

namespace Stylesheet

/-- The occurrence that starts with a sigil before `rest`, if a name follows. -/
def occurrenceAt? (k : Kind) (rest : List Char) : Option Occurrence :=
  let name := rest.takeWhile isNameChar
  if name = [] then none else some ⟨k, name, rest.dropWhile isNameChar⟩

/-- The occurrences of one kind behind those in `found`, of which the last one comes first. -/
def occurrencesOnto (k : Kind) (found : List Occurrence) : List Char → List Occurrence
  | [] => found.reverse
  | c :: rest =>
    match if c = k.sigil then occurrenceAt? k rest else none with
    | some o => occurrencesOnto k (o :: found) rest
    | none => occurrencesOnto k found rest

/-- The occurrences of one kind, from left to right. -/
def occurrencesOf (k : Kind) (line : List Char) : List Occurrence := occurrencesOnto k [] line

theorem occurrencesOnto_eq (k : Kind) (found : List Occurrence) (line : List Char) :
    occurrencesOnto k found line = found.reverse ++ occurrencesOf k line := by
  induction line generalizing found with
  | nil => simp [occurrencesOf, occurrencesOnto]
  | cons c rest ih =>
    simp only [occurrencesOf, occurrencesOnto]
    split
    · next o _ => rw [ih, ih [o]]; simp
    · exact ih found

theorem occurrencesOf_nil (k : Kind) : occurrencesOf k [] = [] := rfl

theorem occurrencesOf_cons (k : Kind) (c : Char) (rest : List Char) :
    occurrencesOf k (c :: rest) =
      (if c = k.sigil then occurrenceAt? k rest else none).toList ++ occurrencesOf k rest := by
  rw [occurrencesOf, occurrencesOnto]
  split
  · next o h => rw [occurrencesOnto_eq, h]; rfl
  · next h => rw [h]; rfl

/-- All occurrences of a line: classes first, then ids. -/
def occurrences (line : List Char) : List Occurrence :=
  let line := Text.trim line
  occurrencesOf .cls line ++ occurrencesOf .id line

end Stylesheet

end SelectorRename
