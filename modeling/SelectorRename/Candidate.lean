/-
  Candidates: what stands after a sigil in a stylesheet need not be a selector.

  * `Reason`: the rules under which a candidate is rejected; `Reason.all` lists them in the order in
    which they are asked.
  * `Reason.applies`: whether a rule fits a text. Every rule but the whitelist looks at its shape:
    a colour, a number, a measure, the end of a url.
  * `classify`: the first rule that fits the trimmed candidate, `none` for a selector.
-/
import SelectorRename.Whitelist
import SelectorRename.Text.Blank

namespace SelectorRename

/-- Why a candidate is no selector to rename. -/
inductive Reason where
  | whitelist
  | hexColor
  | fraction
  | digitFraction
  | urlSuffix
  | path
  | questionMark
  | time
  | em
  | rem
  deriving DecidableEq, Repr

namespace Candidate

/-! ## Shapes -/

/-- Either quote character. -/
def isQuote (c : Char) : Bool := c = '\'' || c = '"'

/-- A character of a file ending or of the query behind it. -/
def isUrlChar (c : Char) : Bool := c.isAlphanum || c = '?' || c = '&'

/-- A character that a path may have before its closing quote. -/
def isPathChar (c : Char) : Bool := isUrlChar c || c = '/'

/-- A `#` and at least three letters or digits. -/
def isHexColor : List Char → Bool
  | '#' :: a :: b :: c :: _ => a.isAlphanum && b.isAlphanum && c.isAlphanum
  | _ => false

/-- A point and a digit. -/
def isFraction : List Char → Bool
  | '.' :: d :: _ => d.isDigit
  | _ => false

/-- A digit, a point and a digit. -/
def isDigitFraction : List Char → Bool
  | n :: '.' :: d :: _ => n.isDigit && d.isDigit
  | _ => false

/-- A point, some characters of a file ending and a closing double quote. -/
def isUrlSuffix : List Char → Bool
  | '.' :: c :: s => isUrlChar c && (s.dropWhile isUrlChar).head? = some '"'
  | _ => false

/-- A quote that follows a path character, anywhere. -/
def hasPathEnd : List Char → Bool
  | c :: s => (isPathChar c && s.head?.any isQuote) || hasPathEnd s
  | [] => false

/-- A text without its first character if that is a digit. -/
def dropDigit : List Char → List Char
  | c :: s => if c.isDigit then s else c :: s
  | [] => []

/-- At most one digit, a point, one or two digits and a unit. -/
def isMeasure (unit : List Char) (s : List Char) : Bool :=
  match dropDigit s with
  | '.' :: d :: rest => d.isDigit && (unit.isPrefixOf rest || unit.isPrefixOf (dropDigit rest))
  | _ => false

end Candidate

namespace Reason

/-- The rules in the order in which they are asked. -/
def all : List Reason :=
  [.whitelist, .hexColor, .fraction, .digitFraction, .urlSuffix, .path, .questionMark, .time, .em, .rem]

theorem mem_all (r : Reason) : r ∈ all := by cases r <;> decide

/-- Whether a rule fits a text. -/
def applies (w : Whitelist) (text : List Char) : Reason → Bool
  | .whitelist => w.containsToken text
  | .hexColor => Candidate.isHexColor text
  | .fraction => Candidate.isFraction text
  | .digitFraction => Candidate.isDigitFraction text
  | .urlSuffix => Candidate.isUrlSuffix text
  | .path => Candidate.hasPathEnd text
  | .questionMark => text.contains '?'
  | .time => Candidate.isMeasure ['s'] text
  | .em => Candidate.isMeasure ['e', 'm'] text
  | .rem => Candidate.isMeasure ['r', 'e', 'm'] text

/-- The rule as the reports show it. -/
def label : Reason → String
  | .whitelist => "Whitelist"
  | .hexColor => "Hex color"
  | .fraction | .digitFraction => "Rgb | Numeric"
  | .urlSuffix | .path => "Url | Path"
  | .questionMark => "Question mark"
  | .time => "Time"
  | .em => "Em"
  | .rem => "Rem"

end Reason

/-- The first rule that rejects a candidate, blanks around it aside; `none` if it is a selector. -/
def classify (w : Whitelist) (candidate : List Char) : Option Reason :=
  let text := Text.trim candidate
  Reason.all.find? (·.applies w text)

end SelectorRename
