/-
  Text in quotes, as messages show it.

  * `Text.escapeShown`: quotes, backslashes and what cannot be shown are escaped.
  * `Text.quoteShown`: a text in double quotes.
-/
import SelectorRename.Text.Printable

namespace SelectorRename.Text

/-- A character as a message shows it inside quotes. -/
def escapeShown (c : Char) : List Char :=
  if c = '"' || c = '\\' then ['\\', c]
  else if c = '\n' then ['\\', 'n']
  else if c = '\r' then ['\\', 'r']
  else if c = '\t' then ['\\', 't']
  else if c = '\x00' then ['\\', '0']
  else if isPrintable c then [c]
  else ['\\', 'u', '\x7b'] ++ Nat.toDigits 16 c.toNat ++ ['\x7d']

/-- A text in quotes. -/
def quoteShown (s : String) : String := String.ofList ('"' :: s.toList.flatMap escapeShown ++ ['"'])

end SelectorRename.Text
