/-
  Blank characters and the trimming of text.

  * `Text.isBlank`: the property White_Space of the character standard.
  * `Text.trim`: a text without the blanks at its two ends; `Text.trimRight` cuts the end alone.

  Text is handled as a list of characters throughout, so that a scan is a recursion on the list.
-/

namespace SelectorRename.Text

/-- The characters with the property White_Space. -/
def isBlank (c : Char) : Bool :=
  (0x9 ≤ c.val && c.val ≤ 0xD) || c.val == 0x20 || c.val == 0x85 || c.val == 0xA0 || c.val == 0x1680 ||
    (0x2000 ≤ c.val && c.val ≤ 0x200A) || c.val == 0x2028 || c.val == 0x2029 || c.val == 0x202F ||
    c.val == 0x205F || c.val == 0x3000

/-- A text without the blanks at its end. -/
def trimRight (s : List Char) : List Char := (s.reverse.dropWhile isBlank).reverse

/-- A text without the blanks at its two ends. -/
def trim (s : List Char) : List Char := trimRight (s.dropWhile isBlank)

end SelectorRename.Text
