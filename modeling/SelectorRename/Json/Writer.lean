/-
  Writing Json without spaces.

  * `Json.escape`: a character inside quotes. Quotes, backslashes and control characters are
    escaped; everything else stands for itself.
  * `Json.write`: the text of a value.
-/
import SelectorRename.Json.Value

namespace SelectorRename.Json

/-- A digit of a number in base sixteen. -/
def hexDigit (n : Nat) : Char := Nat.digitChar n

/-- A character as it is written between quotes. -/
def escape (c : Char) : List Char :=
  if c = '"' then ['\\', '"']
  else if c = '\\' then ['\\', '\\']
  else if c = '\x08' then ['\\', 'b']
  else if c = '\t' then ['\\', 't']
  else if c = '\n' then ['\\', 'n']
  else if c = '\x0c' then ['\\', 'f']
  else if c = '\r' then ['\\', 'r']
  else if c.toNat < 0x20 then
    ['\\', 'u', '0', '0', hexDigit (c.toNat / 16), hexDigit (c.toNat % 16)]
  else [c]

/-- A text in quotes. -/
def quote (s : String) : List Char := '"' :: s.toList.flatMap escape ++ ['"']

/-- A text that stands for no characters, by half of a surrogate pair. -/
def quoteText : Option String → List Char
  | some s => quote s
  | none => ['"', '\\', 'u', 'd', '8', '0', '0', '"']

/-- A number as it is written. -/
def Number.write (n : Number) : List Char :=
  (if n.negative then ['-'] else []) ++ Nat.toDigits 10 n.whole ++
    (match n.fraction with
      | some digits => '.' :: digits
      | none => []) ++
    match n.exponent with
      | some (.ofNat e) => 'e' :: Nat.toDigits 10 e
      | some (.negSucc e) => 'e' :: '-' :: Nat.toDigits 10 (e + 1)
      | none => []

/-- Puts a text behind what is written already. What is written has its last character first. -/
def put (text done : List Char) : List Char := text.reverseAux done

mutual

/-- Writes a value behind what is written already. -/
def writeOnto (done : List Char) : Json → List Char
  | .null => put ['n', 'u', 'l', 'l'] done
  | .bool true => put ['t', 'r', 'u', 'e'] done
  | .bool false => put ['f', 'a', 'l', 's', 'e'] done
  | .number n => put n.write done
  | .text s => put (quoteText s) done
  | .array [] => put ['[', ']'] done
  | .array (v :: rest) => writeItems (writeOnto ('[' :: done) v) rest
  | .object [] => put ['\x7b', '\x7d'] done
  | .object ((key, v) :: rest) =>
    writeMembers (writeOnto (':' :: put (quoteText key) ('\x7b' :: done)) v) rest

/-- Writes the items after the first one, and the end of the array. -/
def writeItems (done : List Char) : List Json → List Char
  | [] => ']' :: done
  | v :: rest => writeItems (writeOnto (',' :: done) v) rest

/-- Writes the members after the first one, and the end of the object. -/
def writeMembers (done : List Char) : List (Option String × Json) → List Char
  | [] => '\x7d' :: done
  | (key, v) :: rest =>
    writeMembers (writeOnto (':' :: put (quoteText key) (',' :: done)) v) rest

end

/-- The text of a value. -/
def write (v : Json) : List Char := (writeOnto [] v).reverse

/-- The text of a value as a string. -/
def render (v : Json) : String := String.ofList v.write

end SelectorRename.Json
