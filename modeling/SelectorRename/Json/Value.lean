/-
  Json values.

  * `Json`: a value; an object is the list of its members, in the order in which they were written,
    with every repetition of a key.
  * `Json.Number`: a number as it is written: sign, whole part, fraction and exponent.
  * `Json.settle`: objects with each key once. The last member of a key counts, and the members go
    up in the order of their keys.

  A text is `none` if its escapes name half of a surrogate pair without the other half: it can be
  written, but it stands for no characters.
-/
import Std.Data.TreeMap

namespace SelectorRename

/-- A number by its spelling. -/
structure Json.Number where
  negative : Bool
  whole : Nat
  /-- The digits after the point. -/
  fraction : Option (List Char)
  exponent : Option Int
  deriving DecidableEq, Repr

/-- A Json value. -/
inductive Json where
  | null
  | bool (b : Bool)
  | number (n : Json.Number)
  | text (s : Option String)
  | array (items : List Json)
  | object (members : List (Option String × Json))
  deriving Inhabited, Repr

namespace Json

/-- A value that holds a text. -/
def ofString (s : String) : Json := .text (some s)

/-- A value that holds a natural number. -/
def ofNat (n : Nat) : Json := .number ⟨false, n, none, none⟩

/-- An object from keys and values. -/
def ofMembers (members : List (String × Json)) : Json :=
  .object (members.map fun m => (some m.1, m.2))

/-! ## Numbers -/

/-- The value of a number that is written as an integer. Minus zero is none. -/
def Number.toInt? (n : Number) : Option Int :=
  if n.fraction.isSome || n.exponent.isSome || (n.negative && n.whole = 0) then none
  else some (if n.negative then -n.whole else n.whole)

/-- The first number that does not fit in 64 bits. -/
def wordSize : Nat := 18446744073709551616

/-- The value of a number that is a natural number of 64 bits. -/
def Number.toNat64? (n : Number) : Option Nat :=
  match n.toInt? with
  | some (.ofNat v) => if v < wordSize then some v else none
  | _ => none

/-- The value of a number that is an integer of 64 bits, with a sign or without. -/
def Number.toInt64? (n : Number) : Option Int :=
  n.toInt?.filter fun v => -9223372036854775808 ≤ v && v < wordSize

/-! ## Members of objects -/

/-- The value of a key that occurs once. -/
def member? (members : List (Option String × Json)) (key : String) : Option Json :=
  members.lookup (some key)

/-- The value of a key of an object. -/
def get? (v : Json) (key : String) : Option Json :=
  match v with
  | .object members => member? members key
  | _ => none

/-- The members of an object whose keys stand for characters; other values have none. -/
def named : Json → List (String × Json)
  | .object members => members.filterMap fun (key, v) => key.map (·, v)
  | _ => []

mutual

/-- A value whose objects hold each key once, in order; the last member of a key counts. -/
def settle : Json → Json
  | .array items => .array (settleItems [] items)
  | .object members => .object (settleMembers ∅ members).toList
  | v => v

/-- Settles the items of an array, after those of `settled`, which has the last one first. -/
def settleItems (settled : List Json) : List Json → List Json
  | [] => settled.reverse
  | v :: rest => settleItems (v.settle :: settled) rest

/-- Settles members one after the other: each takes the place of one with the same key. -/
def settleMembers (settled : Std.TreeMap (Option String) Json) :
    List (Option String × Json) → Std.TreeMap (Option String) Json
  | [] => settled
  | (key, v) :: rest => settleMembers (settled.insert key v.settle) rest

end

end Json

end SelectorRename
