/-
  Reading typed data out of Json values.

  * `Json.Found`: what a value is, as a message tells it.
  * `Fault`: why a value does not have the shape that is asked for; `Fault.message` words it.
  * `Shape`: a reader of one shape. Texts, flags, lists and labels are below; records are read from
    an object by `Shape.members` and `Shape.required`, or from an array by `Shape.item`.

  The first fault counts: the members of an object are looked at in the order in which they stand,
  and what is missing is only found after that.
-/
import SelectorRename.Decimal
import SelectorRename.Json.Value
import SelectorRename.Text.Quoted

namespace SelectorRename

namespace Json

/-! ## What a value is -/

/-- The kind of a value, with the value itself if it is a simple one. -/
inductive Found where
  | null
  | bool (b : Bool)
  | number (n : Number)
  | text (s : Option String)
  | sequence
  | map
  deriving DecidableEq, Repr

/-- What a value is. -/
def found : Json → Found
  | .null => .null
  | .bool b => .bool b
  | .number n => .number n
  | .text s => .text s
  | .array _ => .sequence
  | .object _ => .map

/-- Takes digits into a number as long as it fits in 64 bits; the digits that are left. -/
def Number.takeDigits (n : Nat) : List Char → Nat × List Char
  | [] => (n, [])
  | c :: digits =>
    let next := n * 10 + (c.toNat - '0'.toNat)
    if next < wordSize then takeDigits next digits else (n, c :: digits)

/-- The double that stands for a number, sign aside. Digits that do not fit in 64 bits count as
    zeros before the point and as nothing behind it. -/
def Number.toDouble (n : Number) : Double :=
  let behind := n.fraction.getD []
  let (digits, zeros) := takeDigits 0 (Nat.toDigits 10 n.whole)
  let (digits, dropped) := takeDigits digits behind
  let shift : Int := (zeros.length : Int) - (behind.length - dropped.length : Nat)
  .ofScientific digits (shift + n.exponent.getD 0)

/-- A number as a message tells it. -/
def Number.described (n : Number) : String :=
  match n.toInt64? with
  | some v => s!"integer `{v}`"
  | none =>
    let sign := if n.negative then "-" else ""
    s!"floating point `{sign}{n.toDouble.text}`"

/-- What was found, as a message tells it. -/
def Found.described : Found → String
  | .null => "null"
  | .bool b => s!"boolean `{b}`"
  | .number n => n.described
  | .text s => "string " ++ Text.quoteShown (s.getD "")
  | .sequence => "sequence"
  | .map => "map"

end Json

/-! ## Faults -/

/-- What a value should be. -/
inductive Wanted where
  | string
  | boolean
  | sequence
  | label
  | nothing
  /-- A natural number that fits in a type. -/
  | word (type : String)
  | record (name : String)
  deriving DecidableEq, Repr

/-- What is wanted, as a message tells it. -/
def Wanted.described : Wanted → String
  | .string => "a string"
  | .boolean => "a boolean"
  | .sequence => "a sequence"
  | .label => "string or map"
  | .nothing => "unit"
  | .word type => type
  | .record name => "struct " ++ name

/-- Why a value does not have the shape that is asked for. -/
inductive Fault where
  | wrongType (found : Json.Found) (wanted : Wanted)
  /-- An integer that does not fit. -/
  | outOfRange (number : Json.Number) (wanted : Wanted)
  | missingField (name : String)
  | repeatedField (name : String)
  /-- An array with too few elements for a record. -/
  | tooShort (length : Nat) (record : String) (fields : Nat)
  /-- An array with elements behind those of a record. -/
  | tooLong (length : Nat)
  | unknownLabel (label : String) (labels : List String)
  | notOneKey
  | noText
  deriving DecidableEq, Repr

namespace Fault

/-- A list of labels to choose from. -/
def choice : List String → String
  | [a] => s!"`{a}`"
  | [a, b] => s!"`{a}` or `{b}`"
  | labels => "one of " ++ ", ".intercalate (labels.map fun a => s!"`{a}`")

/-- The wording of a fault. -/
def message : Fault → String
  | .wrongType found wanted => s!"invalid type: {found.described}, expected {wanted.described}"
  | .outOfRange number wanted =>
    s!"invalid value: {number.described}, expected {wanted.described}"
  | .missingField name => s!"missing field `{name}`"
  | .repeatedField name => s!"duplicate field `{name}`"
  | .tooShort length record fields =>
    s!"invalid length {length}, expected struct {record} with {fields} elements"
  | .tooLong length => s!"invalid length {length}, expected fewer elements in array"
  | .unknownLabel label labels => s!"unknown variant `{label}`, expected {choice labels}"
  | .notOneKey => "invalid value: map, expected map with a single key"
  | .noText => "lone surrogate in a string"

end Fault

/-! ## Shapes -/

/-- A reader of one shape of values. -/
abbrev Shape (α : Type) := Json → Except Fault α

namespace Shape

/-- A text. -/
def string : Shape String
  | .text (some s) => .ok s
  | .text none => .error .noText
  | v => .error (.wrongType v.found .string)

/-- A truth value. -/
def boolean : Shape Bool
  | .bool b => .ok b
  | v => .error (.wrongType v.found .boolean)

/-- A natural number of 64 bits, by the name of its type. -/
def word (type : String) : Shape Nat
  | .number n =>
    match n.toNat64? with
    | some k => .ok k
    | none =>
      if n.toInt64?.isSome then .error (.outOfRange n (.word type))
      else .error (.wrongType (.number n) (.word type))
  | v => .error (.wrongType v.found (.word type))

/-- A value that may be null. -/
def orNull {α : Type} (shape : Shape α) : Shape (Option α)
  | .null => .ok none
  | v => (shape v).map some

/-- An array whose items all have one shape. -/
def list {α : Type} (item : Shape α) : Shape (List α)
  | .array items => items.mapM item
  | v => .error (.wrongType v.found .sequence)

/-- One of some labels, or an object with that label as its only key and no value. -/
def label {α : Type} (labels : List String) (ofLabel? : String → Option α) : Shape α
  | .text (some s) =>
    match ofLabel? s with
    | some a => .ok a
    | none => .error (.unknownLabel s labels)
  | .object [(some s, v)] =>
    match ofLabel? s, v with
    | some a, .null => .ok a
    | some _, v => .error (.wrongType v.found .nothing)
    | none, _ => .error (.unknownLabel s labels)
  | .object _ => .error .notOneKey
  | v => .error (.wrongType v.found .label)

/-! ## Records -/

/-- The fields of a record by name, each with the shape of its value. -/
abbrev Fields := List (String × Shape Unit)

/-- A field of a record. -/
def field {α : Type} (name : String) (shape : Shape α) : String × Shape Unit :=
  (name, fun v => (shape v).map fun _ => ())

/-- Looks at the members of an object in their order. Keys that are no fields are passed over;
    no field may come twice. -/
def members (fields : Fields) : List String → List (Option String × Json) → Except Fault Unit
  | _, [] => .ok ()
  | _, (none, _) :: _ => .error .noText
  | seen, (some key, v) :: rest =>
    match fields.lookup key with
    | none => members fields seen rest
    | some shape =>
      if key ∈ seen then .error (.repeatedField key)
      else do
        shape v
        members fields (key :: seen) rest

/-- A field that has to be there. -/
def required {α : Type} (ms : List (Option String × Json)) (name : String) (shape : Shape α) :
    Except Fault α :=
  match Json.member? ms name with
  | some v => shape v
  | none => .error (.missingField name)

/-- A field that may be left out. -/
def optional {α : Type} (ms : List (Option String × Json)) (name : String) (shape : Shape α)
    (otherwise : α) : Except Fault α :=
  match Json.member? ms name with
  | some v => shape v
  | none => .ok otherwise

/-- An element of a record that is written as an array. -/
def item {α : Type} (items : List Json) (record : String) (fields index : Nat) (shape : Shape α) :
    Except Fault α :=
  match items[index]? with
  | some v => shape v
  | none => .error (.tooShort items.length record fields)

/-- An element that may be left out at the end. -/
def optionalItem {α : Type} (items : List Json) (index : Nat) (shape : Shape α) (otherwise : α) :
    Except Fault α :=
  match items[index]? with
  | some v => shape v
  | none => .ok otherwise

/-- No more elements than a record has fields. -/
def atMost (items : List Json) (fields : Nat) : Except Fault Unit :=
  if fields < items.length then .error (.tooLong items.length) else .ok ()

end Shape

end SelectorRename
