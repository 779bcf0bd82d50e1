/-
  Rename tables as Json.

  * `Kind.shape`, `Entry.shape`: a kind and an entry, read from Json.
  * `Entry.toJson`, `Entry.writeAll`: an entry and a list of entries, written.
  * `Entry.readAll?`: the entries of a text, all or none.
-/
import SelectorRename.Json.Reader
import SelectorRename.Json.Shape
import SelectorRename.Json.Writer
import SelectorRename.RenameTable

namespace SelectorRename

/-- The label of a kind. -/
def Kind.shape : Shape Kind := Shape.label ["class", "id"] Kind.ofLabel?

namespace Entry

/-- The fields of an entry. -/
def fields : Shape.Fields :=
  [Shape.field "find" Shape.string, Shape.field "replace" Shape.string, Shape.field "type" Kind.shape]

/-- An entry, as an object or as the array of its fields. -/
def shape : Shape Entry
  | .object ms => do
    Shape.members fields [] ms
    return {
      find := ← Shape.required ms "find" Shape.string
      replace := ← Shape.required ms "replace" Shape.string
      kind := ← Shape.required ms "type" Kind.shape }
  | .array items => do
    let find ← Shape.item items "MatchEntry" 3 0 Shape.string
    let replace ← Shape.item items "MatchEntry" 3 1 Shape.string
    let kind ← Shape.item items "MatchEntry" 3 2 Kind.shape
    Shape.atMost items 3
    return ⟨find, replace, kind⟩
  | v => .error (.wrongType v.found (.record "MatchEntry"))

/-- An entry as an object. -/
def toJson (e : Entry) : Json :=
  .ofMembers [("find", .ofString e.find), ("replace", .ofString e.replace),
    ("type", .ofString e.kind.label)]

/-- The text of a list of entries. -/
def writeAll (entries : List Entry) : String := (Json.array (entries.map toJson)).render

/-- The entries that a text lists, if it is Json and every entry has its shape. -/
def readAll? (text : String) : Option (List Entry) := do
  let v ← Json.parse? text
  (Shape.list shape v).toOption

end Entry

end SelectorRename
