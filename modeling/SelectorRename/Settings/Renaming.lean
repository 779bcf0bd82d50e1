/-
  The settings of a renaming, read from a value of a fixed shape.

  * `LiteralRule`: a name that is also replaced outside attribute values.
  * `RenamingSettings`: the table to go by, more attributes, the whitelist and literal rules.
  * `RenamingSettings.ofJson`: every setting may be left out, none may have the wrong type.
-/
import SelectorRename.RenameTable.Format

namespace SelectorRename

/-- A name that is also replaced where it is no attribute value. -/
structure LiteralRule where
  find : String
  kind : Kind
  deriving DecidableEq, Repr

namespace LiteralRule

/-- The fields of a rule. -/
def fields : Shape.Fields := [Shape.field "find" Shape.string, Shape.field "type" Kind.shape]

/-- A rule, as an object or as the array of its fields. -/
def shape : Shape LiteralRule
  | .object ms => do
    Shape.members fields [] ms
    return {
      find := ← Shape.required ms "find" Shape.string
      kind := ← Shape.required ms "type" Kind.shape }
  | .array items => do
    let find ← Shape.item items "ForceReplace" 2 0 Shape.string
    let kind ← Shape.item items "ForceReplace" 2 1 Kind.shape
    Shape.atMost items 2
    return ⟨find, kind⟩
  | v => .error (.wrongType v.found (.record "ForceReplace"))

end LiteralRule

/-- The settings of a renaming. -/
structure RenamingSettings where
  /-- The entries to go by, without sigils. -/
  entries : List Entry := []
  /-- Attributes on top of the ones whose names are always replaced. -/
  attributes : List String := []
  ignore : List String := []
  literals : List LiteralRule := []
  displayResult : Bool := false
  deriving DecidableEq, Repr

namespace RenamingSettings

/-- The fields of the settings. -/
def fields : Shape.Fields :=
  [Shape.field "matches" (Shape.list Entry.shape),
    Shape.field "attributes" (Shape.list Shape.string),
    Shape.field "ignore" (Shape.list Shape.string),
    Shape.field "forceReplace" (Shape.list LiteralRule.shape),
    Shape.field "displayResult" Shape.boolean]

/-- The settings, as an object or as the array of its fields; what is left out has its default. -/
def shape : Shape RenamingSettings
  | .object ms => do
    Shape.members fields [] ms
    return {
      entries := ← Shape.optional ms "matches" (Shape.list Entry.shape) []
      attributes := ← Shape.optional ms "attributes" (Shape.list Shape.string) []
      ignore := ← Shape.optional ms "ignore" (Shape.list Shape.string) []
      literals := ← Shape.optional ms "forceReplace" (Shape.list LiteralRule.shape) []
      displayResult := ← Shape.optional ms "displayResult" Shape.boolean false }
  | .array items => do
    let entries ← Shape.optionalItem items 0 (Shape.list Entry.shape) []
    let attributes ← Shape.optionalItem items 1 (Shape.list Shape.string) []
    let ignore ← Shape.optionalItem items 2 (Shape.list Shape.string) []
    let literals ← Shape.optionalItem items 3 (Shape.list LiteralRule.shape) []
    let displayResult ← Shape.optionalItem items 4 Shape.boolean false
    Shape.atMost items 5
    return ⟨entries, attributes, ignore, literals, displayResult⟩
  | v => .error (.wrongType v.found (.record "TransformOption"))

/-- The settings from a value; of a repeated key the last member counts. -/
def ofJson (v : Json) : Except Fault RenamingSettings := shape v.settle

end RenamingSettings

end SelectorRename
