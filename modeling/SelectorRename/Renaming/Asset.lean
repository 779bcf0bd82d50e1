/-
  Replacing the names in generated assets.

  * `Renamer`: everything that is prepared once from the settings: the dictionary, the attributes
    and the literal rules that have an entry, the longest first.
  * `Renamer.rename`: one asset. The attributes come one after another, then the literal
    rules are applied; with an empty table the asset stays as it is.
  * `Asset.renameAll`: several assets in order, with what the log says about them.
-/
import SelectorRename.Renaming.Attribute
import SelectorRename.Renaming.Literal
import SelectorRename.Settings.Renaming

namespace SelectorRename

/-- A generated file. -/
structure Asset where
  name : String
  content : String
  deriving DecidableEq, Repr

/-- A literal rule with the replacement of its name. -/
structure Substitution where
  kind : Kind
  find : String
  replacement : String
  deriving DecidableEq, Repr

/-- What replaces the names in assets. -/
structure Renamer where
  dictionary : Dictionary
  attributes : List Attribute
  literals : List Substitution
  displayResult : Bool

namespace Renamer

/-- The attributes whose names are always replaced. -/
def defaultAttributes : List String := ["className", "id"]

/-- The attributes with names to replace, each one once; an empty name is none. -/
def attributesOf (extra : List String) : List Attribute :=
  (((defaultAttributes ++ extra).filter (· ≠ "")).eraseDups).map Attribute.mk

/-- The literal rules that have an entry, each one once, the longest first. -/
def literalsOf (lookup : Lookup) (rules : List LiteralRule) : List Substitution :=
  (rules.eraseDups.filterMap fun r =>
    (lookup.get? r.kind r.find).map (Substitution.mk r.kind r.find)).mergeSort
    fun a b => decide (b.find.utf8ByteSize ≤ a.find.utf8ByteSize)

/-- Prepares the settings. -/
def ofSettings (s : RenamingSettings) : Renamer :=
  let lookup := Lookup.ofEntries s.entries
  { dictionary := ⟨lookup, .ofWhitelists [.ofList s.ignore]⟩
    attributes := attributesOf s.attributes
    literals := literalsOf lookup s.literals
    displayResult := s.displayResult }

variable (w : Renamer)

/-- What is said about the settings: how many of their literal rules are left out. -/
def remarks (s : RenamingSettings) : List Message :=
  let kept := w.literals.length
  if kept < s.literals.length then [.rulesWithoutEntry (s.literals.length - kept)] else []

/-- The values of attributes, each one in the text that the one before it left. -/
def renameAttributes : List Attribute → List Char → Renamed
  | [], text => .copy text
  | a :: rest, text => (a.rename w.dictionary text).andThen (renameAttributes rest)

/-- Applies one literal rule; it has a record if it applied at all. -/
def applyLiteral (r : Substitution) (text : List Char) : Renamed :=
  let (replaced, count) := Literal.replace r.find.toList r.replacement.toList text
  if 0 < count then ⟨replaced, [⟨r.find, some r.replacement, r.kind, .forced⟩], []⟩ else .copy text

/-- Applies literal rules, each one to the text that the one before it left. -/
def applyLiterals : List Substitution → List Char → Renamed
  | [], text => .copy text
  | r :: rest, text => (applyLiteral r text).andThen (applyLiterals rest)

/-- What is said about a renamed asset. -/
def summary (name : String) (records : List Record) : List Message :=
  .assetRenamed name (Record.count records .replaced) (Record.count records .forced) ::
    if w.displayResult && !records.isEmpty then [.table (Record.grid name records)] else []

/-- Replaces the names of an asset. -/
def rename (asset : Asset) : Renamed :=
  let text := asset.content.toList
  if w.dictionary.lookup.isEmpty then .copy text
  else
    let r := (w.renameAttributes w.attributes text).andThen (applyLiterals w.literals)
    { r with log := r.log ++ w.summary asset.name r.records }

end Renamer

namespace Asset

/-- Replaces the names of one asset by some settings. -/
def rename (s : RenamingSettings) (asset : Asset) : Renamed :=
  let w := Renamer.ofSettings s
  let r := w.rename asset
  { r with log := w.remarks s ++ r.log }

/-- Replaces the names of assets by some settings. -/
def renameAll (s : RenamingSettings) (assets : List Asset) : List Renamed × List Message :=
  let w := Renamer.ofSettings s
  let results := assets.map w.rename
  let replaced := Record.count (results.flatMap (·.records)) .replaced
  (results, w.remarks s ++ results.flatMap (·.log) ++ [.assetsRenamed assets.length replaced])

end Asset

end SelectorRename
