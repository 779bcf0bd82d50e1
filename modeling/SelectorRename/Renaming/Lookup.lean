/-
  What a renaming decides about one name.

  * `Lookup`: the replacements of class names and of ids. The first entry of a name counts.
  * `NameFilter`: which names are left as they are; `NameFilter.ofWhitelists` asks whitelists.
  * `Record`: a name with what became of it, and `Outcome` the ways that can go.
  * `Dictionary.judge`: the record of one name.
-/
import SelectorRename.KindMap
import SelectorRename.RenameTable

namespace SelectorRename

/-- Replacements by bare name, for each kind. -/
abbrev Lookup := KindMap String

/-- The lookup in some entries. -/
def Lookup.ofEntries (entries : List Entry) : Lookup :=
  entries.foldl (fun l e => l.insertNew e.kind e.find e.replace) .empty

/-- Whether a name of some kind is left as it is. -/
abbrev NameFilter := Kind → String → Bool

/-- Leaves the names that one of some whitelists protects. -/
def NameFilter.ofWhitelists (ws : List Whitelist) : NameFilter :=
  fun k name => ws.any (·.containsName k name)

/-- What became of a name. -/
inductive Outcome where
  | replaced
  | whitelisted
  | unknown
  | forced
  deriving DecidableEq, Repr

/-- An outcome as the reports show it. -/
def Outcome.label : Outcome → String
  | .replaced => "replaced"
  | .whitelisted => "whitelist"
  | .unknown => "not in table"
  | .forced => "force replaced"

/-- A name with what became of it. -/
structure Record where
  find : String
  replace : Option String
  kind : Kind
  outcome : Outcome
  deriving DecidableEq, Repr

/-- The name that stands in the text afterwards. -/
def Record.written (r : Record) : String := r.replace.getD r.find

/-- Everything that decides about a name. -/
structure Dictionary where
  lookup : Lookup
  keeps : NameFilter

/-- What becomes of a name: the whitelist comes first, then the table. -/
def Dictionary.judge (d : Dictionary) (k : Kind) (name : String) : Record :=
  if d.keeps k name then ⟨name, none, k, .whitelisted⟩
  else
    match d.lookup.get? k name with
    | some replacement => ⟨name, some replacement, k, .replaced⟩
    | none => ⟨name, none, k, .unknown⟩

end SelectorRename
