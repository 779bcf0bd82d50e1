/-
  Text with replaced names and the report about it.

  * `Renamed`: a text with the records of its names and what the log says, in the order of the
    text; `Renamed.concat` puts texts one behind the other and `Renamed.andThen` goes over a text
    once more.
  * `Record.count`, `Record.grid`: how often an outcome came up, and all records as a table.
-/
import SelectorRename.Log
import SelectorRename.Renaming.Lookup
import SelectorRename.Text.Grid

namespace SelectorRename

/-- A text, the records of its names and what the log says about it. -/
structure Renamed where
  content : List Char
  records : List Record
  log : List Message

namespace Renamed

/-- A text that stays as it is. -/
def copy (content : List Char) : Renamed := ⟨content, [], []⟩

/-- Texts one behind the other. -/
def concat (parts : List Renamed) : Renamed :=
  ⟨parts.flatMap (·.content), parts.flatMap (·.records), parts.flatMap (·.log)⟩

@[simp] theorem concat_singleton (r : Renamed) : concat [r] = r := by simp [concat]

theorem concat_append_singleton_concat (parts parts' : List Renamed) :
    concat (parts ++ [concat parts']) = concat (parts ++ parts') := by
  simp [concat]

/-- One pass and then another one over its result: the first one's records come first. -/
def andThen (a : Renamed) (f : List Char → Renamed) : Renamed :=
  let b := f a.content
  ⟨b.content, a.records ++ b.records, a.log ++ b.log⟩

end Renamed

namespace Record

/-- How many records have an outcome. -/
def count (records : List Record) (o : Outcome) : Nat := records.countP (·.outcome = o)

/-- The records as a table; a name without a replacement has an empty cell. -/
def grid (title : String) (records : List Record) : String :=
  Text.grid title ["find", "replace", "type", "result"]
    (records.map fun r => [r.find, r.replace.getD "", r.kind.label, r.outcome.label])

end Record

end SelectorRename
