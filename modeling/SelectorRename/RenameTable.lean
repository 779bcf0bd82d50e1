/-
  The rename table: which selector gets which short name, in two views.

  * `Entry`: a text to find and its replacement, for one kind. `Entry.bare` leaves out its sigils.
  * `RenameTable`: the `css` view for stylesheets, whose texts have sigils, and the `js` view for
    assets, whose texts have none.
  * `RenameTable.ofEntries`: the table of some entries. Longer texts come first, so that no text
    comes after one that it begins with; entries of one length keep their order.
-/
import SelectorRename.Candidate

namespace SelectorRename

/-- One selector and its replacement. -/
structure Entry where
  find : String
  replace : String
  kind : Kind
  deriving DecidableEq, Repr

/-- An entry without one sigil of its kind in either text. -/
def Entry.bare (e : Entry) : Entry :=
  { e with find := e.kind.strip e.find, replace := e.kind.strip e.replace }

/-- A candidate that is not renamed. -/
structure Ignored where
  find : String
  kind : Kind
  reason : Reason
  deriving DecidableEq, Repr

/-- The two views of one list of entries. -/
structure RenameTable where
  css : List Entry
  js : List Entry
  deriving DecidableEq, Repr

namespace RenameTable

/-- Entries by the encoded size of their texts, the longest first; ties stay in order. -/
def longestFirst (entries : List Entry) : List Entry :=
  entries.mergeSort fun a b => decide (b.find.utf8ByteSize ≤ a.find.utf8ByteSize)

/-- The table of some entries with sigils. -/
def ofEntries (entries : List Entry) : RenameTable where
  css := longestFirst entries
  js := (longestFirst entries).map Entry.bare

/-- How many entries the table has. -/
def size (t : RenameTable) : Nat := t.css.length

/-- The table has no entry. -/
def isEmpty (t : RenameTable) : Bool := t.css.isEmpty

end RenameTable

end SelectorRename
