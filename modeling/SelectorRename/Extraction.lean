/-
  Extraction: collecting the selectors of stylesheets into a rename table.

  * `Extraction`: the entries it started from, what it discovered and what it ignored, in order, and
    what the log says about it.
  * `Extraction.start`: of the given entries the first of each kind and text counts; their short
    names and the whitelist are reserved.
  * `Extraction.meet`: one occurrence is ignored, known already, or gets the next short name.
  * `Extraction.scanLines`, `Extraction.scan`: the occurrences of lines and of a whole stylesheet.
  * `Extraction.table`: the table at the end.
-/
import SelectorRename.KindMap
import SelectorRename.Log
import SelectorRename.Pacing
import SelectorRename.RenameTable
import SelectorRename.ShortName
import SelectorRename.Stylesheet
import SelectorRename.Text.Grid

namespace SelectorRename

/-- The state of an extraction. -/
structure Extraction where
  whitelist : Whitelist
  names : Allocator
  /-- The entries from earlier extractions. -/
  kept : Array Entry
  discovered : Array Entry
  ignored : Array Ignored
  /-- The kinds and texts of all entries. -/
  known : KindMap Unit
  log : Array Message

namespace Extraction

/-- Nothing but a whitelist. -/
def blank (whitelist : Whitelist) : Extraction where
  whitelist := whitelist
  names := ({} : Allocator).reserve whitelist.reservedNames
  kept := #[]
  discovered := #[]
  ignored := #[]
  known := .empty
  log := #[]

/-- Whether a selector has an entry. -/
def knows (x : Extraction) (k : Kind) (token : String) : Bool := x.known.contains k token

/-- Takes in an entry of an earlier extraction, unless its selector has one. -/
def keep (x : Extraction) (e : Entry) : Extraction :=
  if x.knows e.kind e.find then x
  else
    { x with
      names := x.names.reserve [e.bare.replace]
      kept := x.kept.push e
      known := x.known.insertNew e.kind e.find () }

/-- Starts from the entries of earlier extractions. -/
def start (entries : List Entry) (whitelist : Whitelist) : Extraction :=
  entries.foldl keep (blank whitelist)

/-- All entries, in the order in which they came. -/
def entries (x : Extraction) : List Entry := x.kept.toList ++ x.discovered.toList

/-- The rename table of all entries. -/
def table (x : Extraction) : RenameTable := .ofEntries x.entries

/-- Adds a message to the log. -/
def tell (x : Extraction) (m : Message) : Extraction := { x with log := x.log.push m }

/-! ## Scanning -/

/-- Passes over a candidate that is no selector. -/
def ignore (x : Extraction) (k : Kind) (candidate : String) (reason : Reason) : Extraction :=
  { x with
    ignored := x.ignored.push ⟨candidate, k, reason⟩
    log := x.log.push (.ignored candidate reason) }

/-- Gives a selector the next short name. -/
def discover (x : Extraction) (k : Kind) (token : String) : Extraction :=
  let (name, names) := x.names.alloc
  let replacement := k.token name
  { x with
    names
    discovered := x.discovered.push ⟨token, replacement, k⟩
    known := x.known.insertNew k token ()
    log := x.log.push (.renamed token replacement) }

/-- Takes in one occurrence. -/
def meet (x : Extraction) (o : Occurrence) : Extraction :=
  let candidate := o.candidate
  match classify x.whitelist candidate with
  | some reason => x.ignore o.kind (String.ofList candidate) reason
  | none => if x.knows o.kind o.token then x else x.discover o.kind o.token

/-- Takes in the occurrences of one line. -/
def scanLine (x : Extraction) (line : List Char) : Extraction :=
  (Stylesheet.occurrences line).foldl meet x

/-- Rests if the number of lines up to now asks for it. -/
def restAfter (x : Extraction) (pacing : Pacing) (count : Nat) : Extraction :=
  match pacing.pause? count with
  | some milliseconds => x.tell (.resting milliseconds count)
  | none => x

/-- Takes in lines when `count` lines came before them. -/
def scanFrom (pacing : Pacing) (x : Extraction) (count : Nat) : List (List Char) → Extraction
  | [] => x.tell (.scanned count x.discovered.size x.ignored.size)
  | line :: rest =>
    scanFrom pacing ((x.scanLine line).restAfter pacing (count + 1)) (count + 1) rest

/-- Takes in lines. -/
def scanLines (pacing : Pacing) (x : Extraction) (lines : List (List Char)) : Extraction :=
  scanFrom pacing x 0 lines

/-- Takes in a stylesheet. -/
def scan (pacing : Pacing) (x : Extraction) (text : String) : Extraction :=
  x.scanLines pacing (Stylesheet.lines text)

/-! ## Showing the result -/

/-- What was ignored, as a table. -/
def ignoredGrid (x : Extraction) : String :=
  Text.grid "IGNORE" ["find", "type", "reason"]
    (x.ignored.toList.map fun i => [i.find, i.kind.label, i.reason.label])

/-- What was discovered, as a table. -/
def discoveredGrid (x : Extraction) : String :=
  Text.grid "MATCHES" ["find", "replace", "type"]
    (x.discovered.toList.map fun e => [e.find, e.replace, e.kind.label])

/-- The tables that show the result; nothing is shown if nothing was discovered. -/
def display (x : Extraction) : List Message :=
  if x.discovered.isEmpty then [] else [.table x.ignoredGrid, .table x.discoveredGrid]

end Extraction

end SelectorRename
