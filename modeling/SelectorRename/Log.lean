/-
  The log: what the program tells about its work.

  * `Level`: how important a message is, from tracing up to warnings.
  * `Message`: everything that can be said, by what it is about; `Message.level` and `Message.text`
    say it.
  * `Message.isShown`: whether a message is shown when the log goes down to a given level.
-/
import SelectorRename.Candidate

namespace SelectorRename

/-- The levels of the log, the most verbose first. -/
inductive Level where
  | trace
  | debug
  | info
  | warn
  deriving DecidableEq, Repr

/-- The place of a level in their order. -/
def Level.rank : Level → Nat
  | .trace => 0
  | .debug => 1
  | .info => 2
  | .warn => 3

/-- The word for a level. -/
def Level.label : Level → String
  | .trace => "TRACE"
  | .debug => "DEBUG"
  | .info => "INFO"
  | .warn => "WARN"

/-- What the log can say. -/
inductive Message where
  /-- An optional setting of the wrong type; `scope` names the settings that it is one of. -/
  | mistypedSetting (scope field : String)
  | unparsableTable (path : String)
  | unreadableTable (path : String)
  | noTable (path : String)
  | savedTable (count : Nat) (path : String)
  | ignored (candidate : String) (reason : Reason)
  | renamed (token replacement : String)
  /-- A rest of some milliseconds after some lines. -/
  | resting (milliseconds count : Nat)
  /-- Lines scanned, and what the extraction has found up to now. -/
  | scanned (lines found rejected : Nat)
  | table (grid : String)
  | extracted (path : String) (found size : Nat)
  | unterminatedValue (name : String)
  | keptName (name : String)
  | rulesWithoutEntry (count : Nat)
  | assetRenamed (asset : String) (replaced forced : Nat)
  | assetsRenamed (assets replaced : Nat)
  | emptyTable (path : String)
  | tablesWritten (size : Nat) (css js : String)
  deriving DecidableEq, Repr

namespace Message

/-- How important a message is. -/
def level : Message → Level
  | .ignored .. | .renamed .. | .resting .. | .keptName .. => .trace
  | .noTable .. | .savedTable .. | .scanned .. | .unterminatedValue .. | .rulesWithoutEntry ..
  | .assetRenamed .. => .debug
  | .table .. | .extracted .. | .assetsRenamed .. | .tablesWritten .. => .info
  | .mistypedSetting .. | .unparsableTable .. | .unreadableTable .. | .emptyTable .. => .warn

/-- A number of thousandths without zeros at its end, after a point. -/
def thousandths (n : Nat) : String :=
  if n = 0 then ""
  else
    let digits := (Nat.toDigits 10 (1000 + n)).drop 1
    "." ++ String.ofList (digits.reverse.dropWhile (· = '0')).reverse

/-- A duration in milliseconds below one second, in seconds from there on. -/
def duration (milliseconds : Nat) : String :=
  if milliseconds < 1000 then s!"{milliseconds}ms"
  else s!"{milliseconds / 1000}{thousandths (milliseconds % 1000)}s"

/-- The wording of a message. -/
def text : Message → String
  | .mistypedSetting scope field => s!"option {scope}{field} has an unexpected type, using the default"
  | .unparsableTable path => s!"discarding unparsable rename table {path}"
  | .unreadableTable path => s!"cannot read rename table {path}"
  | .noTable path => s!"no rename table at {path}, starting empty"
  | .savedTable count path => s!"saved {count} entries to {path}"
  | .ignored candidate reason => s!"ignore {candidate} ({reason.label})"
  | .renamed token replacement => s!"rename {token} -> {replacement}"
  | .resting milliseconds count => s!"resting {duration milliseconds} after {count} lines"
  | .scanned lines found rejected =>
    s!"scanned {lines} lines, {found} new selectors, {rejected} ignored"
  | .table rows => "\n" ++ rows
  | .extracted path found size =>
    let source := if path = "" then "<inline>" else path
    s!"{source}: {found} new selectors, {size} in table"
  | .unterminatedValue name => s!"unterminated {name} value, left as is"
  | .keptName name => s!"keep whitelisted {name}"
  | .rulesWithoutEntry count => s!"{count} force replace rules have no table entry"
  | .assetRenamed asset replaced forced => s!"{asset}: {replaced} replaced, {forced} forced"
  | .assetsRenamed assets replaced => s!"rewrote {assets} assets, {replaced} names replaced"
  | .emptyTable path => s!"rename table {path} is empty, assets stay as they are"
  | .tablesWritten size css js => s!"{size} selectors in {css} and {js}"

/-- Whether a message is shown when the log goes down to `floor`. -/
def isShown (floor : Level) (m : Message) : Bool := floor.rank ≤ m.level.rank

/-- A message as a line of the log. -/
def line (m : Message) : String := m.level.label ++ " " ++ m.text

end Message

end SelectorRename
