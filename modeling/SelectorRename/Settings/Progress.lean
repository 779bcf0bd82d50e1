/-
  How the progress of a scan is shown.

  * `ProgressKind`: the forms of display, by their labels.
  * `ProgressSettings`: the settings of the display and what they come to: the colour of the bar,
    the label in front of it and the template of the line.
-/
import SelectorRename.Json.Shape

namespace SelectorRename

/-- A form of display. -/
inductive ProgressKind where
  | bar
  | line
  | spinner
  | dots
  | dots2
  | arc
  deriving DecidableEq, Repr

namespace ProgressKind

/-- The word for a form. -/
def label : ProgressKind → String
  | .bar => "bar"
  | .line => "line"
  | .spinner => "spinner"
  | .dots => "dots"
  | .dots2 => "dots2"
  | .arc => "arc"

/-- All forms. -/
def all : List ProgressKind := [.bar, .line, .spinner, .dots, .dots2, .arc]

/-- The form that a word stands for. -/
def ofLabel? (s : String) : Option ProgressKind := all.find? (·.label = s)

theorem ofLabel?_label (k : ProgressKind) : ofLabel? k.label = some k := by
  cases k <;> decide

/-- What is said about a word that stands for no form. -/
def unknown (s : String) : String :=
  s!"unknown progress type `{s}`, expected bar, line, spinner, dots, dots2 or arc"

/-- The label of a form. -/
def shape : Shape ProgressKind := Shape.label (all.map label) ofLabel?

/-- The pictures that a turning form goes through; the last one is shown at the end. -/
def ticks? : ProgressKind → Option (List String)
  | .bar | .line => none
  | .spinner => some ["|", "/", "-", "\\", " "]
  | .dots => some ["⠋", "⠙", "⠹", "⠸", "⠼", "⠴", "⠦", "⠧", "⠇", "⠏", " "]
  | .dots2 => some ["⣾", "⣽", "⣻", "⢿", "⡿", "⣟", "⣯", "⣷", " "]
  | .arc => some ["◜", "◠", "◝", "◞", "◡", "◟", " "]

end ProgressKind

/-- The settings of the display. -/
structure ProgressSettings where
  logging : Bool := true
  heading : String := "Extract"
  displayFilename : Bool := true
  displayPercentage : Bool := true
  kind : ProgressKind := .bar
  barBg : String := "bgWhite"
  deriving DecidableEq, Repr, Inhabited

namespace ProgressSettings

/-- The colours of the terminal. -/
def colors : List String := ["black", "red", "green", "yellow", "blue", "magenta", "cyan", "white"]

/-- A text without the pairs `bg` that it begins with. -/
def dropBackground : List Char → List Char
  | 'b' :: 'g' :: s => dropBackground s
  | s => s

/-- The colour of the bar; white if the setting names none. -/
def color (p : ProgressSettings) : String :=
  let name := String.ofList ((dropBackground p.barBg.toList).map Char.toLower)
  if name ∈ colors then name else "white"

/-- What stands in front of the display of a file: heading and file name. -/
def label (p : ProgressSettings) (path : String) : String :=
  if p.displayFilename then
    let file := String.ofList ((path.toList.splitOn '/').getLastD [])
    if p.heading = "" then file ++ " " else p.heading ++ " " ++ file ++ " "
  else ""

/-- The line of the display; names in braces are filled in when it is drawn. -/
def template (p : ProgressSettings) : String :=
  let body := match p.kind with
    | .bar => "\x7bwide_bar:." ++ p.color ++ "\x7d"
    | .line => "\x7bwide_bar\x7d"
    | _ => "\x7bspinner\x7d"
  let percentage := if p.displayPercentage then " \x7bpercentage\x7d %" else ""
  "\x7bprefix\x7d" ++ body ++ percentage

/-- The fields of the settings. -/
def fields : Shape.Fields :=
  [Shape.field "logging" Shape.boolean, Shape.field "prefix" Shape.string,
    Shape.field "displayFilename" Shape.boolean, Shape.field "displayPercentage" Shape.boolean,
    Shape.field "type" ProgressKind.shape, Shape.field "barBg" Shape.string]

/-- The settings, as an object or as the array of its fields; what is left out has its default. -/
def shape : Shape ProgressSettings
  | .object ms => do
    let d : ProgressSettings := {}
    Shape.members fields [] ms
    return {
      logging := ← Shape.optional ms "logging" Shape.boolean d.logging
      heading := ← Shape.optional ms "prefix" Shape.string d.heading
      displayFilename := ← Shape.optional ms "displayFilename" Shape.boolean d.displayFilename
      displayPercentage := ← Shape.optional ms "displayPercentage" Shape.boolean d.displayPercentage
      kind := ← Shape.optional ms "type" ProgressKind.shape d.kind
      barBg := ← Shape.optional ms "barBg" Shape.string d.barBg }
  | .array items => do
    let d : ProgressSettings := {}
    let logging ← Shape.optionalItem items 0 Shape.boolean d.logging
    let heading ← Shape.optionalItem items 1 Shape.string d.heading
    let displayFilename ← Shape.optionalItem items 2 Shape.boolean d.displayFilename
    let displayPercentage ← Shape.optionalItem items 3 Shape.boolean d.displayPercentage
    let kind ← Shape.optionalItem items 4 ProgressKind.shape d.kind
    let barBg ← Shape.optionalItem items 5 Shape.string d.barBg
    Shape.atMost items 6
    return ⟨logging, heading, displayFilename, displayPercentage, kind, barBg⟩
  | v => .error (.wrongType v.found (.record "LoggerOption"))

/-- The settings from a value; of a repeated key the last member counts. -/
def ofJson (v : Json) : Except Fault ProgressSettings := shape v.settle

end ProgressSettings

end SelectorRename
