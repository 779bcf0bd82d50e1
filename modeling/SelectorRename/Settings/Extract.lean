/-
  The settings of an extraction, read from a loosely typed value.

  * `ExtractSettings`: where the stylesheet and the tables are, and how to go about the scan.
  * `ExtractSettings.shape`: the settings, read strictly.
  * `ExtractSettings.dropMistyped`: what fails the check of its field is taken away, with a warning.
  * `ExtractSettings.ofJson`: three texts are required, in order. Any other setting of the wrong type
    is taken away, so that it has its default; what is left is read strictly.
-/
import SelectorRename.Log
import SelectorRename.Pacing
import SelectorRename.Settings.Progress

namespace SelectorRename

/-- The settings of an extraction. -/
structure ExtractSettings where
  /-- Where the stylesheet came from, for the log. -/
  path : String := ""
  outputCss : String
  outputJs : String
  /-- A stylesheet, or the path of a file that holds one. -/
  data : String
  restModulo : Nat := Pacing.defaultLines
  /-- How many milliseconds to rest; the scan only lets others run if there is no time. -/
  restTime : Option Nat := none
  ignore : List String := []
  logger : ProgressSettings := {}
  displayResult : Bool := false
  deriving DecidableEq, Repr

/-- Why a value holds no settings. -/
inductive SettingFault where
  /-- A required setting that is not there as a text. -/
  | notText (field : String)
  /-- What is left after the checks cannot be read. -/
  | unreadable (fault : Fault)
  deriving DecidableEq, Repr

/-- The wording of the fault. -/
def SettingFault.message : SettingFault → String
  | .notText field => s!"Expected type string for {field}"
  | .unreadable fault => s!"invalid option: {fault.message}"

namespace ExtractSettings

/-- How the scan rests. -/
def pacing (s : ExtractSettings) : Pacing := ⟨s.restModulo, s.restTime⟩

/-! ## Strict reading -/

/-- The fields of the settings. -/
def fields : Shape.Fields :=
  [Shape.field "path" Shape.string, Shape.field "outputCss" Shape.string,
    Shape.field "outputJs" Shape.string, Shape.field "data" Shape.string,
    Shape.field "restModulo" (Shape.word "usize"),
    Shape.field "restTime" (Shape.orNull (Shape.word "u64")),
    Shape.field "ignore" (Shape.list Shape.string), Shape.field "logger" ProgressSettings.shape,
    Shape.field "displayResult" Shape.boolean]

/-- The settings as an object; what may be left out has its default. -/
def shape : Shape ExtractSettings
  | .object ms => do
    Shape.members fields [] ms
    return {
      path := ← Shape.optional ms "path" Shape.string ""
      outputCss := ← Shape.required ms "outputCss" Shape.string
      outputJs := ← Shape.required ms "outputJs" Shape.string
      data := ← Shape.required ms "data" Shape.string
      restModulo := ← Shape.optional ms "restModulo" (Shape.word "usize") Pacing.defaultLines
      restTime := ← Shape.optional ms "restTime" (Shape.orNull (Shape.word "u64")) none
      ignore := ← Shape.optional ms "ignore" (Shape.list Shape.string) []
      logger := ← Shape.optional ms "logger" ProgressSettings.shape {}
      displayResult := ← Shape.optional ms "displayResult" Shape.boolean false }
  | v => .error (.wrongType v.found (.record "ExtractOption"))

/-! ## Checks -/

/-- A check of a value. -/
abbrev Check := Json → Bool

/-- A truth value. -/
def isBool : Check
  | .bool _ => true
  | _ => false

/-- A text. -/
def isText : Check
  | .text s => s.isSome
  | _ => false

/-- A natural number of 64 bits. -/
def isNat64 : Check
  | .number n => n.toNat64?.isSome
  | _ => false

/-- A list of texts. -/
def isTexts : Check
  | .array items => items.all isText
  | _ => false

/-- An object. -/
def isObject : Check
  | .object _ => true
  | _ => false

/-- The label of a form of display. -/
def isProgressKind : Check
  | .text (some s) => (ProgressKind.ofLabel? s).isSome
  | _ => false

/-- The settings that may be left out. -/
def optionalFields : List (String × Check) :=
  [("path", isText), ("restModulo", isNat64), ("restTime", isNat64), ("ignore", isTexts),
    ("logger", isObject), ("displayResult", isBool)]

/-- The settings of the display. -/
def loggerFields : List (String × Check) :=
  [("logging", isBool), ("prefix", isText), ("displayFilename", isBool),
    ("displayPercentage", isBool), ("type", isProgressKind), ("barBg", isText)]

/-- Takes away what fails the check of its field, with a warning for each; `scope` names the settings
that the fields belong to. -/
def dropMistyped (scope : String) :
    List (String × Check) → List (String × Json) → List (String × Json) × List Message
  | [], settings => (settings, [])
  | (name, check) :: rest, settings =>
    if (settings.lookup name).any (!check ·) then
      let (kept, log) := dropMistyped scope rest (settings.filter (·.1 ≠ name))
      (kept, .mistypedSetting scope name :: log)
    else dropMistyped scope rest settings

/-- Takes away what fails its check, among the settings of the display too. -/
def dropAllMistyped (settings : List (String × Json)) : List (String × Json) × List Message :=
  let (kept, log) := dropMistyped "" optionalFields settings
  match kept.lookup "logger" with
  | some (.object ms) =>
    let (display, more) := dropMistyped "logger." loggerFields (Json.object ms).named
    (kept.map fun s => if s.1 = "logger" then (s.1, .ofMembers display) else s, log ++ more)
  | _ => (kept, log)

/-! ## All settings -/

/-- The settings that have to be there as texts, in the order in which they are asked for. -/
def required : List String := ["data", "outputCss", "outputJs"]

/-- Asks for texts, in order. -/
def requireTexts (v : Json) : List String → Except SettingFault Unit
  | [] => .ok ()
  | name :: rest =>
    if (v.get? name).any isText then requireTexts v rest else .error (.notText name)

/-- The settings in a value, with the warnings about it; of a repeated key the last member counts. -/
def ofJson (v : Json) : Except SettingFault (ExtractSettings × List Message) := do
  let v := v.settle
  requireTexts v required
  let (settings, log) := dropAllMistyped v.named
  match shape (.ofMembers settings) with
  | .ok s => return (s, log)
  | .error fault => throw (.unreadable fault)

end ExtractSettings

end SelectorRename
