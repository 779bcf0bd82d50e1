/-
  What the two commands are given.

  * `ExtractArguments`: stylesheets to collect names from.
  * `RenameArguments`: assets whose names a table replaces.
  * `Command`: either of them.
-/
import SelectorRename.Pacing
import SelectorRename.Settings.Progress

namespace SelectorRename

/-- The arguments of the command that collects names. -/
structure ExtractArguments where
  files : List String
  outputCss : String := "extracted-names-for-css.json"
  outputJs : String := "extracted-names-for-js.json"
  ignore : List String := []
  restModulo : Nat := Pacing.defaultLines
  restTime : Option Nat := none
  progress : ProgressKind := .bar
  noProgress : Bool := false
  displayResult : Bool := false
  /-- Whether earlier tables are taken away first. -/
  fresh : Bool := false
  deriving DecidableEq, Repr

/-- The arguments of the command that replaces the names in assets. -/
structure RenameArguments where
  files : List String
  /-- The table without sigils. -/
  table : String
  attributes : List String := []
  ignore : List String := []
  forceClass : List String := []
  forceId : List String := []
  displayResult : Bool := false
  /-- Where the results go; without it they replace the assets. -/
  outDir : Option String := none
  deriving DecidableEq, Repr

/-- A command with its arguments. -/
inductive Command where
  | extract (arguments : ExtractArguments)
  | rename (arguments : RenameArguments)
  deriving DecidableEq, Repr

end SelectorRename
