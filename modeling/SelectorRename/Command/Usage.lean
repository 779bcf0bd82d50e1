/-
  Command lines: options, flags and files.

  * `UsageError`: why a command line is not understood, or shows help instead.
  * `CommandLine.Arity`: whether an option is a flag, or takes a value of some kind, once or often.
  * `CommandLine.State`: what was read, and what still waits: an option for its value, or files that
    may be followed by more. What waits is checked when something else begins.
  * `CommandLine.State.step`, `CommandLine.readAll`: one argument, and all of them.
-/
import SelectorRename.Settings.Progress

namespace SelectorRename

/-- Why a command line does not lead to a command. -/
inductive UsageError where
  | nothingGiven
  | help
  | version
  | unknownCommand
  | unknownArgument
  | missingArgument
  | givenTwice
  | invalidValue
  | tooManyValues
  | rejectedValue
  deriving DecidableEq, Repr

namespace CommandLine

/-- What the value of an option may be. -/
inductive ValueKind where
  | path
  | text
  | number
  | progress
  deriving DecidableEq, Repr

/-- How an option is used. -/
inductive Arity where
  | flag
  | once (kind : ValueKind)
  | often (kind : ValueKind)
  deriving DecidableEq, Repr

/-- The options of a command by their names. -/
abbrev Options := List (String × Arity)

/-! ## Values -/

/-- The number that a text stands for: digits, with a plus sign before them or without. -/
def number? (s : String) : Option Nat :=
  let digits := match s.toList with
    | '+' :: rest => rest
    | all => all
  if digits ≠ [] && digits.all Char.isDigit then
    let n := digits.foldl (fun n c => n * 10 + (c.toNat - '0'.toNat)) 0
    if n < Json.wordSize then some n else none
  else none

/-- A value that an option takes. -/
def check (kind : ValueKind) (value : String) : Except UsageError Unit :=
  match kind with
  | .path => if value = "" then .error .invalidValue else .ok ()
  | .text => .ok ()
  | .number => if (number? value).isSome then .ok () else .error .rejectedValue
  | .progress => if (ProgressKind.ofLabel? value).isSome then .ok () else .error .rejectedValue

/-! ## Reading -/

/-- What still waits to be checked. -/
inductive Waiting where
  | nothing
  | forValue (name : String) (arity : Arity)
  | value (name : String) (arity : Arity) (value : String)
  | files (paths : List String)
  deriving DecidableEq, Repr

/-- What was read of a command line. -/
structure State where
  /-- Options with their values, in order; a flag has an empty value. -/
  given : List (String × String) := []
  files : List String := []
  waiting : Waiting := .nothing
  /-- Whether options are over. -/
  onlyFiles : Bool := false
  deriving DecidableEq, Repr

/-- Takes in an option. Only a list may be given twice. -/
def State.add (s : State) (name : String) (arity : Arity) (value : String) :
    Except UsageError State := do
  let again := (s.given.lookup name).isSome
  match arity with
  | .flag => if again then throw .givenTwice
  | .once kind =>
    if again then throw .givenTwice
    check kind value
  | .often kind => check kind value
  return { s with given := s.given ++ [(name, value)] }

/-- Checks and takes in what waits. -/
def State.settle (s : State) : Except UsageError State :=
  let free := { s with waiting := .nothing }
  match s.waiting with
  | .nothing => .ok free
  | .forValue .. => .error .invalidValue
  | .value name arity value => free.add name arity value
  | .files paths =>
    if paths.contains "" then .error .invalidValue else .ok { free with files := s.files ++ paths }

/-- Takes in a file. -/
def State.addFile (s : State) (path : String) : Except UsageError State :=
  match s.waiting with
  | .files paths => .ok { s with waiting := .files (paths ++ [path]) }
  | _ => do
    let s ← s.settle
    return { s with waiting := .files [path] }

/-- The name of an option after its dashes, and the value behind an equals sign. -/
def splitLong (body : List Char) : String × Option String :=
  let name := String.ofList (body.takeWhile (· ≠ '='))
  match body.dropWhile (· ≠ '=') with
  | [] => (name, none)
  | _ :: value => (name, some (String.ofList value))

/-- Takes in an option with a long name. -/
def State.addLong (options : Options) (s : State) (body : List Char) : Except UsageError State :=
  let (name, attached) := splitLong body
  if name = "help" then
    if attached.isSome then .error .tooManyValues else do
      let _ ← s.settle
      throw .help
  else
    match options.lookup name, attached with
    | none, _ => .error .unknownArgument
    | some .flag, some _ => .error .tooManyValues
    | some .flag, none => do (← s.settle).add name .flag ""
    | some arity, some value => do (← s.settle).add name arity value
    | some arity, none => do return { ← s.settle with waiting := .forValue name arity }

/-- Takes in one argument. -/
def State.step (options : Options) (s : State) (argument : String) : Except UsageError State :=
  if s.onlyFiles then s.addFile argument
  else
    match argument.toList with
    | ['-', '-'] => .ok { s with onlyFiles := true }
    | '-' :: '-' :: body => s.addLong options body
    | '-' :: 'h' :: _ => do
      let _ ← s.settle
      throw .help
    | '-' :: _ :: _ => .error .unknownArgument
    | _ =>
      match s.waiting with
      | .forValue name arity => .ok { s with waiting := .value name arity argument }
      | _ => s.addFile argument

/-- Reads the arguments of a command. -/
def readAll (options : Options) (arguments : List String) : Except UsageError State := do
  let s ← arguments.foldlM (State.step options) {}
  s.settle

/-! ## What was given -/

/-- Whether a flag was given. -/
def State.has (s : State) (name : String) : Bool := (s.given.lookup name).isSome

/-- The value of an option. -/
def State.value? (s : State) (name : String) : Option String := s.given.lookup name

/-- The values of a list option, in order. -/
def State.values (s : State) (name : String) : List String :=
  (s.given.filter (·.1 = name)).map (·.2)

end CommandLine

end SelectorRename
