/-
  From a command line to a command.

  * `Command.parse`: the command that arguments stand for, or why there is none. The first fault
    counts; what is missing is only found at the end.
  * `Command.run`: runs it.
-/
import SelectorRename.Command.Extract
import SelectorRename.Command.Rename
import SelectorRename.Command.Usage

namespace SelectorRename

namespace ExtractArguments

/-- The options of the command. -/
def options : CommandLine.Options :=
  [("output-css", .once .path), ("output-js", .once .path), ("ignore", .often .text),
    ("rest-modulo", .once .number), ("rest-time", .once .number), ("progress", .once .progress),
    ("no-progress", .flag), ("display-result", .flag), ("fresh", .flag)]

/-- The arguments that were given. -/
def parse (arguments : List String) : Except UsageError ExtractArguments := do
  let s ← CommandLine.readAll options arguments
  if s.files.isEmpty then throw .missingArgument
  let d : ExtractArguments := { files := s.files }
  return {
    files := s.files
    outputCss := (s.value? "output-css").getD d.outputCss
    outputJs := (s.value? "output-js").getD d.outputJs
    ignore := s.values "ignore"
    restModulo := ((s.value? "rest-modulo").bind CommandLine.number?).getD d.restModulo
    restTime := (s.value? "rest-time").bind CommandLine.number?
    progress := ((s.value? "progress").bind ProgressKind.ofLabel?).getD d.progress
    noProgress := s.has "no-progress"
    displayResult := s.has "display-result"
    fresh := s.has "fresh" }

end ExtractArguments

namespace RenameArguments

/-- The options of the command. -/
def options : CommandLine.Options :=
  [("table", .once .path), ("attribute", .often .text), ("ignore", .often .text),
    ("force-class", .often .text), ("force-id", .often .text), ("display-result", .flag),
    ("out-dir", .once .path)]

/-- The arguments that were given. -/
def parse (arguments : List String) : Except UsageError RenameArguments := do
  let s ← CommandLine.readAll options arguments
  if s.files.isEmpty then throw .missingArgument
  match s.value? "table" with
  | none => throw .missingArgument
  | some table => return {
      files := s.files
      table
      attributes := s.values "attribute"
      ignore := s.values "ignore"
      forceClass := s.values "force-class"
      forceId := s.values "force-id"
      displayResult := s.has "display-result"
      outDir := s.value? "out-dir" }

end RenameArguments

namespace Command

/-- The names of the commands, with the one that shows help. -/
def names : List String := ["extract", "rewrite", "help"]

/-- Help about a command. -/
def parseHelp : List String → UsageError
  | [] => .help
  | [name] => if name ∈ names then .help else .unknownCommand
  | _ => .unknownCommand

/-- A word where a command is expected after options are over. -/
def parseWord : List String → UsageError
  | [] => .nothingGiven
  | word :: _ => if word ∈ names then .unknownArgument else .unknownCommand

/-- An option where a command is expected. -/
def parseOption : List Char → UsageError
  | '-' :: '-' :: body =>
    let (name, attached) := CommandLine.splitLong body
    if name = "help" || name = "version" then
      if attached.isSome then .tooManyValues else if name = "help" then .help else .version
    else .unknownArgument
  | '-' :: 'h' :: _ => .help
  | '-' :: 'V' :: _ => .version
  | '-' :: _ :: _ => .unknownArgument
  | _ => .unknownCommand

/-- The command that arguments stand for. -/
def parse : List String → Except UsageError Command
  | [] => .error .nothingGiven
  | "extract" :: rest => (ExtractArguments.parse rest).map .extract
  | "rewrite" :: rest => (RenameArguments.parse rest).map .rename
  | "help" :: rest => .error (parseHelp rest)
  | "--" :: rest => .error (parseWord rest)
  | argument :: _ => .error (parseOption argument.toList)

/-- Runs a command. -/
def run {m : Type → Type} [Monad m] [Host m] : Command → ExceptT Failure m Unit
  | .extract a => Extract.command a
  | .rename a => Rename.command a

end Command

end SelectorRename
