/-
  Collecting the names of stylesheets into tables on disk.

  * `Extract.run`: one stylesheet. The table so far is loaded, the stylesheet is scanned, and both
    views are saved.
  * `Extract.runAll`: several stylesheets, one after another, into the same table.
  * `Extract.command`: the command. All stylesheets have to be there before the first is scanned.
-/
import SelectorRename.Command.Arguments
import SelectorRename.Extraction
import SelectorRename.RenameTable.File
import SelectorRename.Settings.Extract

namespace SelectorRename.Extract

variable {m : Type → Type} [Monad m] [Host m]

/-- The stylesheet: the text of a file if the data names one, else the data. -/
def stylesheet (data : String) : ExceptT Failure m String := do
  if ← ExceptT.lift (Host.isFile data) then attempt (Host.readText data) (.io data)
  else return data

/-- Collects the names of one stylesheet. -/
def run (s : ExtractSettings) : ExceptT Failure m RenameTable := do
  let lines := Stylesheet.lines (← stylesheet s.data)
  let entries ← ExceptT.lift (TableFile.load s.outputCss)
  let after := (Extraction.start entries (.ofList s.ignore)).scanLines s.pacing lines
  ExceptT.lift (Host.tell after.log.toList)
  if s.displayResult then ExceptT.lift (Host.tell after.display)
  let table := after.table
  TableFile.save s.outputCss table.css
  TableFile.save s.outputJs table.js
  ExceptT.lift (Host.tell [.extracted s.path after.discovered.size table.size])
  return table

/-- Collects the names of stylesheets; the result is the last table. -/
def runEach (s : ExtractSettings) : RenameTable → List String → ExceptT Failure m RenameTable
  | table, [] => return table
  | _, source :: rest => do
    let table ← run { s with path := source, data := source }
    runEach s table rest

/-- Collects the names of stylesheets, which are given by paths or as text. -/
def runAll (s : ExtractSettings) (sources : List String) : ExceptT Failure m RenameTable := do
  let entries ← ExceptT.lift (TableFile.load s.outputCss)
  runEach s (.ofEntries entries) sources

/-- The settings that arguments stand for. -/
def settingsOf (a : ExtractArguments) : ExtractSettings where
  outputCss := a.outputCss
  outputJs := a.outputJs
  data := ""
  restModulo := a.restModulo
  restTime := a.restTime
  ignore := a.ignore
  logger := { logging := !a.noProgress, kind := a.progress }
  displayResult := a.displayResult

/-- Every path has to lead to a file. -/
def checkFiles : List String → ExceptT Failure m Unit
  | [] => return ()
  | path :: rest => do
    if ← ExceptT.lift (Host.isFile path) then checkFiles rest
    else throw (.stylesheetNotFound path)

/-- The command that collects names. -/
def command (a : ExtractArguments) : ExceptT Failure m Unit := do
  if a.fresh then
    TableFile.remove a.outputCss
    TableFile.remove a.outputJs
  checkFiles a.files
  let table ← runAll (settingsOf a) a.files
  ExceptT.lift (Host.tell [.tablesWritten table.size a.outputCss a.outputJs])

end SelectorRename.Extract
