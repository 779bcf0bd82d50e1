/-
  Replacing the names in assets on disk by a table.

  * `Rename.command`: all assets are read before the first result is written. The results replace
    the assets, or they go to a directory of their own under the same file names.
-/
import SelectorRename.Command.Arguments
import SelectorRename.RenameTable.File
import SelectorRename.Renaming.Asset

namespace SelectorRename.Rename

variable {m : Type → Type} [Monad m] [Host m]

/-- The settings that arguments and a table stand for; classes come before ids. -/
def settingsOf (a : RenameArguments) (entries : List Entry) : RenamingSettings where
  entries := entries
  attributes := a.attributes
  ignore := a.ignore
  literals := a.forceClass.map (⟨·, .cls⟩) ++ a.forceId.map (⟨·, .id⟩)
  displayResult := a.displayResult

/-- Reads assets, in order. -/
def readAll : List String → ExceptT Failure m (List Asset)
  | [] => return []
  | path :: rest => do
    let content ← attempt (Host.readText path) (.cannotRead path)
    let others ← readAll rest
    return ⟨path, content⟩ :: others

/-- Where the result for an asset goes. -/
def target (outDir : Option String) (path : String) : Except Failure String :=
  match outDir with
  | none => .ok path
  | some dir =>
    match Path.fileName? path with
    | some name => .ok (Path.join dir name)
    | none => .error .noFileName

/-- Writes results, in order. -/
def writeAll (outDir : Option String) : List (String × Renamed) → ExceptT Failure m Unit
  | [] => return ()
  | (path, result) :: rest =>
    match target outDir path with
    | .error failure => throw failure
    | .ok path => do
      attempt (Host.writeText path (String.ofList result.content)) (.cannotWrite path)
      writeAll outDir rest

/-- The command that replaces the names in assets. -/
def command (a : RenameArguments) : ExceptT Failure m Unit := do
  let entries ← ExceptT.lift (TableFile.load a.table)
  if entries.isEmpty then ExceptT.lift (Host.tell [.emptyTable a.table])
  let assets ← readAll a.files
  let (results, log) := Asset.renameAll (settingsOf a entries) assets
  ExceptT.lift (Host.tell log)
  if let some dir := a.outDir then
    attempt (Host.createDirs dir) (.cannotCreate dir)
  writeAll a.outDir (a.files.zip results)

end SelectorRename.Rename
