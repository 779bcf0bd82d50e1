/-
  Rename tables in files.

  * `TableFile.load`: the entries of a file. A file that is missing, unreadable or no table holds no
    entries, and the log says so.
  * `TableFile.save`: the whole table or nothing. The text goes to a new file beside the target,
    which is then moved over it.
  * `TableFile.remove`: takes a table away; it need not be there.
-/
import SelectorRename.Command.Failure
import SelectorRename.RenameTable.Format

namespace SelectorRename.TableFile

variable {m : Type → Type} [Monad m] [Host m]

/-- The entries of a file. -/
def load (path : String) : m (List Entry) := do
  match ← Host.readText path with
  | .ok text =>
    match Entry.readAll? text with
    | some entries => return entries
    | none =>
      Host.tell [.unparsableTable path]
      return []
  | .error .notFound =>
    Host.tell [.noTable path]
    return []
  | .error _ =>
    Host.tell [.unreadableTable path]
    return []

/-- The directory that a path stands in. -/
def directoryOf (path : String) : String :=
  match Path.parent? path with
  | some dir => if dir = "" then "." else dir
  | none => "."

/-- Moves a new file over the target. If that fails, the new file is taken away again. -/
def moveOver (staged : Host.Staged m) (path : String) : m (Except OsError Unit) := do
  match ← Host.moveTo staged path with
  | .ok () => return .ok ()
  | .error cause =>
    Host.discard staged
    return .error cause

/-- Writes entries to a file. -/
def save (path : String) (entries : List Entry) : ExceptT Failure m Unit := do
  let dir := directoryOf path
  attempt (Host.createDirs dir) (.io dir)
  let staged ← attempt (Host.stage dir (Entry.writeAll entries) path) (.io dir)
  attempt (moveOver staged path) (.io path)
  ExceptT.lift (Host.tell [.savedTable entries.length path])

/-- Takes a table away. -/
def remove (path : String) : ExceptT Failure m Unit :=
  ExceptT.mk do
    match ← Host.remove path with
    | .ok () | .error .notFound => return .ok ()
    | .error cause => return .error (.io path cause)

end SelectorRename.TableFile
