/-
  What a program may ask of the system it runs on.

  * `Host`: files and the log, as operations of a monad. Each file operation says why it fails.
  * `World`: a volume and the log up to now. Programs run on it as state transformers.
-/
import SelectorRename.Files.Volume
import SelectorRename.Log

namespace SelectorRename

/-- The files and the log of a system. -/
class Host (m : Type → Type) where
  /-- A new file that is being written. No path of a program leads to it. -/
  Staged : Type
  /-- Whether a path leads to a file. -/
  isFile : String → m Bool
  /-- The text of the file at a path. -/
  readText : String → m (Except OsError String)
  /-- Writes a text to the file at a path. -/
  writeText : String → String → m (Except OsError Unit)
  /-- Creates a directory and what is missing above it. -/
  createDirs : String → m (Except OsError Unit)
  /-- Writes a text to a new file of a directory, which is to be moved to a target. -/
  stage (dir text target : String) : m (Except OsError Staged)
  /-- Moves a new file to a path, over what stands there. -/
  moveTo : Staged → String → m (Except OsError Unit)
  /-- Takes a new file away. -/
  discard : Staged → m Unit
  /-- Takes away the file at a path. -/
  remove : String → m (Except OsError Unit)
  /-- Adds messages to the log, in order. -/
  tell : List Message → m Unit

/-- A volume and the log of what was done on it. -/
structure World where
  volume : Volume
  log : Array Message

namespace World

/-- Looks at the volume. -/
def look {α : Type} (f : Volume → α) : StateM World α := fun w => (f w.volume, w)

/-- Changes the volume, unless that fails. -/
def change (f : Volume → Except OsError Volume) : StateM World (Except OsError Unit) := fun w =>
  match f w.volume with
  | .ok v => (.ok (), { w with volume := v })
  | .error e => (.error e, w)

/-- Creates directories; those that were created before a fault stay. -/
def createDirs (path : String) : StateM World (Except OsError Unit) := fun w =>
  let (result, v) := w.volume.createDirs path
  (result, { w with volume := v })

/-- Writes a new file, which is known by its slot. -/
def stage (dir text target : String) : StateM World (Except OsError Slot) := fun w =>
  match w.volume.stage dir text target with
  | .ok (staged, v) => (.ok staged, { w with volume := v })
  | .error e => (.error e, w)

/-- Takes a new file away. -/
def discard (staged : Slot) : StateM World Unit := fun w =>
  ((), { w with volume := w.volume.erase staged })

/-- Adds messages to the log. -/
def tell (ms : List Message) : StateM World Unit := fun w => ((), { w with log := w.log ++ ms })

instance : Host (StateM World) where
  Staged := Slot
  isFile path := look (·.isFile path)
  readText path := look (·.readText path)
  writeText path text := change (·.writeText path text)
  createDirs := createDirs
  stage := stage
  moveTo staged path := change (·.moveTo staged path)
  discard := discard
  remove path := change (·.remove path)
  tell := tell

end World

end SelectorRename
