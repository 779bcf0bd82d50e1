/-
  Why a command fails.

  * `Failure`: the causes; `Failure.message` words them.
  * `attempt`: a file operation whose fault makes the program fail.
-/
import SelectorRename.Files.Host

namespace SelectorRename

/-- Why a command fails. -/
inductive Failure where
  /-- A stylesheet or a table cannot be read or written. -/
  | io (path : String) (cause : OsError)
  | stylesheetNotFound (path : String)
  | cannotRead (path : String) (cause : OsError)
  | cannotCreate (path : String) (cause : OsError)
  | cannotWrite (path : String) (cause : OsError)
  | noFileName
  deriving DecidableEq, Repr

/-- The wording of a failure. -/
def Failure.message : Failure → String
  | .io path cause => s!"io error on {path}: {cause.message}"
  | .stylesheetNotFound path => s!"stylesheet not found: {path}"
  | .cannotRead path cause => s!"cannot read {path}: {cause.message}"
  | .cannotCreate path cause => s!"cannot create {path}: {cause.message}"
  | .cannotWrite path cause => s!"cannot write {path}: {cause.message}"
  | .noFileName => "asset path has no file name"

variable {m : Type → Type} [Monad m]

/-- A file operation whose fault makes the program fail. -/
def attempt {α : Type} (operation : m (Except OsError α)) (failure : OsError → Failure) :
    ExceptT Failure m α :=
  ExceptT.mk do
    match ← operation with
    | .ok a => return .ok a
    | .error cause => return .error (failure cause)

end SelectorRename
