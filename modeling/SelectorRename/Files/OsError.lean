/-
  Why a file operation fails.

  * `OsError`: the causes, by their names; `OsError.message` is the text of the system for each.
-/

namespace SelectorRename

/-- The cause of a failed file operation. -/
inductive OsError where
  | notFound
  | busy
  | alreadyExists
  | notDirectory
  | isDirectory
  | invalidArgument
  | nameTooLong
  /-- The content of a file is not text. -/
  | notText
  /-- A path with a zero character. -/
  | zeroInPath
  | other (description : String)
  deriving DecidableEq, Repr

/-- The text of the system for a cause. -/
def OsError.message : OsError → String
  | .notFound => "No such file or directory (os error 2)"
  | .busy => "Device or resource busy (os error 16)"
  | .alreadyExists => "File exists (os error 17)"
  | .notDirectory => "Not a directory (os error 20)"
  | .isDirectory => "Is a directory (os error 21)"
  | .invalidArgument => "Invalid argument (os error 22)"
  | .nameTooLong => "File name too long (os error 36)"
  | .notText => "stream did not contain valid UTF-8"
  | .zeroInPath => "file name contained an unexpected NUL byte"
  | .other description => description

end SelectorRename
