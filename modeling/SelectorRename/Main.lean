/-
  The program on a real system.

  * The files of the system and its standard error as a `Host`.
  * `main`: runs the command that the arguments stand for. A command line without a command ends
    with status 2 unless help was asked for, a command that fails ends with status 1.
-/
import SelectorRename.Command.Line

namespace SelectorRename

namespace Terminal

/-- The cause of a failed operation of the system. -/
def causeOf : IO.Error → OsError
  | .noFileOrDirectory .. => .notFound
  | .alreadyExists .. => .alreadyExists
  | .resourceBusy .. => .busy
  | .inappropriateType _ 20 _ => .notDirectory
  | .inappropriateType _ 21 _ => .isDirectory
  | .invalidArgument _ 36 _ => .nameTooLong
  | .invalidArgument .. => .invalidArgument
  | e => .other (toString e)

/-- An operation with its fault as a value. -/
def caught {α : Type} (operation : IO α) : IO (Except OsError α) := do
  try
    return .ok (← operation)
  catch e =>
    return .error (causeOf e)

/-- The text of a file. -/
def readText (path : String) : IO (Except OsError String) := do
  match ← caught (IO.FS.readBinFile path) with
  | .error cause => return .error cause
  | .ok bytes =>
    match String.fromUTF8? bytes with
    | some text => return .ok text
    | none => return .error .notText

/-- Whether a path leads to a file, through links too. The file is not opened, so it may be one that
    cannot be read. -/
def isFile (path : String) : IO Bool := do
  match ← caught (do (← IO.FS.realPath path).metadata) with
  | .ok metadata => return metadata.type == .file
  | .error _ => return false

/-- Writes a text to a new file of a directory. -/
def stage (dir text : String) : IO String := do
  let moment ← IO.monoNanosNow
  let path := Path.join dir s!".tmp{moment}"
  IO.FS.withFile path .writeNew fun file => file.putStr text
  return path

/-- Shows messages from the level of information on, and sleeps when a rest is announced. -/
def tell (ms : List Message) : IO Unit := do
  for m in ms do
    if m.isShown .info then IO.eprintln m.line
    if let .resting milliseconds _ := m then IO.sleep milliseconds.toUInt32

instance : Host IO where
  isFile := isFile
  readText := readText
  writeText path text := caught (IO.FS.writeFile path text)
  createDirs path := caught (IO.FS.createDirAll path)
  Staged := String
  stage dir text _ := caught (stage dir text)
  moveTo staged path := caught (IO.FS.rename staged path)
  discard staged := do let _ ← caught (IO.FS.removeFile staged)
  remove path := caught (IO.FS.removeFile path)
  tell := tell

/-- How the program is called. -/
def usage : String :=
  "usage: extract [options] FILE...\n       rewrite [options] --table TABLE FILE..."

end Terminal

/-- What is said about a command line without a command. -/
def UsageError.message : UsageError → String
  | .nothingGiven => "no command"
  | .help => "help"
  | .version => "version"
  | .unknownCommand => "unknown command"
  | .unknownArgument => "unknown argument"
  | .missingArgument => "a required argument is missing"
  | .givenTwice => "an option is given twice"
  | .invalidValue => "an option has no value"
  | .tooManyValues => "a flag has a value"
  | .rejectedValue => "an option has a wrong value"

/-- Runs the program and answers its status. -/
def Terminal.run (arguments : List String) : IO UInt32 := do
  match Command.parse arguments with
  | .ok command =>
    match ← (command.run : ExceptT Failure IO Unit).run with
    | .ok () => return 0
    | .error failure =>
      IO.eprintln s!"Error: {failure.message}"
      return 1
  | .error .help =>
    IO.println usage
    return 0
  | .error .version =>
    IO.println "0.1.0"
    return 0
  | .error e =>
    IO.eprintln s!"error: {e.message}\n{usage}"
    return 2

end SelectorRename

/-- The entry of the program. -/
def main (arguments : List String) : IO UInt32 := SelectorRename.Terminal.run arguments
