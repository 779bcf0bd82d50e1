/-
  A volume: files and directories below one root, and a working directory.

  * `Volume`: every directory has a number, and a name in a directory stands for a file or for
    another directory. The root has number 0 and is its own parent. Every number that comes up is
    that of a directory.
  * `Volume.empty`: nothing in the working directory, which stands below the root. Its own name is
    not known, so only a path that begins in it reaches it.
  * `Volume.enter`, `Volume.locate`: how a path is followed, name by name, from the working
    directory or from the root. Every step has to be a directory that exists, and `..` leads back
    to the parent.
  * `Volume.find`, `Volume.readText`, `Volume.isFile`, `Volume.listing`: looking at what is there.
  * `Volume.writeText`, `Volume.createDirs`, `Volume.stage`, `Volume.moveTo`, `Volume.remove`:
    changing it. Each says why it fails, and a failed one leaves the volume as it was, apart from
    the directories that `createDirs` has created before it met the fault.

  There are no links and no rights: whoever asks may do everything.
-/
import SelectorRename.Files.OsError
import SelectorRename.Files.Path

namespace SelectorRename

/-- What a name stands for: a file, or the directory with a number. -/
inductive Node where
  | file (bytes : ByteArray)
  | directory (number : Nat)

/-- A file, or one of the first directories. -/
def Node.IsAmong (count : Nat) : Node → Prop
  | .file _ => True
  | .directory number => number < count

instance (count : Nat) : DecidablePred (Node.IsAmong count)
  | .file _ => isTrue trivial
  | .directory number => inferInstanceAs (Decidable (number < count))

theorem Node.IsAmong.succ {count : Nat} : {node : Node} → node.IsAmong count → node.IsAmong (count + 1)
  | .file _, _ => trivial
  | .directory _, h => Nat.lt_succ_of_lt h

/-- A name in the directory with a number. -/
structure Slot where
  directory : Nat
  name : String
  deriving DecidableEq, Repr

/-- Files and directories. -/
structure Volume where
  /-- The slots of the directories, by their numbers. -/
  directories : Array Slot
  nodes : List (Slot × Node)
  /-- The number of the working directory. -/
  home : Nat
  home_lt : home < directories.size := by decide
  parent_lt : ∀ slot ∈ directories, slot.directory < directories.size := by decide
  node_among : ∀ entry ∈ nodes, entry.2.IsAmong directories.size := by decide

namespace Volume

/-- A root, a directory in it, and in that one the working directory. -/
def empty : Volume where
  directories := #[⟨0, ""⟩, ⟨0, "tmp"⟩, ⟨1, ""⟩]
  nodes := [(⟨0, "tmp"⟩, .directory 1), (⟨1, ""⟩, .directory 2)]
  home := 2

/-- What stands in a slot. -/
def get? (v : Volume) (slot : Slot) : Option Node := v.nodes.lookup slot

/-- The directory above a directory. -/
def parent (v : Volume) (number : Nat) : Nat :=
  match v.directories[number]? with
  | some slot => slot.directory
  | none => 0

/-- The nodes with one put in its slot, behind the others if the slot was free. -/
def putNode (slot : Slot) (node : Node) : List (Slot × Node) → List (Slot × Node)
  | [] => [(slot, node)]
  | entry :: rest =>
    if entry.1 = slot then (slot, node) :: rest else entry :: putNode slot node rest

theorem mem_putNode {slot : Slot} {node : Node} {entry : Slot × Node} {nodes : List (Slot × Node)}
    (h : entry ∈ putNode slot node nodes) : entry = (slot, node) ∨ entry ∈ nodes := by
  induction nodes with
  | nil => exact Or.inl (List.mem_singleton.1 h)
  | cons first rest ih =>
    rw [putNode] at h
    split at h
    · rcases List.mem_cons.1 h with h | h
      · exact Or.inl h
      · exact Or.inr (List.mem_cons_of_mem _ h)
    · rcases List.mem_cons.1 h with rfl | h
      · exact Or.inr List.mem_cons_self
      · exact (ih h).imp_right (List.mem_cons_of_mem _)

/-- Puts a file in a slot. -/
def put (v : Volume) (slot : Slot) (bytes : ByteArray) : Volume :=
  { v with
    nodes := putNode slot (.file bytes) v.nodes
    node_among := fun entry h => by
      rcases mem_putNode h with rfl | h
      · exact trivial
      · exact v.node_among entry h }

/-- Takes away what stands in a slot. -/
def erase (v : Volume) (slot : Slot) : Volume :=
  { v with
    nodes := v.nodes.filter (·.1 ≠ slot)
    node_among := fun entry h => v.node_among entry (List.mem_filter.1 h).1 }

/-- Puts a new directory in a slot. It gets the next number. -/
def addDirectory (v : Volume) (slot : Slot) (h : slot.directory < v.directories.size) : Volume where
  directories := v.directories.push slot
  nodes := putNode slot (.directory v.directories.size) v.nodes
  home := v.home
  home_lt := by
    rw [Array.size_push]
    exact Nat.lt_succ_of_lt v.home_lt
  parent_lt other hother := by
    rw [Array.size_push]
    rcases Array.mem_push.1 hother with hother | rfl
    · exact Nat.lt_succ_of_lt (v.parent_lt other hother)
    · exact Nat.lt_succ_of_lt h
  node_among entry hentry := by
    rw [Array.size_push]
    rcases mem_putNode hentry with rfl | hentry
    · exact Nat.lt_succ_self _
    · exact (v.node_among entry hentry).succ

theorem size_lt_addDirectory (v : Volume) {slot : Slot} (h : slot.directory < v.directories.size) :
    v.directories.size < (v.addDirectory slot h).directories.size := by
  rw [addDirectory, Array.size_push]
  exact Nat.lt_succ_self _

/-! ## Following paths -/

/-- The size of the longest name. -/
def maxName : Nat := 255

/-- The size from which on a path is too long. -/
def maxPath : Nat := 4096

/-- One step from a directory to another directory. -/
def enter (v : Volume) (here : Nat) (step : String) : Except OsError Nat :=
  if step = "." then .ok here
  else if step = ".." then .ok (v.parent here)
  else if maxName < step.utf8ByteSize then .error .nameTooLong
  else
    match v.get? ⟨here, step⟩ with
    | some (.directory number) => .ok number
    | some (.file _) => .error .notDirectory
    | none => .error .notFound

theorem size_pos (v : Volume) : 0 < v.directories.size := Nat.zero_lt_of_lt v.home_lt

theorem parent_lt_size (v : Volume) (number : Nat) : v.parent number < v.directories.size := by
  rw [parent]
  split
  · next slot h => exact v.parent_lt slot (Array.mem_of_getElem? h)
  · exact v.size_pos

theorem number_lt_size {v : Volume} {slot : Slot} {number : Nat}
    (h : v.get? slot = some (.directory number)) : number < v.directories.size := by
  obtain ⟨front, rest, hnodes, -⟩ := List.lookup_eq_some_iff.1 h
  refine v.node_among (slot, .directory number) ?_
  rw [hnodes]
  exact List.mem_append_right _ List.mem_cons_self

/-- A step leads to a directory that there is. -/
theorem enter_lt_size {v : Volume} {here number : Nat} {step : String} (hhere : here < v.directories.size)
    (h : v.enter here step = .ok number) : number < v.directories.size := by
  rw [enter] at h
  split at h
  · exact Except.ok.inj h ▸ hhere
  split at h
  · exact Except.ok.inj h ▸ v.parent_lt_size here
  split at h
  · cases h
  split at h
  · next hget => exact Except.ok.inj h ▸ number_lt_size hget
  · cases h
  · cases h

/-- A path that the system takes at all. -/
def accepts (path : String) : Except OsError Unit :=
  if path.toList.contains '\x00' then .error .zeroInPath
  else if path = "" then .error .notFound
  else if maxPath ≤ path.utf8ByteSize then .error .nameTooLong
  else .ok ()

/-- The directory that a path begins in. -/
def origin (v : Volume) (path : String) : Nat :=
  if Path.startsInSlash path then 0 else v.home

theorem origin_lt_size (v : Volume) (path : String) : v.origin path < v.directories.size := by
  rw [origin]
  split
  · exact v.size_pos
  · exact v.home_lt

/-- The directory that a path leads to before its last step, and that step. The root has none. -/
def locate (v : Volume) (path : String) : Except OsError (Nat × Option String) := do
  accepts path
  let steps := Path.steps path
  let dir ← steps.dropLast.foldlM v.enter (v.origin path)
  return (dir, steps.getLast?)

/-- The last step of a path if it is the name of something, not a way around. -/
def plainName? : Option String → Option String
  | some step => if step = "." || step = ".." then none else some step
  | none => none

/-- What a path leads to. -/
inductive Found where
  | file (slot : Slot) (bytes : ByteArray)
  | directory (number : Nat)

/-- What a path leads to. A path that ends in a slash does not lead to a file. -/
def find (v : Volume) (path : String) : Except OsError Found := do
  let (dir, step) ← v.locate path
  match plainName? step with
  | none =>
    match step with
    | some step => return .directory (← v.enter dir step)
    | none => return .directory dir
  | some name =>
    if maxName < name.utf8ByteSize then throw .nameTooLong
    match v.get? ⟨dir, name⟩ with
    | none => throw .notFound
    | some (.directory number) => return .directory number
    | some (.file bytes) =>
      if Path.endsInSlash path then throw .notDirectory
      return .file ⟨dir, name⟩ bytes

/-! ## Looking -/

/-- Whether a path leads to a file. -/
def isFile (v : Volume) (path : String) : Bool :=
  match v.find path with
  | .ok (.file ..) => true
  | _ => false

/-- The text of a file. -/
def readText (v : Volume) (path : String) : Except OsError String := do
  match ← v.find path with
  | .directory _ => throw .isDirectory
  | .file _ bytes =>
    match String.fromUTF8? bytes with
    | some text => return text
    | none => throw .notText

/-- The names from the working directory down to a directory, before some other names; none if it
stands elsewhere. A directory has a higher number than its parent. -/
def namesTo? (v : Volume) (number : Nat) (names : List String) : Option (List String) :=
  if number = v.home then some names
  else
    match v.directories[number]? with
    | some slot =>
      if slot.directory < number then v.namesTo? slot.directory (slot.name :: names) else none
    | none => none
  termination_by number

/-- What stands in the working directory and in the directories below it, by its names. -/
def listing (v : Volume) : List (List String × Node) :=
  v.nodes.filterMap fun (slot, node) =>
    (v.namesTo? slot.directory [slot.name]).map fun names => (names, node)

/-! ## Changing -/

/-- Writes bytes to a file, which is created if it is not there. -/
def writeBytes (v : Volume) (path : String) (bytes : ByteArray) : Except OsError Volume := do
  let (dir, step) ← v.locate path
  match plainName? step with
  | none => throw .isDirectory
  | some name =>
    if Path.endsInSlash path then throw .isDirectory
    if maxName < name.utf8ByteSize then throw .nameTooLong
    if let some (.directory _) := v.get? ⟨dir, name⟩ then throw .isDirectory
    return v.put ⟨dir, name⟩ bytes

/-- Writes a text to a file, which is created if it is not there. -/
def writeText (v : Volume) (path text : String) : Except OsError Volume :=
  v.writeBytes path text.toUTF8

/-- Whether steps say of what came before them that it is a directory, and nothing else. -/
def onlyStay (steps : List String) : Bool := !steps.isEmpty && steps.all (· = ".")

/-- Why a directory cannot be where a file stands: a file at the end is in the way of the directory,
and so is one further up as soon as a directory had to be created. -/
def inTheWay (created : Bool) (rest : List String) : OsError :=
  if rest.isEmpty || (created && !onlyStay rest) then .alreadyExists else .notDirectory

/-- Follows steps and creates the directories that are missing; `created` tells whether that has
happened already. A name before steps that only stay is not created. -/
def createSteps (v : Volume) (here : Nat) (hhere : here < v.directories.size) (created : Bool) :
    List String → Except OsError Unit × Volume
  | [] => (.ok (), v)
  | step :: rest =>
    match h : v.enter here step with
    | .ok next => v.createSteps next (enter_lt_size hhere h) created rest
    | .error .notFound =>
      if onlyStay rest then (.error .notFound, v)
      else
        (v.addDirectory ⟨here, step⟩ hhere).createSteps v.directories.size
          (v.size_lt_addDirectory hhere) true rest
    | .error .notDirectory => (.error (inTheWay created rest), v)
    | .error e => (.error e, v)

/-- Creates a directory and what is missing above it. The empty path asks for none. -/
def createDirs (v : Volume) (path : String) : Except OsError Unit × Volume :=
  if path = "" then (.ok (), v)
  else
    match accepts path with
    | .ok () => v.createSteps (v.origin path) (v.origin_lt_size path) false (Path.steps path)
    | .error e => (.error e, v)

/-- The names that stand for a new file while it is written. -/
def stageName (n : Nat) : String := s!".tmp{n}"

/-- A name of the size that all of them have on a disk. A directory takes a new file if it takes this
name; which names there are in it does not matter. -/
def stagePattern : String := ".tmp000000"

/-- The first of these names that is free in a directory and is no step of a path. There are more of
them than nodes and steps. -/
def freeName? (v : Volume) (dir : Nat) (path : String) : Option String :=
  let steps := Path.steps path
  let isFree (n : Nat) : Bool := (v.get? ⟨dir, stageName n⟩).isNone && !steps.contains (stageName n)
  ((List.range (v.nodes.length + steps.length + 1)).find? isFree).map stageName

/-- Writes a text to a new file of a directory, which is to be moved to a target. The result is the
slot of the file; the path of the target does not go through it. -/
def stage (v : Volume) (dir text target : String) : Except OsError (Slot × Volume) := do
  match ← v.find dir with
  | .file .. => throw .notDirectory
  | .directory number =>
    accepts (Path.join dir stagePattern)
    match v.freeName? number target with
    | some name => return (⟨number, name⟩, v.put ⟨number, name⟩ text.toUTF8)
    | none => throw .alreadyExists

/-- Moves the file in a slot to a path, over a file that stands there. -/
def moveTo (v : Volume) (source : Slot) (target : String) : Except OsError Volume := do
  match v.get? source with
  | none | some (.directory _) => throw .notFound
  | some (.file bytes) =>
    if target.toList.contains '\x00' then throw .invalidArgument
    let (dir, step) ← v.locate target
    match plainName? step with
    | none => throw .busy
    | some name =>
      if maxName < name.utf8ByteSize then throw .nameTooLong
      if Path.endsInSlash target then throw .notDirectory
      if let some (.directory _) := v.get? ⟨dir, name⟩ then throw .isDirectory
      return (v.erase source).put ⟨dir, name⟩ bytes

/-- Takes a file away. -/
def remove (v : Volume) (path : String) : Except OsError Volume := do
  let (dir, step) ← v.locate path
  match plainName? step with
  | none => throw .isDirectory
  | some name =>
    if maxName < name.utf8ByteSize then throw .nameTooLong
    match v.get? ⟨dir, name⟩ with
    | none => throw .notFound
    | some (.directory _) => throw .isDirectory
    | some (.file _) =>
      if Path.endsInSlash path then throw .notDirectory
      return v.erase ⟨dir, name⟩

end Volume

end SelectorRename
