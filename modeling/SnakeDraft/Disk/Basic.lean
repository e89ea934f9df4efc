import SnakeDraft.Disk.Place

/-!
A tree of directories and files, with the operations of a file system and their errors. Any operation
can also fail because the device does; a write that fails has then put part of its content in place.
Main statement: an entry put in place is the one found there, and no other entry changes.
-/

namespace SnakeDraft

/-- Why an operation on the disk fails. -/
inductive DiskError where
  | notFound
  | alreadyExists
  | notADirectory
  | isADirectory
  | nameTooLong
  /-- A path has a zero character in it, which no name can have. -/
  | zeroInPath
  /-- The device failed, and this is what it reports. -/
  | device (report : String)
deriving DecidableEq, Repr

def DiskError.message : DiskError → String
  | notFound => "No such file or directory (os error 2)"
  | alreadyExists => "File exists (os error 17)"
  | notADirectory => "Not a directory (os error 20)"
  | isADirectory => "Is a directory (os error 21)"
  | nameTooLong => "File name too long (os error 36)"
  | zeroInPath => "file name contained an unexpected NUL byte"
  | device report => report

/-- What stands at a place. -/
inductive Entry where
  | directory
  | file (content : List UInt8)
deriving DecidableEq, Repr

/-- A failure of the device. -/
structure Fault where
  report : String
  /-- The number of bytes in place after it, if the operation was a write. -/
  written : Nat
deriving DecidableEq, Repr

structure Disk where
  /-- The entries, where an earlier one hides all later ones at its place. -/
  entries : List (Place × Entry)
  /-- For each of the next operations whether the device fails; all operations after these succeed. -/
  faults : List (Option Fault) := []
deriving DecidableEq, Repr

namespace Disk

def empty : Disk := ⟨[], []⟩

def entryAt? (d : Disk) (place : Place) : Option Entry :=
  if place.isAbove then some .directory else d.entries.lookup place

def isDirectory (d : Disk) (place : Place) : Bool :=
  d.entryAt? place == some .directory

def isFile (d : Disk) (place : Place) : Bool :=
  match d.entryAt? place with
  | some (.file _) => true
  | _ => false

/-- The disk with an entry at a place, whatever stood there. -/
def put (d : Disk) (place : Place) (entry : Entry) : Disk :=
  { d with entries := (place, entry) :: d.entries }

theorem entryAt?_put {d : Disk} {place other : Place} {entry : Entry} (h : place.isAbove = false) :
    (d.put place entry).entryAt? other = if other = place then some entry else d.entryAt? other := by
  by_cases same : other = place
  · subst same
    simp [entryAt?, put, h]
  · have differs : (other == place) = false := by simpa using same
    simp [entryAt?, put, List.lookup_cons, differs, same]

/-- The disk without the file at a place, if one stands there. -/
def dropFile (d : Disk) (place : Place) : Disk :=
  if d.isFile place then { d with entries := d.entries.filter fun e => e.1 != place } else d

/-- The failure of the device in the next operation. -/
def nextFault? (d : Disk) : Option Fault :=
  d.faults.head?.join

/-- The disk after an operation that changed nothing. -/
def afterOperation (d : Disk) : Disk :=
  { d with faults := d.faults.tail }

@[simp] theorem entryAt?_afterOperation (d : Disk) (place : Place) :
    d.afterOperation.entryAt? place = d.entryAt? place := rfl

/-- Carries out an operation unless the device fails. -/
def attempt {α : Type} (d : Disk) (operation : Disk → Except DiskError α × Disk) :
    Except DiskError α × Disk :=
  match d.nextFault? with
  | some fault => (.error (.device fault.report), d.afterOperation)
  | none => operation d.afterOperation

/-- Makes a directory where nothing stands, inside one that is there. -/
def addDirectory (d : Disk) (place : Place) : Except DiskError Disk :=
  if (d.entryAt? place).isSome then .error .alreadyExists
  else if d.isDirectory place.dropLast then .ok (d.put place .directory)
  else .error .notFound

/-- Makes a directory unless it is there. -/
def ensureDirectory (d : Disk) (place : Place) : Except DiskError Unit × Disk :=
  d.attempt fun d =>
    match d.addDirectory place with
    | .ok d => (.ok (), d)
    | .error e => (if d.isDirectory place then .ok () else .error e, d)

/-- The name of a place in the directory above it, if it is this one. -/
def nameIn? (directory place : Place) : Option String :=
  if place.dropLast = directory then place.getLast? else none

/-- The names of all entries of a directory, in no particular order. -/
def names (d : Disk) (directory : Place) : List String :=
  (d.entries.filterMap fun e => nameIn? directory e.1).eraseDups

def list (d : Disk) (place : Place) : Except DiskError (List String) × Disk :=
  d.attempt fun d =>
    match d.entryAt? place with
    | some .directory => (.ok (d.names place), d)
    | some (.file _) => (.error .notADirectory, d)
    | none => (.error .notFound, d)

/-- Makes an empty file where nothing stands. -/
def create (d : Disk) (place : Place) : Except DiskError Unit × Disk :=
  d.attempt fun d =>
    match d.entryAt? place with
    | some _ => (.error .alreadyExists, d)
    | none =>
      if d.isDirectory place.dropLast then (.ok (), d.put place (.file []))
      else (.error .notFound, d)

/-- The content of a file. -/
def read (d : Disk) (place : Place) : Except DiskError (List UInt8) × Disk :=
  d.attempt fun d =>
    match d.entryAt? place with
    | some (.file content) => (.ok content, d)
    | some .directory => (.error .isADirectory, d)
    | none => (.error .notFound, d)

/-- Writes the content of a file that is there. -/
def write (d : Disk) (place : Place) (content : List UInt8) : Except DiskError Unit × Disk :=
  match d.nextFault? with
  | some fault =>
    (.error (.device fault.report), d.afterOperation.put place (.file (content.take fault.written)))
  | none => (.ok (), d.afterOperation.put place (.file content))

/-- Opens a file for writing at its end, and makes it first where nothing stands. -/
def openAtEnd (d : Disk) (place : Place) : Except DiskError Unit × Disk :=
  match d.create place with
  | (.error .alreadyExists, d) =>
    if d.isDirectory place then (.error .isADirectory, d) else (.ok (), d)
  | result => result

end Disk

end SnakeDraft
