import SnakeDraft.Disk.Walk
import SnakeDraft.Store.Fault
import SnakeDraft.Store.File
import SnakeDraft.Store.OpenMode

/-!
What stands beside the file of a database. Four names that start with that of the file belong to it:
the journal of a change that is under way, the log of changes that are written ahead, the memory that
programs share, and the lock. Files of these names are taken over or removed; a directory of such a
name is in the way.
-/

namespace SnakeDraft

/-- A file that is opened as a database. -/
structure DatabaseFile where
  place : Place
  mode : OpenMode

namespace DatabaseFile

def journal (f : DatabaseFile) : Place := f.place.beside "-journal"

def log (f : DatabaseFile) : Place := f.place.beside "-wal"

def memory (f : DatabaseFile) : Place := f.place.beside "-shm"

def lock (f : DatabaseFile) : Place := f.place.beside ".lock"

/-- Whether no entry can have the name of a place. -/
def isNameTooLong (place : Place) : Bool :=
  longestName < (place.getLastD "").utf8ByteSize

/-- Takes the lock of a file, if it is a directory beside it. -/
def takeLock (f : DatabaseFile) (d : Disk) : Except StoreFault Unit :=
  if !f.mode.locksByDirectory then .ok ()
  else if isNameTooLong f.lock then .error .cannotLock
  else if (d.entryAt? f.lock).isSome then .error .locked
  else .ok ()

/-- The disk after the change whose journal is found has been taken back. The journal of a blank file is
removed as it is, and one that starts with a zero is void. Behind a lock of their own no one looks for a
journal. -/
def settleJournal (f : DatabaseFile) (blank : Bool) (d : Disk) : Except StoreFault Disk :=
  let removed := if f.mode.isReadOnly then d else d.dropFile f.journal
  match d.entryAt? f.journal with
  | some (.file (first :: _)) =>
    if f.mode.locksByDirectory then .ok d
    else if blank then .ok removed
    else if first = 0 then .ok d
    else if f.mode.isReadOnly then .error .brokenOff
    else .ok removed
  | some .directory => if blank ∨ f.mode.locksByDirectory then .ok d else .error .cannotRead
  | _ => .ok d

/-- The disk after a log of changes has been found. That of a blank file is removed. -/
def settleLog (f : DatabaseFile) (blank : Bool) (d : Disk) : Except StoreFault Disk :=
  match d.entryAt? f.log with
  | some (.file (_ :: _)) =>
    if blank then .ok (d.dropFile f.log)
    else if f.mode.sharesMemory then .ok d
    else .error .cannotOpen
  | some .directory => .error (if blank then .cannotDelete else .cannotOpen)
  | _ => .ok d

/-- The disk after what stands beside a file has been looked at. Nothing is, if the file cannot change. -/
def settle (f : DatabaseFile) (blank : Bool) (d : Disk) : Except StoreFault Disk :=
  if f.mode.isImmutable then .ok d
  else
    match f.takeLock d with
    | .error e => .error e
    | .ok () =>
      match f.settleJournal blank d with
      | .error e => .error e
      | .ok d => f.settleLog blank d

/-- The disk after a change that had a journal. -/
def keepJournal (f : DatabaseFile) (d : Disk) : Except StoreFault Disk :=
  if isNameTooLong f.journal ∨ d.isDirectory f.journal then .error .cannotOpen
  else .ok (d.dropFile f.journal)

/-- What the memory that programs share is good for. -/
inductive Memory where
  | writing
  | reading
  | missing
  /-- The file is opened without any. -/
  | none
deriving DecidableEq, Repr

/-- The memory of a file. -/
def memoryOn (f : DatabaseFile) (d : Disk) : Memory :=
  if f.mode.isImmutable ∨ !f.mode.sharesMemory then .none
  else if f.mode.isExclusive then .writing
  else
    match d.entryAt? f.memory with
    | some .directory => .reading
    | some (.file _) => if f.mode.isOn "readonly_shm" then .reading else .writing
    | Option.none => if f.mode.isOn "readonly_shm" then .missing else .writing

/-- Why no write to a file succeeds, if none does. -/
def blocked? (f : DatabaseFile) (j : Journaling) (d : Disk) : Option StoreFault :=
  if f.mode.isReadOnly ∨ (j = .ahead ∧ f.memoryOn d = .reading) then some .readOnly
  else
    match j, f.keepJournal d with
    | .rollback, .error e => some e
    | _, _ => Option.none

/-- The disk after a session in which all changes were written ahead: log and memory are gone. -/
def dropCompanions (f : DatabaseFile) (j : Journaling) (d : Disk) : Disk :=
  if j = .ahead then (d.dropFile f.log).dropFile f.memory else d

end DatabaseFile

end SnakeDraft
