import SnakeDraft.Disk.Basic

/-!
Walking along a path. Every name on the way but the last must be that of a directory, also where a `..`
follows, and names have a greatest length. `Disk.find` gives the place that a path leads to, and
`Disk.makeDirectories` makes a directory with all that is missing above it.
-/

namespace SnakeDraft

/-- The number of bytes that a name may have. -/
def longestName : Nat := 255

/-- The number of bytes that a path may have. -/
def longestPath : Nat := 4095

/-- What is wrong with a path whatever is on the disk. -/
def Path.fault? (path : String) : Option DiskError :=
  if path.toList.contains '\x00' then some .zeroInPath
  else if path = "" then some .notFound
  else if longestPath < path.utf8ByteSize then some .nameTooLong
  else none

namespace Disk

/-- The place that a name leads to from a directory, if something stands there. -/
def step (d : Disk) (place : Place) (name : String) : Except DiskError Place :=
  if longestName < name.utf8ByteSize then .error .nameTooLong
  else if (d.entryAt? (place.enter name)).isSome then .ok (place.enter name)
  else .error .notFound

/-- The place that some names lead to from a place. -/
def walk (d : Disk) (place : Place) : List String → Except DiskError Place
  | [] => .ok place
  | name :: names =>
    if d.isDirectory place then
      match d.step place name with
      | .ok next => walk d next names
      | .error e => .error e
    else .error .notADirectory

/-- The place that a path leads to. -/
def find (d : Disk) (path : String) : Except DiskError Place :=
  match Path.fault? path with
  | some e => .error e
  | none => d.walk (Place.startOf path) (Path.steps path)

/-- Whether a path leads to a directory. -/
def leadsToDirectory (d : Disk) (path : String) : Bool :=
  match d.find path with
  | .ok place => d.isDirectory place
  | .error _ => false

/-- The place in a directory where a new entry of this name can stand. -/
def roomFor (d : Disk) (place : Place) (name : String) : Except DiskError Place :=
  if !d.isDirectory place then .error .notADirectory
  else
    match d.step place name with
    | .ok _ => .error .alreadyExists
    | .error .notFound => .ok (place.enter name)
    | .error e => .error e

/-- The disk with the directory that a path names, where nothing stood before. -/
def withDirectory (d : Disk) (path : String) : Except DiskError Disk :=
  match Path.fault? path with
  | some e => .error e
  | none =>
    match d.walk (Place.startOf path) (Path.names path).dropLast, (Path.names path).getLast? with
    | .error e, _ => .error e
    | .ok _, none => .error .alreadyExists
    | .ok place, some name => (d.roomFor place name).map fun place => d.put place .directory

/-- Makes the directory that a path names unless it is there: whether it is there then. -/
def settle (d : Disk) (path : String) : Except DiskError Unit × Disk :=
  match d.withDirectory path with
  | .ok d => (.ok (), d)
  | .error e => (if d.leadsToDirectory path then .ok () else .error e, d)

/-- Makes the directory that the first path names. If the way to it is missing, the directories of the
further paths, each of which holds the one before it, are made first. -/
def settleAll : List String → Disk → Except DiskError Unit × Disk
  | [], d => (.ok (), d)
  | path :: above, d =>
    match d.withDirectory path with
    | .error .notFound =>
      match settleAll above d with
      | (.ok (), d) => d.settle path
      | failed => failed
    | _ => d.settle path

/-- Makes the directory that a path names and those above it, as far as there are none. -/
def makeDirectories (d : Disk) (path : String) : Except DiskError Unit × Disk :=
  d.attempt (settleAll (Path.lineage path))

end Disk

end SnakeDraft
