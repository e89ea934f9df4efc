import SnakeDraft.Store.Companion
import SnakeDraft.Store.Database

/-!
Opening the database of a name, and putting its store back on disk. The directories above the file are
made as needed, and so is the file, unless the name asks for a file that is there. Then what stands
beside the file is settled, its changes are from then on written ahead where there is memory for it, and
it gets its tables.
-/

namespace SnakeDraft.Database

/-- The name of a database that is thrown away, for which no directory is made. -/
def inMemory : String := ":memory:"

/-- The number of bytes that the path of a database file may have below the working directory. -/
def longestFilePath : Nat := 480

/-- The number of bytes of the path of a place. -/
def pathSize (place : Place) : Nat :=
  (place.map fun name => name.utf8ByteSize + 1).foldr (· + ·) 0

/-- The place of a database file by the names of its path. Here a `..` takes back the name before it,
whether or not anything stands there; but nothing can stand below a file. -/
def locate (d : Disk) (place : Place) : List String → Option Place
  | [] => if pathSize place ≤ longestFilePath then some place else none
  | name :: names =>
    if name = "." ∨ name = ".." then locate d (place.enter name) names
    else if d.isFile place then none
    else if d.isDirectory place ∧ longestName < name.utf8ByteSize then none
    else locate d (place.enter name) names

/-- The disk with the file of a database in its place, which is made if the access allows, and the bytes of
the file. -/
def reach (f : DatabaseFile) (d : Disk) : Except StoreFault (List UInt8 × Disk) :=
  if (f.mode.parameter? "modeof").any fun path => !(d.find path).isOk then .error .cannotInspect
  else
    match d.entryAt? f.place with
    | some (.file content) => .ok (content, d)
    | some .directory => .error (if f.mode.access = .readOnly then .cannotRead else .cannotOpen)
    | none =>
      if f.mode.access = .create ∧ d.isDirectory f.place.dropLast then
        .ok ([], d.put f.place (.file []))
      else .error .cannotOpen

/-- The disk with what the file of a database holds. -/
def onDisk (place : Place) (content : StoreFile) (d : Disk) : Disk :=
  d.put place (.file content.toBytes)

/-- What a file holds once its changes are written ahead, as they are if there is memory for it. -/
def configure (f : DatabaseFile) (content : StoreFile) (d : Disk) :
    Except StoreFault (StoreFile × Disk) :=
  if f.mode.isImmutable then .ok (content, d)
  else
    match content.journaling, f.memoryOn d with
    | .ahead, .none | .ahead, .missing => .error .cannotOpen
    | .ahead, _ | .rollback, .none => .ok (content, d)
    | .rollback, _ =>
      if f.mode.isReadOnly then .error .readOnly
      else
        (f.keepJournal d).map fun d =>
          let content := { content with journaling := .ahead }
          (content, onDisk f.place content d)

/-- The store of a file, which is an empty one if there are no tables yet. -/
def createTables (f : DatabaseFile) (content : StoreFile) (d : Disk) : Except StoreFault Store :=
  if content.journaling = .ahead ∧ f.memoryOn d = .missing then .error .cannotOpen
  else
    match content.store, f.blocked? content.journaling d with
    | some store, _ => .ok store
    | none, some fault => .error fault
    | none, none => .ok .empty

/-- The database of a file that holds something, or holds nothing yet. -/
def openContent (f : DatabaseFile) (content : StoreFile) (d : Disk) :
    Except StoreError Database × Disk :=
  match configure f content d with
  | .error e => (.error (.cannotConfigure e), d)
  | .ok (content, d) =>
    match createTables f content d with
    | .error e => (.error (.cannotCreateTables e), d)
    | .ok store =>
      let blocked := f.blocked? content.journaling d
      let db : Database :=
        { store, place := some f.place, journaling := content.journaling, blocked }
      (.ok db, if blocked.isSome then d else
        onDisk f.place { content with store } (f.dropCompanions content.journaling d))

/-- The database of a file, where nothing or a file may stand. -/
def openFile (name : String) (f : DatabaseFile) (d : Disk) : Except StoreError Database × Disk :=
  match reach f d with
  | .error e => (.error (.cannotOpen name e), d)
  | .ok (bytes, d) =>
    match f.settle (StoreFile.isBlank bytes) d with
    | .error e => (.error (.cannotConfigure e), d)
    | .ok d =>
      match StoreFile.ofBytes? bytes with
      | none => (.error (.cannotConfigure .foreign), d)
      | some content => openContent f content d

/-- The database of an address. -/
def openAddress (name : String) (address : Address) (d : Disk) : Except StoreError Database × Disk :=
  match address.path with
  | none =>
    if address.mode.access = .readOnly then (.error (.cannotCreateTables .readOnly), d)
    else (.ok (.ofStore .empty), d)
  | some path =>
    match locate d (Place.startOf path) (Path.names path) with
    | some place => openFile name ⟨place, address.mode⟩ d
    | none => (.error (.cannotOpen name .cannotOpen), d)

/-- Makes the directories above the file of a database, as far as the name is taken for its path. -/
def makeRoom (name : String) (d : Disk) : Except StoreError Unit × Disk :=
  let directory := Path.parent name
  if name = inMemory ∨ directory = "" then (.ok (), d)
  else
    match d.makeDirectories directory with
    | (.error cause, d) => (.error (.noDirectory directory cause), d)
    | (.ok (), d) => (.ok (), d)

/-- The database of a name. -/
def openName (name : String) (d : Disk) : Except StoreError Database × Disk :=
  match makeRoom name d with
  | (.error e, d) => (.error e, d)
  | (.ok (), d) =>
    let before := name.toList.takeWhile (· ≠ '\x00')
    if before.length < name.length then
      (.error (.zeroInName name (String.ofList before).utf8ByteSize), d)
    else
      match Address.ofName name with
      | .error e => (.error (.badAddress name e), d)
      | .ok address => openAddress name address d

/-- The disk with the store of a database in its file. -/
def save (db : Database) (d : Disk) : Disk :=
  match db.place, db.blocked with
  | some place, none => onDisk place ⟨db.journaling, some db.store⟩ d
  | _, _ => d

/-- The paths of all that opening the database of a name looks at. -/
def pathsOf (name : String) : List String :=
  match Address.ofName name with
  | .error _ => [name]
  | .ok address =>
    let beside := match address.path with
      | some path => ["", "-journal", "-wal", "-shm", ".lock"].map (path ++ ·)
      | none => []
    name :: (address.mode.parameter? "modeof").toList ++ beside

end SnakeDraft.Database
