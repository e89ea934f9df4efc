/-!
What can go wrong with the file of a store, and how each cause is told.
-/

namespace SnakeDraft

/-- Why the file of a store cannot be opened, or why a write to it fails. -/
inductive StoreFault where
  /-- The store is open for reading only. -/
  | readOnly
  /-- A change that was broken off has to be taken back, but the store is open for reading only. -/
  | brokenOff
  /-- The file, or one that is needed beside it, cannot be opened. -/
  | cannotOpen
  | cannotRead
  /-- What stands in the way of a new file is a directory. -/
  | cannotDelete
  /-- The file that permissions are to be taken from is not there. -/
  | cannotInspect
  /-- Someone else has the file. -/
  | locked
  | cannotLock
  /-- The file is that of no store. -/
  | foreign
  /-- The table is not there. -/
  | noTable
  | failure
deriving DecidableEq, Repr

/-- The messages of a cause, as far as they are known. -/
def StoreFault.chain : StoreFault → List String
  | readOnly =>
    ["attempt to write a readonly database", "Error code 8: Attempt to write a readonly database"]
  | brokenOff =>
    ["attempt to write a readonly database",
      "Error code 776: Database has hot journal that must be rolled back"]
  | cannotOpen =>
    ["unable to open database file", "Error code 14: Unable to open the database file"]
  | cannotRead => ["disk I/O error", "Error code 266: Error reading from disk"]
  | cannotDelete =>
    ["disk I/O error", "Error code 2570: I/O error within xDelete of a VFS object"]
  | cannotInspect =>
    ["disk I/O error", "Error code 1802: Error invoking fstat to get file metadata"]
  | locked => ["database is locked", "Error code 5: The database file is locked"]
  | cannotLock =>
    ["disk I/O error", "Error code 3850: I/O error in the advisory file locking layer"]
  | foreign => ["file is not a database", "Error code 26: File opened that is not a database file"]
  | noTable | failure => []

end SnakeDraft
