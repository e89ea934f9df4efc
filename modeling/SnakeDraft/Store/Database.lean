import SnakeDraft.Store.Basic
import SnakeDraft.Store.File

/-!
A store as a session writes to it. Any write may fail, and then leaves the store as it was; all writes
fail in a store whose file is blocked, and those to picks once the table of picks is lost.
-/

namespace SnakeDraft

/-- An open store. -/
structure Database where
  store : Store
  /-- Where its file stands; nothing for a store that is thrown away. -/
  place : Option Place := none
  journaling : Journaling := .ahead
  /-- Why all writes fail, if they do. -/
  blocked : Option StoreFault := none
  /-- Whether the table of picks is lost. -/
  picksLost : Bool := false
  /-- For each of the next writes whether it fails; all writes after these succeed. -/
  failures : List Bool := []
deriving DecidableEq, Repr

namespace Database

/-- Opens a store. Lost tables are created anew. -/
def ofStore (store : Store) : Database :=
  { store }

/-- The database without the table of picks. -/
def losePicks (db : Database) : Database :=
  { db with store := { db.store with picks := [] }, picksLost := true }

/-- Why the next write fails, if it does. -/
def writeFault? (db : Database) : Option StoreFault :=
  db.blocked.or (if db.failures.headD false then some .failure else none)

/-- Why the next write to the picks fails, if it does. -/
def pickFault? (db : Database) : Option StoreFault :=
  if db.picksLost then some .noTable else db.writeFault?

/-- The database after a write that changes nothing in it. -/
def afterWrite (db : Database) : Database :=
  { db with failures := db.failures.tail }

/-- Writes to the picks, or fails with the given error. -/
def writePicks {α : Type} (db : Database) (error : StoreFault → StoreError)
    (write : Store → α × Store) : Except StoreError α × Database :=
  match db.pickFault? with
  | some fault => (.error (error fault), db.afterWrite)
  | none =>
    let (result, store) := write db.store
    (.ok result, { db.afterWrite with store })

def savePick (db : Database) (draft : String) (p : StoredPick) :
    Except StoreError Unit × Database :=
  db.writePicks (.cannotSave p.number) fun s => ((), s.savePick draft p)

/-- Removes a pick: whether it was stored. -/
def removePick (db : Database) (draft : String) (number : Nat) :
    Except StoreError Bool × Database :=
  db.writePicks (.cannotRemove number) fun s => s.removePick draft number

def saveTrade (db : Database) (draft : String) (number team : Nat) :
    Except StoreError Unit × Database :=
  match db.writeFault? with
  | some fault => (.error (.cannotTrade number fault), db.afterWrite)
  | none => (.ok (), { db.afterWrite with store := db.store.saveTrade draft number team })

/-- Starts a draft under a fresh id and makes it the current one. -/
def newDraft (db : Database) (draft : String) : Except StoreError Unit × Database :=
  match db.writeFault? with
  | some fault => (.error (.cannotRegister draft fault), db.afterWrite)
  | none =>
    match db.store.newDraft draft with
    | .ok store => (.ok (), { db.afterWrite with store })
    | .error e => (.error e, db.afterWrite)

end Database

end SnakeDraft
