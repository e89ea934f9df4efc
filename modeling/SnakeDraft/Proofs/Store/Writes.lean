import SnakeDraft.Store.Database

/-!
What a write to a database does. A write fails and leaves the store as it was, or it succeeds and does what
the store does; in a reliable database (`Database.Reliable`) every write succeeds, now and later.
-/

namespace SnakeDraft.Database

/-- No write fails. -/
structure Reliable (db : Database) : Prop where
  unblocked : db.blocked = none
  hasPicks : db.picksLost = false
  noFailure : ∀ failure ∈ db.failures, failure = false

/-- The database after a write that succeeds. -/
def written (db : Database) (store : Store) : Database :=
  { db.afterWrite with store }

@[simp] theorem store_written (db : Database) (store : Store) : (db.written store).store = store := rfl

theorem reliable_ofStore (store : Store) : (ofStore store).Reliable :=
  ⟨rfl, rfl, by simp [ofStore]⟩

theorem Reliable.written {db : Database} (h : db.Reliable) (store : Store) :
    (db.written store).Reliable :=
  ⟨h.unblocked, h.hasPicks, fun failure hfailure => h.noFailure failure (List.mem_of_mem_tail hfailure)⟩

theorem Reliable.writeFault? {db : Database} (h : db.Reliable) : db.writeFault? = none := by
  have hnext : db.failures.headD false = false := by
    cases hfailures : db.failures with
    | nil => rfl
    | cons failure failures => exact h.noFailure failure (by simp [hfailures])
  unfold Database.writeFault?
  rw [h.unblocked, hnext]
  rfl

theorem Reliable.pickFault? {db : Database} (h : db.Reliable) : db.pickFault? = none := by
  unfold Database.pickFault?
  rw [h.hasPicks, h.writeFault?]
  rfl

theorem savePick_cases (db : Database) (draft : String) (p : StoredPick) :
    (∃ e, db.savePick draft p = (.error e, db.afterWrite)) ∨
      db.savePick draft p = (.ok (), db.written (db.store.savePick draft p)) := by
  unfold savePick writePicks
  cases db.pickFault? with
  | none => exact .inr rfl
  | some fault => exact .inl ⟨_, rfl⟩

theorem removePick_cases (db : Database) (draft : String) (number : Nat) :
    (∃ e, db.removePick draft number = (.error e, db.afterWrite)) ∨
      db.removePick draft number = (.ok (db.store.removePick draft number).1,
        db.written (db.store.removePick draft number).2) := by
  unfold removePick writePicks
  cases db.pickFault? with
  | none => exact .inr rfl
  | some fault => exact .inl ⟨_, rfl⟩

theorem saveTrade_cases (db : Database) (draft : String) (number team : Nat) :
    (∃ e, db.saveTrade draft number team = (.error e, db.afterWrite)) ∨
      db.saveTrade draft number team = (.ok (), db.written (db.store.saveTrade draft number team)) := by
  unfold saveTrade
  cases db.writeFault? with
  | none => exact .inr rfl
  | some fault => exact .inl ⟨_, rfl⟩

theorem newDraft_cases (db : Database) (draft : String) :
    (∃ e, db.newDraft draft = (.error e, db.afterWrite)) ∨
      ∃ store, db.store.newDraft draft = .ok store ∧
        db.newDraft draft = (.ok (), db.written store) := by
  unfold newDraft
  cases db.writeFault? with
  | some fault => exact .inl ⟨_, rfl⟩
  | none =>
    cases hnew : db.store.newDraft draft with
    | error e => exact .inl ⟨e, rfl⟩
    | ok store => exact .inr ⟨store, rfl, rfl⟩

theorem Reliable.savePick {db : Database} (h : db.Reliable) (draft : String) (p : StoredPick) :
    db.savePick draft p = (.ok (), db.written (db.store.savePick draft p)) := by
  unfold Database.savePick writePicks
  rw [h.pickFault?]
  rfl

theorem Reliable.removePick {db : Database} (h : db.Reliable) (draft : String) (number : Nat) :
    db.removePick draft number = (.ok (db.store.removePick draft number).1,
      db.written (db.store.removePick draft number).2) := by
  unfold Database.removePick writePicks
  rw [h.pickFault?]
  rfl

theorem Reliable.saveTrade {db : Database} (h : db.Reliable) (draft : String) (number team : Nat) :
    db.saveTrade draft number team = (.ok (), db.written (db.store.saveTrade draft number team)) := by
  unfold Database.saveTrade
  rw [h.writeFault?]
  rfl

theorem Reliable.newDraft {db : Database} (h : db.Reliable) {draft : String} {store : Store}
    (hnew : db.store.newDraft draft = .ok store) : db.newDraft draft = (.ok (), db.written store) := by
  unfold Database.newDraft
  rw [h.writeFault?, hnew]
  rfl

end SnakeDraft.Database
