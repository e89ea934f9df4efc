import Mathlib.Data.List.Induction
import SnakeDraft.Store.Database

/-!
Histories of writes to a database, and what a reader may expect after them. A pick stands if it was saved and not
removed since (`Write.Stands`); it is then the first one that was saved under its number (`Write.SavedFirst`), while of
several trades of one pick it is the last that holds (`Write.TradedLast`). Each of these is known after one more write
from what was known before it.
-/

namespace SnakeDraft.Database

/-- What can be written to a database. -/
inductive Write where
  | newDraft (draft : String)
  | savePick (draft : String) (p : StoredPick)
  | removePick (draft : String) (number : Nat)
  | saveTrade (draft : String) (number team : Nat)

/-- What a write that succeeds gives back. -/
inductive Answer where
  | done
  /-- Whether the pick that was to be removed was stored. -/
  | removed (present : Bool)

def perform (db : Database) : Write → Except StoreError Answer × Database
  | .newDraft draft => ((db.newDraft draft).1.map fun _ => .done, (db.newDraft draft).2)
  | .savePick draft p => ((db.savePick draft p).1.map fun _ => .done, (db.savePick draft p).2)
  | .removePick draft number => ((db.removePick draft number).1.map .removed, (db.removePick draft number).2)
  | .saveTrade draft number team =>
    ((db.saveTrade draft number team).1.map fun _ => .done, (db.saveTrade draft number team).2)

/-- The answers to writes, and the database after them. -/
def performAll (db : Database) : List Write → List (Except StoreError Answer) × Database
  | [] => ([], db)
  | w :: writes =>
    let (answers, last) := (db.perform w).2.performAll writes
    ((db.perform w).1 :: answers, last)

theorem performAll_concat (db : Database) (writes : List Write) (w : Write) :
    db.performAll (writes ++ [w]) =
      ((db.performAll writes).1 ++ [((db.performAll writes).2.perform w).1],
        ((db.performAll writes).2.perform w).2) := by
  induction writes generalizing db with
  | nil => rfl
  | cons first writes ih =>
    simp only [List.cons_append, performAll, ih]

namespace Write

/-- The draft that is written to. -/
def draft : Write → String
  | newDraft draft | savePick draft _ | removePick draft _ | saveTrade draft _ _ => draft

/-- The number of the pick that is written to. -/
def number? : Write → Option Nat
  | newDraft _ => none
  | savePick _ p => some p.number
  | removePick _ number | saveTrade _ number _ => some number

/-- The draft that is started. -/
def newDraft? : Write → Option String
  | newDraft draft => some draft
  | _ => none

/-- A write of a history and the writes before it, with no write after it that revokes it. -/
def Unrevoked (revokes : Write → Prop) (writes before : List Write) (w : Write) : Prop :=
  ∃ after, writes = before ++ w :: after ∧ ∀ later ∈ after, ¬ revokes later

/-- Some pick was saved under a number, and no pick removed from there since. -/
def Stands (writes : List Write) (draft : String) (number : Nat) : Prop :=
  ∃ before p, p.number = number ∧
    Unrevoked (· = removePick draft number) writes before (savePick draft p)

/-- A pick was saved and not removed since, and no pick stood under its number when it was saved. -/
def SavedFirst (writes : List Write) (draft : String) (p : StoredPick) : Prop :=
  ∃ before, ¬ Stands before draft p.number ∧
    Unrevoked (· = removePick draft p.number) writes before (savePick draft p)

/-- A pick was traded to a team, and not traded again since. -/
def TradedLast (writes : List Write) (draft : String) (number team : Nat) : Prop :=
  ∃ before, Unrevoked (fun later => ∃ other, later = saveTrade draft number other) writes before
    (saveTrade draft number team)

variable {revokes : Write → Prop} {writes before : List Write} {w next : Write}

theorem not_unrevoked_nil : ¬ Unrevoked revokes [] before w := by
  rintro ⟨after, hsplit, -⟩
  exact List.append_ne_nil_of_right_ne_nil before (List.cons_ne_nil w after) hsplit.symm

theorem unrevoked_concat :
    Unrevoked revokes (writes ++ [next]) before w ↔
      (before = writes ∧ w = next) ∨ (Unrevoked revokes writes before w ∧ ¬ revokes next) := by
  constructor
  · rintro ⟨after, hsplit, hafter⟩
    rcases List.eq_nil_or_concat after with rfl | ⟨front, last, rfl⟩
    case inl =>
      obtain ⟨rfl, hlast⟩ := List.append_inj' hsplit rfl
      exact .inl ⟨rfl, (List.cons.inj hlast).1.symm⟩
    case inr =>
      simp only [List.concat_eq_append] at hsplit hafter
      rw [← List.cons_append, ← List.append_assoc] at hsplit
      obtain ⟨hfront, hlast⟩ := List.append_inj' hsplit rfl
      obtain rfl : next = last := (List.cons.inj hlast).1
      refine .inr ⟨⟨front, hfront, fun later hlater => hafter later ?_⟩, hafter next ?_⟩
      · exact List.mem_append_left _ hlater
      · exact List.mem_append_right _ List.mem_cons_self
  · rintro (⟨rfl, rfl⟩ | ⟨⟨after, rfl, hafter⟩, hnext⟩)
    · exact ⟨[], rfl, by simp⟩
    · refine ⟨after ++ [next], by simp, fun later hlater => ?_⟩
      rcases List.mem_append.mp hlater with hold | hnew
      · exact hafter later hold
      · rw [List.mem_singleton.mp hnew]
        exact hnext

theorem not_stands_nil (draft : String) (number : Nat) : ¬ Stands [] draft number := by
  rintro ⟨before, p, -, h⟩
  exact not_unrevoked_nil h

theorem not_savedFirst_nil (draft : String) (p : StoredPick) : ¬ SavedFirst [] draft p := by
  rintro ⟨before, -, h⟩
  exact not_unrevoked_nil h

theorem not_tradedLast_nil (draft : String) (number team : Nat) : ¬ TradedLast [] draft number team := by
  rintro ⟨before, h⟩
  exact not_unrevoked_nil h

theorem stands_concat {draft : String} {number : Nat} :
    Stands (writes ++ [next]) draft number ↔
      (∃ p, p.number = number ∧ next = savePick draft p) ∨
        (Stands writes draft number ∧ next ≠ removePick draft number) := by
  constructor
  · rintro ⟨before, p, hp, h⟩
    rcases unrevoked_concat.mp h with ⟨-, rfl⟩ | ⟨h, hnext⟩
    · exact .inl ⟨p, hp, rfl⟩
    · exact .inr ⟨⟨before, p, hp, h⟩, hnext⟩
  · rintro (⟨p, hp, rfl⟩ | ⟨⟨before, p, hp, h⟩, hnext⟩)
    · exact ⟨writes, p, hp, unrevoked_concat.mpr (.inl ⟨rfl, rfl⟩)⟩
    · exact ⟨before, p, hp, unrevoked_concat.mpr (.inr ⟨h, hnext⟩)⟩

theorem savedFirst_concat {draft : String} {p : StoredPick} :
    SavedFirst (writes ++ [next]) draft p ↔
      (¬ Stands writes draft p.number ∧ next = savePick draft p) ∨
        (SavedFirst writes draft p ∧ next ≠ removePick draft p.number) := by
  constructor
  · rintro ⟨before, hbefore, h⟩
    rcases unrevoked_concat.mp h with ⟨rfl, rfl⟩ | ⟨h, hnext⟩
    · exact .inl ⟨hbefore, rfl⟩
    · exact .inr ⟨⟨before, hbefore, h⟩, hnext⟩
  · rintro (⟨hnone, rfl⟩ | ⟨⟨before, hbefore, h⟩, hnext⟩)
    · exact ⟨writes, hnone, unrevoked_concat.mpr (.inl ⟨rfl, rfl⟩)⟩
    · exact ⟨before, hbefore, unrevoked_concat.mpr (.inr ⟨h, hnext⟩)⟩

theorem tradedLast_concat {draft : String} {number team : Nat} :
    TradedLast (writes ++ [next]) draft number team ↔
      next = saveTrade draft number team ∨
        (TradedLast writes draft number team ∧ ∀ other, next ≠ saveTrade draft number other) := by
  constructor
  · rintro ⟨before, h⟩
    rcases unrevoked_concat.mp h with ⟨-, rfl⟩ | ⟨h, hnext⟩
    · exact .inl rfl
    · exact .inr ⟨⟨before, h⟩, not_exists.mp hnext⟩
  · rintro (rfl | ⟨⟨before, h⟩, hnext⟩)
    · exact ⟨writes, unrevoked_concat.mpr (.inl ⟨rfl, rfl⟩)⟩
    · exact ⟨before, unrevoked_concat.mpr (.inr ⟨h, not_exists.mpr hnext⟩)⟩

/-- A number under which a pick stands has a pick that was saved there first. -/
theorem stands_iff_exists_savedFirst {draft : String} {number : Nat} :
    Stands writes draft number ↔ ∃ p, p.number = number ∧ SavedFirst writes draft p := by
  induction writes using List.reverseRecOn with
  | nil => simp [not_stands_nil, not_savedFirst_nil]
  | append_singleton writes next ih =>
    constructor
    · intro h
      by_cases hstands : Stands writes draft number
      · -- the pick that stood already is still the first, as the last write did not remove it
        have hkept : next ≠ removePick draft number := by
          rintro rfl
          rcases stands_concat.mp h with ⟨p, -, hsave⟩ | ⟨-, hne⟩
          · cases hsave
          · exact hne rfl
        obtain ⟨p, rfl, hp⟩ := ih.mp hstands
        exact ⟨p, rfl, savedFirst_concat.mpr (.inr ⟨hp, hkept⟩)⟩
      · rcases stands_concat.mp h with ⟨p, rfl, hsave⟩ | ⟨hold, -⟩
        · exact ⟨p, rfl, savedFirst_concat.mpr (.inl ⟨hstands, hsave⟩)⟩
        · exact absurd hold hstands
    · rintro ⟨p, rfl, before, -, h⟩
      exact ⟨before, p, rfl, h⟩

end Write

end SnakeDraft.Database
