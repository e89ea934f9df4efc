import SnakeDraft.Machine
import SnakeDraft.Position

/-!
A value for every roster slot. `SlotTable.get` reads a table and is its view: two tables that agree at
every slot are equal (`SlotTable.ext_get`), and each operation is described by what it does to `get`.
-/

namespace SnakeDraft

/-- One value per roster slot. -/
@[ext]
structure SlotTable (α : Type) where
  quarterback : α
  runningBack : α
  wideReceiver : α
  tightEnd : α
  flex : α
  kicker : α
  defense : α
deriving DecidableEq, Repr

namespace SlotTable

variable {α β ε : Type}

/-- The value of one slot. -/
def get (t : SlotTable α) : Position → α
  | .quarterback => t.quarterback
  | .runningBack => t.runningBack
  | .wideReceiver => t.wideReceiver
  | .tightEnd => t.tightEnd
  | .flex => t.flex
  | .kicker => t.kicker
  | .defense => t.defense

/-- The table of a function on slots. -/
def ofFn (f : Position → α) : SlotTable α :=
  ⟨f .quarterback, f .runningBack, f .wideReceiver, f .tightEnd, f .flex, f .kicker, f .defense⟩

/-- The table of what is computed for every slot, in display order up to the first failure. -/
def collect (f : Position → Except ε α) : Except ε (SlotTable α) := do
  let quarterback ← f .quarterback
  let runningBack ← f .runningBack
  let wideReceiver ← f .wideReceiver
  let tightEnd ← f .tightEnd
  let flex ← f .flex
  let kicker ← f .kicker
  let defense ← f .defense
  return ⟨quarterback, runningBack, wideReceiver, tightEnd, flex, kicker, defense⟩

/-- The same value in every slot. -/
def fill (a : α) : SlotTable α :=
  ofFn fun _ => a

/-- The table with the value of one slot replaced. -/
def set (t : SlotTable α) (p : Position) (a : α) : SlotTable α :=
  match p with
  | .quarterback => { t with quarterback := a }
  | .runningBack => { t with runningBack := a }
  | .wideReceiver => { t with wideReceiver := a }
  | .tightEnd => { t with tightEnd := a }
  | .flex => { t with flex := a }
  | .kicker => { t with kicker := a }
  | .defense => { t with defense := a }

/-- The table with the value of one slot changed by a function. -/
def modify (t : SlotTable α) (p : Position) (f : α → α) : SlotTable α :=
  t.set p (f (t.get p))

/-- The values in display order. -/
def toList (t : SlotTable α) : List α :=
  Position.all.map t.get

@[simp] theorem get_ofFn (f : Position → α) (p : Position) : (ofFn f).get p = f p := by
  cases p <;> rfl

@[simp] theorem get_fill (a : α) (p : Position) : (fill a).get p = a :=
  get_ofFn ..

theorem get_set (t : SlotTable α) (p q : Position) (a : α) :
    (t.set p a).get q = if q = p then a else t.get q := by
  cases p <;> cases q <;> rfl

@[simp] theorem get_set_self (t : SlotTable α) (p : Position) (a : α) : (t.set p a).get p = a := by
  simp [get_set]

theorem get_modify (t : SlotTable α) (p q : Position) (f : α → α) :
    (t.modify p f).get q = if q = p then f (t.get p) else t.get q :=
  get_set ..

/-- A table is collected exactly if nothing fails, and has what was computed for each slot. -/
theorem collect_eq_ok_iff {f : Position → Except ε α} {t : SlotTable α} :
    collect f = .ok t ↔ ∀ p, f p = .ok (t.get p) := by
  constructor
  · intro h p
    unfold collect at h
    simp only [bind_eq_ok_iff] at h
    obtain ⟨_, hq, _, hr, _, hw, _, ht, _, hf, _, hk, _, hd, h⟩ := h
    cases h
    cases p <;> assumption
  · intro h
    unfold collect
    simp only [h .quarterback, h .runningBack, h .wideReceiver, h .tightEnd, h .flex, h .kicker, h .defense]
    rfl

theorem exists_collect_iff {f : Position → Except ε α} : (∃ t, collect f = .ok t) ↔ ∀ p, ∃ a, f p = .ok a := by
  simp only [collect_eq_ok_iff]
  constructor
  · rintro ⟨t, h⟩ p
    exact ⟨_, h p⟩
  · intro h
    refine ⟨.ofFn fun p => (h p).choose, fun p => ?_⟩
    rw [get_ofFn]
    exact (h p).choose_spec

/-- Tables are equal when they agree at every slot. -/
theorem ext_get {s t : SlotTable α} (h : ∀ p, s.get p = t.get p) : s = t :=
  SlotTable.ext (h .quarterback) (h .runningBack) (h .wideReceiver) (h .tightEnd) (h .flex)
    (h .kicker) (h .defense)

end SlotTable

end SnakeDraft
