import SnakeDraft.Requirements

/-!
One team's roster, as the number of places filled at each slot. A player fills a place at the own
position while one is open, and else, where the position allows it, an open FLEX place; `Roster.fill`
never fills more places than are required.
-/

namespace SnakeDraft

/-- How many places of each slot one team has filled. -/
structure Roster where
  filledPlaces : SlotTable Nat
deriving DecidableEq, Repr

namespace Roster

/-- The roster of a team without players. -/
def empty : Roster := ⟨.fill 0⟩

/-- The filled places at a slot. -/
def filled (roster : Roster) (slot : Position) : Nat :=
  roster.filledPlaces.get slot

/-- The open places at a slot, none when more are filled than required. -/
def openAt (roster : Roster) (reqs : Requirements) (slot : Position) : Nat :=
  reqs.required slot - roster.filled slot

/-- The slots with an open place, in display order. -/
def neededSlots (roster : Roster) (reqs : Requirements) : List Position :=
  Position.all.filter fun slot => 0 < roster.openAt reqs slot

/-- The slot that a player at this position would fill. -/
def slotFor? (roster : Roster) (reqs : Requirements) (position : Position) : Option Position :=
  if position.isSlotOnly then none
  else if 0 < roster.openAt reqs position then some position
  else if position.isFlexEligible ∧ 0 < roster.openAt reqs .flex then some .flex
  else none

/-- The roster with one more place filled at a slot. -/
def addTo (roster : Roster) (slot : Position) : Roster :=
  ⟨roster.filledPlaces.modify slot (· + 1)⟩

/-- Places a player at a position: the slot filled and the roster after it, or nothing when no place
is open. -/
def fill (roster : Roster) (reqs : Requirements) (position : Position) :
    Option (Position × Roster) :=
  (roster.slotFor? reqs position).map fun slot => (slot, roster.addTo slot)

/-- Whether no place is open. -/
def isComplete (roster : Roster) (reqs : Requirements) : Bool :=
  (roster.neededSlots reqs).isEmpty

@[simp] theorem filled_empty (slot : Position) : empty.filled slot = 0 :=
  SlotTable.get_fill ..

theorem filled_addTo (roster : Roster) (slot other : Position) :
    (roster.addTo slot).filled other = roster.filled other + if other = slot then 1 else 0 := by
  simp only [filled, addTo, SlotTable.get_modify]
  split <;> simp_all

theorem ext_filled {a b : Roster} (h : ∀ slot, a.filled slot = b.filled slot) : a = b := by
  cases a
  cases b
  exact congrArg Roster.mk (SlotTable.ext_get h)

theorem mem_neededSlots {roster : Roster} {reqs : Requirements} {slot : Position} :
    slot ∈ roster.neededSlots reqs ↔ roster.filled slot < reqs.required slot := by
  rw [neededSlots, List.mem_filter, decide_eq_true_eq, openAt, Nat.sub_pos_iff_lt]
  exact and_iff_right (Position.mem_all slot)

theorem isComplete_iff {roster : Roster} {reqs : Requirements} :
    roster.isComplete reqs = true ↔ ∀ slot, reqs.required slot ≤ roster.filled slot := by
  simp [isComplete, List.eq_nil_iff_forall_not_mem, mem_neededSlots]

theorem open_of_slotFor? {roster : Roster} {reqs : Requirements} {position slot : Position}
    (h : roster.slotFor? reqs position = some slot) : roster.filled slot < reqs.required slot := by
  unfold slotFor? openAt at h
  grind

end Roster

end SnakeDraft
