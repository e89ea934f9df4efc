import SnakeDraft.SlotTable

/-!
Roster requirements: how many players a team starts at each slot. All teams of a league share them,
and a slot has at most 255 places.
-/

namespace SnakeDraft

/-- The number of places per slot, the same for every team. -/
structure Requirements where
  counts : SlotTable UInt8
deriving DecidableEq, Repr

namespace Requirements

/-- No places at all. -/
def none : Requirements := ⟨.fill 0⟩

/-- One quarterback, two running backs, two wide receivers, one tight end, two FLEX places, a kicker
and a defense. -/
def standard : Requirements := ⟨⟨1, 2, 2, 1, 2, 1, 1⟩⟩

def set (r : Requirements) (slot : Position) (count : UInt8) : Requirements :=
  ⟨r.counts.set slot count⟩

/-- The places at a slot. -/
def required (r : Requirements) (slot : Position) : Nat :=
  (r.counts.get slot).toNat

/-- The requirements that a list of counts describes: a slot that is not listed has no places, and
of two counts for one slot the later one holds. -/
def ofCounts (counts : List (Position × UInt8)) : Requirements :=
  counts.foldl (fun r (slot, count) => r.set slot count) none

/-- The places of a whole team. -/
def slotsPerTeam (r : Requirements) : Nat :=
  Position.all.foldr (fun slot places => r.required slot + places) 0

theorem required_lt (r : Requirements) (slot : Position) : r.required slot < 256 :=
  (r.counts.get slot).toNat_lt

theorem required_set (r : Requirements) (p q : Position) (count : UInt8) :
    (r.set p count).required q = if q = p then count.toNat else r.required q := by
  simp only [required, set, SlotTable.get_set]
  split <;> rfl

@[simp] theorem required_none (slot : Position) : none.required slot = 0 := by
  cases slot <;> rfl

end Requirements

end SnakeDraft
