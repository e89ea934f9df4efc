import SnakeDraft.Board.Basic
import SnakeDraft.Draft.State

/-!
Startable pools. The pool of a position holds the players that the whole league would start there; a
player's score is the distance from the mean of that pool in standard deviations, which makes players
of different positions comparable. The size of a pool is a product of machine words, so scores come
from the sizes as the program computes them (`poolSizes`).
-/

namespace SnakeDraft

/-- Mean and standard deviation of the points of a pool. -/
structure PoolStats where
  mean : Float
  stdev : Float
deriving Repr

namespace PoolStats

/-- The mean and the population standard deviation, both zero for an empty pool. -/
def ofPoints (points : List Float) : PoolStats :=
  if points.isEmpty then ⟨0, 0⟩
  else
    let count := points.length.toFloat
    let mean := DraftState.sumOf points / count
    let squares := points.map fun p => (p - mean) * (p - mean)
    ⟨mean, (DraftState.sumOf squares / count).sqrt⟩

/-- The distance from the mean in standard deviations, zero in a flat pool. -/
def zscore (stats : PoolStats) (points : Float) : Float :=
  if stats.stdev ≤ 1e-9 then 0 else (points - stats.mean) / stats.stdev

end PoolStats

/-- The number of players at a position that a team would start. Every position whose players may
fill FLEX places counts all of these, since any of them may end up there. -/
def starters (reqs : Requirements) (position : Position) : Nat :=
  let flex := if position.isFlexEligible then reqs.required .flex else 0
  reqs.required position + flex

/-- The number of players at a position that the league would start, however large. -/
def poolSize (reqs : Requirements) (numTeams : Nat) (position : Position) : Nat :=
  starters reqs position * numTeams

/-- The size of a pool as a program computes it, as a product of words. -/
def poolSizeIn (overflow : Overflow) (reqs : Requirements) (numTeams : Nat) (position : Position) :
    Except MachineFault Nat :=
  overflow.product (starters reqs position) numTeams

/-- The sizes of the pools of all positions. -/
def poolSizes (overflow : Overflow) (reqs : Requirements) (numTeams : Nat) : Except MachineFault (SlotTable Nat) :=
  SlotTable.collect fun position =>
    if position.isSlotOnly then .ok 0 else poolSizeIn overflow reqs numTeams position

section Sizes

variable {overflow : Overflow} {reqs : Requirements} {numTeams : Nat}

theorem exists_poolSizeIn_iff {position : Position} :
    (∃ size, poolSizeIn overflow reqs numTeams position = .ok size) ↔
      (overflow = .stops → poolSize reqs numTeams position < UInt64.size) :=
  Overflow.exists_product_iff

theorem exists_poolSizes_iff :
    (∃ sizes, poolSizes overflow reqs numTeams = .ok sizes) ↔
      (overflow = .stops → ∀ position, position ≠ .flex → poolSize reqs numTeams position < UInt64.size) := by
  unfold poolSizes
  rw [SlotTable.exists_collect_iff]
  constructor
  · intro h hstops position hposition
    have hsize := h position
    rw [if_neg (mt Position.isSlotOnly_iff.mp hposition)] at hsize
    exact exists_poolSizeIn_iff.mp hsize hstops
  · intro h position
    by_cases hposition : position = .flex
    · exact ⟨0, if_pos (Position.isSlotOnly_iff.mpr hposition)⟩
    · rw [if_neg (mt Position.isSlotOnly_iff.mp hposition), exists_poolSizeIn_iff]
      exact fun hstops => h hstops position hposition

end Sizes

namespace Board

/-- The points of all players at a position, best first. -/
def pointsAt (b : Board) (position : Position) : List Float :=
  (b.eligible position).filterMap fun id => (b.player? id).map (·.points)

/-- The statistics of a pool of a size, if it has any players. -/
def poolStats? (b : Board) (size : Nat) (position : Position) : Option PoolStats :=
  let pool := (b.pointsAt position).take size
  if position.isSlotOnly ∨ pool.isEmpty then none else some (.ofPoints pool)

/-- The score of every player against the pool of the player's position, zero where there is none. -/
def scores (b : Board) (sizes : SlotTable Nat) : Array Float :=
  let stats := SlotTable.ofFn fun position => b.poolStats? (sizes.get position) position
  b.players.map fun player =>
    match stats.get player.position with
    | some stats => stats.zscore player.points
    | none => 0

/-- The scores of all players in a league, if its pools have sizes. -/
def positionalScores (b : Board) (overflow : Overflow) (reqs : Requirements) (numTeams : Nat) :
    Except MachineFault (Array Float) :=
  (poolSizes overflow reqs numTeams).map b.scores

theorem exists_positionalScores_iff {b : Board} {overflow : Overflow} {reqs : Requirements} {numTeams : Nat} :
    (∃ scores, b.positionalScores overflow reqs numTeams = .ok scores) ↔
      (overflow = .stops → ∀ position, position ≠ .flex → poolSize reqs numTeams position < UInt64.size) := by
  rw [← exists_poolSizes_iff]
  unfold positionalScores
  cases poolSizes overflow reqs numTeams with
  | error fault => simp [Except.map]
  | ok sizes => simp [Except.map]

end Board

end SnakeDraft
