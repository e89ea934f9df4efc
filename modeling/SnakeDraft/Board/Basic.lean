import SnakeDraft.Decimal.Format
import SnakeDraft.SlotTable
import SnakeDraft.TakenSet

/-!
The ranked pool of players. A player's id is the place on the board, best first. For each position
the board keeps the ids of its players, from which it answers who may fill a slot (`Board.eligible`)
and who is the best one left for it (`Board.bestAvailable?`).
-/

namespace SnakeDraft

/-- A player of the pool. -/
structure Player where
  name : String
  position : Position
  /-- The points the player is projected to score. -/
  points : Float
  /-- The place on the board, from one. -/
  rank : Nat
deriving Repr

/-- The ordered pool of players. -/
structure Board where
  players : Array Player
  /-- The ids of the players at each position, best first. -/
  idsByPosition : SlotTable (List Nat)
deriving Repr

namespace Board

/-- The board of a list of players in their order. -/
def ofPlayers (players : Array Player) : Board where
  players := players
  idsByPosition := .ofFn fun p =>
    (List.range players.size).filter fun id => (players[id]?.map (·.position)) == some p

def empty : Board := ofPlayers #[]

/-- The number of players. -/
def size (b : Board) : Nat :=
  b.players.size

def isEmpty (b : Board) : Bool :=
  b.players.isEmpty

def player? (b : Board) (id : Nat) : Option Player :=
  b.players[id]?

/-- The player with this name, up to the case of ASCII letters and surrounding blanks. -/
def find? (b : Board) (name : String) : Option Nat :=
  b.players.findIdx? fun p => Text.sameFold p.name (Text.trim name)

/-- The ids of the players who may fill a slot, best first. -/
def eligible (b : Board) (slot : Position) : List Nat :=
  if slot.isSlotOnly then
    (Position.flexEligible.flatMap b.idsByPosition.get).mergeSort
  else b.idsByPosition.get slot

/-- The best player at a position who is not taken. -/
def bestAt? (b : Board) (taken : TakenSet) (position : Position) : Option Nat :=
  (b.idsByPosition.get position).find? fun id => !taken.contains id

/-- The best player who may fill a slot and is not taken. -/
def bestAvailable? (b : Board) (taken : TakenSet) (slot : Position) : Option Nat :=
  if slot.isSlotOnly then (Position.flexEligible.filterMap (b.bestAt? taken)).min?
  else b.bestAt? taken slot

/-- The best players who may fill a slot and are not taken, at most `limit` of them. -/
def available (b : Board) (taken : TakenSet) (slot : Position) (limit : Nat) : List Nat :=
  ((b.eligible slot).filter fun id => !taken.contains id).take limit

@[simp] theorem get_idsByPosition_ofPlayers (players : Array Player) (p : Position) :
    (ofPlayers players).idsByPosition.get p =
      (List.range players.size).filter fun id => (players[id]?.map (·.position)) == some p :=
  SlotTable.get_ofFn ..

end Board

end SnakeDraft
