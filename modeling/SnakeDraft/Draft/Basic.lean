import SnakeDraft.Board.Basic
import SnakeDraft.Roster
import SnakeDraft.Schedule

/-!
Picks: what a team can choose, what it has selected, and why a choice can be refused.
-/

namespace SnakeDraft

/-- What every pick of a draft is checked against. -/
structure Rules where
  board : Board
  schedule : Schedule
  requirements : Requirements

/-- A decision of the team on the clock. -/
inductive Choice where
  | player (id : Nat)
  /-- Nobody is taken, because nobody fits. -/
  | pass
deriving DecidableEq, Repr

/-- What happened at a pick. -/
inductive Selection where
  | drafted (id : Nat)
  /-- The player is off the board but fills no place and scores no points. -/
  | benched (id : Nat)
  | passed
deriving DecidableEq, Repr

def Choice.selection : Choice → Selection
  | .player id => .drafted id
  | .pass => .passed

/-- The player who left the board. -/
def Selection.player? : Selection → Option Nat
  | .drafted id | .benched id => some id
  | .passed => none

/-- A pick that was made. -/
structure Pick where
  turn : Turn
  selection : Selection
  /-- The slot that a drafted player fills. -/
  slot : Option Position
deriving DecidableEq, Repr

/-- Why a pick is refused. -/
inductive PickError where
  | draftComplete
  | unknownPlayer (name : String)
  | alreadyTaken (name : String)
  | noOpenSlot (name : String) (position : Position) (team : Nat)
  | notTradable (index onClock size : Nat)
  | unknownTeam (team numTeams : Nat)
deriving DecidableEq, Repr

def PickError.message : PickError → String
  | draftComplete => "the draft is complete"
  | unknownPlayer name => s!"no player named '{name}' on the board"
  | alreadyTaken name => s!"{name} has already been taken"
  | noOpenSlot name position team =>
    s!"team {team} has no open slot for {name} ({position.code})"
  | notTradable index onClock size =>
    s!"pick {index} cannot be traded (pick {onClock} is on the clock, {size} picks total)"
  | unknownTeam team numTeams => s!"team {team} does not exist ({numTeams} teams)"

end SnakeDraft
