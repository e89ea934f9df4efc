import SnakeDraft.Session.Basic

/-!
What a session tells about its draft: the rosters of the teams, the players still on the board, and
choices in words.
-/

namespace SnakeDraft

/-- A team's roster as it is reported. -/
structure RosterSheet where
  team : Nat
  /-- The places in display order, each with the player who fills it. -/
  slots : List (Position × Option String)
  /-- The players taken without filling a place. -/
  bench : List String
  /-- The projected points of the players in the places. -/
  points : Float
deriving Repr

namespace Session

/-- The picks that a team made. -/
def picksOf (s : Session) (team : Nat) : List Pick :=
  s.state.picks.toList.filter fun p => p.turn.team == team

/-- The names of the players who fill the places of a slot, in pick order. -/
def namesAt (s : Session) (team : Nat) (slot : Position) : List String :=
  (s.picksOf team).filterMap fun p =>
    if p.slot = some slot then (p.selection.player?.bind s.board.player?).map (·.name) else none

/-- The places of a slot, with the players who fill them and then empty. -/
def placesAt (s : Session) (team : Nat) (slot : Position) : List (Position × Option String) :=
  (List.range (s.config.draft.requirements.required slot)).map fun i =>
    (slot, (s.namesAt team slot)[i]?)

/-- The names of the players that a team took without filling a place, in pick order. -/
def benchOf (s : Session) (team : Nat) : List String :=
  (s.picksOf team).filterMap fun p =>
    match p.selection with
    | .benched id => (s.board.player? id).map (·.name)
    | _ => none

def roster (s : Session) (team : Nat) : RosterSheet where
  team := team
  slots := Position.all.flatMap (s.placesAt team)
  bench := s.benchOf team
  points := s.state.teamPoints s.board team

/-- The rosters of all teams. -/
def rosters (s : Session) : List RosterSheet :=
  (List.range s.schedule.numTeams).map s.roster

/-- The best players left for a slot. -/
def available (s : Session) (slot : Position) (limit : Nat) : List Player :=
  (s.board.available s.state.taken slot limit).filterMap s.board.player?

/-- A choice in words. -/
def describe (s : Session) : Choice → String
  | .player id =>
    match s.board.player? id with
    | some p => s!"{p.name} ({p.position.code})"
    | none => s!"player #{id}"
  | .pass => "pass"

end Session

end SnakeDraft
