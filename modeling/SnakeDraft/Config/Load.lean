import SnakeDraft.Config.Layout
import SnakeDraft.Config.Roster
import SnakeDraft.Text.Blank

/-!
Loading a configuration: reading its text, filling in defaults, and checking its values.
-/

namespace SnakeDraft.Config

/-- Whether a number is positive and finite. -/
def isPositive (x : Float) : Bool :=
  x.isFinite && !(x ≤ 0)

/-- The first fault in the values of a configuration. -/
def fault? (c : Config) : Option ConfigFault :=
  if c.draft.numTeams = 0 then some (.belowOne "draft.num_teams")
  else if c.draft.rounds = 0 then some (.belowOne "draft.rounds")
  else if c.draft.myTeam.any (c.draft.numTeams ≤ ·) then some (.teamOutOfRange c.draft.numTeams)
  else if c.draft.requirements.slotsPerTeam = 0 then some .noSlots
  else if !isPositive c.search.secondsPerPick then some (.notPositive "search.seconds_per_pick")
  else if c.search.maxIterations = some 0 then some (.belowOne "search.max_iterations")
  else if !isPositive c.search.exploration then some (.notPositive "search.exploration_constant")
  else if c.search.workers = 0 then some (.belowOne "search.workers")
  else if Text.trim c.data.draftboard = "" then some (.blank "data.draftboard")
  else if c.database.any (Text.trim · = "") then some (.blank "database.path")
  else none

/-- The requirements of a draft section, the standard ones where it lists no roster. -/
def DraftSection.requirements (s : DraftSection) : Except ConfigFault Requirements :=
  match s.roster with
  | some table => requirementsOf table
  | none => .ok .standard

/-- The configuration of a layout. Without a number of rounds there is one per place of a team. -/
def ofLayout (l : Layout) : Except ConfigFault Config :=
  l.draft.requirements.map fun requirements =>
    { draft :=
        { numTeams := l.draft.numTeams
          rounds := l.draft.rounds.getD requirements.slotsPerTeam
          myTeam := l.draft.myTeam
          requirements }
      search := l.search
      data := l.data
      database := l.database }

/-- The configuration in the text of a file. -/
def parse (path text : String) : Except ConfigError Config :=
  match Layout.read? text with
  | none => .error (.unreadable path)
  | some layout =>
    match ofLayout layout with
    | .error fault => .error (.invalid fault)
    | .ok config =>
      match config.fault? with
      | some fault => .error (.invalid fault)
      | none => .ok config

end SnakeDraft.Config
