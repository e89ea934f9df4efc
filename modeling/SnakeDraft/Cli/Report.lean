import SnakeDraft.Json.Document
import SnakeDraft.Session.Report
import SnakeDraft.Session.Play
import SnakeDraft.Text.Columns

/-!
Results as the command line prints them, for people and as JSON.
-/

namespace SnakeDraft.Cli

open Json (Document)
open Text (alignLeft alignRight)

def pickDocument (r : PickRecord) : Document :=
  .record
    [("pick_number", .whole r.number), ("round", .whole r.round), ("team_id", .whole r.team),
      ("kind", .text r.kind.name), ("player_name", .ofOption .text r.player),
      ("position", .ofOption (fun p => .text p.code) r.position)]

/-- A pick on one line. Rounds are counted from one here. -/
def pickLine (r : PickRecord) : String :=
  let player := match r.player, r.position with
    | some name, some position => s!"{name} ({position.code})"
    | _, _ => "(pass)"
  let number := alignRight 3 (toString r.number)
  let round := alignRight 2 (toString (r.round + 1))
  let team := alignRight 2 (toString r.team)
  s!"{number}. round {round}, team {team}: {player} [{r.kind.name}]\n"

/-- The text of a list of picks. -/
def pickReport (json : Bool) (picks : List PickRecord) : String :=
  if json then (Document.list (picks.map pickDocument)).render 0 ++ "\n"
  else String.join (picks.map pickLine)

/-- The mark behind the user's own team. -/
def ownMark (s : Session) (team : Nat) : String :=
  if s.config.draft.myTeam = some team then " (you)" else ""

def rosterDocument (r : RosterSheet) : Document :=
  .record
    [("team_id", .whole r.team),
      ("slots", .list <| r.slots.map fun (slot, player) =>
        .record [("slot", .text slot.code), ("player", .ofOption .text player)]),
      ("bench", .list (r.bench.map .text)), ("points", .number r.points)]

def rosterText (s : Session) (r : RosterSheet) : String :=
  let title := s!"Team {r.team}" ++ ownMark s r.team ++ "\n============\n"
  let slots := r.slots.map fun (slot, player) => slot.code ++ ": " ++ player.getD "" ++ "\n"
  let bench := r.bench.map fun name => s!"BE: {name}\n"
  let points := Decimal.places 1 r.points
  title ++ String.join slots ++ String.join bench ++ s!"Projected points: {points}\n\n"

/-- The text of a list of rosters. -/
def rosterReport (s : Session) (json : Bool) (rosters : List RosterSheet) : String :=
  if json then (Document.list (rosters.map rosterDocument)).render 0 ++ "\n"
  else String.join (rosters.map (rosterText s))

/-- The text of a list of players. -/
def playerReport (players : List Player) : String :=
  String.join <| players.map fun p =>
    let rank := alignRight 4 (toString p.rank)
    let name := alignLeft 28 p.name
    let points := alignRight 7 (Decimal.places 1 p.points)
    s!"{rank}. {name} {p.position.code} {points}\n"

def candidateDocument (s : Session) (c : ChildStats) : Document :=
  .record
    [("best", .number c.best), ("choice", .text (s.describe c.choice)), ("mean", .number c.mean),
      ("visits", .whole c.visits.toNat)]

def candidateLine (s : Session) (c : ChildStats) : String :=
  let choice := alignLeft 34 (s.describe c.choice)
  let visits := alignRight 8 (toString c.visits.toNat)
  let mean := alignRight 8 (Decimal.places 1 c.mean)
  let best := alignRight 8 (Decimal.places 1 c.best)
  s!"  {choice} visits {visits}  mean {mean}  best {best}\n"

/-- The text of a recommendation that took some time. -/
def recommendationReport (s : Session) (json : Bool) (elapsed : Duration) (r : SearchResult) :
    String :=
  let choice := s.describe r.choice
  if json then
    (Document.record
      [("candidates", .list (r.children.map (candidateDocument s))),
        ("elapsed_ms", .whole elapsed.milliseconds), ("iterations", .whole r.stats.iterations),
        ("max_depth", .whole r.stats.maxDepth), ("pick", .whole r.turn.index),
        ("recommendation", .text choice), ("team_id", .whole r.turn.team),
        ("tree_size", .whole r.stats.treeSize)]).render 0 ++ "\n"
  else
    s!"{choice}\n" ++
      s!"pick {r.turn.index} (team {r.turn.team}), {r.stats.iterations} iterations " ++
      s!"in {elapsed.brief} across {r.stats.workers} worker(s), " ++
      s!"{r.stats.treeSize} nodes, depth {r.stats.maxDepth}\n" ++
      String.join (r.children.map (candidateLine s))

/-- The text of where the draft stands and how picks are searched. -/
def stateReport (s : Session) : String :=
  let pointer := s.state.pointer
  let draft := match s.onClock? with
    | some turn =>
      s!"Draft {s.draftId} | Pick {pointer} of {s.schedule.size} | Round {turn.round + 1} | " ++
        s!"Drafting: team {turn.team}" ++ ownMark s turn.team
    | none => s!"Draft {s.draftId} | complete after {pointer} picks"
  let budget := match s.settings.timeBudget with
    | some d => Decimal.places 1 d.toSeconds ++ "s"
    | none => "none"
  let iterations := match s.settings.maxIterations with
    | some n => toString n
    | none => "no"
  let exploration := Decimal.places 3 s.settings.exploration
  s!"{draft}\nSearch: {budget} budget | {iterations} iterations max | C = {exploration} | " ++
    s!"{s.settings.workers} worker(s)\n"

end SnakeDraft.Cli
