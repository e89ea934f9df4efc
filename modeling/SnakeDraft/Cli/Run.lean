import SnakeDraft.Board.File
import SnakeDraft.Cli.Help
import SnakeDraft.Cli.Log
import SnakeDraft.Cli.Report
import SnakeDraft.Config.Setup
import SnakeDraft.Session.Restore
import SnakeDraft.Store.Opening

/-!
One run of the program. `configure` sets up and reads the configuration, `openSession` restores the
draft that it leads to, `execute` carries out a command, and `run` does all of it for an argument list.
What the outside world adds to the arguments and the disk comes as `Circumstances`.
-/

namespace SnakeDraft.Cli

/-- What a run takes from outside. -/
structure Circumstances where
  /-- What the program does with products that are out of range. -/
  overflow : Overflow
  /-- The path of the user's own database. -/
  userDatabase : String
  /-- The moment of the run. -/
  moment : String
  /-- An id for the first draft of a database. -/
  firstId : String
  /-- An id for a draft that is started anew. -/
  nextId : String
  /-- A seed for searches without a fixed one. -/
  freshSeed : UInt64
  /-- What the clock means for a search. -/
  clock : Clock
  /-- The time that the last search takes. -/
  elapsed : Duration

/-- Why a run fails: a message with its causes, and the exit code. -/
structure Failure where
  chain : List String
  code : Nat := 1

namespace Failure

/-- A message whose further lines are indented too. -/
def indented (first rest message : String) : String :=
  first ++ ("\n" ++ rest).intercalate (message.splitOn "\n")

/-- The causes of a failure. Several are numbered. -/
def renderCauses : List String → String
  | [] => ""
  | [cause] => "\n\nCaused by:\n" ++ indented "    " "    " cause
  | causes =>
    "\n\nCaused by:\n" ++ "\n".intercalate (causes.zipIdx.map fun (cause, i) =>
      indented (Text.alignRight 5 (toString i) ++ ": ") "       " cause)

def render (f : Failure) : String :=
  "Error: " ++ f.chain.headD "" ++ renderCauses f.chain.tail ++ "\n"

/-- The failure of an operation of a session, below some messages. -/
def ofSession (context : List String) (e : SessionError) : Failure :=
  if e.stops then ⟨e.chain, 101⟩ else ⟨context ++ e.chain, 1⟩

end Failure

/-- What a run leaves behind on its two outputs, and its exit code. -/
structure Outcome where
  code : Nat
  out : String
  err : String
deriving DecidableEq, Repr

/-- The configuration with the path of the ranking seen from where the base directory is. -/
def locate (base : String) (c : Config) : Config :=
  let path := c.data.draftboard
  if Path.isRelative path then { c with data := { c.data with draftboard := Path.join base path } }
  else c

/-- Sets up the base directory as far as needed and reads its configuration. -/
def configure (base : String) (d : Disk) : Except Failure Config × Disk :=
  match Log.start base d with
  | (.error e, d) => (.error ⟨[e.message], 1⟩, d)
  | (.ok (), d) =>
    match Setup.run (Place.ofPath base) d with
    | (.error e, d) => (.error ⟨[e.message base], 1⟩, d)
    | (.ok _, d) =>
      match Config.load d base with
      | .error e => (.error ⟨["failed to load configuration", e.message], 1⟩, d)
      | .ok config => (.ok (locate base config), d)

/-- The name of the database of a configuration. -/
def databaseName (c : Circumstances) (config : Config) : String :=
  config.database.getD c.userDatabase

/-- The session of a configuration: its board, with the current draft of its database. What is opened is
noted in the log. -/
def openSession (c : Circumstances) (base : String) (config : Config) (d : Disk) :
    Except SessionError Session × Disk :=
  let path := config.data.draftboard
  match Board.load d path config.data.hasHeaders with
  | .error e => (.error (.board e), d)
  | .ok board =>
    let d := Log.note base c.moment (.boardLoaded board.size path) d
    let name := databaseName c config
    match Database.openName name d with
    | (.error e, d) => (.error (.database e), d)
    | (.ok db, d) =>
      let d := Log.note base c.moment (.databaseOpened name) d
      match Session.start c.overflow config board c.firstId c.freshSeed with
      | .error e => (.error e, d)
      | .ok s => (s.attach db c.firstId, d)

/-- The session with another number of seconds per pick. -/
def withSeconds (s : Session) : Option Float → Except Failure Session
  | none => .ok s
  | some seconds =>
    if !Config.isPositive seconds then .error ⟨["--seconds must be a positive number"], 1⟩
    else
      match Duration.ofSeconds? seconds with
      | none => .error (.ofSession [] (.noDuration seconds))
      | some budget => .ok { s with settings := { s.settings with timeBudget := some budget } }

/-- A result of an operation as what it prints. -/
def printed {α : Type} (report : Session → α → String) (result : Except SessionError α × Session) :
    Except Failure String × Session :=
  match result with
  | (.error e, s) => (.error (.ofSession [] e), s)
  | (.ok a, s) => (.ok (report s a), s)

/-- Carries out a command: what it prints, and the session after it. -/
def execute (c : Circumstances) (json : Bool) (s : Session) : Command → Except Failure String × Session
  | .sim =>
    printed (fun s picks => pickReport json picks ++ rosterReport s json s.rosters)
      (s.simulateDraft fun _ => c.clock)
  | .think => printed (fun s r => recommendationReport s json c.elapsed r) (s.think c.clock, s)
  | .pick name => printed (fun _ p => pickReport json [p]) (s.makePick name)
  | .bench name => printed (fun _ p => pickReport json [p]) (s.bench name)
  | .undo =>
    let report : Option PickRecord → String
      | some p => pickReport json [p]
      | none => "Nothing to undo.\n"
    printed (fun _ => report) s.undo
  | .trade pick team =>
    printed (fun _ _ => s!"Pick {pick} now belongs to team {team}.\n") (s.givePick pick team)
  | .state => (.ok (stateReport s), s)
  | .history => (.ok (pickReport json s.history), s)
  | .roster none => (.ok (rosterReport s json s.rosters), s)
  | .roster (some team) =>
    if team < s.schedule.numTeams then (.ok (rosterReport s json [s.roster team]), s)
    else (.error ⟨[(PickError.unknownTeam team s.schedule.numTeams).message], 1⟩, s)
  | .available position limit =>
    match Position.parse? position with
    | none => (.error ⟨[s!"unknown position '{position}'"], 1⟩, s)
    | some slot => (.ok (playerReport (s.available slot limit)), s)
  | .reset => printed (fun s _ => s!"Started draft {s.draftId}.\n") (s.reset c.nextId)

/-- The warning about picks that are not in the database. -/
def unsavedWarning (s : Session) : String :=
  if s.unsaved = 0 then ""
  else s!"warning: {s.unsaved} pick(s) could not be saved; see logs/draftbot.log\n"

/-- The outcome of a failed run. -/
def Outcome.ofFailure (f : Failure) : Outcome :=
  ⟨f.code, "", f.render⟩

/-- Carries out an invocation in an open session: its outcome, and the session after it. -/
def finish (c : Circumstances) (i : Invocation) (s : Session) : Outcome × Session :=
  match withSeconds s i.seconds with
  | .error f => (.ofFailure f, s)
  | .ok s =>
    match execute c i.json s i.command with
    | (.error f, s) => (.ofFailure f, s)
    | (.ok out, s) => (⟨0, out, unsavedWarning s⟩, s)

/-- The disk with the database of a session on it. -/
def saveSession (s : Session) (d : Disk) : Disk :=
  match s.database with
  | some db => db.save d
  | none => d

/-- Carries out an invocation. -/
def invoke (c : Circumstances) (i : Invocation) (d : Disk) : Outcome × Disk :=
  match configure i.base d with
  | (.error f, d) => (.ofFailure f, d)
  | (.ok config, d) =>
    match openSession c i.base config d with
    | (.error e, d) => (.ofFailure (.ofSession ["failed to open draft session"] e), d)
    | (.ok s, d) =>
      let (outcome, s) := finish c i s
      (outcome, saveSession s d)

/-- Runs the program with an argument list. -/
def run (c : Circumstances) (arguments : List String) (d : Disk) : Outcome × Disk :=
  match Request.ofArguments arguments with
  | .error e => (⟨2, "", usageText e⟩, d)
  | .ok (.help topic) => (⟨0, helpText topic, ""⟩, d)
  | .ok .version => (⟨0, versionText, ""⟩, d)
  | .ok (.run i) => invoke c i d

end SnakeDraft.Cli
