import SnakeDraft.Board.Rows
import SnakeDraft.Config.Basic
import SnakeDraft.Pool
import SnakeDraft.Search.Workers
import SnakeDraft.Store.Database

/-!
Draft sessions. A session holds the real draft as it happens: the board, the schedule with its trades,
the picks, and the settings of the search that recommends picks. With a database attached every pick
and trade is written through to it.
-/

namespace SnakeDraft

/-- A draft in progress with everything around it. -/
structure Session where
  config : Config
  /-- What the program that runs the session does with products that are out of range. -/
  overflow : Overflow
  board : Board
  schedule : Schedule
  state : DraftState
  /-- The scores of all players against the pools of their positions. -/
  scores : Array Float
  settings : Settings
  database : Option Database
  draftId : String
  /-- The number of picks that the database failed to store. -/
  unsaved : Nat

/-- Why an operation of a session has no result. -/
inductive SessionError where
  | pick (error : PickError)
  | search (error : SearchError)
  | store (error : StoreError)
  /-- The ranking has no board. -/
  | board (error : BoardError)
  | database (error : StoreError)
  /-- A stored pick names a player who is not on the board. -/
  | strayPick (number : Nat) (name : String)
  /-- The stored picks do not apply. -/
  | replay (draft : String) (error : PickError)
  /-- The league is out of range for the program. -/
  | machine (fault : MachineFault)
  /-- The seconds per pick are no duration. -/
  | noDuration (seconds : Float)

namespace SessionError

/-- The message and the messages of the causes under it. -/
def chain : SessionError → List String
  | pick error => [error.message]
  | search error => error.chain
  | store error => error.chain
  | board error => "failed to load draftboard" :: error.chain
  | database error => "failed to open database" :: error.chain
  | strayPick number name =>
    [s!"stored pick {number} is not on the board", (PickError.unknownPlayer name).message]
  | replay draft error => [s!"failed to replay draft {draft}", error.message]
  | machine fault => [fault.message]
  | noDuration _ =>
    ["cannot convert float seconds to Duration: value is either too big or NaN"]

/-- Whether the program stops at an error instead of reporting it. -/
def stops : SessionError → Bool
  | search .beyondClock | machine _ | noDuration _ => true
  | _ => false

end SessionError

/-- The numbers of a league are in range for a program: there is room for all picks and rosters, and where products
stop the program, the sizes of all pools fit a word. -/
structure DraftOptions.InRange (draft : DraftOptions) (overflow : Overflow) : Prop where
  picks : draft.numTeams * draft.rounds * Schedule.turnBytes < signedSize
  rosters : draft.numTeams * DraftState.rosterBytes < signedSize
  pools : overflow = .stops → ∀ position, position ≠ .flex →
    poolSize draft.requirements draft.numTeams position < UInt64.size

/-- A pick as it is reported. -/
structure PickRecord where
  number : Nat
  round : Nat
  team : Nat
  kind : PickKind
  player : Option String
  position : Option Position
deriving DecidableEq, Repr

/-- The stored form of a reported pick. -/
def PickRecord.toStored (r : PickRecord) : StoredPick :=
  ⟨r.number, r.round, r.team, r.kind, r.player, r.position.map (·.code)⟩

namespace Session

/-- What the picks of a session are checked against. -/
def rules (s : Session) : Rules :=
  ⟨s.board, s.schedule, s.config.draft.requirements⟩

/-- The pick on the clock. -/
def onClock? (s : Session) : Option Turn :=
  s.state.onClock? s.schedule

def isComplete (s : Session) : Bool :=
  s.state.isComplete s.schedule

/-- What the sessions of a league start from: the schedule, the state and the scores. -/
def prepare (overflow : Overflow) (draft : DraftOptions) (board : Board) :
    Except MachineFault (Schedule × DraftState × Array Float) := do
  let schedule ← Schedule.build overflow draft.numTeams draft.rounds
  let state ← DraftState.build draft.numTeams board.size
  let scores ← board.positionalScores overflow draft.requirements draft.numTeams
  return (schedule, state, scores)

/-- A session without a database. -/
def start (overflow : Overflow) (config : Config) (board : Board) (draftId : String) (freshSeed : UInt64) :
    Except SessionError Session :=
  match prepare overflow config.draft board with
  | .error fault => .error (.machine fault)
  | .ok (schedule, state, scores) =>
    match Settings.ofOptions? config.search freshSeed with
    | none => .error (.noDuration config.search.secondsPerPick)
    | some settings =>
      .ok
        { config, overflow, board, schedule, state, scores, settings
          database := none
          draftId
          unsaved := 0 }

section Start

variable {overflow : Overflow} {board : Board}

theorem prepare_eq_ok_iff {draft : DraftOptions} {schedule : Schedule} {state : DraftState} {scores : Array Float} :
    prepare overflow draft board = .ok (schedule, state, scores) ↔
      (draft.numTeams * draft.rounds * Schedule.turnBytes < signedSize ∧
        schedule = .snake draft.numTeams draft.rounds) ∧
      (draft.numTeams * DraftState.rosterBytes < signedSize ∧ state = .start draft.numTeams board.size) ∧
      board.positionalScores overflow draft.requirements draft.numTeams = .ok scores := by
  unfold prepare
  simp only [bind_eq_ok_iff, Schedule.build_eq_ok_iff, DraftState.build_eq_ok_iff]
  constructor
  · rintro ⟨schedule', hschedule, state', hstate, scores', hscores, h⟩
    cases h
    exact ⟨hschedule, hstate, hscores⟩
  · rintro ⟨hschedule, hstate, hscores⟩
    exact ⟨schedule, hschedule, state, hstate, scores, hscores, rfl⟩

theorem exists_prepare_iff {draft : DraftOptions} :
    (∃ prepared, prepare overflow draft board = .ok prepared) ↔ draft.InRange overflow := by
  constructor
  · rintro ⟨⟨schedule, state, scores⟩, h⟩
    obtain ⟨⟨hpicks, -⟩, ⟨hrosters, -⟩, hscores⟩ := prepare_eq_ok_iff.mp h
    exact ⟨hpicks, hrosters, Board.exists_positionalScores_iff.mp ⟨scores, hscores⟩⟩
  · rintro ⟨hpicks, hrosters, hpools⟩
    obtain ⟨scores, hscores⟩ := (Board.exists_positionalScores_iff (b := board)).mpr hpools
    exact ⟨_, prepare_eq_ok_iff.mpr ⟨⟨hpicks, rfl⟩, ⟨hrosters, rfl⟩, hscores⟩⟩

variable {config : Config} {draftId : String} {freshSeed : UInt64}

theorem start_eq_ok {fresh : Session} (h : start overflow config board draftId freshSeed = .ok fresh) :
    ∃ settings scores, Settings.ofOptions? config.search freshSeed = some settings ∧
      board.positionalScores overflow config.draft.requirements config.draft.numTeams = .ok scores ∧
      fresh =
        { config, overflow, board, scores, settings
          schedule := .snake config.draft.numTeams config.draft.rounds
          state := .start config.draft.numTeams board.size
          database := none
          draftId
          unsaved := 0 } := by
  unfold start at h
  split at h
  · cases h
  · next schedule state scores hprepare =>
    obtain ⟨⟨-, rfl⟩, ⟨-, rfl⟩, hscores⟩ := prepare_eq_ok_iff.mp hprepare
    split at h
    · cases h
    · next settings hsettings =>
      exact ⟨settings, scores, hsettings, hscores, (Except.ok.inj h).symm⟩

/-- A league has sessions on every board or on none. -/
theorem exists_start_iff : (∃ s, start overflow config board draftId freshSeed = .ok s) ↔
    config.draft.InRange overflow ∧ (Settings.ofOptions? config.search freshSeed).isSome = true := by
  have hrange : (∃ prepared, prepare overflow config.draft board = .ok prepared) ↔ config.draft.InRange overflow :=
    exists_prepare_iff
  rw [← hrange, Option.isSome_iff_exists]
  unfold start
  cases prepare overflow config.draft board with
  | error fault => simp
  | ok prepared => cases Settings.ofOptions? config.search freshSeed <;> simp

end Start

/-- The kind of a selection. -/
def kindOf : Selection → PickKind
  | .drafted _ => .drafted
  | .benched _ => .benched
  | .passed => .passed

/-- A pick as it is reported. -/
def recordOf (s : Session) (p : Pick) : PickRecord :=
  let player := p.selection.player?.bind s.board.player?
  { number := p.turn.index
    round := p.turn.round
    team := p.turn.team
    kind := kindOf p.selection
    player := player.map (·.name)
    position := player.map (·.position) }

/-- All picks so far. -/
def history (s : Session) : List PickRecord :=
  s.state.picks.toList.map s.recordOf

end Session

end SnakeDraft
