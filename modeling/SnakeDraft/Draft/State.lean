import SnakeDraft.Draft.Basic

/-!
The state of a draft: the picks made so far, who is off the board, and every team's roster. All
changes go through `DraftState.record`, which checks one selection for one turn; undoing a pick and
restoring a history replay selections from the start.
-/

namespace SnakeDraft

/-- A draft in progress. The next pick is the one after the picks made. -/
structure DraftState where
  picks : Array Pick
  taken : TakenSet
  rosters : Array Roster
deriving DecidableEq, Repr

namespace DraftState

/-- The state before the first pick, made for a board with a number of players. -/
def start (numTeams boardSize : Nat) : DraftState :=
  ⟨#[], .withCapacity boardSize, Array.replicate numTeams .empty⟩

/-- The bytes of a roster, one for each slot. -/
def rosterBytes : Nat := 7

/-- The state before the first pick, of a program that takes room for all rosters first. -/
def build (numTeams boardSize : Nat) : Except MachineFault DraftState := do
  allocation numTeams rosterBytes
  return .start numTeams boardSize

theorem build_eq_ok_iff {numTeams boardSize : Nat} {s : DraftState} :
    build numTeams boardSize = .ok s ↔ numTeams * rosterBytes < signedSize ∧ s = start numTeams boardSize := by
  unfold build
  simp only [bind_eq_ok_iff, allocation_eq_ok_iff]
  constructor
  · rintro ⟨-, hroom, hsame⟩
    exact ⟨hroom, (Except.ok.inj hsame).symm⟩
  · rintro ⟨hroom, rfl⟩
    exact ⟨(), hroom, rfl⟩

/-- The index of the next pick. -/
def pointer (s : DraftState) : Nat :=
  s.picks.size

/-- The pick on the clock. -/
def onClock? (s : DraftState) (schedule : Schedule) : Option Turn :=
  schedule.turn? s.pointer

def isComplete (s : DraftState) (schedule : Schedule) : Bool :=
  schedule.size ≤ s.pointer

def roster? (s : DraftState) (team : Nat) : Option Roster :=
  s.rosters[team]?

/-- The points of the players that a team drafted, in pick order. -/
def draftedPoints (s : DraftState) (board : Board) (team : Nat) : List Float :=
  s.picks.toList.filterMap fun pick =>
    if pick.turn.team = team then
      match pick.selection with
      | .drafted id => (board.player? id).map (·.points)
      | _ => none
    else none

/-- The sum of numbers from left to right. The sum of none is negative zero, the neutral element of
floating-point addition. -/
def sumOf (points : List Float) : Float :=
  points.foldl (· + ·) (-0.0)

/-- The projected points of the players that a team drafted. -/
def teamPoints (s : DraftState) (board : Board) (team : Nat) : Float :=
  sumOf (s.draftedPoints board team)

/-- The player with this id, if on the board and not taken. -/
def claim (s : DraftState) (board : Board) (id : Nat) : Except PickError Player :=
  match board.player? id with
  | none => .error (.unknownPlayer s!"#{id}")
  | some player =>
    if s.taken.contains id then .error (.alreadyTaken player.name) else .ok player

/-- The state with one more pick, which takes the place of the turn in the history. -/
def push (s : DraftState) (turn : Turn) (selection : Selection) (slot : Option Position) :
    Pick × DraftState :=
  let pick : Pick := ⟨{ turn with index := s.pointer }, selection, slot⟩
  let taken := match selection.player? with
    | some id => s.taken.insert id
    | none => s.taken
  (pick, { s with picks := s.picks.push pick, taken })

/-- The state after a player fills a place for the team of a turn. -/
def draft (s : DraftState) (rules : Rules) (turn : Turn) (roster : Roster) (id : Nat)
    (player : Player) : Except PickError (Pick × DraftState) :=
  match roster.fill rules.requirements player.position with
  | none => .error (.noOpenSlot player.name player.position turn.team)
  | some (slot, filled) =>
    .ok (push { s with rosters := s.rosters.setIfInBounds turn.team filled } turn (.drafted id)
      (some slot))

/-- The state after a selection by the team of a turn, with the pick it adds. -/
def record (s : DraftState) (rules : Rules) (turn : Turn) (selection : Selection) :
    Except PickError (Pick × DraftState) :=
  match s.roster? turn.team with
  | none => .error (.unknownTeam turn.team rules.schedule.numTeams)
  | some roster =>
    match selection with
    | .passed => .ok (s.push turn .passed none)
    | .benched id =>
      match s.claim rules.board id with
      | .error e => .error e
      | .ok _ => .ok (s.push turn (.benched id) none)
    | .drafted id =>
      match s.claim rules.board id with
      | .error e => .error e
      | .ok player => s.draft rules turn roster id player

/-- The state after a selection by the team on the clock. -/
def select (s : DraftState) (rules : Rules) (selection : Selection) :
    Except PickError (Pick × DraftState) :=
  match s.onClock? rules.schedule with
  | none => .error .draftComplete
  | some turn => s.record rules turn selection

/-- The state after a choice of the team on the clock. -/
def apply (s : DraftState) (rules : Rules) (choice : Choice) :
    Except PickError (Pick × DraftState) :=
  s.select rules choice.selection

/-- The state after the team on the clock takes a player off the board without filling a place. -/
def bench (s : DraftState) (rules : Rules) (id : Nat) : Except PickError (Pick × DraftState) :=
  s.select rules (.benched id)

/-- The state without picks that has as many teams, made for a board with a number of players. -/
def cleared (s : DraftState) (boardSize : Nat) : DraftState :=
  start s.rosters.size boardSize

/-- The state after the selections of some picks, each by the team that made it, without those that
do not apply. -/
def replay (s : DraftState) (rules : Rules) (picks : List Pick) : DraftState :=
  picks.foldl
    (fun s pick =>
      match s.record rules pick.turn pick.selection with
      | .ok (_, next) => next
      | .error _ => s)
    s

/-- The last pick and the state without it, if there is a pick. -/
def undoLast (s : DraftState) (rules : Rules) : Option (Pick × DraftState) :=
  s.picks.back?.map fun last =>
    (last, (s.cleared rules.board.size).replay rules s.picks.pop.toList)

/-- The state after the selections of some picks, each by the team that made it, up to the first that
does not apply, and the error of that one. -/
def recordAll (s : DraftState) (rules : Rules) : List Pick → Option PickError × DraftState
  | [] => (none, s)
  | pick :: picks =>
    match s.record rules pick.turn pick.selection with
    | .error e => (some e, s)
    | .ok (_, next) => next.recordAll rules picks

/-- The state rebuilt from a history of picks, up to the first that does not apply. -/
def restore (s : DraftState) (rules : Rules) (picks : List Pick) : Option PickError × DraftState :=
  (s.cleared rules.board.size).recordAll rules picks

@[simp] theorem pointer_start (numTeams boardSize : Nat) : (start numTeams boardSize).pointer = 0 := rfl

@[simp] theorem pointer_push (s : DraftState) (turn : Turn) (selection : Selection)
    (slot : Option Position) : (s.push turn selection slot).2.pointer = s.pointer + 1 := by
  simp [push, pointer]

theorem pointer_of_push {s t : DraftState} {turn : Turn} {selection : Selection}
    {slot : Option Position} {pick : Pick} (h : s.push turn selection slot = (pick, t)) :
    t.pointer = s.pointer + 1 := by
  rw [← pointer_push s turn selection slot, h]

theorem pointer_of_record {s t : DraftState} {rules : Rules} {turn : Turn} {selection : Selection}
    {pick : Pick} (h : s.record rules turn selection = .ok (pick, t)) :
    t.pointer = s.pointer + 1 := by
  unfold record at h
  split at h
  · cases h
  · split at h
    · exact pointer_of_push (Except.ok.inj h)
    · split at h
      · cases h
      · exact pointer_of_push (Except.ok.inj h)
    · split at h
      · cases h
      · unfold draft at h
        split at h
        · cases h
        · have hpush := pointer_of_push (Except.ok.inj h)
          exact hpush

theorem pointer_of_apply {s t : DraftState} {rules : Rules} {choice : Choice} {pick : Pick}
    (h : s.apply rules choice = .ok (pick, t)) : t.pointer = s.pointer + 1 := by
  unfold apply select at h
  split at h
  · cases h
  · exact pointer_of_record h

theorem pointer_lt_of_apply {s t : DraftState} {rules : Rules} {choice : Choice} {pick : Pick}
    (h : s.apply rules choice = .ok (pick, t)) : s.pointer < rules.schedule.size := by
  unfold apply select onClock? Schedule.turn? at h
  unfold Schedule.size
  grind

end DraftState

end SnakeDraft
