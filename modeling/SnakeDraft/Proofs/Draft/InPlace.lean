import SnakeDraft.Proofs.Draft.Recording

/-!
Recording in place. A draft that is changed where it stands is written to in three places, one after the
other, with five ways to stop on the way, and what is written when a program stops stays written.
`DraftState.selectInPlace` is the selection as such a program. It never stops after it has written
(`DraftState.runOn_selectInPlace`), so it leaves behind what `DraftState.select` returns, and the state as it
was when that returns an error.
-/

namespace SnakeDraft

/-- Programs that change a draft in place and can stop with a refusal, which undoes nothing. -/
abbrev InPlace : Type → Type :=
  ExceptT PickError (StateM DraftState)

namespace InPlace

variable {α β : Type} {program : InPlace α} {rest : α → InPlace β} {s t : DraftState}

/-- What a program gives and what it leaves behind. -/
def runOn (program : InPlace α) (s : DraftState) : Except PickError α × DraftState :=
  (program.run.run s).run

theorem runOn_get (s : DraftState) : (get : InPlace DraftState).runOn s = (.ok s, s) := rfl

theorem run_bind (program : InPlace α) (rest : α → InPlace β) :
    (program >>= rest).run = program.run >>= ExceptT.bindCont rest := rfl

theorem runOn_bind_of_ok {a : α} (h : program.runOn s = (.ok a, t)) :
    (program >>= rest).runOn s = (rest a).runOn t := by
  have hrun : program.run.run s = (.ok a, t) := h
  rw [runOn, run_bind, StateT.run_bind, hrun]
  rfl

theorem runOn_bind_of_error {e : PickError} (h : program.runOn s = (.error e, t)) :
    (program >>= rest).runOn s = (.error e, t) := by
  have hrun : program.run.run s = (.error e, t) := h
  rw [runOn, run_bind, StateT.run_bind, hrun]
  rfl

end InPlace

namespace DraftState

/-- Looks up a player who must be on the board and free. -/
def claimInPlace (board : Board) (id : Nat) : InPlace Player := do
  match board.player? id with
  | none => throw (.unknownPlayer s!"#{id}")
  | some player =>
    let s ← get
    if s.taken.contains id then throw (.alreadyTaken player.name) else return player

/-- Fills a place of a team's roster, if one is open, and gives its slot. -/
def fillInPlace (reqs : Requirements) (team : Nat) (roster : Roster) (player : Player) :
    InPlace Position := do
  match roster.fill reqs player.position with
  | none => throw (.noOpenSlot player.name player.position team)
  | some (slot, filled) =>
    modify fun s => { s with rosters := s.rosters.setIfInBounds team filled }
    return slot

/-- Takes a player off the board. -/
def takeInPlace (id : Nat) : InPlace Unit :=
  modify fun s => { s with taken := s.taken.insert id }

/-- Finds the place of a selection. The roster of the team is written before the player is taken. -/
def placeInPlace (rules : Rules) (turn : Turn) (roster : Roster) : Selection → InPlace (Option Position)
  | .passed => return none
  | .benched id => do
    let _ ← claimInPlace rules.board id
    takeInPlace id
    return none
  | .drafted id => do
    let player ← claimInPlace rules.board id
    let slot ← fillInPlace rules.requirements turn.team roster player
    takeInPlace id
    return some slot

/-- Adds a pick to the history. -/
def pushInPlace (turn : Turn) (selection : Selection) (slot : Option Position) : InPlace Pick := do
  let s ← get
  let pick : Pick := ⟨{ turn with index := s.pointer }, selection, slot⟩
  set { s with picks := s.picks.push pick }
  return pick

/-- Records a selection for a turn. -/
def recordInPlace (rules : Rules) (turn : Turn) (selection : Selection) : InPlace Pick := do
  let s ← get
  match s.roster? turn.team with
  | none => throw (.unknownTeam turn.team rules.schedule.numTeams)
  | some roster =>
    let slot ← placeInPlace rules turn roster selection
    pushInPlace turn selection slot

/-- Records a selection by the team on the clock. -/
def selectInPlace (rules : Rules) (selection : Selection) : InPlace Pick := do
  let s ← get
  match s.onClock? rules.schedule with
  | none => throw .draftComplete
  | some turn => recordInPlace rules turn selection

def applyInPlace (rules : Rules) (choice : Choice) : InPlace Pick :=
  selectInPlace rules choice.selection

def benchInPlace (rules : Rules) (id : Nat) : InPlace Pick :=
  selectInPlace rules (.benched id)

/-- What should be left behind of a state by what a recording returns: the state that it returns, or else the
state as it was. -/
def settled (s : DraftState) :
    Except PickError (Pick × DraftState) → Except PickError Pick × DraftState
  | .ok (pick, t) => (.ok pick, t)
  | .error e => (.error e, s)

section Runs

variable (s : DraftState) (rules : Rules) (turn : Turn) (roster : Roster)

theorem runOn_claimInPlace (board : Board) (id : Nat) :
    (claimInPlace board id).runOn s = (s.claim board id, s) := by
  unfold claimInPlace claim
  cases board.player? id with
  | none => rfl
  | some player =>
    rw [InPlace.runOn_bind_of_ok (InPlace.runOn_get s)]
    cases s.taken.contains id <;> rfl

theorem runOn_placeInPlace_of_error {selection : Selection} {id : Nat} {e : PickError}
    (hid : selection.player? = some id) (hclaim : s.claim rules.board id = .error e) :
    (placeInPlace rules turn roster selection).runOn s = (.error e, s) := by
  have hrun := runOn_claimInPlace s rules.board id
  rw [hclaim] at hrun
  cases selection with
  | passed => cases hid
  | benched id =>
    cases hid
    exact InPlace.runOn_bind_of_error hrun
  | drafted id =>
    cases hid
    exact InPlace.runOn_bind_of_error hrun

theorem runOn_placeInPlace_benched {id : Nat} {player : Player}
    (hclaim : s.claim rules.board id = .ok player) :
    (placeInPlace rules turn roster (.benched id)).runOn s =
      (.ok none, { s with taken := s.taken.insert id }) := by
  have hrun := runOn_claimInPlace s rules.board id
  rw [hclaim] at hrun
  exact InPlace.runOn_bind_of_ok hrun

theorem runOn_placeInPlace_drafted {id : Nat} {player : Player}
    (hclaim : s.claim rules.board id = .ok player) :
    (placeInPlace rules turn roster (.drafted id)).runOn s =
      match roster.fill rules.requirements player.position with
      | none => (.error (.noOpenSlot player.name player.position turn.team), s)
      | some (slot, filled) =>
        (.ok (some slot), { s with
          taken := s.taken.insert id, rosters := s.rosters.setIfInBounds turn.team filled }) := by
  have hrun := runOn_claimInPlace s rules.board id
  rw [hclaim] at hrun
  refine (InPlace.runOn_bind_of_ok hrun).trans ?_
  unfold fillInPlace
  cases roster.fill rules.requirements player.position <;> rfl

theorem runOn_recordInPlace (selection : Selection) :
    (recordInPlace rules turn selection).runOn s = s.settled (s.record rules turn selection) := by
  unfold recordInPlace record
  rw [InPlace.runOn_bind_of_ok (InPlace.runOn_get s)]
  cases s.roster? turn.team with
  | none => rfl
  | some roster =>
    show (placeInPlace rules turn roster selection >>= pushInPlace turn selection).runOn s = _
    cases selection with
    | passed => rfl
    | benched id =>
      cases hclaim : s.claim rules.board id with
      | error e =>
        rw [InPlace.runOn_bind_of_error (runOn_placeInPlace_of_error s rules turn roster rfl hclaim)]
        simp only [hclaim, settled]
      | ok player =>
        rw [InPlace.runOn_bind_of_ok (runOn_placeInPlace_benched s rules turn roster hclaim)]
        simp only [hclaim, settled]
        rfl
    | drafted id =>
      cases hclaim : s.claim rules.board id with
      | error e =>
        rw [InPlace.runOn_bind_of_error (runOn_placeInPlace_of_error s rules turn roster rfl hclaim)]
        simp only [hclaim, settled]
      | ok player =>
        have hplace := runOn_placeInPlace_drafted s rules turn roster hclaim
        simp only [hclaim, draft]
        cases hfill : roster.fill rules.requirements player.position with
        | none =>
          rw [hfill] at hplace
          exact InPlace.runOn_bind_of_error hplace
        | some filled =>
          rw [hfill] at hplace
          exact InPlace.runOn_bind_of_ok hplace

theorem runOn_selectInPlace (selection : Selection) :
    (selectInPlace rules selection).runOn s = s.settled (s.select rules selection) := by
  unfold selectInPlace select
  rw [InPlace.runOn_bind_of_ok (InPlace.runOn_get s)]
  cases s.onClock? rules.schedule with
  | none => rfl
  | some turn => exact runOn_recordInPlace s rules turn selection

end Runs

end DraftState

end SnakeDraft
