import SnakeDraft.Session.Basic

/-!
The operations of a draft session. Each gives its result and the session after it, also when it fails,
because a failed write comes after the change in memory. A pick that cannot be stored is counted, and
the draft carries on without it.
-/

namespace SnakeDraft.Session

/-- The session with a pick written through to its database. -/
def persist (s : Session) (p : Pick) : Session :=
  match s.database with
  | none => s
  | some db =>
    match db.savePick s.draftId (s.recordOf p).toStored with
    | (.ok (), db) => { s with database := some db }
    | (.error _, db) => { s with database := some db, unsaved := s.unsaved + 1 }

/-- Writing a pick through leaves the draft in memory as it is. -/
theorem persist_eq (s : Session) (p : Pick) : ∃ database unsaved, s.persist p = { s with database, unsaved } := by
  unfold persist
  split
  · exact ⟨s.database, s.unsaved, rfl⟩
  · split
    · exact ⟨_, s.unsaved, rfl⟩
    · exact ⟨_, s.unsaved + 1, rfl⟩

@[simp] theorem schedule_persist (s : Session) (p : Pick) : (s.persist p).schedule = s.schedule := by
  obtain ⟨database, unsaved, hpersist⟩ := s.persist_eq p
  rw [hpersist]

@[simp] theorem state_persist (s : Session) (p : Pick) : (s.persist p).state = s.state := by
  obtain ⟨database, unsaved, hpersist⟩ := s.persist_eq p
  rw [hpersist]

/-- The session after a selection by the team on the clock. -/
def commitPick (s : Session) (selection : Selection) : Except SessionError PickRecord × Session :=
  match s.state.select s.rules selection with
  | .error e => (.error (.pick e), s)
  | .ok (p, state) => (.ok (s.recordOf p), { s with state }.persist p)

theorem of_commitPick {s t : Session} {selection : Selection} {r : PickRecord}
    (h : s.commitPick selection = (.ok r, t)) :
    ∃ p state, s.state.select s.rules selection = .ok (p, state) ∧ r = s.recordOf p ∧
      t = { s with state }.persist p := by
  unfold commitPick at h
  split at h
  · cases h
  · next p state hselect =>
    cases h
    exact ⟨p, state, hselect, rfl, rfl⟩

/-- Drafts the player of a name for the team on the clock. -/
def makePick (s : Session) (name : String) : Except SessionError PickRecord × Session :=
  match s.board.find? name with
  | none => (.error (.pick (.unknownPlayer name)), s)
  | some id => s.commitPick (.drafted id)

/-- Takes the player of a name off the board for the team on the clock. -/
def bench (s : Session) (name : String) : Except SessionError PickRecord × Session :=
  match s.board.find? name with
  | none => (.error (.pick (.unknownPlayer name)), s)
  | some id => s.commitPick (.benched id)

/-- Searches for the best choice of the team on the clock. -/
def think (s : Session) (clock : Clock) : Except SessionError SearchResult :=
  let policy := Policy.ofKind s.scores s.config.search.rollout
  (search s.rules s.state s.settings policy .ofSeed clock).mapError .search

/-- Makes the pick on the clock by a search. -/
def autoPick (s : Session) (clock : Clock) : Except SessionError PickRecord × Session :=
  match s.think clock with
  | .error e => (.error e, s)
  | .ok result => s.commitPick result.choice.selection

/-- An automatic pick leaves fewer picks to make. -/
theorem remaining_lt_of_autoPick {s t : Session} {clock : Clock} {r : PickRecord}
    (h : s.autoPick clock = (.ok r, t)) :
    t.schedule.size - t.state.pointer < s.schedule.size - s.state.pointer := by
  unfold autoPick at h
  split at h
  · cases h
  · obtain ⟨p, state, hselect, -, rfl⟩ := of_commitPick h
    have hpointer := DraftState.pointer_of_apply hselect
    have hlt : s.state.pointer < s.schedule.size := DraftState.pointer_lt_of_apply hselect
    rw [schedule_persist, state_persist]
    show s.schedule.size - state.pointer < _
    omega

/-- Makes every remaining pick by searches, each with the clock at that pick. -/
def simulateDraft (s : Session) (clockAt : Nat → Clock) : Except SessionError (List PickRecord) × Session :=
  if s.isComplete then (.ok [], s)
  else
    match _h : s.autoPick (clockAt s.state.pointer) with
    | (.error e, t) => (.error e, t)
    | (.ok r, t) =>
      match t.simulateDraft clockAt with
      | (.error e, t) => (.error e, t)
      | (.ok rs, t) => (.ok (r :: rs), t)
termination_by s.schedule.size - s.state.pointer
decreasing_by exact remaining_lt_of_autoPick _h

/-- Removes the last pick, if there is one. -/
def undo (s : Session) : Except SessionError (Option PickRecord) × Session :=
  match s.state.undoLast s.rules with
  | none => (.ok none, s)
  | some (p, state) =>
    let s := { s with state }
    match s.database with
    | none => (.ok (some (s.recordOf p)), s)
    | some db =>
      match db.removePick s.draftId p.turn.index with
      | (.error e, db) => (.error (.store e), { s with database := some db })
      | (.ok _, db) => (.ok (some (s.recordOf p)), { s with database := some db })

/-- Whether a pick has not been made yet and can change hands. -/
def isTradable (s : Session) (index : Nat) : Bool :=
  s.state.pointer ≤ index && index < s.schedule.size

/-- Gives a pick that has not been made to a team. -/
def givePick (s : Session) (index team : Nat) : Except SessionError Unit × Session :=
  if !s.isTradable index then
    (.error (.pick (.notTradable index s.state.pointer s.schedule.size)), s)
  else
    match s.schedule.reassign index team with
    | none => (.error (.pick (.unknownTeam team s.schedule.numTeams)), s)
    | some (_, schedule) =>
      let s := { s with schedule }
      match s.database with
      | none => (.ok (), s)
      | some db =>
        match db.saveTrade s.draftId index team with
        | (.error e, db) => (.error (.store e), { s with database := some db })
        | (.ok (), db) => (.ok (), { s with database := some db })

/-- Starts a new draft under a fresh id. Earlier drafts stay in the database. -/
def reset (s : Session) (freshId : String) : Except SessionError Unit × Session :=
  let s :=
    { s with
      schedule := .snake s.config.draft.numTeams s.config.draft.rounds
      state := .start s.config.draft.numTeams s.board.size }
  match s.database with
  | none => (.ok (), { s with draftId := freshId, unsaved := 0 })
  | some db =>
    match db.newDraft freshId with
    | (.error e, db) => (.error (.store e), { s with database := some db })
    | (.ok (), db) =>
      (.ok (), { s with database := some db, draftId := freshId, unsaved := 0 })

end SnakeDraft.Session
