import SnakeDraft.Proofs.Search.Legality
import SnakeDraft.Proofs.Session.Reopening

/-!
What a session can come to. All that an operation does to the draft in memory is listed once
(`Session.Moves`), whatever becomes of its write, and so is all that a store can bring in
(`Session.of_restore`). A session that operations, databases and settings of any kind have led to therefore
has a state that was built pick by pick and a schedule that differs from the snake in its owners alone
(`Session.Reached.sound`).
-/

namespace SnakeDraft.Session

/-- What an operation does to the schedule and the state of a session. -/
inductive Moves (s : Session) : Schedule → DraftState → Prop where
  | stay : Moves s s.schedule s.state
  | pick {selection : Selection} {p : Pick} {state : DraftState}
      (hselect : s.state.select s.rules selection = .ok (p, state)) : Moves s s.schedule state
  | undo {last : Pick} {state : DraftState} (hundo : s.state.undoLast s.rules = some (last, state)) :
      Moves s s.schedule state
  | trade {index team owner : Nat} {schedule : Schedule} (htradable : s.isTradable index = true)
      (hreassign : s.schedule.reassign index team = some (owner, schedule)) :
      Moves s schedule s.state
  | reset :
      Moves s (.snake s.config.draft.numTeams s.config.draft.rounds) (.start s.config.draft.numTeams s.board.size)

/-- A session is another one after an operation, as far as the draft in memory goes. -/
structure Moved (s t : Session) : Prop where
  config : t.config = s.config
  board : t.board = s.board
  draft : s.Moves t.schedule t.state

section Moved

variable (s : Session)

theorem moved_commitPick (selection : Selection) : s.Moved (s.commitPick selection).2 := by
  unfold commitPick
  split
  · exact ⟨rfl, rfl, .stay⟩
  · next p state hselect =>
    obtain ⟨database, unsaved, hpersist⟩ := persist_eq { s with state } p
    simp only [hpersist]
    exact ⟨rfl, rfl, .pick hselect⟩

theorem moved_undo : s.Moved s.undo.2 := by
  unfold undo
  split
  · exact ⟨rfl, rfl, .stay⟩
  · next last state hundo =>
    cases s.database with
    | none => exact ⟨rfl, rfl, .undo hundo⟩
    | some db =>
      simp only
      split <;> exact ⟨rfl, rfl, .undo hundo⟩

theorem moved_givePick (index team : Nat) : s.Moved (s.givePick index team).2 := by
  unfold givePick
  split
  · exact ⟨rfl, rfl, .stay⟩
  · next hrefused =>
    have htradable : s.isTradable index = true := by simpa using hrefused
    split
    · exact ⟨rfl, rfl, .stay⟩
    · next owner schedule hreassign =>
      cases s.database with
      | none => exact ⟨rfl, rfl, .trade htradable hreassign⟩
      | some db =>
        simp only
        split <;> exact ⟨rfl, rfl, .trade htradable hreassign⟩

theorem moved_reset (freshId : String) : s.Moved (s.reset freshId).2 := by
  unfold reset
  cases s.database with
  | none => exact ⟨rfl, rfl, .reset⟩
  | some db =>
    simp only
    split <;> exact ⟨rfl, rfl, .reset⟩

theorem moved_perform (op : Operation) : s.Moved (s.perform op).2 := by
  have hchoice : ∀ choice, s.choice? op = some choice → s.Moved (s.perform op).2 := by
    intro choice hchoice
    rw [perform_of_choice hchoice]
    cases choice with
    | error e => exact ⟨rfl, rfl, .stay⟩
    | ok selection => exact s.moved_commitPick selection
  cases op with
  | makePick name => exact hchoice _ rfl
  | bench name => exact hchoice _ rfl
  | autoPick clock => exact hchoice _ rfl
  | undo => exact s.moved_undo
  | givePick index team => exact s.moved_givePick index team
  | reset freshId => exact s.moved_reset freshId

end Moved

section Restoring

variable {s t : Session}

/-- Attaching restores the draft that is adopted; the picks and trades of the store stay what they are. -/
theorem of_attach {db : Database} {freshId : String} (h : s.attach db freshId = .ok t) :
    ∃ (draftId : String) (after : Database), after.store.picks = db.store.picks ∧
      after.store.trades = db.store.trades ∧
      restore { s with draftId, database := some after } after.store = .ok t := by
  unfold attach at h
  split at h
  · cases h
  · next draftId _ => exact ⟨draftId, db, rfl, rfl, h⟩
  · rcases db.newDraft_cases freshId with ⟨e, hfail⟩ | ⟨store, hnew, hok⟩
    · simp [hfail] at h
    · simp only [hok] at h
      obtain ⟨hpicks, htrades⟩ := Store.rows_of_newDraft hnew
      exact ⟨freshId, db.written store, hpicks, htrades, h⟩

end Restoring

/-- The state of a session was built pick by pick, and its schedule has kept its numbers, rounds and teams. -/
structure Sound (s : Session) : Prop where
  built : DraftState.Built s.board s.config.draft.requirements s.config.draft.numTeams s.state
  regular : s.schedule.Regular
  numTeams : s.schedule.numTeams = s.config.draft.numTeams

section Sound

variable {s t : Session}

theorem sound_start {overflow : Overflow} {config : Config} {board : Board} {draftId : String} {freshSeed : UInt64}
    (h : start overflow config board draftId freshSeed = .ok s) : s.Sound := by
  obtain ⟨settings, scores, -, -, rfl⟩ := start_eq_ok h
  exact ⟨.start, Schedule.regular_snake _ _, rfl⟩

theorem Sound.moves (h : s.Sound) {schedule : Schedule} {state : DraftState}
    (hmoves : s.Moves schedule state) : Sound { s with schedule, state } := by
  cases hmoves with
  | stay => exact h
  | pick hselect => exact ⟨h.built.select hselect, h.regular, h.numTeams⟩
  | undo hundo => exact ⟨h.built.undoLast hundo, h.regular, h.numTeams⟩
  | trade _ hreassign =>
    rw [← Schedule.trade_of_reassign hreassign]
    exact ⟨h.built, h.regular.trade _ _, (Schedule.numTeams_trade _ _ _).trans h.numTeams⟩
  | reset => exact ⟨.start, Schedule.regular_snake _ _, rfl⟩

theorem Sound.moved (h : s.Sound) (hmoved : s.Moved t) : t.Sound := by
  obtain ⟨hbuilt, hregular, hteams⟩ := h.moves hmoved.draft
  rw [← hmoved.config] at hbuilt hteams
  rw [← hmoved.board] at hbuilt
  exact ⟨hbuilt, hregular, hteams⟩

theorem Sound.attach (h : s.Sound) {db : Database} {freshId : String}
    (hattach : s.attach db freshId = .ok t) : t.Sound := by
  obtain ⟨draftId, after, -, -, hrestore⟩ := of_attach hattach
  obtain ⟨state, rfl, hstate⟩ := of_restore hrestore
  refine ⟨?_, h.regular.applyTrades _, (Schedule.numTeams_applyTrades _ _).trans h.numTeams⟩
  rcases hstate with ⟨-, rfl⟩ | ⟨-, schedule, picks, hpicks⟩
  · exact h.built
  · exact h.built.cleared.of_recordAll hpicks

/-- Every team of the schedule has a roster. -/
theorem Sound.seats (h : s.Sound) : s.state.Seats s.rules.schedule := by
  intro turn hturn
  obtain ⟨i, hi⟩ := Array.mem_iff_getElem?.mp hturn
  obtain ⟨-, -, hteam⟩ := h.regular i turn hi
  rw [h.built.size_rosters, ← h.numTeams]
  exact hteam

end Sound

/-- Sessions that can be reached: opened on any store, at any time and again and again, and led on by
operations. At any time its database may be another one, whose content and failures are whatever they are,
and so may its settings. -/
inductive Reached : Session → Prop where
  | start {overflow : Overflow} {config : Config} {board : Board} {draftId : String} {freshSeed : UInt64}
      {s : Session} (h : start overflow config board draftId freshSeed = .ok s) : Reached s
  | attach {s t : Session} {db : Database} {freshId : String} (hs : Reached s)
      (h : s.attach db freshId = .ok t) : Reached t
  | perform {s : Session} (hs : Reached s) (op : Operation) : Reached (s.perform op).2
  | withDatabase {s : Session} (hs : Reached s) (database : Option Database) :
      Reached { s with database }
  | withSettings {s : Session} (hs : Reached s) (settings : Settings) : Reached { s with settings }

theorem Reached.sound {s : Session} (h : s.Reached) : s.Sound := by
  induction h with
  | start h => exact sound_start h
  | attach _ hattach ih => exact ih.attach hattach
  | @perform s _ op ih => exact ih.moved (s.moved_perform op)
  | withDatabase _ _ ih => exact ⟨ih.built, ih.regular, ih.numTeams⟩
  | withSettings _ _ ih => exact ⟨ih.built, ih.regular, ih.numTeams⟩

theorem board_performAll (s : Session) (ops : List Operation) : (s.performAll ops).2.board = s.board := by
  induction ops generalizing s with
  | nil => rfl
  | cons op ops ih => exact (ih (s.perform op).2).trans (s.moved_perform op).board

theorem Reached.performAll {s : Session} (hs : s.Reached) (ops : List Operation) : (s.performAll ops).2.Reached := by
  induction ops generalizing s with
  | nil => exact hs
  | cons op ops ih => exact ih (hs.perform op)

end SnakeDraft.Session
