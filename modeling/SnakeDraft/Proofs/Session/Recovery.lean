import SnakeDraft.Proofs.Session.Retention

/-!
Recovery of a draft. While every write succeeds the store holds the whole draft of its session
(`Session.Recorded`), which is to retain all of its picks. Every operation keeps this, and a session of the
same draft without picks is restored to the one that the store holds (`Session.Recorded.restore`).
-/

namespace SnakeDraft.Session

/-- What the store must hold of the picks of a session. -/
def storedPicks (s : Session) : List StoredPick :=
  s.history.map PickRecord.toStored

theorem storedPicks_eq (s : Session) :
    s.storedPicks = s.state.picks.toList.map fun pick => (s.recordOf pick).toStored := by
  rw [storedPicks, history, List.map_map]
  rfl

/-- The store of a session holds its whole draft: the picks in order, and the trades that lead from the
snake to the schedule. -/
structure Recorded (s : Session) (store : Store) : Prop where
  built : DraftState.Built s.board s.config.draft.requirements s.config.draft.numTeams s.state
  registered : store.Registered
  draft_mem : s.draftId ∈ store.drafts
  current : store.current = some (Json.quote s.draftId)
  rows : store.rowsOf s.draftId = s.storedPicks.map (PickRow.ofPick s.draftId)
  trades_nodup : ((store.tradesOf s.draftId).map (·.1)).Nodup
  schedule : (Schedule.snake s.config.draft.numTeams s.config.draft.rounds).applyTrades
    (store.tradesOf s.draftId) = s.schedule
  pointer_le : s.state.pointer ≤ s.schedule.size

section Recorded

variable {s : Session} {store : Store}

theorem Recorded.retains (h : s.Recorded store) : s.Retains store s.state.picks.toList := by
  refine ⟨h.built, .refl _, h.registered, h.draft_mem, h.current, ?_, h.trades_nodup, h.schedule,
    h.pointer_le⟩
  rw [h.rows, storedPicks_eq]

theorem Retains.recorded (h : s.Retains store s.state.picks.toList) : s.Recorded store := by
  refine ⟨h.built, h.registered, h.draft_mem, h.current, ?_, h.trades_nodup, h.schedule, h.pointer_le⟩
  rw [h.rows, storedPicks_eq]

theorem Recorded.recordAll_picks (h : s.Recorded store) :
    (DraftState.start s.config.draft.numTeams s.board.size).recordAll
      ⟨s.board, s.schedule, s.config.draft.requirements⟩
      (s.state.picks.toList.map fun pick => { pick with slot := none }) = (none, s.state) := by
  refine h.built.recordAll_picks s.schedule ?_
  rw [List.map_map]
  rfl

/-- A session of the same draft without picks becomes the one that the store holds. -/
theorem Recorded.restore (h : s.Recorded store)
    (hnames : DistinctNames s.board.players) (hfits : FitsStore s.config) {fresh : Session}
    (hconfig : fresh.config = s.config) (hboard : fresh.board = s.board)
    (hdraft : fresh.draftId = s.draftId)
    (hschedule : fresh.schedule = .snake s.config.draft.numTeams s.config.draft.rounds)
    (hstate : fresh.state = .start s.config.draft.numTeams fresh.board.size) :
    fresh.restore store = .ok { fresh with schedule := s.schedule, state := s.state } :=
  h.retains.restore hnames hfits h.recordAll_picks hconfig hboard hdraft hschedule hstate

theorem Recorded.pick (h : s.Recorded store) {selection : Selection} {p : Pick} {state : DraftState}
    (hselect : s.state.select s.rules selection = .ok (p, state)) :
    Recorded { s with state } (store.savePick s.draftId (s.recordOf p).toStored) := by
  obtain ⟨turn, -, hrecord⟩ := DraftState.record_of_select hselect
  obtain ⟨slot, -, -, hhistory, -⟩ := DraftState.places_of_record hrecord
  have hretains := h.retains.pick hselect
  rw [← Array.toList_push, ← hhistory] at hretains
  exact hretains.recorded

theorem Recorded.undo (h : s.Recorded store) {last : Pick} {state : DraftState}
    (hundo : s.state.undoLast s.rules = some (last, state)) :
    Recorded { s with state } (store.removePick s.draftId last.turn.index).2 := by
  have hretains := h.retains.undo hundo
  rw [h.built.filter_of_undoLast hundo] at hretains
  exact hretains.recorded

theorem Recorded.givePick (h : s.Recorded store) {index team owner : Nat} {schedule : Schedule}
    (hreassign : s.schedule.reassign index team = some (owner, schedule)) :
    Recorded { s with schedule } (store.saveTrade s.draftId index team) :=
  (h.retains.givePick hreassign).recorded

/-- A store records a draft that it has just started. -/
theorem recorded_newDraft (hstore : store.Registered)
    (hnew : s.draftId ∉ store.drafts)
    (hschedule : s.schedule = .snake s.config.draft.numTeams s.config.draft.rounds)
    (hstate : s.state = .start s.config.draft.numTeams s.board.size) :
    ∃ next, store.newDraft s.draftId = .ok next ∧ next.drafts = store.drafts ++ [s.draftId] ∧
      s.Recorded next := by
  obtain ⟨next, hnext, hdrafts, hretains⟩ := retains_newDraft hstore hnew hschedule hstate
  have hnone : s.state.picks.toList = [] := by
    rw [hstate]
    rfl
  rw [← hnone] at hretains
  exact ⟨next, hnext, hdrafts, hretains.recorded⟩

end Recorded

end SnakeDraft.Session
