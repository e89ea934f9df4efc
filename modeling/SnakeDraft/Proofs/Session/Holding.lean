import SnakeDraft.Proofs.Board.Names
import SnakeDraft.Proofs.Draft.Coherence
import SnakeDraft.Proofs.Draft.Replaying
import SnakeDraft.Proofs.Session.Operations
import SnakeDraft.Proofs.Store.Rows
import SnakeDraft.Proofs.Store.Writes

/-!
What a store holds of the draft of a session: some stored picks, each in one row under its own number, and all of its
trades (`Session.Holds`). Operations keep this, whether a pick is stored or lost. Restoring a session from the store
is to read these picks on the board of that session and to replay them (`Session.Holds.restore_eq_ok_iff`).
-/

namespace SnakeDraft.Session

/-- The pick numbers of a league stay below half of what 64 bits hold, so that they are stored in order. -/
def FitsStore (config : Config) : Prop :=
  config.draft.numTeams * config.draft.rounds ≤ UInt64.size / 2

/-- The store of a session has a row for each of these stored picks, which are in order and were all made, and no
other row of its draft. Its trades lead from the snake to the schedule. -/
structure Holds (s : Session) (store : Store) (stored : List StoredPick) : Prop where
  built : DraftState.Built s.board s.config.draft.requirements s.config.draft.numTeams s.state
  registered : store.Registered
  draft_mem : s.draftId ∈ store.drafts
  current : store.current = some (Json.quote s.draftId)
  rows : store.rowsOf s.draftId = stored.map (PickRow.ofPick s.draftId)
  sorted : stored.Pairwise fun p q => p.number < q.number
  number_lt : ∀ p ∈ stored, p.number < s.state.pointer
  trades_nodup : ((store.tradesOf s.draftId).map (·.1)).Nodup
  schedule : (Schedule.snake s.config.draft.numTeams s.config.draft.rounds).applyTrades
    (store.tradesOf s.draftId) = s.schedule
  pointer_le : s.state.pointer ≤ s.schedule.size

section Holds

variable {s : Session} {store : Store} {stored : List StoredPick}

theorem Holds.size_schedule (h : s.Holds store stored) :
    s.schedule.size = s.config.draft.numTeams * s.config.draft.rounds := by
  rw [← h.schedule, Schedule.size_applyTrades, Schedule.size_snake]

theorem Holds.currentDraft (h : s.Holds store stored) : store.currentDraft = .ok (some s.draftId) := by
  unfold Store.currentDraft
  rw [h.current]
  simp

theorem Holds.picksOf (h : s.Holds store stored) (hfits : FitsStore s.config) :
    store.picksOf s.draftId = .ok stored := by
  refine Store.picksOf_of_rowsOf h.rows h.sorted ?_
  intro p hp
  have hlt := h.number_lt p hp
  have hpointer := h.pointer_le
  have hsize := h.size_schedule
  unfold FitsStore at hfits
  omega

/-- A session of the same draft without picks is restored by reading the stored picks on its own board. -/
theorem Holds.restore_eq_ok_iff (h : s.Holds store stored) (hfits : FitsStore s.config) {fresh t : Session}
    (hconfig : fresh.config = s.config) (hdraft : fresh.draftId = s.draftId)
    (hschedule : fresh.schedule = .snake s.config.draft.numTeams s.config.draft.rounds)
    (hstate : fresh.state = .start s.config.draft.numTeams fresh.board.size) :
    fresh.restore store = .ok t ↔
      ∃ picks state, picksOfStored fresh.board stored = .ok picks ∧
        (DraftState.start s.config.draft.numTeams fresh.board.size).recordAll
          ⟨fresh.board, s.schedule, s.config.draft.requirements⟩ picks = (none, state) ∧
        t = { fresh with schedule := s.schedule, state } := by
  have hpicks := h.picksOf hfits
  unfold Session.restore
  simp only [hdraft, hschedule, h.schedule, hpicks]
  cases stored with
  | nil => simp [picksOfStored, DraftState.recordAll, ← hstate, eq_comm]
  | cons first rest =>
    simp only [rules, hconfig, hstate, DraftState.restore, DraftState.cleared_start]
    cases hread : picksOfStored fresh.board (first :: rest) with
    | error e => simp
    | ok picks =>
      rcases hreplay : (DraftState.start s.config.draft.numTeams fresh.board.size).recordAll
        ⟨fresh.board, s.schedule, s.config.draft.requirements⟩ picks with ⟨error, state⟩
      cases error <;> simp [hreplay, eq_comm]

theorem Holds.withHandle (h : s.Holds store stored) (database : Option Database) :
    Holds { s with database } store stored :=
  { h with }

/-- A pick that is made and lost. -/
theorem Holds.lose (h : s.Holds store stored) {selection : Selection} {p : Pick} {state : DraftState}
    (hselect : s.state.select s.rules selection = .ok (p, state)) :
    Holds { s with state } store stored := by
  obtain ⟨turn, hturn, hrecord⟩ := DraftState.record_of_select hselect
  have hpointer := DraftState.pointer_of_record hrecord
  have hlt : s.state.pointer < s.schedule.size := (Array.getElem?_eq_some_iff.mp hturn).1
  have hbuilt := h.built.select hselect
  refine { h with built := hbuilt, number_lt := ?_, pointer_le := ?_ }
  · intro p hp
    exact (h.number_lt p hp).trans (by simp [hpointer])
  · simp only [hpointer]
    omega

/-- A pick that is made and stored. -/
theorem Holds.pick (h : s.Holds store stored) {selection : Selection} {p : Pick} {state : DraftState}
    (hselect : s.state.select s.rules selection = .ok (p, state)) :
    Holds { s with state } (store.savePick s.draftId (s.recordOf p).toStored)
      (stored ++ [(s.recordOf p).toStored]) := by
  have hlost := h.lose hselect
  obtain ⟨turn, -, hrecord⟩ := DraftState.record_of_select hselect
  obtain ⟨slot, -, hpick, -⟩ := DraftState.places_of_record hrecord
  have hnumber : (s.recordOf p).toStored.number = s.state.pointer := by
    rw [hpick]
    rfl
  -- the stored picks have smaller numbers, so the row is not taken for one that is there already
  have hnew : ∀ row ∈ store.rowsOf s.draftId, row.number ≠ (s.recordOf p).toStored.number := by
    intro row hrow
    rw [h.rows] at hrow
    obtain ⟨q, hq, rfl⟩ := List.mem_map.mp hrow
    rw [hnumber]
    exact Nat.ne_of_lt (h.number_lt q hq)
  constructor
  case built => exact hlost.built
  case registered => exact h.registered.savePick h.draft_mem _
  case draft_mem => simpa using h.draft_mem
  case current => simpa using h.current
  case rows =>
    rw [Store.rowsOf_savePick hnew, h.rows, List.map_append]
    rfl
  case sorted =>
    rw [List.pairwise_append]
    refine ⟨h.sorted, List.pairwise_singleton _ _, ?_⟩
    intro q hq other hother
    rw [List.mem_singleton.mp hother, hnumber]
    exact h.number_lt q hq
  case number_lt =>
    intro q hq
    rcases List.mem_append.mp hq with hold | hlast
    · exact hlost.number_lt q hold
    · rw [List.mem_singleton.mp hlast, hnumber, DraftState.pointer_of_record hrecord]
      exact Nat.lt_succ_self _
  case trades_nodup => simpa [Store.tradesOf] using h.trades_nodup
  case schedule => simpa [Store.tradesOf] using h.schedule
  case pointer_le => exact hlost.pointer_le

/-- The last pick taken back, whether it was stored or not. -/
theorem Holds.undo (h : s.Holds store stored) {last : Pick} {state : DraftState}
    (hundo : s.state.undoLast s.rules = some (last, state)) :
    Holds { s with state } (store.removePick s.draftId last.turn.index).2
      (stored.filter fun p => p.number ≠ last.turn.index) := by
  obtain ⟨hbuilt, hhistory⟩ := h.built.before_undoLast hundo
  have hpointer : s.state.pointer = state.pointer + 1 := by
    unfold DraftState.pointer
    rw [hhistory, Array.size_push]
  have hlast : last.turn.index = state.pointer := by
    apply h.built.coherent.index_eq
    rw [hhistory]
    exact Array.getElem?_push_size
  constructor
  case built => exact hbuilt
  case registered => exact h.registered.removePick _ _
  case draft_mem => exact h.draft_mem
  case current => exact h.current
  case rows =>
    rw [Store.rowsOf_removePick, h.rows, List.filter_map]
    rfl
  case sorted => exact h.sorted.filter _
  case number_lt =>
    intro p hp
    obtain ⟨hmem, hne⟩ := List.mem_filter.mp hp
    have hlt := h.number_lt p hmem
    have hne' := of_decide_eq_true hne
    have hremains : p.number < state.pointer := by omega
    exact hremains
  case trades_nodup => exact h.trades_nodup
  case schedule => exact h.schedule
  case pointer_le =>
    have hle := h.pointer_le
    have hremains : state.pointer ≤ s.schedule.size := by omega
    exact hremains

theorem Holds.givePick (h : s.Holds store stored) {index team owner : Nat} {schedule : Schedule}
    (hreassign : s.schedule.reassign index team = some (owner, schedule)) :
    Holds { s with schedule } (store.saveTrade s.draftId index team) stored := by
  have hteam : team < (Schedule.snake s.config.draft.numTeams s.config.draft.rounds).numTeams := by
    have hlt := Schedule.team_lt_of_reassign hreassign
    rwa [← h.schedule, Schedule.numTeams_applyTrades] at hlt
  constructor
  case built => exact h.built
  case registered => exact h.registered.saveTrade h.draft_mem index team
  case draft_mem => exact h.draft_mem
  case current => exact h.current
  case rows => exact h.rows
  case sorted => exact h.sorted
  case number_lt => exact h.number_lt
  case trades_nodup => exact Store.nodup_tradesOf_saveTrade h.trades_nodup index team
  case schedule =>
    rw [Store.applyTrades_saveTrade h.trades_nodup hteam, h.schedule]
    exact Schedule.trade_of_reassign hreassign
  case pointer_le =>
    have hsize := Schedule.size_of_reassign hreassign
    exact h.pointer_le.trans_eq hsize.symm

/-- A store holds nothing of a draft that it has just started. -/
theorem holds_newDraft (hstore : store.Registered) (hnew : s.draftId ∉ store.drafts)
    (hschedule : s.schedule = .snake s.config.draft.numTeams s.config.draft.rounds)
    (hstate : s.state = .start s.config.draft.numTeams s.board.size) :
    ∃ next, store.newDraft s.draftId = .ok next ∧ next.drafts = store.drafts ++ [s.draftId] ∧
      s.Holds next [] := by
  have hok := Store.newDraft_of_not_mem hnew
  have hnone := Store.tradesOf_eq_nil hstore hnew
  unfold Store.tradesOf at hnone
  refine ⟨_, hok, rfl, ?_⟩
  constructor
  case built =>
    rw [hstate]
    exact .start
  case registered => exact hstore.newDraft hok
  case draft_mem => simp
  case current => rfl
  case rows => exact Store.rowsOf_eq_nil hstore hnew
  case sorted => exact List.Pairwise.nil
  case number_lt => simp
  case trades_nodup => simp [Store.tradesOf, hnone]
  case schedule => simp [Store.tradesOf, hnone, hschedule, Schedule.applyTrades]
  case pointer_le => simp [hstate]

end Holds

end SnakeDraft.Session
