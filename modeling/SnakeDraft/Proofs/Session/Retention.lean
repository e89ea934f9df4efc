import Mathlib.Data.List.Nodup
import SnakeDraft.Proofs.Session.Holding
import SnakeDraft.Proofs.Session.Reading

/-!
What a store retains of a session: some of its picks, each in one row under its own number, and all of its
trades (`Session.Retains`). Operations keep this, whether a pick is stored or lost, and a session of the same
draft without picks is restored to the replay of the picks that are retained (`Session.Retains.restore`).
-/

namespace SnakeDraft

/-- The picks before the last one are those with another index. -/
theorem DraftState.Built.filter_of_undoLast {board : Board} {reqs : Requirements} {numTeams : Nat}
    {s t : DraftState} {schedule : Schedule} {last : Pick} (hs : Built board reqs numTeams s)
    (h : s.undoLast ⟨board, schedule, reqs⟩ = some (last, t)) :
    s.picks.toList.filter (fun pick => pick.turn.index ≠ last.turn.index) = t.picks.toList := by
  obtain ⟨hbuilt, hhistory⟩ := hs.before_undoLast h
  have hlast : last.turn.index = t.picks.size := by
    refine hs.coherent.index_eq _ _ ?_
    rw [hhistory]
    exact Array.getElem?_push_size
  have hbefore : ∀ pick ∈ t.picks.toList, pick.turn.index ≠ last.turn.index := by
    intro pick hpick
    obtain ⟨i, hlt, hi⟩ := Array.mem_iff_getElem.mp (Array.mem_toList_iff.mp hpick)
    have hindex := hbuilt.coherent.index_eq i pick (hi ▸ Array.getElem?_eq_getElem hlt)
    omega
  rw [hhistory, Array.toList_push, List.filter_append, List.filter_eq_self.mpr (by simpa using hbefore)]
  simp

namespace Session

/-- The store of a session has a row for each of these picks of the session, and no other row of its draft. Its
trades lead from the snake to the schedule. -/
structure Retains (s : Session) (store : Store) (kept : List Pick) : Prop where
  built : DraftState.Built s.board s.config.draft.requirements s.config.draft.numTeams s.state
  sublist : kept.Sublist s.state.picks.toList
  registered : store.Registered
  draft_mem : s.draftId ∈ store.drafts
  current : store.current = some (Json.quote s.draftId)
  rows : store.rowsOf s.draftId =
    (kept.map fun pick => (s.recordOf pick).toStored).map (PickRow.ofPick s.draftId)
  trades_nodup : ((store.tradesOf s.draftId).map (·.1)).Nodup
  schedule : (Schedule.snake s.config.draft.numTeams s.config.draft.rounds).applyTrades
    (store.tradesOf s.draftId) = s.schedule
  pointer_le : s.state.pointer ≤ s.schedule.size

section Retains

variable {s : Session} {store : Store} {kept : List Pick}

theorem Retains.index_eq (h : s.Retains store kept) {i : Nat} {pick : Pick}
    (hpick : s.state.picks[i]? = some pick) : pick.turn.index = i :=
  h.built.coherent.index_eq i pick hpick

theorem Retains.getElem?_index (h : s.Retains store kept) {pick : Pick} (hpick : pick ∈ kept) :
    s.state.picks[pick.turn.index]? = some pick := by
  obtain ⟨i, hi⟩ := List.mem_iff_getElem?.mp (h.sublist.subset hpick)
  rw [Array.getElem?_toList] at hi
  rw [h.index_eq hi]
  exact hi

theorem Retains.index_lt (h : s.Retains store kept) {pick : Pick} (hpick : pick ∈ kept) :
    pick.turn.index < s.state.pointer :=
  (Array.getElem?_eq_some_iff.mp (h.getElem?_index hpick)).1

theorem Retains.sorted (h : s.Retains store kept) :
    kept.Pairwise fun p q => p.turn.index < q.turn.index := by
  refine List.Pairwise.sublist h.sublist (List.pairwise_iff_getElem.mpr fun i j hi hj hij => ?_)
  have hindex : ∀ k (hk : k < s.state.picks.toList.length),
      (s.state.picks.toList[k]).turn.index = k := by
    intro k hk
    refine h.index_eq ?_
    rw [← Array.getElem?_toList, List.getElem?_eq_getElem hk]
  rw [hindex i hi, hindex j hj]
  exact hij

theorem Retains.length_le_filter (h : s.Retains store kept) (n : Nat) :
    kept.length ≤ (kept.filter fun pick => pick.turn.index ≠ n).length + 1 := by
  have hnodup : (kept.map (·.turn.index)).Nodup := by
    rw [List.Nodup, List.pairwise_map]
    exact h.sorted.imp Nat.ne_of_lt
  have hone := List.nodup_iff_count_le_one.mp hnodup n
  rw [List.count, List.countP_map, List.countP_eq_length_filter] at hone
  have hlength := List.length_eq_length_filter_add (l := kept) fun pick => pick.turn.index ≠ n
  have hsame : (kept.filter fun pick => !decide (pick.turn.index ≠ n)) =
      kept.filter ((· == n) ∘ fun pick : Pick => pick.turn.index) := by
    refine List.filter_congr fun pick _ => ?_
    by_cases hindex : pick.turn.index = n <;> simp [hindex]
  rw [hsame] at hlength
  omega

/-- What is retained is held as it was recorded. -/
theorem Retains.holds (h : s.Retains store kept) :
    s.Holds store (kept.map fun pick => (s.recordOf pick).toStored) := by
  refine ⟨h.built, h.registered, h.draft_mem, h.current, h.rows, ?_, ?_, h.trades_nodup, h.schedule,
    h.pointer_le⟩
  · rw [List.pairwise_map]
    exact h.sorted
  · intro p hp
    obtain ⟨pick, hpick, rfl⟩ := List.mem_map.mp hp
    exact h.index_lt hpick

theorem Holds.retains (h : s.Holds store (kept.map fun pick => (s.recordOf pick).toStored))
    (hsublist : kept.Sublist s.state.picks.toList) : s.Retains store kept :=
  ⟨h.built, hsublist, h.registered, h.draft_mem, h.current, h.rows, h.trades_nodup, h.schedule,
    h.pointer_le⟩

theorem Retains.picksOf (h : s.Retains store kept) (hfits : FitsStore s.config) :
    store.picksOf s.draftId = .ok (kept.map fun pick => (s.recordOf pick).toStored) :=
  h.holds.picksOf hfits

/-- A session of the same draft without picks is restored to a replay of the picks that are retained. -/
theorem Retains.restore (h : s.Retains store kept) (hnames : DistinctNames s.board.players)
    (hfits : FitsStore s.config) {state : DraftState}
    (hreplay : (DraftState.start s.config.draft.numTeams s.board.size).recordAll
      ⟨s.board, s.schedule, s.config.draft.requirements⟩
      (kept.map fun pick => { pick with slot := none }) = (none, state))
    {fresh : Session} (hconfig : fresh.config = s.config) (hboard : fresh.board = s.board)
    (hdraft : fresh.draftId = s.draftId)
    (hschedule : fresh.schedule = .snake s.config.draft.numTeams s.config.draft.rounds)
    (hstate : fresh.state = .start s.config.draft.numTeams fresh.board.size) :
    fresh.restore store = .ok { fresh with schedule := s.schedule, state } := by
  have hknown : ∀ pick ∈ kept, ∀ id, pick.selection.player? = some id →
      ∃ player, s.board.player? id = some player := by
    intro pick hpick id hid
    exact h.built.player_known (Array.mem_toList_iff.mp (h.sublist.subset hpick)) hid
  have hpicks := picksOfStored_recordOf hnames hknown
  rw [← hboard] at hpicks hreplay
  exact (h.holds.restore_eq_ok_iff hfits hconfig hdraft hschedule hstate).mpr
    ⟨_, state, hpicks, hreplay, rfl⟩

theorem Retains.withHandle (h : s.Retains store kept) (database : Option Database) :
    Retains { s with database } store kept :=
  { h with }

theorem Retains.withUnsaved (h : s.Retains store kept) (unsaved : Nat) :
    Retains { s with unsaved } store kept :=
  { h with }

/-- A pick that is made and lost. -/
theorem Retains.lose (h : s.Retains store kept) {selection : Selection} {p : Pick} {state : DraftState}
    (hselect : s.state.select s.rules selection = .ok (p, state)) :
    Retains { s with state } store kept := by
  obtain ⟨turn, -, hrecord⟩ := DraftState.record_of_select hselect
  obtain ⟨slot, -, -, hhistory, -⟩ := DraftState.places_of_record hrecord
  have hsublist : kept.Sublist state.picks.toList := by
    rw [hhistory, Array.toList_push]
    exact h.sublist.trans (List.sublist_append_left _ _)
  exact (h.holds.lose hselect).retains hsublist

/-- A pick that is made and stored. -/
theorem Retains.pick (h : s.Retains store kept) {selection : Selection} {p : Pick} {state : DraftState}
    (hselect : s.state.select s.rules selection = .ok (p, state)) :
    Retains { s with state } (store.savePick s.draftId (s.recordOf p).toStored) (kept ++ [p]) := by
  obtain ⟨turn, -, hrecord⟩ := DraftState.record_of_select hselect
  obtain ⟨slot, -, -, hhistory, -⟩ := DraftState.places_of_record hrecord
  have hstored : (kept ++ [p]).map (fun pick => (s.recordOf pick).toStored) =
      kept.map (fun pick => (s.recordOf pick).toStored) ++ [(s.recordOf p).toStored] := List.map_append
  have hsublist : (kept ++ [p]).Sublist state.picks.toList := by
    rw [hhistory, Array.toList_push]
    exact h.sublist.append (List.Sublist.refl [p])
  have hholds := h.holds.pick hselect
  rw [← hstored] at hholds
  exact hholds.retains hsublist

/-- The last pick taken back, whether it was stored or not. -/
theorem Retains.undo (h : s.Retains store kept) {last : Pick} {state : DraftState}
    (hundo : s.state.undoLast s.rules = some (last, state)) :
    Retains { s with state } (store.removePick s.draftId last.turn.index).2
      (kept.filter fun pick => pick.turn.index ≠ last.turn.index) := by
  have hsublist : (kept.filter fun pick => pick.turn.index ≠ last.turn.index).Sublist
      state.picks.toList := by
    rw [← h.built.filter_of_undoLast hundo]
    exact h.sublist.filter _
  have hholds := h.holds.undo hundo
  rw [List.filter_map] at hholds
  exact hholds.retains hsublist

theorem Retains.givePick (h : s.Retains store kept) {index team owner : Nat} {schedule : Schedule}
    (hreassign : s.schedule.reassign index team = some (owner, schedule)) :
    Retains { s with schedule } (store.saveTrade s.draftId index team) kept :=
  (h.holds.givePick hreassign).retains h.sublist

/-- A store retains nothing of a draft that it has just started. -/
theorem retains_newDraft (hstore : store.Registered) (hnew : s.draftId ∉ store.drafts)
    (hschedule : s.schedule = .snake s.config.draft.numTeams s.config.draft.rounds)
    (hstate : s.state = .start s.config.draft.numTeams s.board.size) :
    ∃ next, store.newDraft s.draftId = .ok next ∧ next.drafts = store.drafts ++ [s.draftId] ∧
      s.Retains next [] := by
  obtain ⟨next, hnext, hdrafts, hholds⟩ := holds_newDraft hstore hnew hschedule hstate
  exact ⟨next, hnext, hdrafts, hholds.retains (List.nil_sublist _)⟩

end Retains

end Session

end SnakeDraft
