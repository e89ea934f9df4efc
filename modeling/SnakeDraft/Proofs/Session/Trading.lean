import SnakeDraft.Proofs.Draft.Coherence
import SnakeDraft.Proofs.Session.Carrying
import SnakeDraft.Proofs.Session.Reached

/-!
Trades and the history of a draft. A pick copies the entry of the schedule that it is made on, and from then on
the entry is out of reach for trades until the pick is undone. A session that was started fresh therefore has
every pick on its entry at all times (`Session.Live.onSchedule`), whatever is traded, undone and picked again.
-/

namespace SnakeDraft.Session

/-- Sessions of one process, from a draft that nothing was restored for. Its database may be another one at any
time, so any of its writes may fail and others may write to the store. -/
inductive Live : Session → Prop where
  | start {overflow : Overflow} {config : Config} {board : Board} {draftId : String} {freshSeed : UInt64}
      {s : Session} (h : start overflow config board draftId freshSeed = .ok s) : Live s
  /-- The store has no picks of the draft that it gives the session, as one that holds no draft yet. -/
  | launch {overflow : Overflow} {config : Config} {board : Board} {db : Database} {l : Launch} {s : Session}
      (h : launch overflow config board db l = .ok s) (hnone : db.store.picksOf s.draftId = .ok []) : Live s
  | perform {s : Session} (hs : Live s) (op : Operation) : Live (s.perform op).2
  | withDatabase {s : Session} (hs : Live s) (database : Option Database) : Live { s with database }

section Live

variable {s : Session}

theorem Live.performAll (h : s.Live) (ops : List Operation) : (s.performAll ops).2.Live := by
  induction ops generalizing s with
  | nil => exact h
  | cons op ops ih => exact ih (h.perform op)

theorem Live.reached (h : s.Live) : s.Reached := by
  induction h with
  | start h => exact .start h
  | launch h _ =>
    obtain ⟨fresh, hstart, hattach⟩ := attach_of_launch h
    exact .attach (.start hstart) hattach
  | perform _ op ih => exact ih.perform op
  | withDatabase _ database ih => exact ih.withDatabase database

/-- A draft begins without picks when the store has none of it to restore. -/
theorem state_of_launch {overflow : Overflow} {config : Config} {board : Board} {db : Database} {l : Launch}
    (h : launch overflow config board db l = .ok s) (hnone : db.store.picksOf s.draftId = .ok []) :
    s.state = .start config.draft.numTeams board.size := by
  obtain ⟨fresh, hstart, hattach⟩ := attach_of_launch h
  obtain ⟨draftId, after, hpicks, -, hrestore⟩ := of_attach hattach
  obtain ⟨state, rfl, hstate⟩ := of_restore hrestore
  obtain ⟨settings, scores, -, -, rfl⟩ := start_eq_ok hstart
  rcases hstate with ⟨-, rfl⟩ | ⟨hsome, -⟩
  · rfl
  · refine absurd ?_ hsome
    unfold Store.picksOf Store.pickRows at hnone ⊢
    rw [hpicks]
    exact hnone

theorem OnSchedule.moves (h : s.OnSchedule) (hsound : s.Sound) {schedule : Schedule} {state : DraftState}
    (hmoves : s.Moves schedule state) : OnSchedule { s with schedule, state } := by
  cases hmoves with
  | stay => exact h
  | pick hselect => exact h.select hselect
  | undo hundo => exact h.undo (hsound.built.before_undoLast hundo).2
  | trade htradable hreassign => exact h.givePick htradable hreassign
  | reset => exact onSchedule_of_start rfl

theorem Live.onSchedule (h : s.Live) : s.OnSchedule := by
  induction h with
  | start h =>
    obtain ⟨settings, scores, -, -, rfl⟩ := start_eq_ok h
    exact onSchedule_of_start rfl
  | launch h hnone => exact onSchedule_of_start (state_of_launch h hnone)
  | @perform s hs op ih => exact ih.moves hs.reached.sound (s.moved_perform op).draft
  | withDatabase _ _ ih => exact ih

/-- Picks keep the entry that they were made on. -/
theorem Sound.turn_of_onSchedule (h : s.Sound) (honSchedule : s.OnSchedule) {i : Nat} {pick : Pick}
    (hpick : s.state.picks[i]? = some pick) : s.schedule.turn? i = some pick.turn := by
  obtain ⟨turn, hturn, hteam, hround⟩ := honSchedule i pick hpick
  obtain ⟨hindex, -⟩ := h.regular i turn hturn
  have hrecorded := h.built.coherent.index_eq i pick hpick
  rw [hturn, Option.some_inj, Turn.mk.injEq]
  exact ⟨hindex.trans hrecorded.symm, hteam, hround⟩

end Live

theorem isTradable_iff {s : Session} {index : Nat} :
    s.isTradable index = true ↔ s.state.pointer ≤ index ∧ index < s.schedule.size := by
  simp [isTradable]

/-- What giving a pick away does to the schedule, also when it cannot be stored. -/
theorem schedule_givePick (s : Session) (index team : Nat) :
    (s.givePick index team).2.schedule =
      if s.isTradable index = true then s.schedule.trade index team else s.schedule := by
  unfold givePick
  cases s.isTradable index with
  | false => rfl
  | true =>
    simp only [Bool.not_true, Bool.false_eq_true, if_false, if_true]
    cases hreassign : s.schedule.reassign index team with
    | none =>
      unfold Schedule.trade
      rw [hreassign]
      rfl
    | some result =>
      rw [Schedule.trade_of_reassign hreassign]
      cases s.database with
      | none => rfl
      | some db =>
        simp only
        split <;> rfl

theorem tradable_of_givePick {s : Session} {index team : Nat} (h : (s.givePick index team).1 = .ok ()) :
    s.state.pointer ≤ index ∧ index < s.schedule.size := by
  unfold givePick at h
  cases htradable : s.isTradable index with
  | false => simp [htradable] at h
  | true => exact isTradable_iff.mp htradable

/-- A trade changes the owner of the pick that is traded, and only if the pick is still to be made. -/
theorem of_turn?_givePick_ne {s : Session} {index team i : Nat}
    (h : (s.givePick index team).2.schedule.turn? i ≠ s.schedule.turn? i) :
    i = index ∧ s.state.pointer ≤ i ∧ i < s.schedule.size ∧
      (s.givePick index team).2.schedule.turn? i = (s.schedule.turn? i).map ({ · with team }) := by
  rw [schedule_givePick] at h ⊢
  split at h
  · next htradable =>
    rw [if_pos htradable]
    rw [Schedule.turn?_trade] at h ⊢
    split at h
    · next hgiven =>
      obtain ⟨hlater, hlt⟩ := isTradable_iff.mp htradable
      rw [if_pos hgiven, ← hgiven.1]
      exact ⟨rfl, hlater, hlt, rfl⟩
    · exact absurd rfl h
  · exact absurd rfl h

/-- At all times of a draft that was started fresh, whichever of its writes fail, every pick that was made stands
on its entry of the schedule, and every entry has its number, its round and one of the teams. Only entries from
the pick on the clock onwards can change hands, and nothing else of them changes. -/
theorem Live.trades_never_touch_history {s : Session} (hs : s.Live) :
    (∀ i < s.state.pointer, ∃ pick, s.state.picks[i]? = some pick ∧
      s.schedule.turn? i = some pick.turn) ∧
    (∀ i turn, s.schedule.turn? i = some turn → turn.index = i ∧
      turn.round = i / s.config.draft.numTeams ∧ turn.team < s.config.draft.numTeams) ∧
    ∀ index team,
      ((s.givePick index team).1 = .ok () → s.state.pointer ≤ index ∧ index < s.schedule.size) ∧
      ∀ i, (s.givePick index team).2.schedule.turn? i ≠ s.schedule.turn? i →
        i = index ∧ s.state.pointer ≤ i ∧ i < s.schedule.size ∧
          (s.givePick index team).2.schedule.turn? i = (s.schedule.turn? i).map ({ · with team }) := by
  have hsound := hs.reached.sound
  refine ⟨fun i hmade => ?_, fun i turn hturn => ?_, fun index team => ⟨tradable_of_givePick, fun i => ?_⟩⟩
  · have hpick : s.state.picks[i]? = some s.state.picks[i] := Array.getElem?_eq_getElem hmade
    exact ⟨_, hpick, hsound.turn_of_onSchedule hs.onSchedule hpick⟩
  · rw [← hsound.numTeams]
    exact hsound.regular i turn hturn
  · exact of_turn?_givePick_ne

/-- A pick that is undone can be traded, and is then made by its new owner. -/
theorem history_of_traded_pick :
    let config : Config :=
      ⟨⟨2, 1, none, .standard⟩, { maxIterations := some 10 }, ⟨"board.csv", false⟩, none⟩
    let rows : List Row := [⟨2, "QB A", "QB", "10"⟩, ⟨3, "RB B", "RB", "8"⟩]
    let db : Database := { store := .empty, failures := [false, true, true] }
    let ops : List Operation := [.makePick "QB A", .undo, .givePick 0 1, .makePick "QB A"]
    ∃ board s, Board.ofRows rows = .ok board ∧ launch .stops config board db ⟨"first", 1⟩ = .ok s ∧
      (s.performAll ops).2.Live ∧
      ∃ pick, (s.performAll ops).2.state.picks[0]? = some pick ∧ pick.turn.team = 1 ∧
        (s.performAll ops).2.schedule.turn? 0 = some pick.turn := by
  intro config rows db ops
  have hcheck : ((Board.ofRows rows).toOption.any fun board =>
      (launch .stops config board db ⟨"first", 1⟩).toOption.any fun s =>
      (s.performAll ops).2.state.picks[0]?.any (·.turn.team = 1)) = true := by
    decide +kernel
  obtain ⟨board, hboard, hcheck⟩ := (Option.any_eq_true _ _).mp hcheck
  obtain ⟨s, hlaunch, hcheck⟩ := (Option.any_eq_true _ _).mp hcheck
  obtain ⟨pick, hpick, hteam⟩ := (Option.any_eq_true _ _).mp hcheck
  replace hlaunch := eq_ok_of_toOption hlaunch
  have hlive := (Live.launch hlaunch (Store.picksOf_eq_nil rfl _)).performAll ops
  obtain ⟨hmade, -⟩ := Array.getElem?_eq_some_iff.mp hpick
  obtain ⟨own, hown, hturn⟩ := hlive.trades_never_touch_history.1 0 hmade
  obtain rfl := Option.some.inj (hown.symm.trans hpick)
  exact ⟨board, s, eq_ok_of_toOption hboard, hlaunch, hlive, own, hpick, of_decide_eq_true hteam, hturn⟩

end SnakeDraft.Session
