import SnakeDraft.Proofs.Session.Succession

/-!
Changing the ranking under a draft. Picks are stored by name, so a draft survives on every board that still has its
players: there they have other ids, points and ranks, but the stored picks are replayed by the same teams, fill the
same places and are reported as before, up to the spelling of the names (`Session.draft_survives_reranking`).
-/

namespace SnakeDraft

/-- The record with the name of its player in small letters. -/
def PickRecord.foldCase (r : PickRecord) : PickRecord :=
  { r with player := r.player.map Text.foldCase }

/-- A board has every player of a history, under the same name up to case and at the same position. -/
def Board.Covers (b : Board) (history : List PickRecord) : Prop :=
  ∀ r ∈ history, ∀ name, r.player = some name →
    ∃ player ∈ b.players, Text.sameFold player.name name = true ∧ r.position = some player.position

/-- A board covers a history if it has the names in small letters, each at the position. -/
theorem Board.covers_of_subset {b : Board} {history : List PickRecord}
    (h : (history.filterMap fun r => r.player.map fun name => (Text.foldCase name, r.position)) ⊆
      b.players.toList.map fun player => (Text.foldCase player.name, some player.position)) :
    b.Covers history := by
  intro r hr name hname
  have hmem := h (List.mem_filterMap.mpr ⟨r, hr, by rw [hname]; rfl⟩)
  obtain ⟨player, hplayer, hsame⟩ := List.mem_map.mp hmem
  obtain ⟨hfold, hposition⟩ := Prod.mk.inj hsame
  exact ⟨player, Array.mem_toList_iff.mp hplayer, Text.sameFold_iff.mpr hfold, hposition.symm⟩

namespace Session

variable {overflow : Overflow} {config : Config} {s t : Session} {board : Board}

/-- The players of the picks are known on a board that covers the history. -/
theorem hasLike_of_covers
    (hs : DraftState.Built s.board s.config.draft.requirements s.config.draft.numTeams s.state)
    (hcovers : board.Covers s.history) :
    ∀ pick ∈ s.state.picks.toList, ∀ id, pick.selection.player? = some id →
      ∃ player, s.board.player? id = some player ∧ board.HasLike player := by
  intro pick hpick id hid
  obtain ⟨player, hplayer⟩ := hs.player_known (Array.mem_toList_iff.mp hpick) hid
  obtain ⟨again, hagain, hname, hposition⟩ := hcovers (s.recordOf pick) (List.mem_map_of_mem hpick)
    player.name (by simp [recordOf, hid, hplayer])
  have hsame : player.position = again.position := by
    simpa [recordOf, hid, hplayer] using hposition
  exact ⟨player, hplayer, again, hagain, hname, hsame.symm⟩

/-- A pick by the counterpart of its player is reported as the pick itself. -/
theorem foldCase_recordOf_rename (hnames : DistinctNames s.board.players)
    (hother : DistinctNames t.board.players) {pick : Pick}
    (hlike : ∀ id, pick.selection.player? = some id →
      ∃ player, s.board.player? id = some player ∧ t.board.HasLike player) :
    (t.recordOf (pick.rename (s.board.counterpart t.board))).foldCase = (s.recordOf pick).foldCase := by
  have hkind : ∀ f, kindOf (pick.selection.rename f) = kindOf pick.selection := by
    intro f
    cases pick.selection <;> rfl
  unfold PickRecord.foldCase recordOf Pick.rename
  simp only [hkind, Selection.player?_rename]
  cases hid : pick.selection.player? with
  | none => rfl
  | some id =>
    obtain ⟨player, hplayer, hthere⟩ := hlike id hid
    obtain ⟨again, hagain, hname, hposition, -⟩ := Board.find?_counterpart hnames hother hplayer hthere
    simp [hplayer, hagain, hposition, Text.sameFold_iff.mp hname]

theorem foldCase_history_of_rename (hnames : DistinctNames s.board.players)
    (hother : DistinctNames t.board.players)
    (hlike : ∀ pick ∈ s.state.picks.toList, ∀ id, pick.selection.player? = some id →
      ∃ player, s.board.player? id = some player ∧ t.board.HasLike player)
    (hpicks : t.state.picks.toList =
      s.state.picks.toList.map (Pick.rename (s.board.counterpart t.board))) :
    t.history.map PickRecord.foldCase = s.history.map PickRecord.foldCase := by
  rw [history, history, hpicks, List.map_map, List.map_map, List.map_map]
  apply List.map_congr_left
  intro pick hpick
  exact foldCase_recordOf_rename hnames hother (hlike pick hpick)

/-- The stored picks are read on a board that has all the players as the picks by their counterparts, and are
replayed to the same rosters. -/
theorem Remembers.replay_on {db : Database} {stored : List StoredPick} (h : s.Remembers db stored)
    (hother : DistinctNames board.players)
    (hlike : ∀ pick ∈ s.state.picks.toList, ∀ id, pick.selection.player? = some id →
      ∃ player, s.board.player? id = some player ∧ board.HasLike player) :
    ∃ picks state, picksOfStored board stored = .ok picks ∧
      (DraftState.start s.config.draft.numTeams board.size).recordAll
        ⟨board, s.schedule, s.config.draft.requirements⟩ picks = (none, state) ∧
      state.picks.toList = s.state.picks.toList.map (Pick.rename (s.board.counterpart board)) ∧
      state.rosters = s.state.rosters := by
  have hread := picksOfStored_counterpart h.names hother h.reads (by
    intro pick hpick
    obtain ⟨own, hown, rfl⟩ := List.mem_map.mp hpick
    exact hlike own hown)
  have hrenames : Renames s.board board (s.board.counterpart board) s.state.playersOut := by
    apply Board.renames_counterpart h.names hother
    intro id hid
    obtain ⟨pick, hpick, hplayer⟩ := List.mem_filterMap.mp hid
    exact hlike pick hpick id hplayer
  have haccounts : ((s.state.picks.toList.map fun pick => { pick with slot := none }).map
      (Pick.rename (s.board.counterpart board))).map Pick.account =
      (s.state.picks.toList.map (Pick.rename (s.board.counterpart board))).map Pick.account := by
    rw [List.map_map, List.map_map, List.map_map]
    rfl
  obtain ⟨state, hreplay, hpicks, hrosters⟩ :=
    h.holds.built.recordAll_renamed hrenames s.schedule haccounts
  exact ⟨_, state, hread, hreplay, hpicks, hrosters⟩

/-- A draft that was stored as it was made is opened again on every board that has its players. The session has
the schedule and the rosters of the one before, and its history but for the case of the names. -/
theorem draft_survives_reranking (hs : Succession overflow config s) (hfits : FitsStore config) {rows : List Row}
    (hboard : Board.ofRows rows = .ok board) (hcovers : board.Covers s.history) {db : Database}
    (hstore : db.store = s.store) (l : Launch) :
    ∃ t, launch overflow config board db l = .ok t ∧ t.draftId = s.draftId ∧ t.schedule = s.schedule ∧
      t.state.rosters = s.state.rosters ∧
      t.history.map PickRecord.foldCase = s.history.map PickRecord.foldCase := by
  have hother := Board.distinctNames_of_ofRows hboard
  obtain ⟨fresh, hstart⟩ := hs.start_ok board l
  obtain ⟨before, stored, hremembers, rfl⟩ := hs.remembers hfits
  have hholds := hremembers.holds
  rw [store_of_database hremembers.database] at hstore
  rw [← hstore] at hholds
  have hlike := hasLike_of_covers hholds.built hcovers
  obtain ⟨picks, state, hread, hreplay, hpicks, hrosters⟩ := hremembers.replay_on hother hlike
  refine ⟨_, (hholds.launch_eq_ok_iff hfits hstart).mpr ⟨picks, state, hread, hreplay, rfl⟩, rfl, rfl,
    hrosters, ?_⟩
  obtain ⟨settings, scores, -, -, rfl⟩ := start_eq_ok hstart
  exact foldCase_history_of_rename hremembers.names hother hlike hpicks

theorem draft_of_two_teams_survives_reranking :
    let config : Config :=
      ⟨⟨2, 1, none, .standard⟩, { maxIterations := some 10 }, ⟨"board.csv", false⟩, none⟩
    let ranked : List Row := [⟨2, "WR C", "WR", "12"⟩, ⟨3, "rb b", "RB", "9"⟩, ⟨4, "qb a", "QB", "3"⟩]
    ∃ board s t, Board.ofRows ranked = .ok board ∧ Succession .stops config s ∧ FitsStore config ∧
      board.Covers s.history ∧
      launch .stops config board (.ofStore s.store) ⟨"second", 2⟩ = .ok t ∧
      t.state.rosters = s.state.rosters ∧
      t.history.map PickRecord.foldCase = s.history.map PickRecord.foldCase := by
  intro config ranked
  let rows : List Row := [⟨2, "QB A", "QB", "10"⟩, ⟨3, "RB B", "RB", "8"⟩]
  let play (s : Session) : Session :=
    (((s.perform (.givePick 1 0)).2.perform (.makePick "QB A")).2.perform (.bench "RB B")).2
  have hlive : ((Board.ofRows rows).toOption.any fun old =>
      (launch .stops config old (.ofStore .empty) ⟨"first", 1⟩).toOption.any fun s =>
      ((play s).history.filterMap fun r => r.player.map fun name => (Text.foldCase name, r.position)) ==
        [("qb a", some .quarterback), ("rb b", some .runningBack)]) = true := by
    decide +kernel
  have hranked : ((Board.ofRows ranked).toOption.any fun board =>
      (board.players.toList.map fun player => (Text.foldCase player.name, some player.position)) ==
        [("wr c", some .wideReceiver), ("rb b", some .runningBack), ("qb a", some .quarterback)]) =
        true := by
    decide +kernel
  obtain ⟨old, hold, hlive⟩ := (Option.any_eq_true _ _).mp hlive
  obtain ⟨s, hlaunch, hlive⟩ := (Option.any_eq_true _ _).mp hlive
  obtain ⟨board, hboard, hranked⟩ := (Option.any_eq_true _ _).mp hranked
  have hcovers : board.Covers (play s).history := by
    apply Board.covers_of_subset
    rw [beq_iff_eq.mp hlive, beq_iff_eq.mp hranked]
    decide
  have hfits : FitsStore config := by
    unfold FitsStore
    decide
  have hsuccession : Succession .stops config (play s) := by
    apply Succession.operate _ (.bench "RB B") (by simp [Operation.freshId?])
    apply Succession.operate _ (.makePick "QB A") (by simp [Operation.freshId?])
    apply Succession.operate _ (.givePick 1 0) (by simp [Operation.freshId?])
    exact .first (eq_ok_of_toOption hold) (Database.reliable_ofStore .empty) rfl
      (eq_ok_of_toOption hlaunch)
  have hstore : (Database.ofStore (play s).store).store = (play s).store := rfl
  obtain ⟨t, ht, -, -, hrosters, hhistory⟩ := draft_survives_reranking hsuccession hfits
    (eq_ok_of_toOption hboard) hcovers hstore ⟨"second", 2⟩
  exact ⟨board, play s, t, eq_ok_of_toOption hboard, hsuccession, hfits, hcovers, ht, hrosters, hhistory⟩

end Session

end SnakeDraft
