import SnakeDraft.Proofs.Session.Reopening
import SnakeDraft.Proofs.Session.World

/-!
Sessions that succeed each other on one store, each on a board of its own. All that an operation can do while every
write succeeds is listed once (`Session.Effect`). The names that a store holds may have been written by earlier
sessions; what matters is that the session at hand reads its own picks in them (`Session.Remembers`), which every
operation keeps and every session that can be opened starts with (`Session.Succession.remembers`).
-/

namespace SnakeDraft.Session

/-- What an operation does to a session whose writes all succeed. -/
inductive Effect (s : Session) (db : Database) : Session → Prop where
  | same : Effect s db s
  | pick {selection : Selection} {p : Pick} {state : DraftState}
      (hselect : s.state.select s.rules selection = .ok (p, state)) :
      Effect s db
        { s with
          state
          database := some (db.written (db.store.savePick s.draftId (s.recordOf p).toStored)) }
  | undo {last : Pick} {state : DraftState} (hundo : s.state.undoLast s.rules = some (last, state)) :
      Effect s db
        { s with
          state
          database := some (db.written (db.store.removePick s.draftId last.turn.index).2) }
  | trade {index team owner : Nat} {schedule : Schedule}
      (hreassign : s.schedule.reassign index team = some (owner, schedule)) :
      Effect s db
        { s with
          schedule
          database := some (db.written (db.store.saveTrade s.draftId index team)) }
  | reset {freshId : String} {store : Store} (hfresh : freshId ∉ db.store.drafts)
      (hnew : db.store.newDraft freshId = .ok store) :
      Effect s db
        { s with
          schedule := .snake s.config.draft.numTeams s.config.draft.rounds
          state := .start s.config.draft.numTeams s.board.size
          database := some (db.written store)
          draftId := freshId
          unsaved := 0 }

section Effect

variable {s t : Session} {db : Database}

theorem Effect.config_eq (h : Effect s db t) : t.config = s.config := by
  cases h <;> rfl

theorem effect_commitPick (hs : s.database = some db) (hdb : db.Reliable) (selection : Selection) :
    Effect s db (s.commitPick selection).2 := by
  rw [commitPick_of_reliable hs hdb]
  cases hselect : s.state.select s.rules selection with
  | error e => exact .same
  | ok result => exact .pick hselect

theorem effect_perform (hs : s.database = some db) (hdb : db.Reliable) (op : Operation)
    (hfresh : ∀ freshId, op.freshId? = some freshId → freshId ∉ db.store.drafts) :
    Effect s db (s.perform op).2 := by
  have hchoice : ∀ choice, s.choice? op = some choice → Effect s db (s.perform op).2 := by
    intro choice hchoice
    rw [perform_of_choice hchoice]
    cases choice with
    | error e => exact .same
    | ok selection => exact effect_commitPick hs hdb selection
  cases op with
  | makePick name => exact hchoice _ rfl
  | bench name => exact hchoice _ rfl
  | autoPick clock => exact hchoice _ rfl
  | undo =>
    rw [perform, undo_of_reliable hs hdb]
    cases hundo : s.state.undoLast s.rules with
    | none => exact .same
    | some result => exact .undo hundo
  | givePick index team =>
    rw [perform, givePick_of_reliable hs hdb]
    split
    · exact .same
    · cases hreassign : s.schedule.reassign index team with
      | none => exact .same
      | some result => exact .trade hreassign
  | reset freshId =>
    have hid := hfresh freshId rfl
    have hnew := Store.newDraft_of_not_mem hid
    rw [perform, reset_of_reliable hs hdb hnew]
    exact .reset hid hnew

end Effect

/-- The database of a session holds stored picks in which the session reads the picks that it has. -/
structure Remembers (s : Session) (db : Database) (stored : List StoredPick) : Prop where
  database : s.database = some db
  reliable : db.Reliable
  names : DistinctNames s.board.players
  holds : s.Holds db.store stored
  reads : picksOfStored s.board stored =
    .ok (s.state.picks.toList.map fun pick => { pick with slot := none })

section Remembers

variable {s t : Session} {db : Database} {stored : List StoredPick}

theorem Attached.remembers (h : s.Attached db) (hnames : DistinctNames s.board.players) :
    s.Remembers db s.storedPicks := by
  have hholds := h.recorded.retains.holds
  rw [← storedPicks_eq] at hholds
  refine ⟨h.database, h.reliable, hnames, hholds, ?_⟩
  rw [storedPicks_eq]
  apply picksOfStored_recordOf hnames
  intro pick hpick id hid
  exact h.recorded.built.player_known (Array.mem_toList_iff.mp hpick) hid

theorem Remembers.pick (h : s.Remembers db stored) {selection : Selection} {p : Pick} {state : DraftState}
    (hselect : s.state.select s.rules selection = .ok (p, state)) :
    Remembers
      { s with
        state
        database := some (db.written (db.store.savePick s.draftId (s.recordOf p).toStored)) }
      (db.written (db.store.savePick s.draftId (s.recordOf p).toStored))
      (stored ++ [(s.recordOf p).toStored]) := by
  obtain ⟨turn, -, hrecord⟩ := DraftState.record_of_select hselect
  obtain ⟨slot, hplaces, hpick, hhistory, -⟩ := DraftState.places_of_record hrecord
  have hknown : ∀ pick ∈ [p], ∀ id, pick.selection.player? = some id →
      ∃ player, s.board.player? id = some player := by
    intro pick hmem id hid
    rw [List.mem_singleton.mp hmem, hpick] at hid
    obtain ⟨player, hplayer, -⟩ := hplaces.player_free hid
    exact ⟨player, hplayer⟩
  refine ⟨rfl, h.reliable.written _, h.names, (h.holds.pick hselect).withHandle _, ?_⟩
  have hreads := picksOfStored_append h.reads (picksOfStored_recordOf h.names hknown)
  simp only [hhistory, Array.toList_push, List.map_append]
  exact hreads

theorem Remembers.undo (h : s.Remembers db stored) {last : Pick} {state : DraftState}
    (hundo : s.state.undoLast s.rules = some (last, state)) :
    Remembers
      { s with
        state
        database := some (db.written (db.store.removePick s.draftId last.turn.index).2) }
      (db.written (db.store.removePick s.draftId last.turn.index).2)
      (stored.filter fun p => p.number ≠ last.turn.index) := by
  refine ⟨rfl, h.reliable.written _, h.names, (h.holds.undo hundo).withHandle _, ?_⟩
  have hreads := picksOfStored_filter h.reads fun n => decide (n ≠ last.turn.index)
  rw [List.filter_map] at hreads
  simp only [← h.holds.built.filter_of_undoLast hundo]
  exact hreads

/-- The picks stay readable whatever an operation does. -/
theorem Remembers.of_effect (h : s.Remembers db stored) (heffect : Effect s db t) :
    ∃ after more, t.Remembers after more := by
  cases heffect with
  | same => exact ⟨db, stored, h⟩
  | pick hselect => exact ⟨_, _, h.pick hselect⟩
  | undo hundo => exact ⟨_, _, h.undo hundo⟩
  | trade hreassign =>
    exact ⟨_, stored, rfl, h.reliable.written _, h.names, (h.holds.givePick hreassign).withHandle _,
      h.reads⟩
  | @reset freshId store hfresh hnew =>
    let fresh : Session :=
      { s with
        schedule := .snake s.config.draft.numTeams s.config.draft.rounds
        state := .start s.config.draft.numTeams s.board.size
        draftId := freshId
        unsaved := 0 }
    obtain ⟨next, hnext, -, hholds⟩ := holds_newDraft (s := fresh) h.holds.registered hfresh rfl rfl
    cases hnew.symm.trans hnext
    exact ⟨_, [], rfl, h.reliable.written _, h.names, hholds.withHandle _, rfl⟩

end Remembers

section Launching

variable {s t : Session} {db : Database} {stored : List StoredPick} {overflow : Overflow} {board : Board} {l : Launch}

/-- Opening a session on a store with a draft is to read the stored picks on the board of that session, and to
replay them. -/
theorem Holds.launch_eq_ok_iff (h : s.Holds db.store stored) (hfits : FitsStore s.config) {fresh : Session}
    (hstart : start overflow s.config board l.freshId l.freshSeed = .ok fresh) :
    launch overflow s.config board db l = .ok t ↔
      ∃ picks state, picksOfStored board stored = .ok picks ∧
        (DraftState.start s.config.draft.numTeams board.size).recordAll
          ⟨board, s.schedule, s.config.draft.requirements⟩ picks = (none, state) ∧
        t = { fresh with draftId := s.draftId, database := some db, schedule := s.schedule, state } := by
  obtain ⟨settings, scores, -, -, rfl⟩ := start_eq_ok hstart
  unfold launch
  rw [hstart]
  unfold attach
  simp only [h.currentDraft]
  exact h.restore_eq_ok_iff hfits rfl rfl rfl rfl

/-- A session that can be opened on a board reads there what it makes of the stored picks. -/
theorem Remembers.reopen (h : s.Remembers db stored) (hfits : FitsStore s.config) {other : Database}
    (hother : other.Reliable) (hstore : other.store = db.store) (hnames : DistinctNames board.players)
    (hlaunch : launch overflow s.config board other l = .ok t) :
    t.Remembers other stored ∧ t.config = s.config := by
  obtain ⟨fresh, hstart, -⟩ := attach_of_launch hlaunch
  have hholds := h.holds
  rw [← hstore] at hholds
  obtain ⟨picks, state, hread, hreplay, rfl⟩ := (hholds.launch_eq_ok_iff hfits hstart).mp hlaunch
  obtain ⟨settings, scores, -, -, rfl⟩ := start_eq_ok hstart
  have hbuilt := DraftState.Built.start.of_recordAll hreplay
  have haccounts : state.picks.toList.map Pick.account = picks.map Pick.account :=
    DraftState.picks_of_recordAll hreplay
  have hnumbers : picks.map (·.turn.index) = List.range s.state.pointer := by
    rw [numbers_of_picksOfStored hread, ← numbers_of_picksOfStored h.reads, List.map_map]
    exact h.holds.built.coherent.indices
  have hpointer : state.pointer = s.state.pointer := by
    have hpicks := congrArg List.length hnumbers
    have hstate := congrArg List.length haccounts
    simp only [List.length_map, List.length_range, Array.length_toList] at hpicks hstate
    exact hstate.trans hpicks
  refine ⟨⟨rfl, hother, hnames, ?_, ?_⟩, rfl⟩
  · refine { hholds with built := hbuilt, number_lt := ?_, pointer_le := ?_ }
    · rw [hpointer]
      exact hholds.number_lt
    · rw [hpointer]
      exact hholds.pointer_le
  · rw [hread]
    apply congrArg
    apply Pick.eq_of_accounts (slot_of_picksOfStored hread) haccounts
    rw [hbuilt.coherent.indices, hnumbers, hpointer]

end Launching

/-- Sessions of a league in a program that follow one another, from the first on an empty store. A session is operated,
with a fresh id for each draft, or another one is opened on what it leaves in the store, on a board that may differ.
No write fails. -/
inductive Succession (overflow : Overflow) (config : Config) : Session → Prop where
  | first {rows : List Row} {board : Board} {db : Database} {l : Launch} {s : Session}
      (hboard : Board.ofRows rows = .ok board) (hdb : db.Reliable) (hempty : db.store = .empty)
      (hlaunch : launch overflow config board db l = .ok s) : Succession overflow config s
  | operate {s : Session} (hs : Succession overflow config s) (op : Operation)
      (hfresh : ∀ freshId, op.freshId? = some freshId → freshId ∉ s.store.drafts) :
      Succession overflow config (s.perform op).2
  | next {s t : Session} {rows : List Row} {board : Board} {db : Database} {l : Launch}
      (hs : Succession overflow config s) (hboard : Board.ofRows rows = .ok board) (hdb : db.Reliable)
      (hstore : db.store = s.store) (hlaunch : launch overflow config board db l = .ok t) :
      Succession overflow config t

section Succession

variable {overflow : Overflow} {config : Config} {s : Session}

/-- The settings of the league allow sessions on every board. -/
theorem Succession.start_ok (hs : Succession overflow config s) (board : Board) (l : Launch) :
    ∃ fresh, start overflow config board l.freshId l.freshSeed = .ok fresh := by
  have hlaunched : ∀ {board' : Board} {db : Database} {l' : Launch} {t : Session},
      launch overflow config board' db l' = .ok t →
      ∃ fresh, start overflow config board l.freshId l.freshSeed = .ok fresh := by
    intro board' db l' t hlaunch
    obtain ⟨fresh, hstart, -⟩ := attach_of_launch hlaunch
    obtain ⟨hrange, hsome⟩ := exists_start_iff.mp ⟨fresh, hstart⟩
    obtain ⟨settings, hsettings⟩ := Option.isSome_iff_exists.mp hsome
    obtain ⟨others, hothers, -⟩ := ofOptions?_seed hsettings l.freshSeed
    exact exists_start_iff.mpr ⟨hrange, Option.isSome_of_eq_some hothers⟩
  induction hs with
  | first _ _ _ hlaunch => exact hlaunched hlaunch
  | operate _ _ _ ih => exact ih
  | next _ _ _ _ hlaunch _ => exact hlaunched hlaunch

/-- Every session of a succession reads its picks in what the store holds. -/
theorem Succession.remembers (hs : Succession overflow config s) (hfits : FitsStore config) :
    ∃ db stored, s.Remembers db stored ∧ s.config = config := by
  induction hs with
  | first hboard hdb hempty hlaunch =>
    have hnames := Board.distinctNames_of_ofRows hboard
    obtain ⟨fresh, hstart, -⟩ := attach_of_launch hlaunch
    obtain ⟨s, db, hlaunch', hattached, -, rfl, rfl⟩ := launch_ok hnames hfits hdb hempty hstart
    cases hlaunch.symm.trans hlaunch'
    exact ⟨db, _, hattached.remembers hnames, rfl⟩
  | operate _ op hfresh ih =>
    obtain ⟨db, stored, hremembers, hconfig⟩ := ih
    rw [store_of_database hremembers.database] at hfresh
    have heffect := effect_perform hremembers.database hremembers.reliable op hfresh
    obtain ⟨after, more, hafter⟩ := hremembers.of_effect heffect
    exact ⟨after, more, hafter, heffect.config_eq.trans hconfig⟩
  | next _ hboard hdb hstore hlaunch ih =>
    obtain ⟨before, stored, hremembers, rfl⟩ := ih
    rw [store_of_database hremembers.database] at hstore
    obtain ⟨hnext, hconfig⟩ := hremembers.reopen hfits hdb hstore (Board.distinctNames_of_ofRows hboard)
      hlaunch
    exact ⟨_, stored, hnext, hconfig⟩

end Succession

end SnakeDraft.Session
