import SnakeDraft.Proofs.Session.Recovery

/-!
Closing and reopening a session. On a reliable database a session is attached to its whole draft
(`Session.Attached`), every operation keeps it so, and it does the same as one whose database has just been
opened (`Session.settled`). Reopening gives that session, so it can happen at any time unnoticed.
-/

namespace SnakeDraft.Session

/-- The session with its database opened anew. -/
def settled (s : Session) : Session :=
  { s with database := s.database.map fun db => .ofStore db.store }

/-- A session that all writes of a draft went through: nothing is unsaved, and the settings are those that
sessions of the league start with. -/
structure Attached (s : Session) (db : Database) : Prop where
  database : s.database = some db
  reliable : db.Reliable
  recorded : s.Recorded db.store
  unsaved : s.unsaved = 0
  started : ∃ draftId seed fresh, start s.overflow s.config s.board draftId seed = .ok fresh ∧
    fresh.scores = s.scores ∧ fresh.settings = s.settings

theorem Recorded.withHandle {s : Session} {store : Store} (h : s.Recorded store)
    (database : Option Database) : Recorded { s with database } store :=
  ⟨h.built, h.registered, h.draft_mem, h.current, h.rows, h.trades_nodup, h.schedule, h.pointer_le⟩

theorem commitPick_of_reliable {s : Session} {db : Database} (hs : s.database = some db)
    (hdb : db.Reliable) (selection : Selection) :
    s.commitPick selection =
      match s.state.select s.rules selection with
      | .error e => (.error (.pick e), s)
      | .ok (p, state) => (.ok (s.recordOf p),
        { s with
          state
          database := some
            (db.written (db.store.savePick s.draftId (s.recordOf p).toStored)) }) := by
  unfold commitPick
  cases s.state.select s.rules selection with
  | error e => rfl
  | ok result =>
    unfold persist
    simp only [hs, hdb.savePick]
    rfl

theorem undo_of_reliable {s : Session} {db : Database} (hs : s.database = some db)
    (hdb : db.Reliable) :
    s.undo =
      match s.state.undoLast s.rules with
      | none => (.ok none, s)
      | some (p, state) => (.ok (some (s.recordOf p)),
        { s with
          state
          database := some (db.written (db.store.removePick s.draftId p.turn.index).2) }) := by
  unfold undo
  cases s.state.undoLast s.rules with
  | none => rfl
  | some result =>
    simp only [hs, hdb.removePick]
    rfl

theorem givePick_of_reliable {s : Session} {db : Database} (hs : s.database = some db)
    (hdb : db.Reliable) (index team : Nat) :
    s.givePick index team =
      if !s.isTradable index then
        (.error (.pick (.notTradable index s.state.pointer s.schedule.size)), s)
      else
        match s.schedule.reassign index team with
        | none => (.error (.pick (.unknownTeam team s.schedule.numTeams)), s)
        | some (_, schedule) => (.ok (),
          { s with
            schedule
            database := some (db.written (db.store.saveTrade s.draftId index team)) }) := by
  unfold givePick
  split
  · rfl
  · cases s.schedule.reassign index team with
    | none => rfl
    | some result => simp only [hs, hdb.saveTrade]

theorem reset_of_reliable {s : Session} {db : Database} (hs : s.database = some db)
    (hdb : db.Reliable) {freshId : String} {store : Store}
    (hnew : db.store.newDraft freshId = .ok store) :
    s.reset freshId = (.ok (),
      { s with
        schedule := .snake s.config.draft.numTeams s.config.draft.rounds
        state := .start s.config.draft.numTeams s.board.size
        database := some (db.written store)
        draftId := freshId
        unsaved := 0 }) := by
  unfold reset
  simp only [hs, hdb.newDraft hnew]

/-- What is done to a session leaves it attached, with one draft more in the store if one is started, and
does the same to a session with its database opened anew. -/
structure Kept {α : Type} (s : Session) (db : Database) (freshId? : Option String)
    (run : Session → α × Session) : Prop where
  attached : ∃ after, (run s).2.Attached after ∧
    after.store.drafts = db.store.drafts ++ freshId?.toList
  settled : run s.settled = ((run s).1, (run s).2.settled)
  config : (run s).2.config = s.config
  board : (run s).2.board = s.board

section Kept

variable {α : Type} {s t : Session} {db after : Database} {freshId? : Option String}
  {run : Session → α × Session} {result : α}

theorem Kept.of_run (hrun : run s = (result, t)) (hsettled : run s.settled = (result, t.settled))
    (hattached : t.Attached after)
    (hdrafts : after.store.drafts = db.store.drafts ++ freshId?.toList)
    (hconfig : t.config = s.config) (hboard : t.board = s.board) : Kept s db freshId? run := by
  constructor
  case attached =>
    rw [hrun]
    exact ⟨after, hattached, hdrafts⟩
  case settled => rw [hsettled, hrun]
  case config => rw [hrun, hconfig]
  case board => rw [hrun, hboard]

theorem Attached.kept_of_same (h : s.Attached db) (hrun : run s = (result, s))
    (hsettled : run s.settled = (result, s.settled)) : Kept s db none run :=
  .of_run hrun hsettled h (by simp) rfl rfl

theorem Kept.congr (h : Kept s db freshId? run) {other : Session → α × Session}
    (hrun : other s = run s) (hsettled : other s.settled = run s.settled) :
    Kept s db freshId? other := by
  constructor
  case attached => simpa only [hrun] using h.attached
  case settled => simpa only [hrun, hsettled] using h.settled
  case config => simpa only [hrun] using h.config
  case board => simpa only [hrun] using h.board

theorem Kept.map {β : Type} (h : Kept s db freshId? run) (f : α → β) :
    Kept s db freshId? fun s => (f (run s).1, (run s).2) := by
  constructor
  case attached => exact h.attached
  case settled => simp only [h.settled]
  case config => exact h.config
  case board => exact h.board

end Kept

section Operations

variable {s : Session} {db : Database}

theorem Attached.settled_database (h : s.Attached db) :
    s.settled.database = some (.ofStore db.store) := by
  unfold Session.settled
  rw [h.database]
  rfl

theorem Attached.commitPick (h : s.Attached db) (selection : Selection) :
    Kept s db none (·.commitPick selection) := by
  have hrun := commitPick_of_reliable h.database h.reliable selection
  have hsettled := commitPick_of_reliable h.settled_database
    (Database.reliable_ofStore db.store) selection
  have hsame : s.settled.state.select s.settled.rules selection =
      s.state.select s.rules selection := rfl
  rw [hsame] at hsettled
  cases hselect : s.state.select s.rules selection with
  | error e =>
    simp only [hselect] at hrun hsettled
    exact h.kept_of_same hrun hsettled
  | ok result =>
    simp only [hselect] at hrun hsettled
    refine .of_run hrun hsettled ⟨rfl, h.reliable.written _, ?_, h.unsaved, h.started⟩ ?_ rfl rfl
    · exact (h.recorded.pick hselect).withHandle _
    · simp

theorem Attached.perform_choice (h : s.Attached db) {op : Operation}
    {choice : Except SessionError Selection} (hchoice : s.choice? op = some choice) :
    Kept s db none (·.perform op) := by
  have hsame : s.settled.choice? op = some choice := by
    rw [← hchoice]
    cases op <;> rfl
  have hrun := perform_of_choice hchoice
  have hsettled := perform_of_choice hsame
  cases choice with
  | error e => exact h.kept_of_same hrun hsettled
  | ok selection => exact ((h.commitPick selection).map Reply.picked).congr hrun hsettled

theorem Attached.undo (h : s.Attached db) : Kept s db none (·.undo) := by
  have hrun := undo_of_reliable h.database h.reliable
  have hsettled := undo_of_reliable h.settled_database (Database.reliable_ofStore db.store)
  have hsame : s.settled.state.undoLast s.settled.rules = s.state.undoLast s.rules := rfl
  rw [hsame] at hsettled
  cases hlast : s.state.undoLast s.rules with
  | none =>
    simp only [hlast] at hrun hsettled
    exact h.kept_of_same hrun hsettled
  | some result =>
    simp only [hlast] at hrun hsettled
    refine .of_run hrun hsettled ⟨rfl, h.reliable.written _, ?_, h.unsaved, h.started⟩ ?_ rfl rfl
    · exact (h.recorded.undo hlast).withHandle _
    · simp [Store.removePick]

theorem Attached.givePick (h : s.Attached db) (index team : Nat) :
    Kept s db none (·.givePick index team) := by
  have hrun := givePick_of_reliable h.database h.reliable index team
  have hsettled := givePick_of_reliable h.settled_database (Database.reliable_ofStore db.store)
    index team
  have htradable : s.settled.isTradable index = s.isTradable index := rfl
  have hsame : s.settled.schedule.reassign index team = s.schedule.reassign index team := rfl
  rw [htradable, hsame] at hsettled
  cases hindex : s.isTradable index with
  | false =>
    simp only [hindex] at hrun hsettled
    exact h.kept_of_same hrun hsettled
  | true =>
    cases hreassign : s.schedule.reassign index team with
    | none =>
      simp only [hindex, hreassign] at hrun hsettled
      exact h.kept_of_same hrun hsettled
    | some result =>
      simp only [hindex, hreassign] at hrun hsettled
      refine .of_run hrun hsettled ⟨rfl, h.reliable.written _, ?_, h.unsaved, h.started⟩ ?_ rfl rfl
      · exact (h.recorded.givePick hreassign).withHandle _
      · simp [Store.saveTrade]

theorem Attached.reset (h : s.Attached db) {freshId : String}
    (hfresh : freshId ∉ db.store.drafts) : Kept s db (some freshId) (·.reset freshId) := by
  let fresh : Session :=
    { s with
      schedule := .snake s.config.draft.numTeams s.config.draft.rounds
      state := .start s.config.draft.numTeams s.board.size
      draftId := freshId
      unsaved := 0 }
  obtain ⟨store, hnew, hdrafts, hrecorded⟩ :=
    recorded_newDraft (s := fresh) h.recorded.registered hfresh rfl rfl
  have hrun := reset_of_reliable h.database h.reliable hnew
  have hsettled := reset_of_reliable h.settled_database (Database.reliable_ofStore db.store) hnew
  refine .of_run hrun hsettled ⟨rfl, h.reliable.written _, ?_, rfl, h.started⟩ hdrafts rfl rfl
  exact hrecorded.withHandle _

/-- Every operation keeps a session attached, if it starts no draft a second time. -/
theorem Attached.perform (h : s.Attached db) (op : Operation)
    (hfresh : ∀ freshId, op.freshId? = some freshId → freshId ∉ db.store.drafts) :
    Kept s db op.freshId? (·.perform op) := by
  cases op with
  | makePick name => exact h.perform_choice rfl
  | bench name => exact h.perform_choice rfl
  | autoPick clock => exact h.perform_choice rfl
  | undo => exact h.undo.map Reply.undone
  | givePick index team => exact (h.givePick index team).map Reply.done
  | reset freshId => exact (h.reset (hfresh freshId rfl)).map Reply.done

theorem fresh_head {op : Operation} {ops : List Operation} {drafts : List String}
    (hfresh : ∀ freshId ∈ (op :: ops).filterMap Operation.freshId?, freshId ∉ drafts) :
    ∀ freshId, op.freshId? = some freshId → freshId ∉ drafts := by
  intro freshId hid
  exact hfresh freshId (List.mem_filterMap.mpr ⟨op, List.mem_cons_self, hid⟩)

theorem fresh_tail {op : Operation} {ops : List Operation} {drafts after : List String}
    (hnodup : ((op :: ops).filterMap Operation.freshId?).Nodup)
    (hfresh : ∀ freshId ∈ (op :: ops).filterMap Operation.freshId?, freshId ∉ drafts)
    (hafter : after = drafts ++ op.freshId?.toList) :
    (ops.filterMap Operation.freshId?).Nodup ∧
      ∀ freshId ∈ ops.filterMap Operation.freshId?, freshId ∉ after := by
  subst hafter
  cases hid : op.freshId? with
  | none =>
    rw [List.filterMap_cons_none hid] at hnodup hfresh
    rw [Option.toList_none, List.append_nil]
    exact ⟨hnodup, hfresh⟩
  | some id =>
    rw [List.filterMap_cons_some hid] at hnodup hfresh
    obtain ⟨hnew, hrest⟩ := List.nodup_cons.mp hnodup
    refine ⟨hrest, fun freshId hmem hdraft => ?_⟩
    rcases List.mem_append.mp hdraft with hold | hhead
    · exact hfresh freshId (List.mem_cons_of_mem id hmem) hold
    · rw [List.mem_singleton.mp hhead] at hmem
      exact hnew hmem

/-- Every run of operations keeps a session attached, if no two drafts have one id. -/
theorem Attached.performAll (h : s.Attached db) {ops : List Operation}
    (hnodup : (ops.filterMap Operation.freshId?).Nodup)
    (hfresh : ∀ freshId ∈ ops.filterMap Operation.freshId?, freshId ∉ db.store.drafts) :
    ∃ after, (s.performAll ops).2.Attached after ∧ (s.performAll ops).2.config = s.config ∧
      (s.performAll ops).2.board = s.board := by
  induction ops generalizing s db with
  | nil => exact ⟨db, h, rfl, rfl⟩
  | cons op ops ih =>
    have hkept := h.perform op (fresh_head hfresh)
    obtain ⟨after, hattached, hdrafts⟩ := hkept.attached
    obtain ⟨hnodup', hfresh'⟩ := fresh_tail hnodup hfresh hdrafts
    obtain ⟨last, hlast, hconfig, hboard⟩ := ih hattached hnodup' hfresh'
    exact ⟨last, hlast, hconfig.trans hkept.config, hboard.trans hkept.board⟩

end Operations

section Reopening

variable {s t : Session} {db other : Database}

/-- Sessions start with the same settings, up to a seed that no option fixes. -/
theorem ofOptions?_seed {options : SearchOptions} {seed : UInt64} {settings : Settings}
    (h : Settings.ofOptions? options seed = some settings) (again : UInt64) :
    ∃ others, Settings.ofOptions? options again = some others ∧
      (options.seed ≠ none → others = settings) := by
  unfold Settings.ofOptions? at h ⊢
  cases hbudget : Duration.ofSeconds? options.secondsPerPick with
  | none => simp [hbudget] at h
  | some budget =>
    simp only [hbudget, Option.map_some, Option.some.injEq] at h ⊢
    refine ⟨_, rfl, fun hseed => ?_⟩
    obtain ⟨fixed, hfixed⟩ := Option.ne_none_iff_exists'.mp hseed
    rw [← h, hfixed]
    rfl

theorem start_again {overflow : Overflow} {config : Config} {board : Board} {draftId : String} {seed : UInt64}
    {fresh : Session} (h : start overflow config board draftId seed = .ok fresh) (l : Launch) :
    ∃ settings, start overflow config board l.freshId l.freshSeed =
        .ok { fresh with draftId := l.freshId, settings } ∧
      (config.search.seed ≠ none → settings = fresh.settings) := by
  obtain ⟨settings, scores, hsettings, hscores, rfl⟩ := start_eq_ok h
  obtain ⟨others, hothers, hseed⟩ := ofOptions?_seed hsettings l.freshSeed
  have hagain : ∃ s, start overflow config board l.freshId l.freshSeed = .ok s :=
    exists_start_iff.mpr ⟨(exists_start_iff.mp ⟨_, h⟩).1, Option.isSome_of_eq_some hothers⟩
  obtain ⟨s, hs⟩ := hagain
  obtain ⟨settings', scores', hsettings', hscores', rfl⟩ := start_eq_ok hs
  obtain rfl := Option.some.inj (hothers.symm.trans hsettings')
  obtain rfl := Except.ok.inj (hscores.symm.trans hscores')
  exact ⟨others, hs, hseed⟩

/-- Sessions of the league start with the scores and settings of this one. -/
def Started (s : Session) : Prop :=
  ∃ draftId seed fresh, start s.overflow s.config s.board draftId seed = .ok fresh ∧
    fresh.scores = s.scores ∧ fresh.settings = s.settings

/-- Reopening a session gives it back with its database opened anew and the picks that are retained. Only a
seed that no option fixes is drawn again. -/
theorem Retains.reopen {kept : List Pick} (h : s.Retains db.store kept) (hs : s.database = some db)
    (hstarted : s.Started) (hnames : DistinctNames s.board.players) (hfits : FitsStore s.config)
    {state : DraftState}
    (hreplay : (DraftState.start s.config.draft.numTeams s.board.size).recordAll
      ⟨s.board, s.schedule, s.config.draft.requirements⟩
      (kept.map fun pick => { pick with slot := none }) = (none, state)) (l : Launch) :
    ∃ settings, s.reopen l = .ok { s.settled with settings, state, unsaved := 0 } ∧
      (s.config.search.seed ≠ none → settings = s.settings) ∧ Started { s with settings } := by
  obtain ⟨draftId, seed, fresh, hstart, hscores, hsettings⟩ := hstarted
  obtain ⟨settings, hagain, hseed⟩ := start_again hstart l
  obtain ⟨_, scores, -, -, rfl⟩ := start_eq_ok hstart
  refine ⟨settings, ?_, fun hfixed => (hseed hfixed).trans hsettings, _, _, _, hagain, hscores, rfl⟩
  have hcurrent : db.store.currentDraft = .ok (some s.draftId) := by
    unfold Store.currentDraft
    rw [h.current]
    simp
  unfold Session.reopen launch
  rw [hs]
  simp only [hagain, Option.map_some, Option.getD_some]
  unfold attach
  have hstore : (Database.ofStore db.store).store = db.store := rfl
  simp only [hstore, hcurrent]
  refine Eq.trans (h.restore hnames hfits hreplay rfl rfl rfl rfl rfl) ?_
  have hscores' : s.scores = scores := hscores.symm
  simp only [settled, hs, hscores', Option.map_some]

/-- Reopening a session gives it back with its database opened anew; only a seed that no option fixes is
drawn again. -/
theorem Attached.reopen (h : s.Attached db) (hnames : DistinctNames s.board.players)
    (hfits : FitsStore s.config) (l : Launch) :
    ∃ settings, s.reopen l = .ok { s.settled with settings } ∧
      (s.config.search.seed ≠ none → settings = s.settings) := by
  have hreplay := h.recorded.recordAll_picks
  obtain ⟨settings, hreopen, hseed, -⟩ :=
    h.recorded.retains.reopen h.database h.started hnames hfits hreplay l
  refine ⟨settings, ?_, hseed⟩
  rw [hreopen]
  simp only [settled, h.unsaved]

theorem Attached.settled (h : s.Attached db) : s.settled.Attached (.ofStore db.store) :=
  ⟨h.settled_database, Database.reliable_ofStore db.store, h.recorded.withHandle _, h.unsaved,
    h.started⟩

@[simp] theorem settled_settled (s : Session) : s.settled.settled = s.settled := by
  unfold Session.settled
  cases s.database <;> rfl

/-- Two sessions that are the same once settled have the same store. -/
theorem Attached.store_eq (hs : s.Attached db) (ht : t.Attached other)
    (hsame : t.settled = s.settled) : other.store = db.store := by
  have hdatabase := congrArg Session.database hsame
  rw [hs.settled_database, ht.settled_database] at hdatabase
  have hstore := congrArg Database.store (Option.some.inj hdatabase)
  exact hstore

/-- A session that is closed and opened again, any number of times, does what one session does. -/
theorem Attached.runAll (hs : s.Attached db) (ht : t.Attached other) (hsame : t.settled = s.settled)
    (hnames : DistinctNames s.board.players) (hfits : FitsStore s.config)
    (hseed : s.config.search.seed ≠ none) {events : List Event}
    (hnodup : ((events.filterMap Event.operation?).filterMap Operation.freshId?).Nodup)
    (hfresh : ∀ freshId ∈ (events.filterMap Event.operation?).filterMap Operation.freshId?,
      freshId ∉ db.store.drafts) :
    ∃ last, t.runAll events = .ok ((s.performAll (events.filterMap Event.operation?)).1, last) ∧
      last.settled = (s.performAll (events.filterMap Event.operation?)).2.settled := by
  induction events generalizing s t db other with
  | nil => exact ⟨t, rfl, hsame⟩
  | cons event events ih =>
    cases event with
    | operate op =>
      rw [List.filterMap_cons_some (rfl : (Event.operate op).operation? = some op)] at hnodup hfresh ⊢
      have hkept := hs.perform op (fresh_head hfresh)
      have hkept' := ht.perform op (by
        rw [hs.store_eq ht hsame]
        exact fresh_head hfresh)
      have hstep := hkept'.settled.symm.trans (hsame ▸ hkept.settled)
      obtain ⟨hreply, hsettled⟩ := Prod.mk.inj hstep
      obtain ⟨after, hattached, hdrafts⟩ := hkept.attached
      obtain ⟨after', hattached', -⟩ := hkept'.attached
      obtain ⟨hnodup', hfresh'⟩ := fresh_tail hnodup hfresh hdrafts
      obtain ⟨last, hlast, hlast'⟩ := ih hattached hattached' hsettled
        (by rw [hkept.board]; exact hnames) (by rw [hkept.config]; exact hfits)
        (by rw [hkept.config]; exact hseed) hnodup' hfresh'
      refine ⟨last, ?_, hlast'⟩
      unfold Session.runAll
      rw [hlast, hreply]
      rfl
    | reopen l =>
      rw [List.filterMap_cons_none (rfl : (Event.reopen l).operation? = none)] at hnodup hfresh ⊢
      have hboard := congrArg Session.board hsame
      have hconfig := congrArg Session.config hsame
      replace hboard : t.board = s.board := hboard
      replace hconfig : t.config = s.config := hconfig
      obtain ⟨settings, hreopen, hsettings⟩ := ht.reopen (by rwa [hboard]) (by rwa [hconfig]) l
      cases hsettings (by rwa [hconfig])
      obtain ⟨last, hlast, hlast'⟩ := ih hs ht.settled (by rwa [settled_settled]) hnames hfits hseed
        hnodup hfresh
      refine ⟨last, ?_, hlast'⟩
      unfold Session.runAll
      rw [hreopen]
      exact hlast

theorem attach_of_launch {overflow : Overflow} {config : Config} {board : Board} {l : Launch}
    (hlaunch : launch overflow config board db l = .ok s) :
    ∃ fresh, start overflow config board l.freshId l.freshSeed = .ok fresh ∧ fresh.attach db l.freshId = .ok s := by
  unfold launch at hlaunch
  cases hstart : start overflow config board l.freshId l.freshSeed with
  | error e => simp [hstart] at hlaunch
  | ok fresh =>
    rw [hstart] at hlaunch
    exact ⟨fresh, rfl, hlaunch⟩

/-- Opening a session on an empty store starts a draft that the store records. -/
theorem launch_eq {overflow : Overflow} {config : Config} {board : Board} (hnames : DistinctNames board.players)
    (hfits : FitsStore config) (hdb : db.Reliable) (hempty : db.store = .empty) {l : Launch}
    {fresh : Session} (hstart : start overflow config board l.freshId l.freshSeed = .ok fresh) :
    ∃ after, launch overflow config board db l = .ok { fresh with database := some after } ∧
      Attached { fresh with database := some after } after ∧ after.store.drafts = [l.freshId] := by
  obtain ⟨settings, scores, -, -, hfresh⟩ := start_eq_ok hstart
  have hnew : fresh.draftId ∉ db.store.drafts := by simp [hempty, Store.empty]
  have hregistered : db.store.Registered := hempty ▸ Store.registered_empty
  have hcurrent : db.store.currentDraft = .ok none := by
    rw [hempty]
    rfl
  obtain ⟨store, hstore, hdrafts, hrecorded⟩ :=
    recorded_newDraft hregistered hnew (by rw [hfresh]) (by rw [hfresh])
  have hattached := hrecorded.withHandle (some (db.written store))
  have hid : fresh.draftId = l.freshId := by rw [hfresh]
  have hconfig : fresh.config = config := by rw [hfresh]
  have hboard : fresh.board = board := by rw [hfresh]
  have hagain : start fresh.overflow fresh.config fresh.board l.freshId l.freshSeed = .ok fresh := by
    rw [show fresh.overflow = overflow by rw [hfresh], hconfig, hboard, hstart]
  have hrestore := hattached.restore (hboard ▸ hnames) (hconfig ▸ hfits) rfl rfl rfl
    (by rw [hfresh]) (by rw [hfresh])
  refine ⟨db.written store, ?_, ⟨rfl, hdb.written store, hattached, by rw [hfresh], ?_⟩, ?_⟩
  · rw [hid] at hstore
    unfold launch
    rw [hstart]
    unfold attach
    simp only [hcurrent, hdb.newDraft hstore]
    rw [← hid]
    exact hrestore
  · exact ⟨l.freshId, l.freshSeed, fresh, hagain, rfl, rfl⟩
  · rw [← hid, Database.store_written, hdrafts, hempty]
    rfl

theorem launch_ok {overflow : Overflow} {config : Config} {board : Board} (hnames : DistinctNames board.players)
    (hfits : FitsStore config) (hdb : db.Reliable) (hempty : db.store = .empty) {l : Launch}
    {fresh : Session} (hstart : start overflow config board l.freshId l.freshSeed = .ok fresh) :
    ∃ s after, launch overflow config board db l = .ok s ∧ s.Attached after ∧
      after.store.drafts = [l.freshId] ∧ s.config = config ∧ s.board = board := by
  obtain ⟨after, hlaunch, hattached, hdrafts⟩ := launch_eq hnames hfits hdb hempty hstart
  obtain ⟨settings, scores, -, -, rfl⟩ := start_eq_ok hstart
  exact ⟨_, after, hlaunch, hattached, hdrafts, rfl, rfl⟩

/-- On a store that starts empty and that every write reaches, a new session is the old one again, whatever
was done before; and where the seed is fixed, closing and reopening the session at any time changes neither
a result nor the session that remains. -/
theorem reopening_is_exact {rows : List Row} {board : Board} (hboard : Board.ofRows rows = .ok board)
    {config : Config} (hfits : FitsStore config) {db : Database} (hdb : db.Reliable)
    (hempty : db.store = .empty) {overflow : Overflow} {l : Launch} {s : Session}
    (hlaunch : launch overflow config board db l = .ok s) (events : List Event)
    (hids : (l.freshId ::
      (events.filterMap Event.operation?).filterMap Operation.freshId?).Nodup) :
    let live := s.performAll (events.filterMap Event.operation?)
    (∀ again, ∃ t, live.2.reopen again = .ok t ∧ t.draftId = live.2.draftId ∧
      t.schedule = live.2.schedule ∧ t.state = live.2.state) ∧
    (config.search.seed ≠ none →
      ∃ t, s.runAll events = .ok (live.1, t) ∧ t.settled = live.2.settled) := by
  intro live
  have hnames := Board.distinctNames_of_ofRows hboard
  obtain ⟨hnew, hnodup⟩ := List.nodup_cons.mp hids
  obtain ⟨fresh, hstart⟩ : ∃ fresh, start overflow config board l.freshId l.freshSeed = .ok fresh := by
    unfold launch at hlaunch
    cases hstart : start overflow config board l.freshId l.freshSeed with
    | error e => simp [hstart] at hlaunch
    | ok fresh => exact ⟨fresh, rfl⟩
  obtain ⟨_, after, hlaunch', hattached, hdrafts, rfl, rfl⟩ :=
    launch_ok hnames hfits hdb hempty hstart
  cases hlaunch.symm.trans hlaunch'
  have hfresh : ∀ freshId ∈ (events.filterMap Event.operation?).filterMap Operation.freshId?,
      freshId ∉ after.store.drafts := by
    intro freshId hmem hdraft
    rw [hdrafts, List.mem_singleton] at hdraft
    exact hnew (hdraft ▸ hmem)
  constructor
  · intro again
    obtain ⟨last, hlast, hconfig, hboard'⟩ := hattached.performAll hnodup hfresh
    obtain ⟨settings, hreopen, -⟩ := hlast.reopen (by rwa [hboard']) (by rwa [hconfig]) again
    exact ⟨_, hreopen, rfl, rfl, rfl⟩
  · intro hseed
    exact hattached.runAll hattached rfl hnames hfits hseed hnodup hfresh

theorem reopening_is_exact_for_two_teams :
    let config : Config :=
      ⟨⟨2, 1, none, .standard⟩, { seed := some 7, maxIterations := some 10 }, ⟨"board.csv", false⟩, none⟩
    let events : List Event := [.operate (.givePick 1 0), .reopen ⟨"third", 3⟩,
      .operate (.makePick "qb a"), .operate .undo, .operate (.autoPick (10 : Nat)), .reopen ⟨"fourth", 4⟩,
      .operate (.reset "second"), .operate (.bench "RB B")]
    ∃ board s, Board.ofRows [⟨2, "QB A", "QB", "10"⟩, ⟨3, "RB B", "RB", "8"⟩] = .ok board ∧
      launch .stops config board (.ofStore .empty) ⟨"first", 1⟩ = .ok s ∧
      ∃ t, s.runAll events = .ok ((s.performAll (events.filterMap Event.operation?)).1, t) := by
  intro config events
  have hok : (Board.ofRows [⟨2, "QB A", "QB", "10"⟩, ⟨3, "RB B", "RB", "8"⟩]).toOption.isSome := by
    decide +kernel
  have hbudget : (Settings.ofOptions? config.search 1).isSome := by
    decide +kernel
  have hrange : config.draft.InRange .stops :=
    ⟨by decide, by decide, fun _ position _ => by cases position <;> decide⟩
  cases hboard : Board.ofRows [⟨2, "QB A", "QB", "10"⟩, ⟨3, "RB B", "RB", "8"⟩] with
  | error e =>
    rw [hboard] at hok
    cases hok
  | ok board =>
    have hfits : FitsStore config := by
      unfold FitsStore
      decide
    have hstart : ∃ fresh, start .stops config board "first" 1 = .ok fresh :=
      exists_start_iff.mpr ⟨hrange, hbudget⟩
    obtain ⟨fresh, hfresh⟩ := hstart
    obtain ⟨s, -, hlaunch, -⟩ := launch_ok (l := ⟨"first", 1⟩) (Board.distinctNames_of_ofRows hboard)
      hfits (Database.reliable_ofStore .empty) rfl hfresh
    have hexact := reopening_is_exact hboard hfits (Database.reliable_ofStore .empty) rfl hlaunch events
      (by decide)
    obtain ⟨t, hrun, -⟩ := hexact.2 (by decide)
    exact ⟨board, s, rfl, hlaunch, t, hrun⟩

end Reopening

end SnakeDraft.Session
