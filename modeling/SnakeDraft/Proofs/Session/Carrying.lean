import SnakeDraft.Proofs.Session.Reopening
import SnakeDraft.Proofs.Session.World

/-!
Sessions that lose picks. A pick whose write fails is counted and the draft goes on in memory. The store
retains the other picks, those that are lost are no more than the count says, and all picks stand where the
schedule has them (`Session.Carries`), whichever picks are lost (`Session.Carries.performLosing`).
-/

namespace SnakeDraft

/-- Whether an operation is to make a pick. -/
def Operation.makesPick : Operation → Bool
  | makePick _ => true
  | bench _ => true
  | autoPick _ => true
  | _ => false

namespace Session

/-- The session whose next write fails, or whose writes succeed. -/
def withFailure (s : Session) (fails : Bool) : Session :=
  { s with database := s.database.map fun db => { db with failures := [fails] } }

/-- The session after operations. Picks are lost where it says so; all other writes succeed. -/
def performLosing (s : Session) : List (Operation × Bool) → Session
  | [] => s
  | (op, lost) :: rest => ((s.withFailure (op.makesPick && lost)).perform op).2.performLosing rest

/-- Picks were made by the teams, and in the rounds, of the schedule. -/
def OnSchedule (s : Session) : Prop :=
  ∀ (i : Nat) (pick : Pick), s.state.picks[i]? = some pick →
    ∃ turn, s.schedule.turn? i = some turn ∧ turn.team = pick.turn.team ∧ turn.round = pick.turn.round

/-- A session goes on with a draft of which its store retains these picks; the others are counted. -/
structure Carries (s : Session) (db : Database) (kept : List Pick) : Prop where
  database : s.database = some db
  unblocked : db.blocked = none
  hasPicks : db.picksLost = false
  retains : s.Retains db.store kept
  onSchedule : s.OnSchedule
  counted : s.state.pointer ≤ kept.length + s.unsaved
  started : s.Started

/-- What an operation leaves of a session that carries a draft, with one draft more in the store if one is
started. -/
structure GoesOn (s t : Session) (db : Database) (freshId? : Option String) : Prop where
  carries : ∃ after kept, t.Carries after kept ∧
    after.store.drafts = db.store.drafts ++ freshId?.toList
  config : t.config = s.config
  board : t.board = s.board

section OnSchedule

variable {s : Session}

theorem onSchedule_of_start {numTeams boardSize : Nat} (hstate : s.state = .start numTeams boardSize) : s.OnSchedule := by
  intro i pick hpick
  rw [hstate] at hpick
  simp [DraftState.start] at hpick

theorem OnSchedule.select (h : s.OnSchedule) {selection : Selection} {p : Pick} {state : DraftState}
    (hselect : s.state.select s.rules selection = .ok (p, state)) : OnSchedule { s with state } := by
  obtain ⟨turn, hturn, hrecord⟩ := DraftState.record_of_select hselect
  obtain ⟨slot, -, hpick, hhistory, -⟩ := DraftState.places_of_record hrecord
  intro i pick hi
  have hi' : (s.state.picks.push p)[i]? = some pick := hhistory ▸ hi
  rw [Array.getElem?_push] at hi'
  split at hi'
  · next heq =>
    obtain rfl := Option.some.inj hi'
    subst heq
    rw [hpick]
    exact ⟨turn, hturn, rfl, rfl⟩
  · exact h i pick hi'

theorem OnSchedule.undo (h : s.OnSchedule) {last : Pick} {state : DraftState}
    (hhistory : s.state.picks = state.picks.push last) : OnSchedule { s with state } := by
  intro i pick hi
  have hlt : i < state.picks.size := (Array.getElem?_eq_some_iff.mp hi).1
  refine h i pick ?_
  rw [hhistory, Array.getElem?_push_lt hlt]
  exact (Array.getElem?_eq_getElem hlt).symm.trans hi

theorem OnSchedule.givePick (h : s.OnSchedule) {index team owner : Nat} {schedule : Schedule}
    (htradable : s.isTradable index = true)
    (hreassign : s.schedule.reassign index team = some (owner, schedule)) :
    OnSchedule { s with schedule } := by
  intro i pick hi
  have hmade : i < s.state.pointer := (Array.getElem?_eq_some_iff.mp hi).1
  have hlater : s.state.pointer ≤ index := by
    simp only [isTradable, Bool.and_eq_true, decide_eq_true_eq] at htradable
    exact htradable.1
  have hsame : schedule.turn? i = s.schedule.turn? i := by
    rw [← Schedule.trade_of_reassign hreassign, Schedule.turn?_trade, if_neg]
    rintro ⟨rfl, -⟩
    omega
  show ∃ turn, schedule.turn? i = some turn ∧ _
  rw [hsame]
  exact h i pick hi

end OnSchedule

section Carries

variable {s : Session} {db : Database} {kept : List Pick}

theorem Carries.withFailure (h : s.Carries db kept) (fails : Bool) :
    (s.withFailure fails).Carries { db with failures := [fails] } kept := by
  refine ⟨?_, h.unblocked, h.hasPicks, h.retains.withHandle _, h.onSchedule, h.counted, h.started⟩
  unfold Session.withFailure
  rw [h.database]
  rfl

/-- A selection is stored, or it is lost and counted. -/
theorem Carries.commitPick (h : s.Carries db kept) (selection : Selection) :
    s.GoesOn (s.commitPick selection).2 db none := by
  unfold Session.commitPick
  cases hselect : s.state.select s.rules selection with
  | error e => exact ⟨⟨db, kept, h, by simp⟩, rfl, rfl⟩
  | ok result =>
    obtain ⟨p, state⟩ := result
    have honSchedule := h.onSchedule.select hselect
    have hpointer : state.pointer = s.state.pointer + 1 := by
      obtain ⟨turn, -, hrecord⟩ := DraftState.record_of_select hselect
      exact DraftState.pointer_of_record hrecord
    have hcounted := h.counted
    rcases persist_cases (s := { s with state }) h.database p with hlost | hstored
    · simp only [hlost]
      have hretains := (h.retains.lose hselect).withHandle (some db.afterWrite)
      refine ⟨⟨db.afterWrite, kept, ⟨rfl, h.unblocked, h.hasPicks, hretains.withUnsaved _, honSchedule, ?_,
        h.started⟩, by simp [Database.afterWrite]⟩, rfl, rfl⟩
      show state.pointer ≤ kept.length + (s.unsaved + 1)
      omega
    · simp only [hstored]
      have hretains := h.retains.pick hselect
      refine ⟨⟨_, kept ++ [p], ⟨rfl, h.unblocked, h.hasPicks, hretains.withHandle _, honSchedule, ?_,
        h.started⟩, by simp⟩, rfl, rfl⟩
      show state.pointer ≤ (kept ++ [p]).length + s.unsaved
      rw [List.length_append, List.length_singleton]
      omega

theorem Carries.perform_choice (h : s.Carries db kept) {op : Operation}
    {choice : Except SessionError Selection} (hchoice : s.choice? op = some choice) :
    s.GoesOn (s.perform op).2 db none := by
  rw [perform_of_choice hchoice]
  cases choice with
  | error e => exact ⟨⟨db, kept, h, by simp⟩, rfl, rfl⟩
  | ok selection => exact h.commitPick selection

theorem Carries.undo (h : s.Carries db kept) (hdb : db.Reliable) : s.GoesOn s.undo.2 db none := by
  rw [undo_of_reliable h.database hdb]
  cases hundo : s.state.undoLast s.rules with
  | none => exact ⟨⟨db, kept, h, by simp⟩, rfl, rfl⟩
  | some result =>
    obtain ⟨last, state⟩ := result
    have hretains := h.retains.undo hundo
    obtain ⟨-, hhistory⟩ := h.retains.built.before_undoLast hundo
    refine ⟨⟨_, _, ⟨rfl, h.unblocked, h.hasPicks, hretains.withHandle _, h.onSchedule.undo hhistory, ?_,
      h.started⟩, by simp [Store.removePick]⟩, rfl, rfl⟩
    -- the pick may be one of those that are lost, which are then one fewer than the count says
    have hpointer : s.state.pointer = state.pointer + 1 := by
      unfold DraftState.pointer
      rw [hhistory, Array.size_push]
    have hcounted := h.counted
    have hlength := h.retains.length_le_filter last.turn.index
    show state.pointer ≤ (kept.filter _).length + s.unsaved
    omega

theorem Carries.givePick (h : s.Carries db kept) (hdb : db.Reliable) (index team : Nat) :
    s.GoesOn (s.givePick index team).2 db none := by
  rw [givePick_of_reliable h.database hdb]
  cases htradable : s.isTradable index with
  | false => exact ⟨⟨db, kept, h, by simp⟩, rfl, rfl⟩
  | true =>
    cases hreassign : s.schedule.reassign index team with
    | none => exact ⟨⟨db, kept, h, by simp⟩, rfl, rfl⟩
    | some result =>
      have hretains := h.retains.givePick hreassign
      have honSchedule := h.onSchedule.givePick htradable hreassign
      exact ⟨⟨_, kept, ⟨rfl, h.unblocked, h.hasPicks, hretains.withHandle _, honSchedule, h.counted,
        h.started⟩, by simp [Store.saveTrade]⟩, rfl, rfl⟩

theorem Carries.reset (h : s.Carries db kept) (hdb : db.Reliable) {freshId : String}
    (hfresh : freshId ∉ db.store.drafts) : s.GoesOn (s.reset freshId).2 db (some freshId) := by
  let fresh : Session :=
    { s with
      schedule := .snake s.config.draft.numTeams s.config.draft.rounds
      state := .start s.config.draft.numTeams s.board.size
      draftId := freshId
      unsaved := 0 }
  obtain ⟨store, hnew, hdrafts, hretains⟩ :=
    retains_newDraft (s := fresh) h.retains.registered hfresh rfl rfl
  rw [reset_of_reliable h.database hdb hnew]
  have honSchedule : fresh.OnSchedule := onSchedule_of_start rfl
  exact ⟨⟨_, [], ⟨rfl, h.unblocked, h.hasPicks, hretains.withHandle _, honSchedule, Nat.zero_le _,
    h.started⟩, hdrafts⟩, rfl, rfl⟩

/-- Every operation goes on with the draft, whichever writes of picks fail. -/
theorem Carries.perform (h : s.Carries db kept) (op : Operation)
    (hdb : op.makesPick = false → db.Reliable)
    (hfresh : ∀ freshId, op.freshId? = some freshId → freshId ∉ db.store.drafts) :
    s.GoesOn (s.perform op).2 db op.freshId? := by
  cases op with
  | makePick name => exact h.perform_choice rfl
  | bench name => exact h.perform_choice rfl
  | autoPick clock => exact h.perform_choice rfl
  | undo => exact h.undo (hdb rfl)
  | givePick index team => exact h.givePick (hdb rfl) index team
  | reset freshId => exact h.reset (hdb rfl) (hfresh freshId rfl)

theorem Carries.perform_losing (h : s.Carries db kept) (op : Operation) (lost : Bool)
    (hfresh : ∀ freshId, op.freshId? = some freshId → freshId ∉ db.store.drafts) :
    s.GoesOn ((s.withFailure (op.makesPick && lost)).perform op).2 db op.freshId? := by
  have hnext := h.withFailure (op.makesPick && lost)
  have hgoesOn := hnext.perform op ?_ hfresh
  · exact ⟨hgoesOn.carries, hgoesOn.config, hgoesOn.board⟩
  · -- only writes of picks fail, so the other operations find a reliable database
    intro hno
    rw [hno]
    exact ⟨h.unblocked, h.hasPicks, by simp⟩

/-- Every run of operations leaves a session that carries its draft, whichever picks are lost. -/
theorem Carries.performLosing (h : s.Carries db kept) {ops : List (Operation × Bool)}
    (hnodup : ((ops.map (·.1)).filterMap Operation.freshId?).Nodup)
    (hfresh : ∀ freshId ∈ (ops.map (·.1)).filterMap Operation.freshId?, freshId ∉ db.store.drafts) :
    ∃ after kept', (s.performLosing ops).Carries after kept' ∧
      (s.performLosing ops).config = s.config ∧ (s.performLosing ops).board = s.board := by
  induction ops generalizing s db kept with
  | nil => exact ⟨db, kept, h, rfl, rfl⟩
  | cons first ops ih =>
    obtain ⟨op, lost⟩ := first
    rw [List.map_cons] at hnodup hfresh
    have hgoesOn := h.perform_losing op lost (fresh_head hfresh)
    obtain ⟨after, kept', hcarries, hdrafts⟩ := hgoesOn.carries
    obtain ⟨hnodup', hfresh'⟩ := fresh_tail hnodup hfresh hdrafts
    obtain ⟨last, kept'', hlast, hconfig, hboard⟩ := ih hcarries hnodup' hfresh'
    exact ⟨last, kept'', hlast, hconfig.trans hgoesOn.config, hboard.trans hgoesOn.board⟩

theorem Attached.carries (h : s.Attached db) (honSchedule : s.OnSchedule) :
    s.Carries db s.state.picks.toList := by
  refine ⟨h.database, h.reliable.unblocked, h.reliable.hasPicks, h.recorded.retains, honSchedule, ?_,
    h.started⟩
  rw [Array.length_toList]
  exact Nat.le_add_right _ _

end Carries

end Session

end SnakeDraft
