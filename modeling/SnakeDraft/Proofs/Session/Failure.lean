import SnakeDraft.Proofs.Draft.Trades
import SnakeDraft.Proofs.Session.World

/-!
What an operation that fails leaves behind. An error of a pick or of a search leaves a session as it was. The
database is written to last, so when it refuses, an undo, a trade or a reset has been carried out in memory
already (`Session.failure_cases`): the store is as it was, but the session goes on from the changed draft.
-/

namespace SnakeDraft

namespace DraftState

variable {s t : DraftState} {rules : Rules}

theorem pointer_replay_le (s : DraftState) (rules : Rules) (picks : List Pick) :
    (s.replay rules picks).pointer ≤ s.pointer + picks.length := by
  induction picks generalizing s with
  | nil => exact Nat.le_refl _
  | cons pick picks ih =>
    rw [replay, List.foldl_cons, List.length_cons, ← replay]
    split
    · next next hrecord =>
      have hpointer := pointer_of_record hrecord
      have hrest := ih next
      omega
    · have hrest := ih s
      omega

theorem pointer_lt_of_undoLast {last : Pick} (h : s.undoLast rules = some (last, t)) :
    t.pointer < s.pointer := by
  obtain ⟨pick, hback, hundo⟩ := Option.map_eq_some_iff.mp h
  cases hundo
  have hpos : 0 < s.picks.size := by
    refine Nat.pos_of_ne_zero fun hzero => ?_
    simp [Array.back?, hzero] at hback
  have hle := pointer_replay_le (s.cleared rules.board.size) rules s.picks.pop.toList
  have hcleared : (s.cleared rules.board.size).pointer = 0 := rfl
  rw [Array.length_toList, Array.size_pop] at hle
  show ((s.cleared rules.board.size).replay rules s.picks.pop.toList).pointer < s.picks.size
  omega

end DraftState

/-- The error that a reply reports. -/
def Reply.error? : Reply → Option SessionError
  | picked (.error e) => some e
  | undone (.error e) => some e
  | done (.error e) => some e
  | _ => none

def SessionError.isOfStore : SessionError → Bool
  | store _ => true
  | _ => false

namespace Session

/-- The session with nothing to write to. -/
def detached (s : Session) : Session :=
  { s with database := none }

/-- Whether an operation that a database refuses has changed the draft in memory by then. -/
def Alters (s : Session) : Operation → Prop
  | .undo => s.state.pointer ≠ 0
  | .givePick index team => (s.schedule.turn? index).map (·.team) ≠ some team
  | .reset _ =>
    ¬(s.schedule = .snake s.config.draft.numTeams s.config.draft.rounds ∧
      s.state = .start s.config.draft.numTeams s.board.size)
  | _ => False

variable {s : Session} {db : Database} {op : Operation} {e : SessionError}

theorem commitPick_of_error {selection : Selection} (h : (s.commitPick selection).1 = .error e) :
    (s.commitPick selection).2 = s ∧ e.isOfStore = false := by
  unfold commitPick at h ⊢
  split at h
  · next error hselect =>
    cases h
    simp [SessionError.isOfStore]
  · cases h

theorem isOfStore_of_choice (h : s.choice? op = some (.error e)) : e.isOfStore = false := by
  cases op with
  | makePick name =>
    cases hfind : s.board.find? name <;> simp [choice?, hfind] at h
    subst h
    rfl
  | bench name =>
    cases hfind : s.board.find? name <;> simp [choice?, hfind] at h
    subst h
    rfl
  | autoPick clock =>
    simp only [choice?, think, Option.some.injEq] at h
    cases hsearch : search s.rules s.state s.settings
      (Policy.ofKind s.scores s.config.search.rollout) .ofSeed clock <;>
      simp [hsearch, Except.mapError, Except.map] at h
    subst h
    rfl
  | undo => cases h
  | givePick index team => cases h
  | reset freshId => cases h

/-- An operation that makes a pick fails before it changes anything. -/
theorem unchanged_of_choice {choice : Except SessionError Selection} (hchoice : s.choice? op = some choice)
    (herror : (s.perform op).1.error? = some e) : (s.perform op).2 = s ∧ e.isOfStore = false := by
  rw [perform_of_choice hchoice] at herror ⊢
  cases choice with
  | error error =>
    obtain rfl : error = e := by simpa [answer, Reply.error?] using herror
    exact ⟨rfl, isOfStore_of_choice hchoice⟩
  | ok selection =>
    apply commitPick_of_error
    show (s.commitPick selection).1 = .error e
    cases hcommit : (s.commitPick selection).1 with
    | ok r => simp [answer, hcommit, Reply.error?] at herror
    | error error => simpa [answer, hcommit, Reply.error?] using herror

/-- A failed operation leaves the session as it was, or the database has refused what the operation has done
in memory. -/
theorem failure_cases (hs : s.database = some db) (herror : (s.perform op).1.error? = some e) :
    (s.perform op).2 = s ∧ e.isOfStore = false ∨
      e.isOfStore = true ∧ s.choice? op = none ∧ (s.detached.perform op).1.error? = none ∧
        (s.perform op).2 =
          { s with
            schedule := (s.detached.perform op).2.schedule
            state := (s.detached.perform op).2.state
            database := some db.afterWrite } := by
  cases op with
  | makePick name => exact .inl (unchanged_of_choice rfl herror)
  | bench name => exact .inl (unchanged_of_choice rfl herror)
  | autoPick clock => exact .inl (unchanged_of_choice rfl herror)
  | undo =>
    simp only [perform] at herror ⊢
    unfold undo at herror ⊢
    cases hundo : s.state.undoLast s.rules with
    | none => simp [hundo, Reply.error?] at herror
    | some result =>
      obtain ⟨p, state⟩ := result
      have hundo' : s.detached.state.undoLast s.detached.rules = some (p, state) := hundo
      simp only [hundo, hs] at herror ⊢
      rcases db.removePick_cases s.draftId p.turn.index with ⟨error, hfail⟩ | hok
      · simp only [hfail] at herror ⊢
        cases herror
        simp only [hundo']
        exact .inr ⟨rfl, rfl, rfl, rfl⟩
      · simp [hok, Reply.error?] at herror
  | givePick index team =>
    simp only [perform] at herror ⊢
    unfold givePick at herror ⊢
    by_cases htradable : s.isTradable index = true
    · have htradable' : s.detached.isTradable index = true := htradable
      cases hreassign : s.schedule.reassign index team with
      | none =>
        simp only [htradable, hreassign, Bool.not_true, Bool.false_eq_true, if_false] at herror ⊢
        cases herror
        exact .inl ⟨trivial, rfl⟩
      | some result =>
        obtain ⟨owner, schedule⟩ := result
        have hreassign' : s.detached.schedule.reassign index team = some (owner, schedule) := hreassign
        simp only [htradable, hreassign, hs, Bool.not_true, Bool.false_eq_true, if_false] at herror ⊢
        rcases db.saveTrade_cases s.draftId index team with ⟨error, hfail⟩ | hok
        · simp only [hfail] at herror ⊢
          cases herror
          simp only [htradable', hreassign', Bool.not_true, Bool.false_eq_true, if_false]
          exact .inr ⟨rfl, rfl, rfl, rfl⟩
        · simp [hok, Reply.error?] at herror
    · simp only [htradable, Bool.not_false, if_true] at herror ⊢
      cases herror
      exact .inl ⟨trivial, rfl⟩
  | reset freshId =>
    simp only [perform] at herror ⊢
    unfold reset at herror ⊢
    simp only [hs] at herror ⊢
    rcases db.newDraft_cases freshId with ⟨error, hfail⟩ | ⟨next, -, hok⟩
    · simp only [hfail] at herror ⊢
      cases herror
      exact .inr ⟨rfl, rfl, rfl, rfl⟩
    · simp [hok, Reply.error?] at herror

/-- In memory alone, an operation that succeeds changes the draft exactly if it alters it. -/
theorem detached_unchanged_iff (hchoice : s.choice? op = none)
    (hok : (s.detached.perform op).1.error? = none) :
    ((s.detached.perform op).2.schedule = s.schedule ∧ (s.detached.perform op).2.state = s.state) ↔
      ¬ s.Alters op := by
  cases op with
  | makePick name => cases hchoice
  | bench name => cases hchoice
  | autoPick clock => cases hchoice
  | undo =>
    simp only [perform, Alters, not_not]
    unfold undo
    cases hundo : s.detached.state.undoLast s.detached.rules with
    | none =>
      have hback : s.state.picks.back? = none := Option.map_eq_none_iff.mp hundo
      have hpointer : s.state.pointer = 0 := by
        simpa [Array.back?_eq_none_iff, DraftState.pointer] using hback
      simp [hpointer, detached]
    | some result =>
      obtain ⟨p, state⟩ := result
      have hlt : state.pointer < s.state.pointer := DraftState.pointer_lt_of_undoLast hundo
      constructor
      · rintro ⟨-, hstate⟩
        have hstate' : state = s.state := hstate
        rw [hstate'] at hlt
        omega
      · intro hzero
        omega
  | givePick index team =>
    simp only [perform, Alters, not_not] at hok ⊢
    unfold givePick at hok ⊢
    split at hok
    · cases hok
    · next htradable =>
      split at hok
      · cases hok
      · next owner schedule hreassign =>
        simp only [htradable, Bool.false_eq_true, if_false]
        have hsame : schedule = s.schedule ↔ _ := Schedule.reassign_eq_self_iff hreassign
        exact (and_iff_left rfl).trans hsame
  | reset freshId =>
    simp only [Alters, not_not]
    exact and_congr eq_comm eq_comm

/-- An operation that fails leaves the store, the id of the draft and the count of unsaved picks as they
were. The draft in memory is as it was unless the database refused a change that was made in it. -/
theorem failed_operation_keeps_draft_iff (hs : s.database = some db)
    (herror : (s.perform op).1.error? = some e) :
    ((s.perform op).2.store = s.store ∧ (s.perform op).2.draftId = s.draftId ∧
      (s.perform op).2.unsaved = s.unsaved) ∧
    (((s.perform op).2.schedule = s.schedule ∧ (s.perform op).2.state = s.state) ↔
      ¬(e.isOfStore = true ∧ s.Alters op)) := by
  rcases failure_cases hs herror with ⟨hsame, hkind⟩ | ⟨hkind, hchoice, hok, haltered⟩
  · rw [hsame, hkind]
    simp
  · have hunchanged := detached_unchanged_iff hchoice hok
    rw [haltered, hkind]
    refine ⟨⟨?_, rfl, rfl⟩, ?_⟩
    · rw [store_of_database hs]
      rfl
    · simpa using hunchanged

end Session

namespace World

theorem failed_reset_keeps_fresh_draft :
    let config : Config := ⟨⟨1, 1, none, .standard⟩, {}, ⟨"board.csv", false⟩, none⟩
    let board := Board.ofPlayers #[⟨"QB A", .quarterback, 10, 1⟩]
    let w := run [.launch .stops config board [] ⟨"first", 1⟩]
    ∃ s e, w.sessions[0]?.map (·.withDatabase (w.database [true])) = some s ∧
      s.database = some (w.database [true]) ∧
      (s.perform (.reset "second")).1.error? = some e ∧
      (s.perform (.reset "second")).2.schedule = s.schedule ∧
      (s.perform (.reset "second")).2.state = s.state := by
  intro config board w
  have hcheck : (w.sessions[0]?.map (·.withDatabase (w.database [true]))).any (fun s =>
      (s.perform (.reset "second")).1.error?.isSome ∧
      s.schedule = .snake s.config.draft.numTeams s.config.draft.rounds ∧
      s.state = .start s.config.draft.numTeams s.board.size) = true := by
    decide +kernel
  obtain ⟨s, hsession, hfound⟩ := (Option.any_eq_true _ _).mp hcheck
  obtain ⟨hfails, hfresh⟩ : (s.perform (.reset "second")).1.error?.isSome ∧ _ :=
    of_decide_eq_true hfound
  obtain ⟨e, he⟩ := Option.isSome_iff_exists.mp hfails
  have hdatabase : s.database = some (w.database [true]) := by
    obtain ⟨t, -, rfl⟩ := Option.map_eq_some_iff.mp hsession
    rfl
  have hkept := (Session.failed_operation_keeps_draft_iff hdatabase he).2
  refine ⟨s, e, hsession, hdatabase, he, hkept.mpr ?_⟩
  rintro ⟨-, halters⟩
  exact halters hfresh

/-- An undo that the store refuses takes back in memory the pick that the store keeps. -/
theorem failed_undo_drops_pick :
    let config : Config := ⟨⟨1, 1, none, .standard⟩, {}, ⟨"board.csv", false⟩, none⟩
    let board := Board.ofPlayers #[⟨"QB A", .quarterback, 10, 1⟩]
    let w := run [.launch .stops config board [] ⟨"first", 1⟩, .operate 0 [] (.makePick "QB A")]
    ∃ s e, w.sessions[0]?.map (·.withDatabase (w.database [true])) = some s ∧
      (s.perform .undo).1.error? = some e ∧ (s.perform .undo).2.state ≠ s.state ∧
      (s.perform .undo).2.store = s.store ∧ s.store.picks ≠ [] ∧
      (s.perform .undo).2.state.picks = #[] := by
  intro config board w
  have hcheck : (w.sessions[0]?.map (·.withDatabase (w.database [true]))).any (fun s =>
      (s.perform .undo).1.error?.isSome ∧ (s.perform .undo).2.state ≠ s.state ∧
      (s.perform .undo).2.store = s.store ∧ s.store.picks ≠ [] ∧
      (s.perform .undo).2.state.picks = #[]) = true := by
    decide +kernel
  obtain ⟨s, hsession, hfound⟩ := (Option.any_eq_true _ _).mp hcheck
  obtain ⟨hfails, hdiffers⟩ : (s.perform .undo).1.error?.isSome ∧ _ := of_decide_eq_true hfound
  obtain ⟨e, he⟩ := Option.isSome_iff_exists.mp hfails
  exact ⟨s, e, hsession, he, hdiffers⟩

end World

end SnakeDraft
