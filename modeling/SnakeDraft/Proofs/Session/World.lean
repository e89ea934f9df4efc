import SnakeDraft.Proofs.Session.Operations
import SnakeDraft.Proofs.Store.Keys
import SnakeDraft.Proofs.Store.Writes

/-!
Several sessions on one store. Each session acts on the store as the others have left it, and any of its
writes may fail. An operation writes to the store once at most (`Session.written_perform`), so the store that
any history leaves behind is keyed (`World.keyed_run`).
-/

namespace SnakeDraft

namespace Session

/-- The session with its database as it stands now. -/
def withDatabase (s : Session) (db : Database) : Session :=
  { s with database := some db }

/-- What the database of a session holds. -/
def store (s : Session) : Store :=
  (s.database.map (·.store)).getD .empty

theorem store_of_database {s : Session} {db : Database} (hs : s.database = some db) :
    s.store = db.store := by
  unfold store
  rw [hs]
  rfl

/-- A pick is counted as unsaved, or it is handed to the store. -/
theorem persist_cases {s : Session} {db : Database} (hs : s.database = some db) (p : Pick) :
    s.persist p = { s with database := some db.afterWrite, unsaved := s.unsaved + 1 } ∨
      s.persist p =
        { s with
          database := some
            (db.written (db.store.savePick s.draftId (s.recordOf p).toStored)) } := by
  unfold persist
  simp only [hs]
  rcases db.savePick_cases s.draftId (s.recordOf p).toStored with ⟨e, hfail⟩ | hok
  · rw [hfail]
    exact .inl rfl
  · rw [hok]
    exact .inr rfl

theorem written_commitPick {s : Session} {db : Database} (hs : s.database = some db)
    (selection : Selection) : db.store.Written (s.commitPick selection).2.store := by
  unfold commitPick
  split
  · rw [store_of_database hs]
    exact .same
  · next p state _ =>
    rcases persist_cases (s := { s with state }) hs p with hfail | hok
    · rw [hfail]
      exact Store.Written.same
    · rw [hok]
      exact Store.Written.savePick _ _

/-- Whatever is asked of a session, it writes once to its store or not at all. -/
theorem written_perform {s : Session} {db : Database} (hs : s.database = some db) (op : Operation) :
    db.store.Written (s.perform op).2.store := by
  have hsame : db.store.Written s.store := by
    rw [store_of_database hs]
    exact .same
  have hchoice : ∀ choice, s.choice? op = some choice → db.store.Written (s.perform op).2.store := by
    intro choice hchoice
    rw [perform_of_choice hchoice]
    cases choice with
    | error e => exact hsame
    | ok selection => exact written_commitPick hs selection
  cases op with
  | makePick name => exact hchoice _ rfl
  | bench name => exact hchoice _ rfl
  | autoPick clock => exact hchoice _ rfl
  | undo =>
    show db.store.Written s.undo.2.store
    unfold undo
    split
    · exact hsame
    · next p state _ =>
      simp only [hs]
      rcases db.removePick_cases s.draftId p.turn.index with ⟨e, hfail⟩ | hok
      · simp only [hfail]
        exact .same
      · simp only [hok]
        exact .removePick _ _
  | givePick index team =>
    show db.store.Written (s.givePick index team).2.store
    unfold givePick
    split
    · exact hsame
    · split
      · exact hsame
      · simp only [hs]
        rcases db.saveTrade_cases s.draftId index team with ⟨e, hfail⟩ | hok
        · simp only [hfail]
          exact .same
        · simp only [hok]
          exact .saveTrade _ _ _
  | reset freshId =>
    show db.store.Written (s.reset freshId).2.store
    unfold reset
    simp only [hs]
    rcases db.newDraft_cases freshId with ⟨e, hfail⟩ | ⟨next, hnext, hok⟩
    · simp only [hfail]
      exact .same
    · simp only [hok]
      exact .newDraft hnext

theorem database_of_restore {s t : Session} {store : Store} (h : s.restore store = .ok t) :
    t.database = s.database := by
  obtain ⟨state, rfl, -⟩ := of_restore h
  rfl

/-- Opening a session starts one draft in the store or none. -/
theorem written_launch {overflow : Overflow} {config : Config} {board : Board} {db : Database} {l : Launch}
    {s : Session} (h : launch overflow config board db l = .ok s) : db.store.Written s.store := by
  unfold launch at h
  split at h
  · cases h
  · next fresh _ =>
    unfold attach at h
    split at h
    · cases h
    · rw [store_of_database (database_of_restore h)]
      exact .same
    · rcases db.newDraft_cases l.freshId with ⟨e, hfail⟩ | ⟨next, hnext, hok⟩
      · simp [hfail] at h
      · simp only [hok] at h
        rw [store_of_database (database_of_restore h)]
        exact .newDraft hnext

end Session

/-- A store and the sessions that were opened on it. -/
structure World where
  store : Store
  sessions : List Session

/-- What happens in a world. Each time it is said which of the next writes fail. -/
inductive Action where
  | launch (overflow : Overflow) (config : Config) (board : Board) (failures : List Bool) (l : Launch)
  | operate (session : Nat) (failures : List Bool) (op : Operation)

namespace World

def empty : World := ⟨.empty, []⟩

/-- The database that a session finds. -/
def database (w : World) (failures : List Bool) : Database :=
  { store := w.store, failures }

/-- The world after an action. A session that cannot be opened leaves it as it is, since a draft that was
just started has nothing that could fail to be restored. -/
def act (w : World) : Action → World
  | .launch overflow config board failures l =>
    match Session.launch overflow config board (w.database failures) l with
    | .error _ => w
    | .ok s => ⟨s.store, w.sessions ++ [s]⟩
  | .operate session failures op =>
    match w.sessions[session]? with
    | none => w
    | some s =>
      let t := ((s.withDatabase (w.database failures)).perform op).2
      ⟨t.store, w.sessions.set session t⟩

/-- The world that a history leads to. -/
def run (actions : List Action) : World :=
  actions.foldl act empty

/-- The pick that a session of a world makes by an operation: the session before, what is reported, and the
session after. -/
def pick? (w : World) (session : Nat) (failures : List Bool) (op : Operation) :
    Option (Session × PickRecord × Session) :=
  w.sessions[session]?.bind fun s =>
    match (s.withDatabase (w.database failures)).perform op with
    | (.picked (.ok r), t) => some (s, r, t)
    | _ => none

theorem pick?_eq_some {w : World} {session : Nat} {failures : List Bool} {op : Operation}
    {s t : Session} {r : PickRecord} (h : w.pick? session failures op = some (s, r, t)) :
    w.sessions[session]? = some s ∧
      (s.withDatabase (w.database failures)).perform op = (.picked (.ok r), t) := by
  obtain ⟨found, hfound, hpick⟩ := Option.bind_eq_some_iff.mp h
  split at hpick
  · next hperform =>
    cases hpick
    exact ⟨hfound, hperform⟩
  · cases hpick

theorem written_act (w : World) (action : Action) : w.store.Written (w.act action).store := by
  cases action with
  | launch overflow config board failures l =>
    simp only [act]
    split
    · exact .same
    · next s hlaunch =>
      have hwritten := Session.written_launch hlaunch
      exact hwritten
  | operate session failures op =>
    simp only [act]
    split
    · exact .same
    · next s _ =>
      have hdatabase : (s.withDatabase (w.database failures)).database =
          some (w.database failures) := rfl
      have hwritten := Session.written_perform hdatabase op
      exact hwritten

/-- In every world that a history leads to, a draft and a number stand for one pick. -/
theorem keyed_run (actions : List Action) : (run actions).store.Keyed := by
  have hfold : ∀ (actions : List Action) (w : World), w.store.Keyed →
      (actions.foldl act w).store.Keyed := by
    intro actions
    induction actions with
    | nil => exact fun _ h => h
    | cons action actions ih => exact fun w h => ih (w.act action) ((w.written_act action).keyed h)
  exact hfold actions empty Store.keyed_empty

end World

end SnakeDraft
