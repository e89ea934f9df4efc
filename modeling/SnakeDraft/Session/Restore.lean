import SnakeDraft.Session.Basic

/-!
Attaching a database to a session. The session adopts the current draft of the store, carries out its
trades and replays its picks; a store without a draft gets a new one.
-/

namespace SnakeDraft.Session

/-- The selection of a stored pick, its player found by name. -/
def selectionOf (board : Board) (p : StoredPick) : Except SessionError Selection :=
  let name := p.player.getD ""
  match p.kind, board.find? name with
  | .passed, _ => .ok .passed
  | .drafted, some id => .ok (.drafted id)
  | .benched, some id => .ok (.benched id)
  | _, none => .error (.strayPick p.number name)

/-- The picks to replay for stored ones, or the error of the first whose player is not on the
board. -/
def picksOfStored (board : Board) : List StoredPick → Except SessionError (List Pick)
  | [] => .ok []
  | p :: ps =>
    match selectionOf board p with
    | .error e => .error e
    | .ok selection =>
      (picksOfStored board ps).map (⟨⟨p.number, p.team, p.round⟩, selection, none⟩ :: ·)

/-- The session with the stored trades and picks of its draft. Trades that are out of range are left
out. -/
def restore (s : Session) (store : Store) : Except SessionError Session :=
  let s := { s with schedule := s.schedule.applyTrades (store.tradesOf s.draftId) }
  match store.picksOf s.draftId with
  | .error e => .error (.store e)
  | .ok [] => .ok s
  | .ok stored =>
    match picksOfStored s.board stored with
    | .error e => .error e
    | .ok picks =>
      match s.state.restore s.rules picks with
      | (some e, _) => .error (.replay s.draftId e)
      | (none, state) => .ok { s with state }

/-- A store brings in its trades, and its picks in place of those that are there unless it has none. -/
theorem of_restore {s t : Session} {store : Store} (h : s.restore store = .ok t) :
    ∃ state, t = { s with schedule := s.schedule.applyTrades (store.tradesOf s.draftId), state } ∧
      (store.picksOf s.draftId = .ok [] ∧ state = s.state ∨
        store.picksOf s.draftId ≠ .ok [] ∧ ∃ schedule picks,
          s.state.restore ⟨s.board, schedule, s.config.draft.requirements⟩ picks = (none, state)) := by
  unfold restore at h
  simp only at h
  split at h
  · cases h
  · next hnone =>
    cases h
    exact ⟨s.state, rfl, .inl ⟨hnone, rfl⟩⟩
  · next stored hsome hstored =>
    split at h
    · cases h
    · split at h
      · cases h
      · next state hrestore =>
        cases h
        refine ⟨state, rfl, .inr ⟨fun hnone => ?_, _, _, hrestore⟩⟩
        exact hsome (Except.ok.inj (hstored.symm.trans hnone))

/-- The session with a database attached. The fresh id is for the draft that a store without one
gets. -/
def attach (s : Session) (db : Database) (freshId : String) : Except SessionError Session :=
  match db.store.currentDraft with
  | .error e => .error (.store e)
  | .ok (some draftId) => restore { s with draftId, database := some db } db.store
  | .ok none =>
    match db.newDraft freshId with
    | (.error e, _) => .error (.store e)
    | (.ok (), db) => restore { s with draftId := freshId, database := some db } db.store

end SnakeDraft.Session
