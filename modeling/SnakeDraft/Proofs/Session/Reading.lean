import SnakeDraft.Proofs.Board.Counterparts
import SnakeDraft.Proofs.Draft.Renaming
import SnakeDraft.Proofs.Session.Operations

/-!
Reading stored picks. A stored pick names its player, who is looked up on the board of the session. What a session
stored is read back on its own board as the picks that it made (`Session.picksOfStored_recordOf`), and on another
board that has all the players as the same picks by their counterparts there (`Session.picksOfStored_counterpart`).
-/

namespace SnakeDraft.Session

/-- The selection of a pick is found again by the name of its player. -/
theorem selectionOf_recordOf {s : Session} (hnames : DistinctNames s.board.players) {pick : Pick}
    (hknown : ∀ id, pick.selection.player? = some id → ∃ player, s.board.player? id = some player) :
    selectionOf s.board (s.recordOf pick).toStored = .ok pick.selection := by
  obtain ⟨turn, selection, slot⟩ := pick
  cases selection with
  | passed => rfl
  | drafted id =>
    obtain ⟨player, hplayer⟩ := hknown id rfl
    simp [selectionOf, PickRecord.toStored, recordOf, kindOf, Selection.player?, hplayer,
      Board.find?_name hnames hplayer]
  | benched id =>
    obtain ⟨player, hplayer⟩ := hknown id rfl
    simp [selectionOf, PickRecord.toStored, recordOf, kindOf, Selection.player?, hplayer,
      Board.find?_name hnames hplayer]

theorem picksOfStored_recordOf {s : Session} (hnames : DistinctNames s.board.players)
    {picks : List Pick}
    (hknown : ∀ pick ∈ picks, ∀ id, pick.selection.player? = some id →
      ∃ player, s.board.player? id = some player) :
    picksOfStored s.board (picks.map fun pick => (s.recordOf pick).toStored) =
      .ok (picks.map fun pick => { pick with slot := none }) := by
  induction picks with
  | nil => rfl
  | cons pick picks ih =>
    have hselection := selectionOf_recordOf hnames (hknown pick List.mem_cons_self)
    have hrest := ih fun other hother => hknown other (List.mem_cons_of_mem pick hother)
    rw [List.map_cons, picksOfStored, hselection, hrest]
    rfl

variable {board other : Board} {stored : List StoredPick} {picks : List Pick}

theorem picksOfStored_cons_eq_ok {p : StoredPick} (h : picksOfStored board (p :: stored) = .ok picks) :
    ∃ selection rest, selectionOf board p = .ok selection ∧ picksOfStored board stored = .ok rest ∧
      picks = ⟨⟨p.number, p.team, p.round⟩, selection, none⟩ :: rest := by
  rw [picksOfStored] at h
  cases hselection : selectionOf board p with
  | error e => simp [hselection] at h
  | ok selection =>
    cases hrest : picksOfStored board stored with
    | error e => simp [hselection, hrest, Except.map] at h
    | ok rest =>
      simp only [hselection, hrest, Except.map, Except.ok.injEq] at h
      exact ⟨selection, rest, rfl, rfl, h.symm⟩

theorem picksOfStored_append {more : List StoredPick} {others : List Pick}
    (h : picksOfStored board stored = .ok picks) (hmore : picksOfStored board more = .ok others) :
    picksOfStored board (stored ++ more) = .ok (picks ++ others) := by
  induction stored generalizing picks with
  | nil =>
    cases h
    exact hmore
  | cons p stored ih =>
    obtain ⟨selection, rest, hselection, hrest, rfl⟩ := picksOfStored_cons_eq_ok h
    rw [List.cons_append, picksOfStored, hselection, ih hrest]
    rfl

/-- Picks are chosen by number before they are read or after. -/
theorem picksOfStored_filter (h : picksOfStored board stored = .ok picks) (keep : Nat → Bool) :
    picksOfStored board (stored.filter fun p => keep p.number) =
      .ok (picks.filter fun pick => keep pick.turn.index) := by
  induction stored generalizing picks with
  | nil =>
    cases h
    rfl
  | cons p stored ih =>
    obtain ⟨selection, rest, hselection, hrest, rfl⟩ := picksOfStored_cons_eq_ok h
    cases hkeep : keep p.number with
    | false =>
      simp only [List.filter_cons, hkeep]
      exact ih hrest
    | true =>
      simp only [List.filter_cons, hkeep, if_true]
      rw [picksOfStored, hselection, ih hrest]
      rfl

theorem numbers_of_picksOfStored (h : picksOfStored board stored = .ok picks) :
    picks.map (·.turn.index) = stored.map (·.number) := by
  induction stored generalizing picks with
  | nil =>
    cases h
    rfl
  | cons p stored ih =>
    obtain ⟨selection, rest, -, hrest, rfl⟩ := picksOfStored_cons_eq_ok h
    rw [List.map_cons, List.map_cons, ih hrest]

theorem slot_of_picksOfStored (h : picksOfStored board stored = .ok picks) :
    ∀ pick ∈ picks, pick.slot = none := by
  induction stored generalizing picks with
  | nil =>
    cases h
    simp
  | cons p stored ih =>
    obtain ⟨selection, rest, -, hrest, rfl⟩ := picksOfStored_cons_eq_ok h
    intro pick hpick
    rcases List.mem_cons.mp hpick with rfl | hmem
    · rfl
    · exact ih hrest pick hmem

theorem selectionOf_counterpart (hnames : DistinctNames board.players) (hother : DistinctNames other.players)
    {p : StoredPick} {selection : Selection} (h : selectionOf board p = .ok selection)
    (hlike : ∀ id, selection.player? = some id →
      ∃ player, board.player? id = some player ∧ other.HasLike player) :
    selectionOf other p = .ok (selection.rename (board.counterpart other)) := by
  have hfind : ∀ id, selection.player? = some id → board.find? (p.player.getD "") = some id →
      other.find? (p.player.getD "") = some (board.counterpart other id) := by
    intro id hid hfound
    obtain ⟨player, hplayer, hthere⟩ := hlike id hid
    obtain ⟨_, -, -, -, hspelled⟩ := Board.find?_counterpart hnames hother hplayer hthere
    exact hspelled _ hfound
  unfold selectionOf at h ⊢
  cases hkind : p.kind with
  | passed =>
    simp only [hkind] at h ⊢
    cases h
    rfl
  | drafted =>
    cases hfound : board.find? (p.player.getD "") with
    | none => simp [hkind, hfound] at h
    | some id =>
      simp only [hkind, hfound] at h
      cases h
      simp only [hfind id rfl hfound]
      rfl
  | benched =>
    cases hfound : board.find? (p.player.getD "") with
    | none => simp [hkind, hfound] at h
    | some id =>
      simp only [hkind, hfound] at h
      cases h
      simp only [hfind id rfl hfound]
      rfl

/-- Another board that has all the players reads the same picks by their counterparts. -/
theorem picksOfStored_counterpart (hnames : DistinctNames board.players)
    (hother : DistinctNames other.players) (h : picksOfStored board stored = .ok picks)
    (hlike : ∀ pick ∈ picks, ∀ id, pick.selection.player? = some id →
      ∃ player, board.player? id = some player ∧ other.HasLike player) :
    picksOfStored other stored = .ok (picks.map (Pick.rename (board.counterpart other))) := by
  induction stored generalizing picks with
  | nil =>
    cases h
    rfl
  | cons p stored ih =>
    obtain ⟨selection, rest, hselection, hrest, rfl⟩ := picksOfStored_cons_eq_ok h
    have hfirst := selectionOf_counterpart hnames hother hselection (hlike _ List.mem_cons_self)
    have hothers := ih hrest fun pick hpick => hlike pick (List.mem_cons_of_mem _ hpick)
    rw [picksOfStored, hfirst, hothers]
    rfl

end SnakeDraft.Session
