import SnakeDraft.Proofs.Draft.Replaying

/-!
Restoring a draft from a history. A history either applies as a whole or breaks off at its first pick that is
refused, and what was in the state before leaves no trace. The picks of a draft restore that draft, whatever
numbers and slots stand in them.
-/

namespace SnakeDraft

/-- A pick with another number and another slot. -/
def Pick.forged (pick : Pick) (index : Nat) (slot : Option Position) : Pick :=
  { pick with turn := { pick.turn with index }, slot }

namespace DraftState

/-- Picks are recorded one after the other, each by the team that made it. -/
inductive Records (rules : Rules) : DraftState → List Pick → DraftState → Prop where
  | nil (s : DraftState) : Records rules s [] s
  | cons {s t u : DraftState} {pick own : Pick} {picks : List Pick}
      (hrecord : s.record rules pick.turn pick.selection = .ok (own, t))
      (hrest : Records rules t picks u) : Records rules s (pick :: picks) u

variable {s t : DraftState} {rules : Rules} {picks : List Pick}

theorem recordAll_of_records (h : Records rules s picks t) : s.recordAll rules picks = (none, t) := by
  induction h with
  | nil s => rfl
  | cons hrecord _ ih =>
    rw [recordAll, hrecord]
    exact ih

/-- A history is recorded as a whole, or up to its first pick that is refused. -/
theorem recordAll_cases (s : DraftState) (rules : Rules) (picks : List Pick) :
    (∃ t, Records rules s picks t ∧ s.recordAll rules picks = (none, t)) ∨
      ∃ before pick after t e, picks = before ++ pick :: after ∧ Records rules s before t ∧
        t.record rules pick.turn pick.selection = .error e ∧
        s.recordAll rules picks = (some e, t) := by
  induction picks generalizing s with
  | nil => exact .inl ⟨s, .nil s, rfl⟩
  | cons pick picks ih =>
    rw [recordAll]
    cases hrecord : s.record rules pick.turn pick.selection with
    | error e => exact .inr ⟨[], pick, picks, s, e, rfl, .nil s, hrecord, rfl⟩
    | ok result =>
      obtain ⟨own, next⟩ := result
      rcases ih next with ⟨t, hrecords, hrun⟩ | ⟨before, refused, after, t, e, rfl, hrecords, herror, hrun⟩
      · exact .inl ⟨t, .cons hrecord hrecords, hrun⟩
      · exact .inr ⟨pick :: before, refused, after, t, e, rfl, .cons hrecord hrecords, herror, hrun⟩

theorem account_forged (picks : List Pick) (index : Nat → Nat) (slot : Nat → Option Position) :
    (picks.mapIdx fun i pick => pick.forged (index i) (slot i)).map Pick.account =
      picks.map Pick.account := by
  apply List.ext_getElem?
  intro i
  rw [List.getElem?_map, List.getElem?_mapIdx, List.getElem?_map, Option.map_map]
  rfl

/-- Whatever a state holds and whatever the schedule, the picks of a draft with as many teams restore that draft
in it, though their numbers and slots may be forged. Any history leads to a state that the former one has no part
in but for the number of teams: it is recorded as a whole, or the error is that of the first pick refused after
those before it, and these are what is restored. -/
theorem restoring_inverts_picks (board : Board) (reqs : Requirements) (t : DraftState)
    (changes : List (Schedule × Change)) (schedule : Schedule) (index : Nat → Nat)
    (slot : Nat → Option Position) :
    let s := (start t.rosters.size board.size).performAll board reqs changes
    t.restore ⟨board, schedule, reqs⟩ s.picks.toList = (none, s) ∧
    t.restore ⟨board, schedule, reqs⟩
      (s.picks.toList.mapIdx fun i pick => pick.forged (index i) (slot i)) = (none, s) ∧
    ∀ (rules : Rules) (picks : List Pick),
      (∃ u, Records rules (start t.rosters.size rules.board.size) picks u ∧ t.restore rules picks = (none, u) ∧
        u.picks.toList.map Pick.account = picks.map Pick.account) ∨
      ∃ before pick after u e, picks = before ++ pick :: after ∧
        Records rules (start t.rosters.size rules.board.size) before u ∧
        u.record rules pick.turn pick.selection = .error e ∧
        t.restore rules picks = (some e, u) ∧ t.restore rules before = (none, u) := by
  intro s
  have hs : Built board reqs t.rosters.size s := Built.start.performAll changes
  refine ⟨hs.recordAll_picks schedule rfl, ?_, ?_⟩
  · exact hs.recordAll_picks schedule (account_forged s.picks.toList index slot)
  · intro rules picks
    rcases recordAll_cases (start t.rosters.size rules.board.size) rules picks with
      ⟨u, hrecords, hrun⟩ | ⟨before, pick, after, u, e, hsplit, hrecords, herror, hrun⟩
    · exact .inl ⟨u, hrecords, hrun, picks_of_recordAll hrun⟩
    · have hbefore := recordAll_of_records hrecords
      exact .inr ⟨before, pick, after, u, e, hsplit, hrecords, herror, hrun, hbefore⟩

end DraftState

end SnakeDraft
