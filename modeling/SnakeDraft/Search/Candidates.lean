import SnakeDraft.Draft.State

/-!
The choices a search considers. For every slot that the team on the clock still needs it considers the
best player left for that slot, and a pass only when there is no such player.
-/

namespace SnakeDraft.DraftState

/-- The best players left for the slots that a roster needs, each once, in the order of the slots. -/
def bestForNeeds (s : DraftState) (rules : Rules) (roster : Roster) : List Nat :=
  ((roster.neededSlots rules.requirements).filterMap
    (rules.board.bestAvailable? s.taken)).eraseDups

/-- The choices of the team on the clock: none when the draft is complete, and otherwise at least
one. -/
def candidates (s : DraftState) (rules : Rules) : List Choice :=
  match s.onClock? rules.schedule with
  | none => []
  | some turn =>
    match s.roster? turn.team with
    | none => [.pass]
    | some roster =>
      match s.bestForNeeds rules roster with
      | [] => [.pass]
      | ids => ids.map .player

theorem candidates_eq_nil_iff {s : DraftState} {rules : Rules} :
    s.candidates rules = [] ↔ s.onClock? rules.schedule = none := by
  unfold candidates
  split
  · simp [*]
  · split
    · simp [*]
    · split <;> simp_all

end SnakeDraft.DraftState
