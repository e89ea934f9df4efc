import SnakeDraft.Draft.State

/-!
What the rest of a draft depends on. A recording checks the players off the board and the roster of the team, and
numbers the pick by how many there are; the picks that were made are only added to. So two states that stand alike
(`DraftState.standing`) take or refuse the same selections with the same answers, and stand alike again afterwards,
whatever their histories (`DraftState.record_congr`).
-/

namespace SnakeDraft

/-- What a draft has come to, whichever way it took. -/
structure Standing where
  /-- The number of picks made. -/
  pointer : Nat
  /-- Which players are off the board. -/
  taken : Nat → Bool
  rosters : Array Roster

namespace DraftState

def standing (s : DraftState) : Standing :=
  ⟨s.pointer, s.taken.contains, s.rosters⟩

/-- What is seen of a change: its answer, and where the state after it stands. -/
def seen {ε α : Type} (outcome : Except ε (α × DraftState)) : Except ε (α × Standing) :=
  outcome.map fun (answer, next) => (answer, next.standing)

variable {s t : DraftState}

theorem pointer_congr (h : s.standing = t.standing) : s.pointer = t.pointer :=
  congrArg Standing.pointer h

theorem taken_congr (h : s.standing = t.standing) (id : Nat) : s.taken.contains id = t.taken.contains id :=
  congrFun (congrArg Standing.taken h) id

theorem rosters_congr (h : s.standing = t.standing) : s.rosters = t.rosters :=
  congrArg Standing.rosters h

theorem standing_eq (hpointer : s.pointer = t.pointer) (hrosters : s.rosters = t.rosters)
    (htaken : ∀ id, s.taken.contains id = t.taken.contains id) : s.standing = t.standing := by
  simp only [standing, hpointer, hrosters, funext htaken]

theorem onClock?_congr (h : s.standing = t.standing) (schedule : Schedule) :
    s.onClock? schedule = t.onClock? schedule := by
  rw [onClock?, onClock?, pointer_congr h]

theorem roster?_congr (h : s.standing = t.standing) (team : Nat) : s.roster? team = t.roster? team := by
  rw [roster?, roster?, rosters_congr h]

theorem claim_congr (h : s.standing = t.standing) (board : Board) (id : Nat) :
    s.claim board id = t.claim board id := by
  rw [claim, claim, taken_congr h]

theorem push_congr (h : s.standing = t.standing) (turn : Turn) (selection : Selection)
    (slot : Option Position) :
    (s.push turn selection slot).1 = (t.push turn selection slot).1 ∧
      (s.push turn selection slot).2.standing = (t.push turn selection slot).2.standing := by
  have hpointer := pointer_congr h
  have htaken := taken_congr h
  have hrosters := rosters_congr h
  refine ⟨?_, standing_eq ?_ hrosters fun id => ?_⟩
  · simp only [push, hpointer]
  · rw [pointer_push, pointer_push, hpointer]
  · cases hplayer : selection.player? with
    | none => simpa only [push, hplayer] using htaken id
    | some other => simp only [push, hplayer, TakenSet.contains_insert, htaken]

/-- States that stand alike answer a selection alike, with the same pick or the same error. -/
theorem record_congr (h : s.standing = t.standing) (rules : Rules) (turn : Turn)
    (selection : Selection) : seen (s.record rules turn selection) = seen (t.record rules turn selection) := by
  have hpush : ∀ {s t : DraftState} (slot : Option Position), s.standing = t.standing →
      seen (ε := PickError) (.ok (s.push turn selection slot)) = seen (.ok (t.push turn selection slot)) := by
    intro s t slot h
    obtain ⟨hpick, hnext⟩ := push_congr h turn selection slot
    exact congrArg Except.ok (Prod.ext hpick hnext)
  unfold record
  rw [roster?_congr h]
  cases t.roster? turn.team with
  | none => rfl
  | some roster =>
    cases selection with
    | passed => exact hpush none h
    | benched id =>
      simp only [claim_congr h]
      cases t.claim rules.board id with
      | error e => rfl
      | ok player => exact hpush none h
    | drafted id =>
      simp only [claim_congr h]
      cases t.claim rules.board id with
      | error e => rfl
      | ok player =>
        simp only [draft]
        cases roster.fill rules.requirements player.position with
        | none => rfl
        | some place =>
          have hpointer := pointer_congr h
          refine hpush (some place.1) (standing_eq hpointer ?_ fun id => ?_)
          · rw [rosters_congr h]
          · exact taken_congr h id

theorem apply_congr (h : s.standing = t.standing) (rules : Rules) (choice : Choice) :
    seen (s.apply rules choice) = seen (t.apply rules choice) := by
  unfold apply select
  rw [onClock?_congr h]
  cases t.onClock? rules.schedule with
  | none => rfl
  | some turn => exact record_congr h rules turn choice.selection

end DraftState

end SnakeDraft
