import SnakeDraft.Search.Candidates
import SnakeDraft.Search.Policy

/-!
Playing a draft out. `DraftState.advance` makes one choice and counts its points for one team;
`rollout` lets a policy make every remaining choice and adds up the points of that team.
-/

namespace SnakeDraft

/-- The points that a choice earns the target team when this team makes it. -/
def rewardOf (board : Board) (target team : Nat) : Choice → Float
  | .player id => if team = target then ((board.player? id).map (·.points)).getD 0 else 0
  | .pass => 0

/-- The state after a choice, with the points that it earns the target team. -/
def DraftState.advance (s : DraftState) (rules : Rules) (target : Nat) (choice : Choice) :
    Except PickError (Float × DraftState) :=
  (s.apply rules choice).map fun (pick, next) =>
    (rewardOf rules.board target pick.turn.team choice, next)

theorem DraftState.remaining_lt_of_advance {s t : DraftState} {rules : Rules} {target : Nat}
    {choice : Choice} {points : Float} (h : s.advance rules target choice = .ok (points, t)) :
    rules.schedule.size - t.pointer < rules.schedule.size - s.pointer := by
  unfold advance at h
  cases hp : s.apply rules choice with
  | error e => rw [hp] at h; cases h
  | ok result =>
    rw [hp] at h
    cases h
    have h₁ := pointer_of_apply hp
    have h₂ := pointer_lt_of_apply hp
    omega

/-- Plays a draft to its end: what was accrued before plus the points of every player that the target
team takes, and the policy's memory after the last choice. -/
def rollout {σ : Type} (policy : Policy σ) (rules : Rules) (target : Nat) (state : DraftState)
    (accrued : Float) (memory : σ) : Except PickError Float × σ :=
  match state.candidates rules with
  | [] => (.ok accrued, memory)
  | c :: cs =>
    let (choice, memory) := policy.choose memory state (c :: cs)
    match _h : state.advance rules target choice with
    | .error e => (.error e, memory)
    | .ok (points, next) => rollout policy rules target next (accrued + points) memory
termination_by rules.schedule.size - state.pointer
decreasing_by exact DraftState.remaining_lt_of_advance _h

section

variable {σ : Type} {policy : Policy σ} {rules : Rules} {target : Nat} {state : DraftState}
  {memory after : σ} {first choice : Choice} {rest : List Choice}

theorem rollout_of_complete (hnone : state.candidates rules = []) (accrued : Float) :
    rollout policy rules target state accrued memory = (.ok accrued, memory) := by
  rw [rollout, hnone]

theorem rollout_of_error (hcandidates : state.candidates rules = first :: rest)
    (hchoose : policy.choose memory state (first :: rest) = (choice, after)) {e : PickError}
    (hadvance : state.advance rules target choice = .error e) (accrued : Float) :
    rollout policy rules target state accrued memory = (.error e, after) := by
  rw [rollout, hcandidates]
  grind

theorem rollout_of_advance (hcandidates : state.candidates rules = first :: rest)
    (hchoose : policy.choose memory state (first :: rest) = (choice, after)) {points : Float}
    {next : DraftState} (hadvance : state.advance rules target choice = .ok (points, next))
    (accrued : Float) :
    rollout policy rules target state accrued memory =
      rollout policy rules target next (accrued + points) after := by
  rw [rollout.eq_def policy rules target state, hcandidates]
  grind

end

end SnakeDraft
