import SnakeDraft.Proofs.Search.Candidates
import SnakeDraft.Proofs.Search.Rewards

/-!
Drafts that a policy plays to their end. A policy that keeps to the candidates makes one pick for every turn that is
left (`Policy.Legal.exists_playsOut`), none of which is refused, and passes only for teams that can draft nobody. What
the playout answers is read off these picks (`PlaysOut.rollout_eq`): their points for one team, added from left to
right to those accrued before.
-/

namespace SnakeDraft

/-- The points accrued for the target team after some picks, from left to right. -/
def credited (board : Board) (target : Nat) (accrued : Float) (picks : List Pick) : Float :=
  (picks.map (·.pointsFor board target)).foldl (· + ·) accrued

namespace DraftState

variable {rules : Rules} {s t u : DraftState} {choice : Choice} {pick : Pick}

/-- Picks made one after the other: each is accepted, and a team passes only when it can draft nobody. -/
inductive Proceeds (rules : Rules) : DraftState → List Pick → DraftState → Prop where
  | done {s : DraftState} : Proceeds rules s [] s
  | pick {s t u : DraftState} {choice : Choice} {pick : Pick} {picks : List Pick}
      (happly : s.apply rules choice = .ok (pick, t))
      (hpass : choice = .pass → ∀ id, ¬ s.Accepts rules (.player id))
      (hrest : Proceeds rules t picks u) : Proceeds rules s (pick :: picks) u

/-- The picks since a state are the next one and those that follow it. -/
theorem picksFrom_of_follows (happly : s.apply rules choice = .ok (pick, t)) (h : Follows rules t u) :
    u.picksFrom s.pointer = pick :: u.picksFrom t.pointer := by
  obtain ⟨turn, -, -, -, hpicks⟩ := pick_of_apply happly
  have hhistory : u.picks.toList = s.picks.toList ++ pick :: u.picksFrom t.pointer := by
    rw [h.history, hpicks, Array.toList_push, List.append_assoc, List.singleton_append]
  rw [picksFrom, hhistory]
  exact List.drop_left' rfl

/-- A candidate that passes is one of a team that can draft nobody. -/
theorem not_accepts_of_pass_mem (hboard : rules.board.Indexed) (hordered : rules.board.Ordered)
    (hs : s.Seats rules.schedule) (hpass : .pass ∈ s.candidates rules) (id : Nat) :
    ¬ s.Accepts rules (.player id) := by
  cases hturn : s.onClock? rules.schedule with
  | none =>
    rw [candidates_eq_nil_iff.mpr hturn] at hpass
    cases hpass
  | some turn =>
    obtain ⟨roster, hroster⟩ := hs.roster_of_onClock hturn
    have halone := candidates_of_pass_mem hpass
    exact (candidates_eq_pass_iff hboard hordered hturn hroster).mp halone id

end DraftState

section

variable {σ : Type} {policy : Policy σ} {rules : Rules} {s u : DraftState} {memory after : σ}

/-- A legal policy plays every draft to its end. -/
theorem Policy.Legal.exists_playsOut (hpolicy : policy.Legal) (hboard : rules.board.Indexed)
    (hs : s.Seats rules.schedule) (memory : σ) : ∃ u after, PlaysOut policy rules s memory u after := by
  obtain ⟨reward, after, hrollout⟩ := rollout_ok hpolicy hboard 0 hs 0 memory
  have hnone : 0 = earned rules.board 0 (s.picksFrom s.pointer) := by
    rw [DraftState.picksFrom_pointer]
    rfl
  obtain ⟨u, hplays, -⟩ := playsOut_of_rollout (Nat.le_refl _) hnone hrollout
  exact ⟨u, after, hplays⟩

/-- One pick is made for each turn that is left. -/
theorem PlaysOut.length_picksFrom (h : PlaysOut policy rules s memory u after) :
    (u.picksFrom s.pointer).length = rules.schedule.size - s.pointer := by
  induction h with
  | @finished s memory hcomplete =>
    have hend := PlaysOut.size_le (.finished hcomplete : PlaysOut policy rules s memory s memory)
    rw [DraftState.picksFrom_pointer, List.length_nil, Nat.sub_eq_zero_of_le hend]
  | choose _ _ happly hrest ih =>
    have hpointer := DraftState.pointer_of_apply happly
    have hlt := DraftState.pointer_lt_of_apply happly
    rw [DraftState.picksFrom_of_follows happly hrest.follows, List.length_cons, ih]
    omega

/-- The answer of a playout is what its picks are credited with, whatever the team and the points before. -/
theorem PlaysOut.rollout_eq (h : PlaysOut policy rules s memory u after) (target : Nat) (accrued : Float) :
    rollout policy rules target s accrued memory =
      (.ok (credited rules.board target accrued (u.picksFrom s.pointer)), after) := by
  induction h generalizing accrued with
  | @finished s memory hcomplete =>
    rw [rollout_of_complete hcomplete, DraftState.picksFrom_pointer]
    rfl
  | choose hcandidates hchoose happly hrest ih =>
    obtain ⟨pick', happly', hpoints⟩ := DraftState.apply_of_advance (DraftState.advance_of_apply happly)
    cases happly.symm.trans happly'
    rw [rollout_of_advance hcandidates hchoose (DraftState.advance_of_apply happly), ih, hpoints,
      DraftState.picksFrom_of_follows happly hrest.follows]
    rfl

/-- The picks of a legal policy are accepted, and it passes only for teams that can draft nobody. -/
theorem PlaysOut.proceeds (h : PlaysOut policy rules s memory u after) (hpolicy : policy.Legal)
    (hboard : rules.board.Indexed) (hordered : rules.board.Ordered) (hs : s.Seats rules.schedule) :
    s.Proceeds rules (u.picksFrom s.pointer) u := by
  induction h with
  | @finished s memory hcomplete =>
    rw [DraftState.picksFrom_pointer]
    exact .done
  | choose hcandidates hchoose happly hrest ih =>
    rw [DraftState.picksFrom_of_follows happly hrest.follows]
    refine .pick happly (fun hpass => ?_) (ih (hs.of_apply happly))
    have hmem := hpolicy.choose_mem hcandidates hchoose
    rw [hpass] at hmem
    exact DraftState.not_accepts_of_pass_mem hboard hordered hs hmem

/-- How a policy concludes a draft: the picks that it makes from a state on, and what a playout answers. -/
structure Concludes (policy : Policy σ) (rules : Rules) (s : DraftState) (memory : σ) (picks : List Pick)
    (final : DraftState) (after : σ) : Prop where
  /-- The policy makes each choice, among the candidates, until there are none. -/
  played : PlaysOut policy rules s memory final after
  accepted : s.Proceeds rules picks final
  length_eq : picks.length = rules.schedule.size - s.pointer
  history : final.picks.toList = s.picks.toList ++ picks
  /-- Every pick counts, in order and with zero where it earns the target team nothing. -/
  rollout_eq : ∀ target accrued, rollout policy rules target s accrued memory =
    (.ok (credited rules.board target accrued picks), after)

theorem PlaysOut.concludes (h : PlaysOut policy rules s memory u after) (hpolicy : policy.Legal)
    (hboard : rules.board.Indexed) (hordered : rules.board.Ordered) (hs : s.Seats rules.schedule) :
    Concludes policy rules s memory (u.picksFrom s.pointer) u after := by
  constructor
  case played => exact h
  case accepted => exact h.proceeds hpolicy hboard hordered hs
  case length_eq => exact h.length_picksFrom
  case history => exact h.follows.history
  case rollout_eq => exact h.rollout_eq

end

/-- Every playout of a policy that keeps to the candidates comes to an end, after one accepted pick for each turn that
is left, on every board and in every state that has a roster for each team of the schedule. A draft without a turn left
is answered with the points accrued before. -/
theorem legal_policy_concludes_draft (players : Array Player) (schedule : Schedule) (requirements : Requirements)
    {σ : Type} {policy : Policy σ} (hpolicy : policy.Legal) {s : DraftState} (hs : s.Seats schedule) (memory : σ) :
    let rules : Rules := ⟨.ofPlayers players, schedule, requirements⟩
    (∃ picks final after, Concludes policy rules s memory picks final after) ∧
      (s.isComplete schedule = true → ∀ target accrued,
        rollout policy rules target s accrued memory = (.ok accrued, memory)) := by
  intro rules
  constructor
  · have hboard : rules.board.Indexed := Board.indexed_ofPlayers players
    have hordered : rules.board.Ordered := Board.ordered_ofPlayers players
    obtain ⟨final, after, hplays⟩ := hpolicy.exists_playsOut hboard hs memory
    exact ⟨_, final, after, hplays.concludes hpolicy hboard hordered hs⟩
  · intro hcomplete target accrued
    apply rollout_of_complete
    apply DraftState.candidates_eq_nil_iff.mpr
    exact Array.getElem?_eq_none (of_decide_eq_true hcomplete)

/-- Two players for six turns of two teams. -/
theorem greedy_policy_concludes_draft_of_two_teams :
    let players : Array Player := #[⟨"QB A", .quarterback, 10, 1⟩, ⟨"RB B", .runningBack, 8, 2⟩]
    (Policy.greedy Unit #[1, 2]).Legal ∧ (DraftState.start 2 players.size).Seats (.snake 2 3) ∧
      ∃ picks final after, Concludes (Policy.greedy Unit #[1, 2])
        ⟨.ofPlayers players, .snake 2 3, .standard⟩ (.start 2 players.size) () picks final after ∧ picks.length = 6 := by
  intro players
  have hseats : (DraftState.start 2 players.size).Seats (.snake 2 3) := by
    show ∀ turn ∈ (Schedule.snake 2 3).turns, turn.team < 2
    decide
  have hpolicy := Policy.greedy_legal Unit #[1, 2]
  obtain ⟨⟨picks, final, after, hconcludes⟩, -⟩ :=
    legal_policy_concludes_draft players (.snake 2 3) .standard hpolicy hseats ()
  exact ⟨hpolicy, hseats, picks, final, after, hconcludes, hconcludes.length_eq⟩

end SnakeDraft
