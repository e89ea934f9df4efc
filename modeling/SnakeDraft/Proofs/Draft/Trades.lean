import Mathlib.Data.List.Nodup
import SnakeDraft.Schedule

/-!
Trades of picks. A trade that is out of range changes nothing (`Schedule.trade`). Trades of different picks
can be carried out in any order, and of two trades of one pick only the later one counts, so the trades that
a store keeps lead to the schedule that the trades led to when they were made. What a snake schedule says of
numbers and rounds outlasts all trades (`Schedule.Regular`).
-/

namespace SnakeDraft.Schedule

/-- The schedule after a trade, which is the same one when there is no such pick or no such team. -/
def trade (s : Schedule) (index team : Nat) : Schedule :=
  ((s.reassign index team).map (·.2)).getD s

theorem applyTrades_cons (s : Schedule) (index team : Nat) (trades : List (Nat × Nat)) :
    s.applyTrades ((index, team) :: trades) = (s.trade index team).applyTrades trades := rfl

theorem applyTrades_concat (s : Schedule) (index team : Nat) (trades : List (Nat × Nat)) :
    s.applyTrades (trades ++ [(index, team)]) = (s.applyTrades trades).trade index team :=
  List.foldl_append

theorem trade_of_reassign {s t : Schedule} {index team owner : Nat}
    (h : s.reassign index team = some (owner, t)) : s.trade index team = t := by
  unfold trade
  rw [h]
  rfl

theorem team_lt_of_reassign {s t : Schedule} {index team owner : Nat}
    (h : s.reassign index team = some (owner, t)) : team < s.numTeams := by
  unfold reassign at h
  split at h
  · assumption
  · cases h

@[simp] theorem numTeams_trade (s : Schedule) (index team : Nat) :
    (s.trade index team).numTeams = s.numTeams := by
  unfold trade reassign
  split
  · cases s.turn? index <;> rfl
  · rfl

@[simp] theorem rounds_trade (s : Schedule) (index team : Nat) :
    (s.trade index team).rounds = s.rounds := by
  unfold trade reassign
  split
  · cases s.turn? index <;> rfl
  · rfl

@[simp] theorem size_trade (s : Schedule) (index team : Nat) :
    (s.trade index team).size = s.size := by
  unfold trade
  cases hreassign : s.reassign index team with
  | none => rfl
  | some result => exact size_of_reassign hreassign

@[simp] theorem numTeams_applyTrades (s : Schedule) (trades : List (Nat × Nat)) :
    (s.applyTrades trades).numTeams = s.numTeams := by
  induction trades generalizing s with
  | nil => rfl
  | cons first trades ih =>
    rw [applyTrades_cons, ih, numTeams_trade]

@[simp] theorem size_applyTrades (s : Schedule) (trades : List (Nat × Nat)) :
    (s.applyTrades trades).size = s.size := by
  induction trades generalizing s with
  | nil => rfl
  | cons first trades ih =>
    rw [applyTrades_cons, ih, size_trade]

theorem turn?_trade (s : Schedule) (index team i : Nat) :
    (s.trade index team).turn? i =
      if index = i ∧ team < s.numTeams then (s.turn? i).map ({ · with team }) else s.turn? i := by
  unfold trade reassign
  by_cases hteam : team < s.numTeams
  · rw [if_pos hteam]
    cases hturn : s.turn? index with
    | none =>
      by_cases hindex : index = i
      · subst hindex
        simp [hturn]
      · simp [hindex]
    | some turn =>
      have hlt : index < s.turns.size := (Array.getElem?_eq_some_iff.mp hturn).1
      show (s.turns.setIfInBounds index _)[i]? = _
      by_cases hindex : index = i
      · subst hindex
        rw [Array.getElem?_setIfInBounds_self_of_lt hlt, hturn]
        simp [hteam]
      · rw [Array.getElem?_setIfInBounds_ne hindex]
        simp [hindex, turn?]
  · simp [hteam]

theorem ext_turn? {s t : Schedule} (hteams : s.numTeams = t.numTeams) (hrounds : s.rounds = t.rounds)
    (hturns : ∀ i, s.turn? i = t.turn? i) : s = t := by
  cases s
  cases t
  cases hteams
  cases hrounds
  congr 1
  exact Array.ext_getElem? hturns

/-- A pick given to its owner changes nothing. -/
theorem reassign_eq_self_iff {s t : Schedule} {index team owner : Nat}
    (h : s.reassign index team = some (owner, t)) :
    t = s ↔ (s.turn? index).map (·.team) = some team := by
  have hteam := team_lt_of_reassign h
  obtain rfl := trade_of_reassign h
  obtain ⟨turn, hturn⟩ : ∃ turn, s.turn? index = some turn := by
    unfold reassign at h
    rw [if_pos hteam] at h
    obtain ⟨turn, hturn, -⟩ := Option.map_eq_some_iff.mp h
    exact ⟨turn, hturn⟩
  have hindex : (s.trade index team).turn? index = some { turn with team } := by
    rw [turn?_trade, if_pos ⟨rfl, hteam⟩, hturn]
    rfl
  rw [hturn, Option.map_some, Option.some_inj]
  constructor
  · intro heq
    rw [heq, hturn] at hindex
    exact congrArg Turn.team (Option.some.inj hindex)
  · rintro rfl
    refine ext_turn? (by simp) (by simp) fun i => ?_
    by_cases hi : index = i
    · subst hi
      rw [hindex, hturn]
    · rw [turn?_trade, if_neg (fun both => hi both.1)]

/-- Trades of two different picks commute. -/
theorem trade_comm (s : Schedule) {i j : Nat} (hne : i ≠ j) (a b : Nat) :
    (s.trade i a).trade j b = (s.trade j b).trade i a := by
  refine ext_turn? (by simp) (by simp) fun k => ?_
  simp only [turn?_trade, numTeams_trade]
  by_cases hi : i = k
  · have hj : j ≠ k := fun h => hne (hi.trans h.symm)
    simp [hj]
  · simp [hi]

/-- Of two trades of one pick the later one counts. -/
theorem trade_trade (s : Schedule) (i a : Nat) {b : Nat} (hb : b < s.numTeams) :
    (s.trade i a).trade i b = s.trade i b := by
  refine ext_turn? (by simp) (by simp) fun k => ?_
  simp only [turn?_trade, numTeams_trade]
  by_cases hk : i = k
  · by_cases ha : a < s.numTeams
    · cases s.turn? k <;> simp [hk, ha, hb]
    · simp [hk, ha, hb]
  · simp [hk]

theorem applyTrades_perm (s : Schedule) {trades others : List (Nat × Nat)}
    (hperm : trades.Perm others) (hnodup : (trades.map (·.1)).Nodup) :
    s.applyTrades trades = s.applyTrades others := by
  refine hperm.foldl_eq' (fun x hx y hy t => ?_) s
  show (t.trade x.1 x.2).trade y.1 y.2 = (t.trade y.1 y.2).trade x.1 x.2
  by_cases hindex : x.1 = y.1
  · rw [List.inj_on_of_nodup_map hnodup hx hy hindex]
  · exact trade_comm t hindex x.2 y.2

/-- A trade makes earlier trades of the same pick needless. -/
theorem trade_applyTrades_filter {s t : Schedule} {index team : Nat}
    (hsame : s.trade index team = t.trade index team) (hteams : s.numTeams = t.numTeams)
    (hteam : team < t.numTeams) (trades : List (Nat × Nat)) :
    (s.applyTrades (trades.filter (·.1 ≠ index))).trade index team =
      (t.applyTrades trades).trade index team := by
  induction trades generalizing s t with
  | nil => exact hsame
  | cons first trades ih =>
    obtain ⟨i, a⟩ := first
    rw [applyTrades_cons]
    by_cases hi : i = index
    · subst hi
      rw [List.filter_cons_of_neg (by simp)]
      refine ih ?_ (by simp [hteams]) (by simpa using hteam)
      rw [trade_trade t i a hteam, hsame]
    · rw [List.filter_cons_of_pos (by simpa using hi), applyTrades_cons]
      refine ih ?_ (by simp [hteams]) (by simpa using hteam)
      rw [trade_comm s hi, trade_comm t hi, hsame]

/-- Every entry stands under its own number, in the round of that number, and belongs to one of the teams. -/
def Regular (s : Schedule) : Prop :=
  ∀ i turn, s.turn? i = some turn →
    turn.index = i ∧ turn.round = i / s.numTeams ∧ turn.team < s.numTeams

theorem snakeOwner_lt {numTeams : Nat} (hteams : 0 < numTeams) (index : Nat) :
    snakeOwner numTeams index < numTeams := by
  have hlt := Nat.mod_lt index hteams
  unfold snakeOwner
  split <;> omega

theorem regular_snake (numTeams rounds : Nat) : (snake numTeams rounds).Regular := by
  intro i turn hturn
  obtain ⟨hlt, hget⟩ := Array.getElem?_eq_some_iff.mp hturn
  rw [snake, Array.size_ofFn] at hlt
  -- a league without teams has no entries
  have hteams : 0 < numTeams := Nat.pos_of_mul_pos_right (Nat.zero_lt_of_lt hlt)
  simp only [snake, Array.getElem_ofFn] at hget
  rw [← hget]
  exact ⟨rfl, rfl, snakeOwner_lt hteams i⟩

theorem Regular.trade {s : Schedule} (h : s.Regular) (index team : Nat) : (s.trade index team).Regular := by
  intro i turn hturn
  rw [turn?_trade] at hturn
  rw [numTeams_trade]
  split at hturn
  · next hgiven =>
    obtain ⟨before, hbefore, rfl⟩ := Option.map_eq_some_iff.mp hturn
    obtain ⟨hindex, hround, -⟩ := h i before hbefore
    exact ⟨hindex, hround, hgiven.2⟩
  · exact h i turn hturn

theorem Regular.applyTrades {s : Schedule} (h : s.Regular) (trades : List (Nat × Nat)) :
    (s.applyTrades trades).Regular := by
  induction trades generalizing s with
  | nil => exact h
  | cons first trades ih => exact ih (h.trade first.1 first.2)

end SnakeDraft.Schedule
