import SnakeDraft.Proofs.Decimal.Order
import SnakeDraft.Search.Node

/-!
The highest of some rewards. Rewards are compared as floating-point numbers, and keeping the higher of two leads from
negative infinity to the highest of all that are numbers (`isHighest_foldl`).
-/

namespace SnakeDraft

/-- The highest of some rewards that are numbers, or negative infinity when none of them is above it. -/
structure IsHighest (best : Float) (rewards : List Float) : Prop where
  mem : best ∈ -(1 / 0) :: rewards
  number : best.isNaN = false
  le : ∀ reward ∈ rewards, reward.isNaN = false → reward ≤ best

/-- The higher of two is a number if the first is one, and as high as both. -/
theorem higher_of_two (reward : Float) {best : Float} (hbest : best.isNaN = false) :
    let next := if reward > best then reward else best
    (next = reward ∨ next = best) ∧ next.isNaN = false ∧ best ≤ next ∧
      (reward.isNaN = false → reward ≤ next) := by
  intro next
  by_cases hhigher : reward > best
  · obtain ⟨-, hreward, hlt⟩ := lt_iff_rank.mp hhigher
    rw [show next = reward from if_pos hhigher]
    exact ⟨.inl rfl, hreward, le_iff_rank.mpr ⟨hbest, hreward, hlt.le⟩,
      fun _ => le_iff_rank.mpr ⟨hreward, hreward, le_refl _⟩⟩
  · rw [show next = best from if_neg hhigher]
    refine ⟨.inr rfl, hbest, le_iff_rank.mpr ⟨hbest, hbest, le_refl _⟩, fun hreward => ?_⟩
    refine le_iff_rank.mpr ⟨hreward, hbest, not_lt.mp fun hlt => ?_⟩
    exact hhigher (lt_iff_rank.mpr ⟨hbest, hreward, hlt⟩)

/-- Keeping the higher of two, from a number on, leads to one that is as high as all of them. -/
theorem foldl_higher (rewards : List Float) {start : Float} (hstart : start.isNaN = false) :
    let best := rewards.foldl (fun best reward => if reward > best then reward else best) start
    best ∈ start :: rewards ∧ start ≤ best ∧ ∀ reward ∈ rewards, reward.isNaN = false → reward ≤ best := by
  induction rewards generalizing start with
  | nil => exact ⟨List.mem_cons_self, le_iff_rank.mpr ⟨hstart, hstart, le_refl _⟩, by simp⟩
  | cons first rewards ih =>
    obtain ⟨hone, hnext, hstart', hfirst⟩ := higher_of_two first hstart
    obtain ⟨hmem, hle, hall⟩ := ih hnext
    refine ⟨?_, le_trans_of_numbers hstart' hle, ?_⟩
    · rcases List.mem_cons.mp hmem with hsame | hlater
      · rw [List.foldl_cons, hsame]
        rcases hone with hone | hone <;> simp [hone]
      · exact List.mem_cons_of_mem _ (List.mem_cons_of_mem _ hlater)
    · intro reward hreward hnumber
      rcases List.mem_cons.mp hreward with rfl | hlater
      · exact le_trans_of_numbers (hfirst hnumber) hle
      · exact hall reward hlater hnumber

theorem isHighest_foldl (rewards : List Float) :
    IsHighest (rewards.foldl (fun best reward => if reward > best then reward else best) (-(1 / 0))) rewards := by
  have hstart : (-(1 / 0) : Float).isNaN = false := by decide +kernel
  obtain ⟨hmem, habove, hle⟩ := foldl_higher rewards hstart
  exact ⟨hmem, (le_iff_rank.mp habove).2.1, hle⟩

end SnakeDraft
