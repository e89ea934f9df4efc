import Mathlib.Algebra.Order.BigOperators.Group.List
import Mathlib.Algebra.Order.Group.Nat
import Mathlib.Data.List.Forall2
import Mathlib.Data.List.Perm.Subperm
import Mathlib.Data.List.ReduceOption
import Mathlib.Order.Bounds.Defs
import SnakeDraft.Proofs.Board.Availability
import SnakeDraft.Proofs.Roster.Filling

/-!
Placing as many players as can be placed. Players are given slots one after the other, the own one first and
never moved again, and still no assignment of slots, with all players known beforehand, places more of them
(`Roster.fillAll_greatest`). The players who are placed have the assignment that was made for them. No
assignment places more: its players are at most the ones that there are and its slots at most the ones that
are required, and the closed form of the counts reaches the smaller of the two bounds.
-/

namespace SnakeDraft

/-- The players can be given slots that they fit, all at once and without more players at a slot than
required. -/
def Requirements.Accommodates (reqs : Requirements) (players : List Position) : Prop :=
  ∃ slots : List Position, List.Forall₂ (fun position slot => slot.Fits position) players slots ∧
    ∀ slot, slots.count slot ≤ reqs.required slot

namespace Position

variable {players slots : List Position}

theorem length_eq_sum_count (slots : List Position) : slots.length = (all.map slots.count).sum := by
  induction slots with
  | nil => rfl
  | cons slot rest ih =>
    rw [List.length_cons, ih]
    cases slot <;> simp [all] <;> omega

/-- At most the players at a position are given a slot of their own. -/
theorem count_slots_le (h : List.Forall₂ (fun position slot => slot.Fits position) players slots)
    {position : Position} (hne : position ≠ .flex) : slots.count position ≤ players.count position := by
  induction h with
  | nil => exact Nat.le_refl 0
  | @cons player slot _ _ hfits _ ih =>
    rw [List.count_cons, List.count_cons]
    rcases hfits with ⟨-, rfl⟩ | ⟨rfl, -⟩
    · omega
    · simp [Ne.symm hne]
      omega

/-- Players whom FLEX does not take are all given slots of their own. -/
theorem count_players_le (h : List.Forall₂ (fun position slot => slot.Fits position) players slots)
    {position : Position} (hineligible : position.isFlexEligible = false) :
    players.count position ≤ slots.count position := by
  induction h with
  | nil => exact Nat.le_refl 0
  | @cons player slot _ _ hfits _ ih =>
    rw [List.count_cons, List.count_cons]
    rcases hfits with ⟨-, rfl⟩ | ⟨rfl, heligible⟩
    · omega
    · have hne : player ≠ position := by
        rintro rfl
        rw [heligible] at hineligible
        cases hineligible
      simp [hne]
      omega

theorem not_fits_flex (slot : Position) : ¬ slot.Fits .flex := by
  rintro (⟨hne, heq⟩ | ⟨-, heligible⟩)
  · exact hne heq
  · cases heligible

theorem count_players_flex (h : List.Forall₂ (fun position slot => slot.Fits position) players slots) :
    players.count .flex = 0 := by
  induction h with
  | nil => rfl
  | @cons player slot _ _ hfits _ ih =>
    have hne : player ≠ .flex := by
      rintro rfl
      exact not_fits_flex slot hfits
    rw [List.count_cons_of_ne hne, ih]

end Position

namespace Roster

open Position

variable {reqs : Requirements}

/-- The slots that are filled are the ones that the players were given. -/
theorem filled_fillAll (reqs : Requirements) (roster : Roster) (players : List Position) (slot : Position) :
    (fillAll reqs roster players).2.filled slot =
      roster.filled slot + (fillAll reqs roster players).1.reduceOption.count slot := by
  induction players generalizing roster with
  | nil => rfl
  | cons player rest ih =>
    cases hplace : roster.slotFor? reqs player with
    | none =>
      rw [fillAll_cons_of_none hplace, List.reduceOption_cons_of_none]
      exact ih roster
    | some place =>
      rw [fillAll_cons_of_some hplace, List.reduceOption_cons_of_some, ih, filled_addTo, List.count_cons]
      simp only [beq_iff_eq, eq_comm (a := place)]
      omega

theorem fits_of_slotFor? {roster : Roster} {position slot : Position}
    (h : roster.slotFor? reqs position = some slot) : slot.Fits position := by
  obtain ⟨hne, ⟨rfl, -⟩ | ⟨rfl, -, heligible, -⟩⟩ := slotFor?_eq_some_iff.mp h
  · exact Or.inl ⟨hne, rfl⟩
  · exact Or.inr ⟨rfl, heligible⟩

/-- The players who are placed fit the slots that they are given. -/
theorem exists_placed (reqs : Requirements) (roster : Roster) (players : List Position) :
    ∃ placed, placed.Sublist players ∧
      List.Forall₂ (fun position slot => slot.Fits position) placed
        (fillAll reqs roster players).1.reduceOption := by
  induction players generalizing roster with
  | nil => exact ⟨[], List.Sublist.refl _, .nil⟩
  | cons player rest ih =>
    cases hplace : roster.slotFor? reqs player with
    | none =>
      obtain ⟨placed, hsub, hfits⟩ := ih roster
      rw [fillAll_cons_of_none hplace, List.reduceOption_cons_of_none]
      exact ⟨placed, hsub.cons player, hfits⟩
    | some place =>
      obtain ⟨placed, hsub, hfits⟩ := ih (roster.addTo place)
      rw [fillAll_cons_of_some hplace, List.reduceOption_cons_of_some]
      exact ⟨player :: placed, hsub.cons_cons player, .cons (fits_of_slotFor? hplace) hfits⟩

/-- The places filled in all when so many are filled at FLEX. -/
def placesWith (reqs : Requirements) (players : List Position) (flex : Nat) : Nat :=
  (all.map fun slot => if slot = .flex then flex else min (players.count slot) (reqs.required slot)).sum

theorem placesWith_eq (reqs : Requirements) (players : List Position) (flex : Nat) :
    placesWith reqs players flex = placesWith reqs players 0 + flex := by
  simp [placesWith, all]
  omega

theorem length_placed (players : List Position) :
    (fillAll reqs .empty players).1.reduceOption.length =
      placesWith reqs players
        (min (reqs.required .flex) (reqs.surplus fun position => players.count position)) := by
  rw [length_eq_sum_count, placesWith]
  congr 1
  apply List.map_congr_left
  intro slot _
  have hfilled := filled_fillAll reqs .empty players slot
  rw [filled_empty, Nat.zero_add, fillAll_empty] at hfilled
  split
  · next hslot =>
    subst hslot
    rw [← hfilled, filled_ofCounts_flex]
  · next hslot => rw [← hfilled, filled_ofCounts hslot]

section Bounds

variable {players chosen slots : List Position}

/-- No more players are given slots than there are at each position. -/
theorem length_le_by_players (hsub : chosen.Subperm players)
    (hfits : List.Forall₂ (fun position slot => slot.Fits position) chosen slots)
    (hroom : ∀ slot, slots.count slot ≤ reqs.required slot) :
    chosen.length ≤ placesWith reqs players (reqs.surplus fun position => players.count position) := by
  have hsurplus : (reqs.surplus fun position => players.count position) =
      (all.map fun position =>
        if position.isFlexEligible then players.count position - reqs.required position else 0).sum := by
    simp [Requirements.surplus_eq, all, isFlexEligible]
  have hbound : ∀ position, chosen.count position ≤
      (if position = .flex then 0 else min (players.count position) (reqs.required position)) +
        if position.isFlexEligible then players.count position - reqs.required position else 0 := by
    intro position
    have hplayers := hsub.count_le position
    split
    · next hflex =>
      rw [hflex, count_players_flex hfits]
      exact Nat.zero_le _
    · split
      · omega
      · next hineligible =>
        have hown := count_players_le hfits (Bool.not_eq_true _ ▸ hineligible)
        have hrequired := hroom position
        omega
  rw [placesWith_eq, hsurplus, placesWith, ← List.sum_map_add, length_eq_sum_count]
  exact List.sum_le_sum fun position _ => hbound position

/-- No more players are given slots than the slots that are required and the players who fit them allow. -/
theorem length_le_by_slots (hsub : chosen.Subperm players)
    (hfits : List.Forall₂ (fun position slot => slot.Fits position) chosen slots)
    (hroom : ∀ slot, slots.count slot ≤ reqs.required slot) :
    chosen.length ≤ placesWith reqs players (reqs.required .flex) := by
  rw [hfits.length_eq, length_eq_sum_count, placesWith]
  apply List.sum_le_sum
  intro slot _
  have hrequired := hroom slot
  split
  · next hslot => exact hslot ▸ hrequired
  · next hslot =>
    have hplayers := hsub.count_le slot
    have hown := count_slots_le hfits hslot
    omega

end Bounds

theorem length_le_of_accommodates {players chosen : List Position} (hsub : chosen.Subperm players)
    (haccommodates : reqs.Accommodates chosen) :
    chosen.length ≤ (fillAll reqs .empty players).1.reduceOption.length := by
  obtain ⟨slots, hfits, hroom⟩ := haccommodates
  have hplayers := length_le_by_players hsub hfits hroom
  have hslots := length_le_by_slots hsub hfits hroom
  rw [length_placed]
  rw [placesWith_eq] at hplayers hslots ⊢
  omega

/-- The players who are placed can be given slots. -/
theorem exists_accommodated (reqs : Requirements) (players : List Position) :
    ∃ placed, placed.Sublist players ∧ reqs.Accommodates placed ∧
      placed.length = (fillAll reqs .empty players).1.reduceOption.length := by
  obtain ⟨placed, hsub, hfits⟩ := exists_placed reqs .empty players
  refine ⟨placed, hsub, ⟨_, hfits, ?_⟩, hfits.length_eq⟩
  intro slot
  have hfilled := filled_fillAll reqs .empty players slot
  rw [filled_empty, Nat.zero_add, fillAll_empty] at hfilled
  rw [← hfilled]
  by_cases hslot : slot = .flex
  · subst hslot
    rw [filled_ofCounts_flex]
    exact Nat.min_le_left _ _
  · rw [filled_ofCounts hslot]
    exact Nat.min_le_right _ _

theorem length_fillAll (roster : Roster) (players : List Position) :
    (fillAll reqs roster players).1.length = players.length := by
  induction players generalizing roster with
  | nil => rfl
  | cons player rest ih =>
    cases hplace : roster.slotFor? reqs player with
    | none => rw [fillAll_cons_of_none hplace, List.length_cons, List.length_cons, ih]
    | some place => rw [fillAll_cons_of_some hplace, List.length_cons, List.length_cons, ih]

theorem all_placed_iff (players : List Position) :
    (∀ slot ∈ (fillAll reqs .empty players).1, slot.isSome = true) ↔ reqs.Accommodates players := by
  rw [← List.reduceOption_length_eq_iff, length_fillAll]
  constructor
  · intro hall
    obtain ⟨placed, hsub, haccommodates, hlength⟩ := exists_accommodated reqs players
    rw [hall] at hlength
    exact hsub.eq_of_length hlength ▸ haccommodates
  · intro haccommodates
    have hle := (fillAll reqs .empty players).1.reduceOption_length_le
    rw [length_fillAll] at hle
    exact Nat.le_antisymm hle (length_le_of_accommodates (List.Subperm.refl players) haccommodates)

/-- Players who are placed one after the other all find a slot exactly if they can be given slots all at once,
and in any case the number of those who find one is the greatest number of them who can. -/
theorem fillAll_greatest (reqs : Requirements) (players : List Position) :
    ((∀ slot ∈ (fillAll reqs .empty players).1, slot.isSome = true) ↔ reqs.Accommodates players) ∧
    IsGreatest
      {size | ∃ chosen : List Position,
        chosen.Subperm players ∧ reqs.Accommodates chosen ∧ chosen.length = size}
      ((fillAll reqs .empty players).1.countP Option.isSome) := by
  refine ⟨all_placed_iff players, ?_⟩
  have hcount : (fillAll reqs .empty players).1.countP Option.isSome =
      (fillAll reqs .empty players).1.reduceOption.length := by
    rw [List.reduceOption_length_eq, List.countP_eq_length_filter]
  rw [hcount]
  constructor
  · obtain ⟨placed, hsub, haccommodates, hlength⟩ := exists_accommodated reqs players
    exact ⟨placed, hsub.subperm, haccommodates, hlength⟩
  · rintro size ⟨chosen, hsub, haccommodates, rfl⟩
    exact length_le_of_accommodates hsub haccommodates

end Roster

end SnakeDraft
