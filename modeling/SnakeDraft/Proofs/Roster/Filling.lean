import Mathlib.Algebra.Ring.Nat
import SnakeDraft.Proofs.Draft.Reordering

/-!
Filling a roster. Which slot a player fills depends on who came before, but how many places are filled in the
end depends only on how many attempts were made at each position (`Roster.fillAll_empty`): a position fills
its own places first, and what is left over of the positions that FLEX takes fills FLEX. The state that
carries the induction is the roster of a table of counts (`Roster.ofCounts`), which one more attempt takes to
the roster of the table with one more.
-/

namespace SnakeDraft

/-- The players at the positions that FLEX takes who are left over by their own places. -/
def Requirements.surplus (reqs : Requirements) (counts : Position → Nat) : Nat :=
  (Position.flexEligible.map fun position => counts position - reqs.required position).sum

theorem Requirements.surplus_eq (reqs : Requirements) (counts : Position → Nat) :
    reqs.surplus counts =
      (counts .runningBack - reqs.required .runningBack) +
        ((counts .wideReceiver - reqs.required .wideReceiver) +
          (counts .tightEnd - reqs.required .tightEnd)) := rfl

/-- The counts of attempts after one more at a position. -/
def attempted (counts : Position → Nat) (position : Position) : Position → Nat :=
  Function.update counts position (counts position + 1)

/-- One more attempt adds to the surplus where FLEX takes the position and its own places are used up. -/
theorem Requirements.surplus_attempted (reqs : Requirements) (counts : Position → Nat) (position : Position) :
    reqs.surplus (attempted counts position) = reqs.surplus counts +
      if position.isFlexEligible = true ∧ reqs.required position ≤ counts position then 1 else 0 := by
  rw [surplus_eq, surplus_eq]
  cases position <;> simp [attempted, Position.isFlexEligible] <;> split <;> omega

namespace Roster

variable {reqs : Requirements}

/-- Attempts to place players one after the other: the slot that each of them fills, if any, and the roster
after all of them. -/
def fillAll (reqs : Requirements) : Roster → List Position → List (Option Position) × Roster
  | roster, [] => ([], roster)
  | roster, position :: rest =>
    match roster.fill reqs position with
    | none =>
      let (slots, last) := fillAll reqs roster rest
      (none :: slots, last)
    | some (slot, filled) =>
      let (slots, last) := fillAll reqs filled rest
      (some slot :: slots, last)

theorem fillAll_cons_of_none {roster : Roster} {position : Position}
    (h : roster.slotFor? reqs position = none) (rest : List Position) :
    fillAll reqs roster (position :: rest) =
      (none :: (fillAll reqs roster rest).1, (fillAll reqs roster rest).2) := by
  simp only [fillAll, fill, h, Option.map_none]

theorem fillAll_cons_of_some {roster : Roster} {position slot : Position}
    (h : roster.slotFor? reqs position = some slot) (rest : List Position) :
    fillAll reqs roster (position :: rest) =
      (some slot :: (fillAll reqs (roster.addTo slot) rest).1,
        (fillAll reqs (roster.addTo slot) rest).2) := by
  simp only [fillAll, fill, h, Option.map_some]

/-- The roster that so many attempts at every position lead to. -/
def ofCounts (reqs : Requirements) (counts : Position → Nat) : Roster where
  filledPlaces := .ofFn fun slot =>
    if slot = .flex then min (reqs.required .flex) (reqs.surplus counts)
    else min (counts slot) (reqs.required slot)

theorem filled_ofCounts_flex (reqs : Requirements) (counts : Position → Nat) :
    (ofCounts reqs counts).filled .flex = min (reqs.required .flex) (reqs.surplus counts) := by
  rw [filled, ofCounts, SlotTable.get_ofFn, if_pos rfl]

theorem filled_ofCounts {slot : Position} (h : slot ≠ .flex) (reqs : Requirements)
    (counts : Position → Nat) :
    (ofCounts reqs counts).filled slot = min (counts slot) (reqs.required slot) := by
  rw [filled, ofCounts, SlotTable.get_ofFn, if_neg h]

theorem ofCounts_zero (reqs : Requirements) : ofCounts reqs (fun _ => 0) = empty := by
  apply ext_filled
  intro slot
  rw [filled_empty]
  by_cases hslot : slot = .flex
  · subst hslot
    rw [filled_ofCounts_flex, Requirements.surplus_eq]
    omega
  · rw [filled_ofCounts hslot, Nat.zero_min]

theorem ofCounts_congr {few many : Position → Nat}
    (h : ∀ position, position ≠ .flex → few position = many position) :
    ofCounts reqs few = ofCounts reqs many := by
  apply ext_filled
  intro slot
  by_cases hslot : slot = .flex
  · subst hslot
    rw [filled_ofCounts_flex, filled_ofCounts_flex, Requirements.surplus_eq, Requirements.surplus_eq,
      h .runningBack (by decide), h .wideReceiver (by decide), h .tightEnd (by decide)]
  · rw [filled_ofCounts hslot, filled_ofCounts hslot, h slot hslot]

theorem slotFor?_eq_none_iff {roster : Roster} {position : Position} :
    roster.slotFor? reqs position = none ↔ position = .flex ∨
      reqs.required position ≤ roster.filled position ∧
        (position.isFlexEligible = true → reqs.required .flex ≤ roster.filled .flex) := by
  unfold slotFor? openAt
  grind [Position.isSlotOnly_iff]

/-- An attempt that is rejected leaves the roster of the counts where one more attempt leads. -/
theorem ofCounts_attempt_of_none {counts : Position → Nat} {position : Position}
    (h : (ofCounts reqs counts).slotFor? reqs position = none) :
    ofCounts reqs (attempted counts position) = ofCounts reqs counts := by
  by_cases hflex : position = .flex
  · apply ofCounts_congr
    intro other hother
    exact Function.update_of_ne (hflex ▸ hother) _ _
  · obtain ⟨hown, hover⟩ := (slotFor?_eq_none_iff.mp h).resolve_left hflex
    rw [filled_ofCounts hflex] at hown
    rw [filled_ofCounts_flex] at hover
    apply ext_filled
    intro slot
    by_cases hslot : slot = .flex
    · subst hslot
      rw [filled_ofCounts_flex, filled_ofCounts_flex, Requirements.surplus_attempted]
      split
      · next hmore =>
        have hfull := hover hmore.1
        omega
      · rfl
    · rw [filled_ofCounts hslot, filled_ofCounts hslot, attempted]
      by_cases hsame : slot = position
      · subst hsame
        rw [Function.update_self]
        omega
      · rw [Function.update_of_ne hsame]

/-- An attempt that finds a slot fills it in the roster of the counts. -/
theorem ofCounts_attempt_of_some {counts : Position → Nat} {position place : Position}
    (h : (ofCounts reqs counts).slotFor? reqs position = some place) :
    ofCounts reqs (attempted counts position) = (ofCounts reqs counts).addTo place := by
  obtain ⟨hflex, hplace⟩ := slotFor?_eq_some_iff.mp h
  rw [filled_ofCounts hflex, filled_ofCounts_flex] at hplace
  apply ext_filled
  intro slot
  rw [filled_addTo]
  by_cases hslot : slot = .flex
  · subst hslot
    rw [filled_ofCounts_flex, filled_ofCounts_flex, Requirements.surplus_attempted]
    rcases hplace with ⟨rfl, hown⟩ | ⟨rfl, hown, heligible, hover⟩
    · rw [if_neg (by omega), if_neg (Ne.symm hflex)]
      rfl
    · rw [if_pos ⟨heligible, by omega⟩, if_pos rfl]
      omega
  · rw [filled_ofCounts hslot, filled_ofCounts hslot, attempted]
    by_cases hsame : slot = position
    · subst hsame
      rw [Function.update_self]
      rcases hplace with ⟨rfl, hown⟩ | ⟨rfl, hown, -, -⟩
      · rw [if_pos rfl]
        omega
      · rw [if_neg hslot]
        omega
    · rw [Function.update_of_ne hsame, if_neg]
      · rfl
      · rcases hplace with ⟨rfl, -⟩ | ⟨rfl, -⟩ <;> assumption

theorem fillAll_ofCounts (counts : Position → Nat) (positions : List Position) :
    (fillAll reqs (ofCounts reqs counts) positions).2 =
      ofCounts reqs fun position => counts position + positions.count position := by
  induction positions generalizing counts with
  | nil => rfl
  | cons position rest ih =>
    have hcounts : (fun other => attempted counts position other + rest.count other) =
        fun other => counts other + (position :: rest).count other := by
      funext other
      rw [attempted, Function.update_apply, List.count_cons]
      grind
    rw [← hcounts, ← ih]
    cases hslot : (ofCounts reqs counts).slotFor? reqs position with
    | none => rw [fillAll_cons_of_none hslot, ofCounts_attempt_of_none hslot]
    | some slot => rw [fillAll_cons_of_some hslot, ofCounts_attempt_of_some hslot]

/-- After any attempts from an empty roster, the roster is the one of their counts. -/
theorem fillAll_empty (reqs : Requirements) (positions : List Position) :
    (fillAll reqs .empty positions).2 = ofCounts reqs fun position => positions.count position := by
  rw [← ofCounts_zero reqs, fillAll_ofCounts]
  simp only [Nat.zero_add]

/-- What attempts from an empty roster lead to, by how many were made at each position: each position fills
its own places as far as they go, FLEX takes of the surplus what it has places for, and has the others still
open. Attempts at FLEX itself change nothing, and the order of attempts is of no consequence. -/
theorem filled_by_counts (reqs : Requirements) (positions : List Position) :
    let after := (fillAll reqs .empty positions).2
    let surplus := reqs.surplus fun position => positions.count position
    (∀ position, position ≠ .flex →
      after.filled position = min (positions.count position) (reqs.required position)) ∧
    after.filled .flex = min (reqs.required .flex) surplus ∧
    after.openAt reqs .flex = reqs.required .flex - surplus ∧
    (∀ roster, fillAll reqs roster [.flex] = ([none], roster)) ∧
    ∀ others : List Position,
      (∀ position, position ≠ .flex → others.count position = positions.count position) →
        (fillAll reqs .empty others).2 = after := by
  intro after surplus
  have hafter : after = ofCounts reqs fun position => positions.count position := fillAll_empty reqs positions
  have hflex : after.filled .flex = min (reqs.required .flex) surplus := by
    rw [hafter, filled_ofCounts_flex]
  refine ⟨?_, hflex, ?_, ?_, ?_⟩
  · intro position hposition
    rw [hafter, filled_ofCounts hposition]
  · rw [openAt, hflex]
    omega
  · intro roster
    rw [fillAll_cons_of_none (slotFor?_eq_none_iff.mpr (Or.inl rfl))]
    rfl
  · intro others hcounts
    rw [fillAll_empty, hafter]
    exact ofCounts_congr hcounts

end Roster

end SnakeDraft
