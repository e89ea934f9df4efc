import Mathlib.Data.List.Perm.Subperm
import SnakeDraft.Proofs.Board.Availability

/-!
How many players a board has to give. A board lists each of its players once, under the own position, so while
fewer of them are taken than it has at a position, there is a best one left.
-/

namespace SnakeDraft.Board

/-- The number of players at a position. -/
def supply (b : Board) (position : Position) : Nat :=
  b.players.toList.countP (·.position == position)

theorem map_players_range (players : Array Player) :
    (List.range players.size).map (players[·]?) = players.toList.map some := by
  apply List.ext_getElem?
  intro i
  by_cases hi : i < players.size
  · simp [hi]
  · simp [hi]

theorem length_idsByPosition_ofPlayers (players : Array Player) (position : Position) :
    ((ofPlayers players).idsByPosition.get position).length = (ofPlayers players).supply position := by
  rw [get_idsByPosition_ofPlayers, ← List.countP_eq_length_filter]
  calc (List.range players.size).countP (fun id => players[id]?.map (·.position) == some position)
      = ((List.range players.size).map (players[·]?)).countP
          (fun found => found.map (·.position) == some position) := by
        rw [List.countP_map]
        rfl
    _ = players.toList.countP (·.position == position) := by
        rw [map_players_range, List.countP_map]
        apply List.countP_congr
        intro player _
        simp

theorem nodup_idsByPosition_ofPlayers (players : Array Player) (position : Position) :
    ((ofPlayers players).idsByPosition.get position).Nodup := by
  rw [get_idsByPosition_ofPlayers]
  exact List.Pairwise.filter _ List.nodup_range

/-- A position has a best player left when the taken ones among its players are too few. -/
theorem exists_bestAt? {b : Board} {taken : TakenSet} {position : Position} {out : List Nat}
    (hnodup : (b.idsByPosition.get position).Nodup)
    (hout : ∀ id ∈ b.idsByPosition.get position, taken.contains id = true → id ∈ out)
    (hlt : out.length < (b.idsByPosition.get position).length) :
    ∃ id, b.bestAt? taken position = some id := by
  cases hbest : b.bestAt? taken position with
  | some id => exact ⟨id, rfl⟩
  | none =>
    have hall : ∀ id ∈ b.idsByPosition.get position, taken.contains id = true := by
      simpa [bestAt?] using hbest
    have hsubset : b.idsByPosition.get position ⊆ out := by
      intro id hid
      exact hout id hid (hall id hid)
    have hle := (List.subperm_of_subset hnodup hsubset).length_le
    omega

/-- A FLEX place can be filled while a position that may fill it has a player left. -/
theorem exists_bestAvailable?_flex {b : Board} {taken : TakenSet} {position : Position} {id : Nat}
    (heligible : position.isFlexEligible = true) (hbest : b.bestAt? taken position = some id) :
    ∃ best, b.bestAvailable? taken .flex = some best := by
  have hmem : id ∈ Position.flexEligible.filterMap (b.bestAt? taken) :=
    List.mem_filterMap.mpr
      ⟨position, List.mem_filter.mpr ⟨Position.mem_all position, heligible⟩, hbest⟩
  cases hmin : b.bestAvailable? taken .flex with
  | some best => exact ⟨best, rfl⟩
  | none =>
    rw [bestAvailable?, if_pos (by decide), List.min?_eq_none_iff] at hmin
    rw [hmin] at hmem
    cases hmem

end SnakeDraft.Board
