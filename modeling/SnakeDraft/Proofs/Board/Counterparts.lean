import SnakeDraft.Proofs.Board.Names

/-!
The players of one board on another. A player's counterpart is found by name; where the other board has a player of
the same name, up to case, and at the same position (`Board.HasLike`), every spelling under which the player is known
leads to that one (`Board.find?_counterpart`), and different players have different counterparts
(`Board.renames_counterpart`).
-/

namespace SnakeDraft

/-- Different players of a board stand on another one under their new ids, at the same positions. -/
structure Renames (board other : Board) (f : Nat → Nat) (ids : List Nat) : Prop where
  position_eq : ∀ id ∈ ids, ∀ player, board.player? id = some player →
    ∃ again, other.player? (f id) = some again ∧ again.position = player.position
  injective : ∀ a ∈ ids, ∀ b ∈ ids, f a = f b → a = b

theorem Renames.mono {board other : Board} {f : Nat → Nat} {ids more : List Nat}
    (h : Renames board other f more) (hids : ids ⊆ more) : Renames board other f ids := by
  constructor
  case position_eq =>
    intro id hid
    exact h.position_eq id (hids hid)
  case injective =>
    intro a ha b hb
    exact h.injective a (hids ha) b (hids hb)

namespace Board

/-- A board has a player of the same name, up to case, and at the same position. -/
def HasLike (b : Board) (player : Player) : Prop :=
  ∃ again ∈ b.players, Text.sameFold again.name player.name = true ∧ again.position = player.position

/-- The id on another board of who has the name of a player there. -/
def counterpart (b other : Board) (id : Nat) : Nat :=
  ((b.player? id).bind fun player => other.find? player.name).getD 0

variable {b other : Board} {id : Nat} {player : Player}

/-- Every spelling of a name leads to the counterpart of the player who has it. -/
theorem find?_counterpart (hb : DistinctNames b.players) (hother : DistinctNames other.players)
    (hplayer : b.player? id = some player) (hlike : other.HasLike player) :
    ∃ again, other.player? (b.counterpart other id) = some again ∧
      Text.sameFold again.name player.name = true ∧ again.position = player.position ∧
      ∀ name, b.find? name = some id → other.find? name = some (b.counterpart other id) := by
  obtain ⟨again, hmem, hname, hposition⟩ := hlike
  obtain ⟨j, hj, rfl⟩ := Array.mem_iff_getElem.mp hmem
  have hagain : other.player? j = some other.players[j] := Array.getElem?_eq_getElem hj
  have hfound : ∀ name, Text.sameFold player.name (Text.trim name) = true → other.find? name = some j := by
    intro name hspelled
    apply find?_of_sameFold hother hagain
    exact Text.sameFold_iff.mpr ((Text.sameFold_iff.mp hname).trans (Text.sameFold_iff.mp hspelled))
  have hcounterpart : b.counterpart other id = j := by
    obtain ⟨hlt, rfl⟩ := Array.getElem?_eq_some_iff.mp hplayer
    have htrimmed := hb.trimmed _ (Array.getElem_mem hlt)
    have hown := hfound b.players[id].name (by rw [htrimmed]; exact Text.sameFold_self _)
    rw [counterpart, hplayer, Option.bind_some, hown, Option.getD_some]
  rw [hcounterpart]
  refine ⟨other.players[j], hagain, hname, hposition, ?_⟩
  intro name hid
  obtain ⟨found, hfound', hspelled⟩ := player_of_find? hid
  cases hplayer.symm.trans hfound'
  exact hfound name hspelled

/-- Going to the counterparts is a renaming of the players that another board has. -/
theorem renames_counterpart (hb : DistinctNames b.players) (hother : DistinctNames other.players)
    {ids : List Nat}
    (hlike : ∀ id ∈ ids, ∃ player, b.player? id = some player ∧ other.HasLike player) :
    Renames b other (b.counterpart other) ids := by
  constructor
  case position_eq =>
    intro id hid player hplayer
    obtain ⟨found, hfound, hthere⟩ := hlike id hid
    cases hplayer.symm.trans hfound
    obtain ⟨again, hagain, -, hposition, -⟩ := find?_counterpart hb hother hplayer hthere
    exact ⟨again, hagain, hposition⟩
  case injective =>
    intro i hi j hj hsame
    obtain ⟨first, hfirst, hthere⟩ := hlike i hi
    obtain ⟨second, hsecond, hthere'⟩ := hlike j hj
    obtain ⟨again, hagain, hname, -⟩ := find?_counterpart hb hother hfirst hthere
    obtain ⟨again', hagain', hname', -⟩ := find?_counterpart hb hother hsecond hthere'
    rw [hsame] at hagain
    cases hagain.symm.trans hagain'
    obtain ⟨hlt, rfl⟩ := Array.getElem?_eq_some_iff.mp hfirst
    obtain ⟨hlt', rfl⟩ := Array.getElem?_eq_some_iff.mp hsecond
    apply hb.distinct i j hlt hlt'
    exact Text.sameFold_iff.mpr ((Text.sameFold_iff.mp hname).symm.trans (Text.sameFold_iff.mp hname'))

end Board

end SnakeDraft
