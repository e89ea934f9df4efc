import SnakeDraft.Board.Rows

/-!
Who is available on a board. A board is indexed (`Board.Indexed`) when its lists of ids by position hold
exactly the players at each position, which every board built from rows is; on such a board the best
player available for a slot is on the board, free, and at a position that fits the slot. The lists are also
in the order of the board (`Board.Ordered`), so no free player who fits the slot comes before the best one.
-/

namespace SnakeDraft

/-- Whether players at a position may fill a slot: their own one, or FLEX where it takes them. -/
def Position.Fits (slot position : Position) : Prop :=
  (slot ≠ .flex ∧ slot = position) ∨ (slot = .flex ∧ position.isFlexEligible = true)

namespace Board

/-- The lists of ids by position hold exactly the players at each position. -/
def Indexed (b : Board) : Prop :=
  ∀ position id, id ∈ b.idsByPosition.get position ↔
    ∃ player, b.player? id = some player ∧ player.position = position

theorem indexed_ofPlayers (players : Array Player) : (ofPlayers players).Indexed := by
  intro position id
  rw [get_idsByPosition_ofPlayers, List.mem_filter, List.mem_range]
  show id < players.size ∧ _ ↔ ∃ player, players[id]? = some player ∧ _
  constructor
  · rintro ⟨hlt, hposition⟩
    refine ⟨players[id], Array.getElem?_eq_getElem hlt, ?_⟩
    simpa [Array.getElem?_eq_getElem hlt] using hposition
  · rintro ⟨player, hplayer, hposition⟩
    obtain ⟨hlt, -⟩ := Array.getElem?_eq_some_iff.mp hplayer
    exact ⟨hlt, by simp [hplayer, hposition]⟩

theorem eq_ofPlayers_of_ofRows {rows : List Row} {b : Board} (h : ofRows rows = .ok b) :
    ∃ players, addRows #[] rows = .ok players ∧ b = ofPlayers players := by
  unfold ofRows at h
  cases hplayers : addRows #[] rows with
  | error e =>
    rw [hplayers] at h
    cases h
  | ok players =>
    rw [hplayers] at h
    cases h
    exact ⟨players, rfl, rfl⟩

theorem indexed_of_ofRows {rows : List Row} {b : Board} (h : ofRows rows = .ok b) : b.Indexed := by
  obtain ⟨players, -, rfl⟩ := eq_ofPlayers_of_ofRows h
  exact indexed_ofPlayers players

/-- The best player at a position is a free player at that position. -/
theorem Indexed.of_bestAt? {b : Board} (hb : b.Indexed) {taken : TakenSet} {position : Position}
    {id : Nat} (h : b.bestAt? taken position = some id) :
    taken.contains id = false ∧ ∃ player, b.player? id = some player ∧ player.position = position := by
  have hfree := List.find?_some h
  have hmem := List.mem_of_find?_eq_some h
  exact ⟨by simpa using hfree, (hb position id).mp hmem⟩

/-- The best player available for a slot fits it and is the best one at the own position. -/
theorem Indexed.bestAt?_of_bestAvailable? {b : Board} (hb : b.Indexed) {taken : TakenSet}
    {slot : Position} {id : Nat} (h : b.bestAvailable? taken slot = some id) :
    ∃ player, b.player? id = some player ∧ slot.Fits player.position ∧
      b.bestAt? taken player.position = some id := by
  unfold bestAvailable? at h
  split at h
  · next hslot =>
    have hmem := List.min?_mem h
    obtain ⟨position, hposition, hbest⟩ := List.mem_filterMap.mp hmem
    obtain ⟨-, player, hplayer, rfl⟩ := hb.of_bestAt? hbest
    have heligible := (List.mem_filter.mp hposition).2
    exact ⟨player, hplayer, Or.inr ⟨Position.isSlotOnly_iff.mp hslot, heligible⟩, hbest⟩
  · next hslot =>
    obtain ⟨-, player, hplayer, rfl⟩ := hb.of_bestAt? h
    have hne : player.position ≠ .flex := fun heq => hslot (Position.isSlotOnly_iff.mpr heq)
    exact ⟨player, hplayer, Or.inl ⟨hne, rfl⟩, h⟩

/-- The best player available for a slot is a free player who fits the slot. -/
theorem Indexed.of_bestAvailable? {b : Board} (hb : b.Indexed) {taken : TakenSet} {slot : Position}
    {id : Nat} (h : b.bestAvailable? taken slot = some id) :
    taken.contains id = false ∧
      ∃ player, b.player? id = some player ∧ slot.Fits player.position := by
  obtain ⟨player, hplayer, hfits, hbest⟩ := hb.bestAt?_of_bestAvailable? h
  exact ⟨(hb.of_bestAt? hbest).1, player, hplayer, hfits⟩

/-- Who is the best player available depends on the members of a set alone. -/
theorem bestAvailable?_congr (b : Board) {taken other : TakenSet}
    (h : ∀ id, taken.contains id = other.contains id) (slot : Position) :
    b.bestAvailable? taken slot = b.bestAvailable? other slot := by
  have hbest : b.bestAt? taken = b.bestAt? other := funext fun position => by simp only [bestAt?, h]
  rw [bestAvailable?, bestAvailable?, hbest]

/-- The lists of ids by position are in the order of the board. -/
def Ordered (b : Board) : Prop :=
  ∀ position, (b.idsByPosition.get position).Pairwise (· < ·)

theorem ordered_ofPlayers (players : Array Player) : (ofPlayers players).Ordered := by
  intro position
  rw [get_idsByPosition_ofPlayers]
  exact List.pairwise_lt_range.filter _

theorem ordered_of_ofRows {rows : List Row} {b : Board} (h : ofRows rows = .ok b) : b.Ordered := by
  obtain ⟨players, -, rfl⟩ := eq_ofPlayers_of_ofRows h
  exact ordered_ofPlayers players

section Order

variable {b : Board} {taken : TakenSet} {id : Nat} {player : Player}

/-- Where a player is free, the best one at the position is this player or comes before. -/
theorem Indexed.exists_bestAt?_le (hb : b.Indexed) (hordered : b.Ordered)
    (hplayer : b.player? id = some player) (hfree : taken.contains id = false) :
    ∃ best ≤ id, b.bestAt? taken player.position = some best := by
  have hmem : id ∈ b.idsByPosition.get player.position := by
    apply (hb player.position id).mpr
    exact ⟨player, hplayer, rfl⟩
  cases hbest : b.bestAt? taken player.position with
  | none =>
    have htaken := List.find?_eq_none.mp hbest id hmem
    simp [hfree] at htaken
  | some best =>
    refine ⟨best, ?_, rfl⟩
    obtain ⟨-, before, after, hsplit, htaken⟩ := List.find?_eq_some_iff_append.mp hbest
    have hsorted := hordered player.position
    rw [hsplit] at hmem hsorted
    rcases List.mem_append.mp hmem with hbefore | hrest
    · have hout := htaken id hbefore
      simp [hfree] at hout
    · rcases List.mem_cons.mp hrest with rfl | hafter
      · exact Nat.le_refl id
      · apply Nat.le_of_lt
        exact (List.pairwise_cons.mp (List.pairwise_append.mp hsorted).2.1).1 id hafter

/-- Where a player is free who fits a slot, the best one available for it is this player or comes before. -/
theorem Indexed.exists_bestAvailable?_le (hb : b.Indexed) (hordered : b.Ordered) {slot : Position}
    (hplayer : b.player? id = some player) (hfree : taken.contains id = false)
    (hfits : slot.Fits player.position) : ∃ best ≤ id, b.bestAvailable? taken slot = some best := by
  obtain ⟨first, hfirst, hbest⟩ := hb.exists_bestAt?_le hordered hplayer hfree
  rcases hfits with ⟨hne, rfl⟩ | ⟨rfl, heligible⟩
  · refine ⟨first, hfirst, ?_⟩
    rw [bestAvailable?, if_neg (mt Position.isSlotOnly_iff.mp hne)]
    exact hbest
  · have hmem : first ∈ Position.flexEligible.filterMap (b.bestAt? taken) := by
      apply List.mem_filterMap.mpr
      exact ⟨player.position, List.mem_filter.mpr ⟨Position.mem_all _, heligible⟩, hbest⟩
    obtain ⟨best, hmin⟩ := Option.isSome_iff_exists.mp (List.isSome_min?_of_mem hmem)
    have hle := (List.min?_eq_some_iff.mp hmin).2 first hmem
    exact ⟨best, Nat.le_trans hle hfirst, hmin⟩

end Order

end Board

end SnakeDraft
