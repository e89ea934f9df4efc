import Mathlib.Data.List.Nodup
import SnakeDraft.Proofs.Board.Availability
import SnakeDraft.Proofs.Draft.Recording
import SnakeDraft.Proofs.Sorting

/-!
Two ways to the best player for a slot. A board lists who may fill a slot and who of them is free, and it finds the
best free player without making the list, which for FLEX looks at three positions and takes the least of three
answers. On an indexed board in order both come to the first player of the list (`Board.bestAvailable?_eq_head?`).
-/

namespace SnakeDraft.Board

/-- Whether a player is on the board, may fill a slot and is not taken. -/
def Free (b : Board) (slot : Position) (taken : TakenSet) (id : Nat) : Prop :=
  (∃ player, b.player? id = some player ∧ slot.Fits player.position) ∧ taken.contains id = false

variable {b : Board} {slot : Position} {taken : TakenSet} {id : Nat}

theorem Indexed.mem_eligible (hb : b.Indexed) :
    id ∈ b.eligible slot ↔ ∃ player, b.player? id = some player ∧ slot.Fits player.position := by
  by_cases hslot : slot = .flex
  · subst hslot
    have hmem : id ∈ b.eligible .flex ↔ ∃ p ∈ Position.flexEligible, id ∈ b.idsByPosition.get p := by
      rw [eligible, if_pos (Position.isSlotOnly_iff.mpr rfl), List.mem_mergeSort, List.mem_flatMap]
    rw [hmem]
    constructor
    · rintro ⟨p, hp, hid⟩
      obtain ⟨player, hplayer, rfl⟩ := (hb p id).mp hid
      exact ⟨player, hplayer, .inr ⟨rfl, (List.mem_filter.mp hp).2⟩⟩
    · rintro ⟨player, hplayer, ⟨hne, -⟩ | ⟨-, heligible⟩⟩
      · exact absurd rfl hne
      · refine ⟨player.position, List.mem_filter.mpr ⟨Position.mem_all _, heligible⟩, ?_⟩
        exact (hb _ id).mpr ⟨player, hplayer, rfl⟩
  · rw [eligible, if_neg (mt Position.isSlotOnly_iff.mp hslot), hb slot id]
    constructor
    · rintro ⟨player, hplayer, rfl⟩
      exact ⟨player, hplayer, .inl ⟨hslot, rfl⟩⟩
    · rintro ⟨player, hplayer, ⟨-, hown⟩ | ⟨hflex, -⟩⟩
      · exact ⟨player, hplayer, hown.symm⟩
      · exact absurd hflex hslot

/-- Nobody is listed at two positions. -/
theorem Indexed.disjoint (hb : b.Indexed) {p q : Position} (hne : p ≠ q) :
    (b.idsByPosition.get p).Disjoint (b.idsByPosition.get q) := by
  intro id hp hq
  obtain ⟨player, hplayer, rfl⟩ := (hb p id).mp hp
  obtain ⟨again, hagain, rfl⟩ := (hb q id).mp hq
  cases hplayer.symm.trans hagain
  exact hne rfl

/-- Merging the lists of several positions keeps the order of the board and names nobody twice. -/
theorem pairwise_eligible (hb : b.Indexed) (hordered : b.Ordered) (slot : Position) :
    (b.eligible slot).Pairwise (· < ·) := by
  unfold eligible
  split
  · have hnodup : (Position.flexEligible.flatMap b.idsByPosition.get).Nodup := by
      rw [List.nodup_flatMap]
      refine ⟨fun p _ => (hordered p).imp Nat.ne_of_lt, ?_⟩
      have hdistinct : Position.flexEligible.Nodup := by decide
      exact hdistinct.imp fun hne => hb.disjoint hne
    exact pairwise_lt_mergeSort hnodup
  · exact hordered slot

theorem Indexed.mem_filter_eligible (hb : b.Indexed) :
    id ∈ (b.eligible slot).filter (fun id => !taken.contains id) ↔ b.Free slot taken id := by
  rw [List.mem_filter, hb.mem_eligible, Bool.not_eq_true']
  exact Iff.rfl

/-- The best player who is found for a slot is the first one of the list. -/
theorem bestAvailable?_eq_head? (hb : b.Indexed) (hordered : b.Ordered) (slot : Position) (taken : TakenSet) :
    b.bestAvailable? taken slot = ((b.eligible slot).filter fun id => !taken.contains id).head? := by
  have hmem : ∀ id, id ∈ (b.eligible slot).filter (fun id => !taken.contains id) ↔ b.Free slot taken id :=
    fun id => hb.mem_filter_eligible
  have hsorted := (pairwise_eligible hb hordered slot).filter fun id => !taken.contains id
  cases hlist : (b.eligible slot).filter fun id => !taken.contains id with
  | nil =>
    cases hbest : b.bestAvailable? taken slot with
    | none => rfl
    | some best =>
      obtain ⟨hfree, hfits⟩ := hb.of_bestAvailable? hbest
      have hlisted := (hmem best).mpr ⟨hfits, hfree⟩
      rw [hlist] at hlisted
      cases hlisted
  | cons first rest =>
    rw [hlist] at hmem hsorted
    obtain ⟨⟨player, hplayer, hfits⟩, hfree⟩ := (hmem first).mp List.mem_cons_self
    obtain ⟨best, hle, hbest⟩ := hb.exists_bestAvailable?_le hordered hplayer hfree hfits
    obtain ⟨hfree', hfits'⟩ := hb.of_bestAvailable? hbest
    rw [hbest, List.head?_cons]
    rcases List.mem_cons.mp ((hmem best).mpr ⟨hfits', hfree'⟩) with rfl | hlater
    · rfl
    · have hlt := (List.pairwise_cons.mp hsorted).1 best hlater
      omega

/-- The best player for a slot is the least free one. -/
theorem bestAvailable?_eq_some_iff (hb : b.Indexed) (hordered : b.Ordered) :
    b.bestAvailable? taken slot = some id ↔
      b.Free slot taken id ∧ ∀ other, b.Free slot taken other → id ≤ other := by
  constructor
  · intro hbest
    obtain ⟨hfree, hfits⟩ := hb.of_bestAvailable? hbest
    refine ⟨⟨hfits, hfree⟩, ?_⟩
    rintro other ⟨⟨player, hplayer, hfits'⟩, hfree'⟩
    obtain ⟨best, hle, hbest'⟩ := hb.exists_bestAvailable?_le hordered hplayer hfree' hfits'
    cases hbest.symm.trans hbest'
    exact hle
  · rintro ⟨⟨⟨player, hplayer, hfits⟩, hfree⟩, hleast⟩
    obtain ⟨best, hle, hbest⟩ := hb.exists_bestAvailable?_le hordered hplayer hfree hfits
    obtain ⟨hfree', hfits'⟩ := hb.of_bestAvailable? hbest
    have hge := hleast best ⟨hfits', hfree'⟩
    rw [hbest, Nat.le_antisymm hle hge]

/-- How a board answers who is there for a slot. -/
structure Answers (b : Board) (slot : Position) (taken : TakenSet) : Prop where
  ascending : (b.eligible slot).Pairwise (· < ·)
  mem_eligible : ∀ id, id ∈ b.eligible slot ↔
    ∃ player, b.player? id = some player ∧ slot.Fits player.position
  available_eq : ∀ limit, b.available taken slot limit =
    ((b.eligible slot).filter fun id => !taken.contains id).take limit
  available_prefix : ∀ limit more, limit ≤ more →
    b.available taken slot limit <+: b.available taken slot more
  /-- The best player is the first one available, whatever the limit. -/
  best_eq_head? : ∀ limit, 0 < limit → b.bestAvailable? taken slot = (b.available taken slot limit).head?
  best_eq_some_iff : ∀ id, b.bestAvailable? taken slot = some id ↔
    b.Free slot taken id ∧ ∀ other, b.Free slot taken other → id ≤ other
  best_eq_none_iff : b.bestAvailable? taken slot = none ↔ ∀ id, ¬ b.Free slot taken id

/-- On every board that is built from rows, for every slot and whoever is taken, the best available player is the
first one of the list of available players. -/
theorem best_heads_available {rows : List Row} {b : Board} (hboard : ofRows rows = .ok b) (slot : Position)
    (taken : TakenSet) : b.Answers slot taken := by
  have hb := indexed_of_ofRows hboard
  have hordered := ordered_of_ofRows hboard
  constructor
  case ascending => exact pairwise_eligible hb hordered slot
  case mem_eligible => exact fun id => hb.mem_eligible
  case available_eq => exact fun limit => rfl
  case available_prefix => exact fun limit more hle => List.take_prefix_take_left hle
  case best_eq_head? =>
    intro limit hlimit
    rw [bestAvailable?_eq_head? hb hordered, available, List.head?_take, if_neg (Nat.ne_of_gt hlimit)]
  case best_eq_some_iff => exact fun id => bestAvailable?_eq_some_iff hb hordered
  case best_eq_none_iff =>
    rw [bestAvailable?_eq_head? hb hordered, List.head?_eq_none_iff, List.eq_nil_iff_forall_not_mem]
    exact forall_congr' fun id => not_congr hb.mem_filter_eligible

/-- A FLEX place goes to the receiver when the running back before him is taken. -/
theorem best_heads_available_of_flex :
    let rows : List Row := [⟨2, "QB A", "QB", "100"⟩, ⟨3, "RB A", "RB", "95"⟩, ⟨4, "WR A", "WR", "90"⟩,
      ⟨5, "RB B", "RB", "85"⟩]
    let taken := TakenSet.empty.insert 1
    ∃ board, ofRows rows = .ok board ∧ board.Answers .flex taken ∧
      board.bestAvailable? taken .flex = some 2 ∧ (board.available taken .flex 5).head? = some 2 := by
  intro rows taken
  have hok : (ofRows rows).toOption.any
      (fun board => decide (board.bestAvailable? taken .flex = some 2)) = true := by
    decide +kernel
  obtain ⟨board, hfound, hbest⟩ := (Option.any_eq_true _ _).mp hok
  replace hbest := of_decide_eq_true hbest
  have hboard := eq_ok_of_toOption hfound
  have hanswers := best_heads_available hboard .flex taken
  have hhead := hanswers.best_eq_head? 5 (by decide)
  exact ⟨board, hboard, hanswers, hbest, hhead.symm.trans hbest⟩

end SnakeDraft.Board
