import Mathlib.Algebra.BigOperators.Group.Finset.Basic
import Mathlib.Algebra.Order.BigOperators.Group.Finset
import SnakeDraft.Proofs.Search.Candidates
import SnakeDraft.Proofs.Search.Correspondence

/-!
The size of search trees. A node has a child for each of its candidates, of which there are no more than positions of
players. So an iteration, which expands one node at most, adds no more nodes than that
(`Search.Charted.size_simulate_le`), and a level of the tree has no more nodes than that for each node of the level
above it (`Tree.Linked.card_level_le`). Nodes are numbered in 32 bits, and the greatest number stands for no node:
what is proved of trees with fewer nodes than `UInt32.size` is about trees that have such numbers, and
`Tree.sizeBound_lt` says which searches have no others.
-/

namespace SnakeDraft

namespace Tree

/-- The nodes at a distance from the root. -/
def level (t : Tree) (depth : Nat) : Finset Nat :=
  (Finset.range t.size).filter fun id => t.depthOf id = depth

/-- A bound on the nodes of a search tree, from its iterations and from the turns that are left at its root. -/
def sizeBound (iterations turns : Nat) : Nat :=
  min (1 + 6 * (iterations + 1)) (∑ depth ∈ Finset.range (turns + 1), 6 ^ depth)

/-- The nodes of a tree have numbers after some hundred millions of iterations, and after any number of them if no
more than twelve turns are left. -/
theorem sizeBound_lt {iterations turns : Nat} (h : 6 * iterations + 7 < UInt32.size ∨ turns ≤ 12) :
    sizeBound iterations turns < UInt32.size := by
  rcases h with hfew | hshort
  · exact Nat.lt_of_le_of_lt (Nat.min_le_left _ _) (by omega)
  · have hsum : ∑ depth ∈ Finset.range (turns + 1), 6 ^ depth ≤ ∑ depth ∈ Finset.range 13, 6 ^ depth :=
      Finset.sum_le_sum_of_subset (Finset.range_subset_range.mpr (by omega))
    exact Nat.lt_of_le_of_lt ((Nat.min_le_right _ _).trans hsum) (by decide)

section Levels

variable {t : Tree} {width : Nat}

theorem Linked.level_zero (h : t.Linked) : t.level 0 ⊆ {0} := by
  intro id hid
  obtain ⟨hlt, hdepth⟩ := Finset.mem_filter.mp hid
  rw [Finset.mem_singleton]
  by_contra hne
  obtain ⟨parent, hmem⟩ := h.listed id (Finset.mem_range.mp hlt) hne
  obtain ⟨-, choice, horigin⟩ := h.child parent id hmem
  rw [depthOf_of_origin horigin] at hdepth
  omega

theorem Linked.level_succ (h : t.Linked) (depth : Nat) :
    t.level (depth + 1) ⊆ (t.level depth).biUnion fun id => (t.childrenOf id).toFinset := by
  intro id hid
  obtain ⟨hlt, hdepth⟩ := Finset.mem_filter.mp hid
  have hne : id ≠ 0 := by
    rintro rfl
    rw [depthOf_of_origin h.root] at hdepth
    omega
  obtain ⟨parent, hmem⟩ := h.listed id (Finset.mem_range.mp hlt) hne
  obtain ⟨-, choice, horigin⟩ := h.child parent id hmem
  rw [depthOf_of_origin horigin] at hdepth
  refine Finset.mem_biUnion.mpr ⟨parent, ?_, List.mem_toFinset.mpr hmem⟩
  exact Finset.mem_filter.mpr ⟨Finset.mem_range.mpr (lt_size_of_mem_childrenOf hmem), by omega⟩

/-- From level to level there are no more nodes than children for each. -/
theorem Linked.card_level_le (h : t.Linked) (hwidth : ∀ id, (t.childrenOf id).length ≤ width) (depth : Nat) :
    (t.level depth).card ≤ width ^ depth := by
  induction depth with
  | zero => exact Finset.card_le_card h.level_zero
  | succ depth ih =>
    calc (t.level (depth + 1)).card
        ≤ ((t.level depth).biUnion fun id => (t.childrenOf id).toFinset).card :=
          Finset.card_le_card (h.level_succ depth)
      _ ≤ (t.level depth).card * width :=
          Finset.card_biUnion_le_card_mul _ _ _ fun id _ => (List.toFinset_card_le _).trans (hwidth id)
      _ ≤ width ^ depth * width := Nat.mul_le_mul_right width ih
      _ = width ^ (depth + 1) := (pow_succ width depth).symm

theorem Linked.size_le_sum_levels (h : t.Linked) (hwidth : ∀ id, (t.childrenOf id).length ≤ width) {deepest : Nat}
    (hdeepest : ∀ id < t.size, t.depthOf id ≤ deepest) :
    t.size ≤ ∑ depth ∈ Finset.range (deepest + 1), width ^ depth := by
  have hlevels : ∀ id ∈ Finset.range t.size, t.depthOf id ∈ Finset.range (deepest + 1) := by
    intro id hid
    exact Finset.mem_range.mpr (Nat.lt_succ_of_le (hdeepest id (Finset.mem_range.mp hid)))
  calc t.size
      = ∑ depth ∈ Finset.range (deepest + 1), (t.level depth).card := by
        rw [← Finset.card_range t.size]
        exact Finset.card_eq_sum_card_fiberwise hlevels
    _ ≤ ∑ depth ∈ Finset.range (deepest + 1), width ^ depth :=
        Finset.sum_le_sum fun depth _ => h.card_level_le hwidth depth

end Levels

end Tree

namespace Search

variable {σ : Type} {s t : Search σ} {stateAt : Nat → DraftState}

theorem Explores.length_candidates_le (h : s.Explores stateAt) {id : Nat} (hid : id < s.tree.size) :
    ((stateAt id).candidates s.rules).length ≤ 6 := by
  cases hturn : (stateAt id).onClock? s.rules.schedule with
  | none =>
    rw [DraftState.candidates_eq_nil_iff.mpr hturn]
    exact Nat.zero_le 6
  | some turn =>
    obtain ⟨roster, hroster⟩ := (h.seats id hid).roster_of_onClock hturn
    exact DraftState.length_candidates_le h.board hturn hroster

theorem Explores.length_childrenOf_le (h : s.Explores stateAt) (id : Nat) : (s.tree.childrenOf id).length ≤ 6 := by
  by_cases hleaf : s.tree.childrenOf id = []
  · rw [hleaf]
    exact Nat.zero_le 6
  · obtain ⟨child, hchild⟩ := List.exists_mem_of_ne_nil _ hleaf
    rw [← List.length_map s.tree.choiceOf, h.choices id hleaf]
    exact h.length_candidates_le (Tree.lt_size_of_mem_childrenOf hchild)

/-- An iteration expands one node at most. -/
theorem Charted.size_simulate_le (h : s.Charted stateAt) (hpolicy : s.policy.Legal) (hsimulate : s.simulate = .ok t) :
    t.tree.size ≤ s.tree.size + 6 := by
  obtain ⟨leaf, reward, memory, hlt, -, -, ⟨-, hended⟩ | ⟨-, hbranched⟩⟩ := h.explores.simulate_cases hpolicy
  · cases hsimulate.symm.trans hended
    change (s.tree.backpropagate leaf reward).size ≤ _
    rw [Tree.size_backpropagate]
    omega
  · cases hsimulate.symm.trans hbranched
    change ((s.tree.addChildren leaf _).backpropagate s.tree.size reward).size ≤ _
    rw [Tree.size_backpropagate, Tree.size_addChildren]
    exact Nat.add_le_add_left (h.explores.length_candidates_le hlt) _

/-- A search that has come from a tree of a size in so many iterations. -/
structure GrownFrom (s : Search σ) (size : Nat) (stateAt : Nat → DraftState) (k : Nat) : Prop where
  charted : s.Charted stateAt
  size_le : s.tree.size ≤ size + 6 * k

theorem GrownFrom.simulate {size k : Nat} (h : s.GrownFrom size stateAt k) (hpolicy : s.policy.Legal) :
    ∃ t stateAt', s.simulate = .ok t ∧ t.GrownFrom size stateAt' (k + 1) ∧ s.Continues t := by
  obtain ⟨t, stateAt', hsimulate, ht, hcontinues⟩ := h.charted.simulate hpolicy
  have hbefore := h.size_le
  have hadded := h.charted.size_simulate_le hpolicy hsimulate
  exact ⟨t, stateAt', hsimulate, ⟨ht, by omega⟩, hcontinues⟩

theorem Charted.size_iterate_le (h : s.Charted stateAt) (hpolicy : s.policy.Legal) {n : Nat}
    (hiterate : Search.iterate n s = .ok t) : t.tree.size ≤ s.tree.size + 6 * n := by
  obtain ⟨u, stateAt', hiterate', hu, -⟩ :=
    iterate_of_step (n := n) (fun k u stateAt => u.GrownFrom s.tree.size stateAt k)
      (fun _ _ _ _ hu hlegal => hu.simulate hlegal) ⟨h, Nat.le_refl _⟩ hpolicy
  cases hiterate.symm.trans hiterate'
  exact hu.size_le

theorem Charted.size_le (h : s.Charted stateAt) :
    s.tree.size ≤ ∑ depth ∈ Finset.range (s.rules.schedule.size - s.state.pointer + 1), 6 ^ depth :=
  h.linked.size_le_sum_levels h.explores.length_childrenOf_le h.mirrors.depth_le

/-- A search starts with the root and its children. -/
theorem size_start_le {rules : Rules} {state : DraftState} (hboard : rules.board.Indexed)
    (hseats : state.Seats rules.schedule) {settings : Settings} {policy : Policy σ} {memory : σ}
    (hstart : start rules state settings policy memory = .ok s) : s.tree.size ≤ 7 := by
  obtain ⟨turn, hturn, rfl⟩ := of_start hstart
  have halone := explores_alone hboard hseats hturn settings policy memory
  have hsize : (Tree.singleton.addChildren 0 (state.candidates rules)).size =
      1 + (state.candidates rules).length := Tree.size_addChildren _ _ _
  change (Tree.singleton.addChildren 0 (state.candidates rules)).size ≤ 7
  rw [hsize]
  have hlength : (state.candidates rules).length ≤ 6 := halone.length_candidates_le halone.size_pos
  omega

end Search

/-- What is reported of a search keeps to the bound on its nodes. -/
theorem searchTree_size_le {σ : Type} {rules : Rules} {state : DraftState} {policy : Policy σ}
    (hboard : rules.board.Indexed) (hseats : state.Seats rules.schedule) (hpolicy : policy.Legal)
    {settings : Settings} {memory : σ} {timing : Timing} {r : SearchResult}
    (h : searchTree rules state settings policy memory timing = .ok r) :
    r.stats.treeSize ≤ Tree.sizeBound r.stats.iterations (rules.schedule.size - state.pointer) := by
  unfold searchTree at h
  cases hstart : Search.start rules state settings policy memory with
  | error e => simp [hstart] at h
  | ok s =>
    obtain ⟨⟨stateAt, hs⟩, rfl, rfl, rfl⟩ := Search.charted_start hboard hseats hstart
    obtain ⟨t, stateAt', hiterate, ht, hcontinues⟩ := hs.iterate hpolicy (s.iterations timing.room)
    simp only [hstart] at h
    by_cases hdeadline : s.settings.deadlineFits timing.start = true
    · rw [Search.run_of_iterate hdeadline hiterate] at h
      cases h
      have hfirst := Search.size_start_le hboard hseats hstart
      have hiterations := hs.size_iterate_le hpolicy hiterate
      have hlevels := ht.size_le
      rw [hcontinues.rules, hcontinues.state] at hlevels
      refine Nat.le_min.mpr ⟨?_, hlevels⟩
      change t.tree.size ≤ 1 + 6 * (s.iterations timing.room + 1)
      omega
    · rw [Search.run_of_deadline (by simpa using hdeadline)] at h
      cases h

end SnakeDraft
