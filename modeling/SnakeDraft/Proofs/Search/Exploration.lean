import SnakeDraft.Proofs.Search.Legality
import SnakeDraft.Proofs.Search.Tree
import SnakeDraft.Search.Run

/-!
How a search explores a draft. Nodes hold no states, so `Search.Explores` says which state each node
stands for: the root for the draft that is searched, and a child for its parent's state after the choice
that leads to the child. Every part of an iteration keeps this, and none of them fails.
-/

namespace SnakeDraft

/-- The state after a choice, or the same one when the choice does not apply. -/
def DraftState.after (s : DraftState) (rules : Rules) (choice : Choice) : DraftState :=
  match s.apply rules choice with
  | .ok (_, t) => t
  | .error _ => s

theorem DraftState.apply_after {s t : DraftState} {rules : Rules} {choice : Choice} {pick : Pick}
    (h : s.apply rules choice = .ok (pick, t)) :
    s.apply rules choice = .ok (pick, s.after rules choice) := by
  unfold after
  rw [h]

namespace Search

variable {σ : Type}

/-- The nodes of a search stand for these states. An expanded node has a child for each candidate, in
their order. -/
structure Explores (s : Search σ) (stateAt : Nat → DraftState) : Prop where
  board : s.rules.board.Indexed
  turn : s.state.onClock? s.rules.schedule = some s.turn
  size_pos : 0 < s.tree.size
  root : stateAt 0 = s.state
  seats : ∀ id < s.tree.size, (stateAt id).Seats s.rules.schedule
  child_lt : ∀ id, ∀ child ∈ s.tree.childrenOf id, child < s.tree.size
  choices : ∀ id, s.tree.childrenOf id ≠ [] →
    (s.tree.childrenOf id).map s.tree.choiceOf = (stateAt id).candidates s.rules
  edge : ∀ id, ∀ child ∈ s.tree.childrenOf id, ∃ pick,
    (stateAt id).apply s.rules (s.tree.choiceOf child) = .ok (pick, stateAt child)

/-- A later stage of the same search: expanded nodes keep their children. -/
structure Continues (s t : Search σ) : Prop where
  rules : t.rules = s.rules
  state : t.state = s.state
  turn : t.turn = s.turn
  settings : t.settings = s.settings
  policy : t.policy = s.policy
  expanded : ∀ id, s.tree.childrenOf id ≠ [] → t.tree.childrenOf id = s.tree.childrenOf id

theorem Continues.refl (s : Search σ) : s.Continues s :=
  ⟨rfl, rfl, rfl, rfl, rfl, fun _ _ => rfl⟩

theorem Continues.trans {s t u : Search σ} (hst : s.Continues t) (htu : t.Continues u) :
    s.Continues u where
  rules := htu.rules.trans hst.rules
  state := htu.state.trans hst.state
  turn := htu.turn.trans hst.turn
  settings := htu.settings.trans hst.settings
  policy := htu.policy.trans hst.policy
  expanded id hid := by
    have hfirst := hst.expanded id hid
    rw [htu.expanded id (by rwa [hfirst]), hfirst]

/-- A descent stands at a node of the tree with the state of that node. -/
structure Descent.At (d : Descent) (s : Search σ) (stateAt : Nat → DraftState) : Prop where
  node_lt : d.node < s.tree.size
  state : d.state = stateAt d.node

theorem Explores.step {s : Search σ} {stateAt : Nat → DraftState} (h : s.Explores stateAt)
    {d : Descent} (hd : d.At s stateAt) {child : Nat} (hchild : child ∈ s.tree.childrenOf d.node) :
    ∃ e, s.step d child = .ok e ∧ e.At s stateAt := by
  obtain ⟨pick, happly⟩ := h.edge d.node child hchild
  rw [← hd.state] at happly
  let points := rewardOf s.rules.board s.turn.team pick.turn.team (s.tree.choiceOf child)
  refine ⟨⟨child, stateAt child, d.accrued + points⟩, ?_, h.child_lt d.node child hchild, rfl⟩
  unfold Search.step
  rw [DraftState.advance_of_apply happly]
  rfl

theorem Explores.descend {s : Search σ} {stateAt : Nat → DraftState} (h : s.Explores stateAt)
    {d : Descent} (hd : d.At s stateAt) : ∃ e, s.descend d = .ok e ∧ e.At s stateAt := by
  fun_induction Search.descend s d with
  | case1 d hnone => exact ⟨d, rfl, hd⟩
  | case2 d child hchild e hstep =>
    obtain ⟨e', hstep', -⟩ := h.step hd (Tree.selectChild_mem hchild)
    cases hstep.symm.trans hstep'
  | case3 d child hchild next hstep ih =>
    obtain ⟨next', hstep', hnext⟩ := h.step hd (Tree.selectChild_mem hchild)
    cases hstep.symm.trans hstep'
    exact ih hnext

/-- The states of the nodes once a node has a child for each of these choices. -/
def extendStates (stateAt : Nat → DraftState) (size : Nat) (rules : Rules) (node : Nat)
    (choices : List Choice) (id : Nat) : DraftState :=
  if id < size then stateAt id
  else (stateAt node).after rules (choices.getD (id - size) .pass)

theorem extendStates_of_lt {stateAt : Nat → DraftState} {size : Nat} {rules : Rules} {node : Nat}
    {choices : List Choice} {id : Nat} (hid : id < size) :
    extendStates stateAt size rules node choices id = stateAt id :=
  if_pos hid

theorem extendStates_add {stateAt : Nat → DraftState} {size : Nat} {rules : Rules} {node : Nat}
    {choices : List Choice} {k : Nat} (hk : k < choices.length) :
    extendStates stateAt size rules node choices (size + k) =
      (stateAt node).after rules choices[k] := by
  rw [extendStates, if_neg (by omega), Nat.add_sub_cancel_left, List.getD_eq_getElem?_getD,
    List.getElem?_eq_getElem hk, Option.getD_some]

/-- The children that a leaf gets for its candidates stand for the states after these. -/
theorem Explores.apply_candidate {s : Search σ} {stateAt : Nat → DraftState}
    (h : s.Explores stateAt) {node k : Nat} (hnode : node < s.tree.size)
    (hk : k < ((stateAt node).candidates s.rules).length) :
    ∃ pick, (stateAt node).apply s.rules ((stateAt node).candidates s.rules)[k] =
      .ok (pick, extendStates stateAt s.tree.size s.rules node ((stateAt node).candidates s.rules)
        (s.tree.size + k)) := by
  obtain ⟨pick, t, ht⟩ := DraftState.apply_of_mem_candidates h.board (h.seats node hnode)
    (List.getElem_mem hk)
  rw [extendStates_add hk]
  exact ⟨pick, DraftState.apply_after ht⟩

/-- A leaf with a child for each of its candidates. -/
theorem Explores.addChildren {s : Search σ} {stateAt : Nat → DraftState} (h : s.Explores stateAt)
    {node : Nat} (hnode : node < s.tree.size) (hleaf : s.tree.childrenOf node = [])
    (passThroughs : Nat) :
    Explores
      { s with
        tree := s.tree.addChildren node ((stateAt node).candidates s.rules)
        passThroughs }
      (extendStates stateAt s.tree.size s.rules node ((stateAt node).candidates s.rules)) := by
  have hcandidate := fun k => h.apply_candidate (k := k) hnode
  generalize hchoices : (stateAt node).candidates s.rules = choices at hcandidate ⊢
  have hsize := Tree.size_addChildren s.tree node choices
  have hchildren : ∀ id, (s.tree.addChildren node choices).childrenOf id =
      if id = node then List.range' s.tree.size choices.length else s.tree.childrenOf id := by
    intro id
    rw [Tree.childrenOf_addChildren choices hnode]
    by_cases hid : id = node
    · simp [hid, hleaf]
    · simp [hid]
  have hnew : ∀ k (hk : k < choices.length),
      (s.tree.addChildren node choices).choiceOf (s.tree.size + k) = choices[k] := by
    intro k hk
    rw [Tree.choiceOf_addChildren choices hnode, if_neg (by omega), Nat.add_sub_cancel_left,
      List.getD_eq_getElem?_getD, List.getElem?_eq_getElem hk, Option.getD_some]
  have hold : ∀ id, ∀ child ∈ s.tree.childrenOf id,
      (s.tree.addChildren node choices).choiceOf child = s.tree.choiceOf child := by
    intro id child hchild
    rw [Tree.choiceOf_addChildren choices hnode, if_pos (h.child_lt id child hchild)]
  constructor
  case board => exact h.board
  case turn => exact h.turn
  case size_pos => exact Nat.lt_of_lt_of_le h.size_pos (by simp only [hsize]; omega)
  case root => exact (extendStates_of_lt h.size_pos).trans h.root
  case seats =>
    intro id hid
    simp only [hsize] at hid
    rcases Nat.lt_or_ge id s.tree.size with hlt | hge
    · rw [extendStates_of_lt hlt]
      exact h.seats id hlt
    · obtain ⟨k, rfl⟩ := Nat.exists_eq_add_of_le hge
      obtain ⟨pick, hpick⟩ := hcandidate k (by omega)
      exact (h.seats node hnode).of_apply hpick
  case child_lt =>
    intro id child hchild
    simp only [hchildren] at hchild
    simp only [hsize]
    split at hchild
    · simp only [List.mem_range'_1] at hchild
      omega
    · have hlt := h.child_lt id child hchild
      omega
  case choices =>
    intro id hid
    simp only [hchildren] at hid ⊢
    split
    · next heq =>
      subst heq
      rw [extendStates_of_lt hnode, hchoices]
      refine List.ext_getElem (by simp) fun k hk hk' => ?_
      rw [List.getElem_map, List.getElem_range', Nat.one_mul]
      exact hnew k hk'
    · next hne =>
      rw [if_neg hne] at hid
      obtain ⟨child, hchild⟩ := List.exists_mem_of_ne_nil _ hid
      rw [extendStates_of_lt (Tree.lt_size_of_mem_childrenOf hchild), ← h.choices id hid]
      exact List.map_congr_left (hold id)
  case edge =>
    intro id child hchild
    simp only [hchildren] at hchild
    split at hchild
    · next heq =>
      subst heq
      obtain ⟨k, hk, rfl⟩ := List.mem_range'.mp hchild
      rw [Nat.one_mul, extendStates_of_lt hnode]
      simp only [hnew k hk]
      exact hcandidate k hk
    · rw [extendStates_of_lt (Tree.lt_size_of_mem_childrenOf hchild),
        extendStates_of_lt (h.child_lt id child hchild)]
      simp only [hold id child hchild]
      exact h.edge id child hchild

/-- A search with rewards recorded explores the same states. -/
theorem Explores.backpropagate {s : Search σ} {stateAt : Nat → DraftState}
    (h : s.Explores stateAt) (leaf : Nat) (reward : Float) (memory : σ) :
    Explores { s with tree := s.tree.backpropagate leaf reward, memory } stateAt where
  board := h.board
  turn := h.turn
  size_pos := by simpa using h.size_pos
  root := h.root
  seats := by simpa using h.seats
  child_lt := by simpa using h.child_lt
  choices id hid := by
    have hchoice := funext (s.tree.choiceOf_backpropagate leaf reward)
    simp only [Tree.childrenOf_backpropagate, hchoice] at hid ⊢
    exact h.choices id hid
  edge := by simpa using h.edge

end Search

end SnakeDraft
