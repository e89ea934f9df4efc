import SnakeDraft.Search.Expansion

/-!
How a search tree grows. A node that is added stands after all others and is listed last by its parent;
recording a reward changes what nodes have seen, and nothing about how they are linked.
-/

namespace SnakeDraft

namespace Node

/-- What a node says of its place in the tree. -/
def links (n : Node) : Option Nat × Option Choice × Nat × Array Nat :=
  (n.parent, n.choice, n.depth, n.children)

@[simp] theorem links_record (n : Node) (reward : Float) : (n.record reward).links = n.links := rfl

end Node

namespace Tree

theorem node?_eq_none {t : Tree} {id : Nat} (h : t.size ≤ id) : t.node? id = none :=
  Array.getElem?_eq_none h

theorem childrenOf_eq_nil {t : Tree} {id : Nat} (h : t.size ≤ id) : t.childrenOf id = [] := by
  simp [childrenOf, node?_eq_none h]

theorem choiceOf_eq_pass {t : Tree} {id : Nat} (h : t.size ≤ id) : t.choiceOf id = .pass := by
  simp [choiceOf, node?_eq_none h]

theorem lt_size_of_mem_childrenOf {t : Tree} {id child : Nat} (h : child ∈ t.childrenOf id) :
    id < t.size := by
  rcases Nat.lt_or_ge id t.size with hlt | hge
  · exact hlt
  · rw [childrenOf_eq_nil hge] at h
    cases h

theorem selectChild_mem {t : Tree} {id child : Nat} {exploration : Float}
    (h : t.selectChild id exploration = some child) : child ∈ t.childrenOf id := by
  unfold selectChild at h
  simp only at h
  split at h
  · next first hfirst =>
    cases h
    exact List.mem_of_find?_eq_some hfirst
  · obtain ⟨scored, hscored, rfl⟩ := Option.map_eq_some_iff.mp h
    obtain ⟨id', hid', rfl⟩ := List.mem_map.mp (leftmost_mem hscored)
    exact hid'

@[simp] theorem size_addChild (t : Tree) (parent : Nat) (choice : Choice) :
    (t.addChild parent choice).2.size = t.size + 1 := by
  simp [addChild, size]

/-- The nodes after one is added: the new one comes last, and only its parent is told. -/
theorem node?_addChild {t : Tree} {parent : Nat} (choice : Choice) (h : parent < t.size) (id : Nat) :
    (t.addChild parent choice).2.node? id =
      if id = t.size then
        some (.fresh (some parent) (some choice) (((t.node? parent).map (·.depth + 1)).getD 0))
      else (t.node? id).map fun n =>
        if id = parent then { n with children := n.children.push t.size } else n := by
  have hpush : (t.nodes.push (.fresh (some parent) (some choice)
      (((t.node? parent).map (·.depth + 1)).getD 0)))[id]? =
      if id = t.size then
        some (.fresh (some parent) (some choice) (((t.node? parent).map (·.depth + 1)).getD 0))
      else t.node? id := Array.getElem?_push
  unfold addChild
  show (Array.modify _ parent _)[id]? = _
  rw [Array.getElem?_modify, hpush]
  by_cases hnew : id = t.size
  · have hne : parent ≠ t.size := by omega
    simp [hnew, hne]
  · by_cases hparent : parent = id
    · subst hparent
      simp [hnew]
    · simp [hnew, hparent, Ne.symm hparent]

theorem childrenOf_addChild {t : Tree} {parent : Nat} (choice : Choice) (h : parent < t.size)
    (id : Nat) :
    (t.addChild parent choice).2.childrenOf id =
      if id = parent then t.childrenOf id ++ [t.size] else t.childrenOf id := by
  by_cases hnew : id = t.size
  · have hne : id ≠ parent := by omega
    rw [if_neg hne, childrenOf_eq_nil (t := t) (by omega)]
    simp [childrenOf, node?_addChild choice h, hnew, Node.fresh]
  · unfold childrenOf
    rw [node?_addChild choice h, if_neg hnew]
    by_cases hparent : id = parent
    · subst hparent
      obtain ⟨node, hnode⟩ : ∃ node, t.node? id = some node :=
        ⟨t.nodes[id], Array.getElem?_eq_getElem h⟩
      simp [hnode]
    · simp [hparent]

theorem choiceOf_addChild {t : Tree} {parent : Nat} (choice : Choice) (h : parent < t.size)
    (id : Nat) :
    (t.addChild parent choice).2.choiceOf id = if id = t.size then choice else t.choiceOf id := by
  unfold choiceOf
  rw [node?_addChild choice h]
  by_cases hnew : id = t.size
  · simp [hnew, Node.fresh]
  · rw [if_neg hnew, if_neg hnew]
    cases t.node? id with
    | none => rfl
    | some node =>
      simp only [Option.map_some]
      split <;> rfl

@[simp] theorem size_addChildren (t : Tree) (parent : Nat) (choices : List Choice) :
    (t.addChildren parent choices).size = t.size + choices.length := by
  induction choices generalizing t with
  | nil => rfl
  | cons choice choices ih =>
    have hstep := ih (t.addChild parent choice).2
    rw [size_addChild] at hstep
    rw [List.length_cons]
    have hfold : t.addChildren parent (choice :: choices) =
        (t.addChild parent choice).2.addChildren parent choices := rfl
    rw [hfold, hstep]
    omega

theorem childrenOf_addChildren {t : Tree} {parent : Nat} (choices : List Choice)
    (h : parent < t.size) (id : Nat) :
    (t.addChildren parent choices).childrenOf id =
      if id = parent then t.childrenOf id ++ List.range' t.size choices.length
      else t.childrenOf id := by
  induction choices generalizing t with
  | nil =>
    show t.childrenOf id = _
    simp
  | cons choice choices ih =>
    have hlt : parent < (t.addChild parent choice).2.size := by
      rw [size_addChild]
      omega
    have hfold : t.addChildren parent (choice :: choices) =
        (t.addChild parent choice).2.addChildren parent choices := rfl
    rw [hfold, ih hlt, childrenOf_addChild choice h, size_addChild]
    by_cases hparent : id = parent
    · simp [hparent, List.range'_succ]
    · simp [hparent]

theorem choiceOf_addChildren {t : Tree} {parent : Nat} (choices : List Choice)
    (h : parent < t.size) (id : Nat) :
    (t.addChildren parent choices).choiceOf id =
      if id < t.size then t.choiceOf id else choices.getD (id - t.size) .pass := by
  induction choices generalizing t with
  | nil =>
    show t.choiceOf id = _
    split
    · rfl
    · rw [choiceOf_eq_pass (by omega)]
      rfl
  | cons choice choices ih =>
    have hlt : parent < (t.addChild parent choice).2.size := by
      rw [size_addChild]
      omega
    have hfold : t.addChildren parent (choice :: choices) =
        (t.addChild parent choice).2.addChildren parent choices := rfl
    rw [hfold, ih hlt, choiceOf_addChild choice h, size_addChild]
    rcases Nat.lt_trichotomy id t.size with hold | hnew | hlater
    · rw [if_pos (by omega), if_neg (by omega), if_pos hold]
    · rw [if_pos (by omega), if_pos hnew, if_neg (by omega), hnew]
      simp
    · rw [if_neg (by omega), if_neg (by omega)]
      obtain ⟨k, hk⟩ : ∃ k, id - t.size = k + 1 := ⟨id - t.size - 1, by omega⟩
      rw [hk, List.getD_cons_succ]
      congr 1
      omega

/-- Rewards leave the links of all nodes as they are. -/
theorem links_backpropagate (t : Tree) (leaf : Nat) (reward : Float) (id : Nat) :
    ((t.backpropagate leaf reward).node? id).map (·.links) = (t.node? id).map (·.links) := by
  have hfold : ∀ (ids : List Nat) (nodes : Array Node),
      ((ids.foldl (fun nodes id => nodes.modify id (·.record reward)) nodes)[id]?).map (·.links) =
        nodes[id]?.map (·.links) := by
    intro ids
    induction ids with
    | nil => exact fun _ => rfl
    | cons first ids ih =>
      intro nodes
      rw [List.foldl_cons, ih, Array.getElem?_modify]
      split
      · cases nodes[id]? <;> simp
      · rfl
  exact hfold (t.lineage leaf) t.nodes

@[simp] theorem childrenOf_backpropagate (t : Tree) (leaf : Nat) (reward : Float) (id : Nat) :
    (t.backpropagate leaf reward).childrenOf id = t.childrenOf id := by
  have hchildren : ∀ node : Option Node,
      (node.map (·.children.toList)) = (node.map (·.links)).map (·.2.2.2.toList) := by
    intro node
    cases node <;> rfl
  unfold childrenOf
  rw [hchildren, links_backpropagate, ← hchildren]

@[simp] theorem choiceOf_backpropagate (t : Tree) (leaf : Nat) (reward : Float) (id : Nat) :
    (t.backpropagate leaf reward).choiceOf id = t.choiceOf id := by
  have hchoice : ∀ node : Option Node,
      (node.bind (·.choice)) = (node.map (·.links)).bind (·.2.1) := by
    intro node
    cases node <;> rfl
  unfold choiceOf
  rw [hchoice, links_backpropagate, ← hchoice]

@[simp] theorem size_backpropagate (t : Tree) (leaf : Nat) (reward : Float) :
    (t.backpropagate leaf reward).size = t.size := by
  have hfold : ∀ (ids : List Nat) (nodes : Array Node),
      (ids.foldl (fun nodes id => nodes.modify id (·.record reward)) nodes).size = nodes.size := by
    intro ids
    induction ids with
    | nil => exact fun _ => rfl
    | cons first ids ih =>
      intro nodes
      rw [List.foldl_cons, ih, Array.size_modify]
  exact hfold (t.lineage leaf) t.nodes

end Tree

end SnakeDraft
