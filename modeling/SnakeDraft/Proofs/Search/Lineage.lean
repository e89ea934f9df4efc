import Mathlib.Algebra.BigOperators.Group.List.Basic
import Mathlib.Algebra.Ring.Nat
import Mathlib.Data.List.Nodup
import SnakeDraft.Proofs.Search.Tree

/-!
What stands above a node. A node names its parent, and its parent lists it; in a linked tree
(`Tree.Linked`) the two agree, so every node but the root has one place below one smaller node, and the
lineage of a node is the lineage of its parent with the node put in front. What is claimed of a path, of a
depth or of the nodes that a reward reaches is proved along this (`Tree.Linked.induction`). Expanding a leaf
and recording a reward keep a tree linked.
-/

namespace SnakeDraft.Tree

variable {t : Tree}

/-- The choice that leads to a node, none for the root. -/
def choice? (t : Tree) (id : Nat) : Option Choice :=
  (t.node? id).bind (·.choice)

def parent? (t : Tree) (id : Nat) : Option Nat :=
  (t.node? id).bind (·.parent)

def depthOf (t : Tree) (id : Nat) : Nat :=
  ((t.node? id).map (·.depth)).getD 0

/-- Where a node comes from: its parent, the choice that leads to it, and its depth. -/
def origin? (t : Tree) (id : Nat) : Option (Option Nat × Option Choice × Nat) :=
  (t.node? id).map fun n => (n.parent, n.choice, n.depth)

theorem parent?_of_origin {id depth : Nat} {parent : Option Nat} {choice : Option Choice}
    (h : t.origin? id = some (parent, choice, depth)) : t.parent? id = parent := by
  obtain ⟨node, hnode, horigin⟩ := Option.map_eq_some_iff.mp h
  cases horigin
  simp [parent?, hnode]

theorem choice?_of_origin {id depth : Nat} {parent : Option Nat} {choice : Option Choice}
    (h : t.origin? id = some (parent, choice, depth)) : t.choice? id = choice := by
  obtain ⟨node, hnode, horigin⟩ := Option.map_eq_some_iff.mp h
  cases horigin
  simp [choice?, hnode]

theorem depthOf_of_origin {id depth : Nat} {parent : Option Nat} {choice : Option Choice}
    (h : t.origin? id = some (parent, choice, depth)) : t.depthOf id = depth := by
  obtain ⟨node, hnode, horigin⟩ := Option.map_eq_some_iff.mp h
  cases horigin
  simp [depthOf, hnode]

theorem depthOf_congr {u : Tree} {id : Nat} (h : t.origin? id = u.origin? id) :
    t.depthOf id = u.depthOf id := by
  have hdepth : ∀ v : Tree, v.depthOf id = ((v.origin? id).map (·.2.2)).getD 0 := by
    intro v
    unfold depthOf origin?
    cases v.node? id <;> rfl
  rw [hdepth t, hdepth u, h]

theorem parent?_congr {u : Tree} {id : Nat} (h : t.origin? id = u.origin? id) :
    t.parent? id = u.parent? id := by
  have hparent : ∀ v : Tree, v.parent? id = (v.origin? id).bind (·.1) := by
    intro v
    unfold parent? origin?
    cases v.node? id <;> rfl
  rw [hparent t, hparent u, h]

theorem choice?_congr {u : Tree} {id : Nat} (h : t.origin? id = u.origin? id) :
    t.choice? id = u.choice? id := by
  have hchoice : ∀ v : Tree, v.choice? id = (v.origin? id).bind (·.2.1) := by
    intro v
    unfold choice? origin?
    cases v.node? id <;> rfl
  rw [hchoice t, hchoice u, h]

theorem lt_size_of_origin {id : Nat} {origin : Option Nat × Option Choice × Nat}
    (h : t.origin? id = some origin) : id < t.size := by
  rcases Nat.lt_or_ge id t.size with hlt | hge
  · exact hlt
  · simp [origin?, node?_eq_none hge] at h

theorem origin?_addChild {parent : Nat} (choice : Choice) (h : parent < t.size) (id : Nat) :
    (t.addChild parent choice).2.origin? id =
      if id = t.size then some (some parent, some choice, t.depthOf parent + 1) else t.origin? id := by
  have hparent : t.node? parent = some t.nodes[parent] := Array.getElem?_eq_getElem h
  unfold origin?
  rw [node?_addChild choice h]
  by_cases hnew : id = t.size
  · simp [hnew, Node.fresh, hparent, depthOf]
  · rw [if_neg hnew, if_neg hnew]
    cases t.node? id with
    | none => rfl
    | some node =>
      simp only [Option.map_some]
      split <;> rfl

theorem origin?_addChildren {parent : Nat} (choices : List Choice) (h : parent < t.size) (id : Nat) :
    (t.addChildren parent choices).origin? id =
      if id < t.size then t.origin? id
      else choices[id - t.size]?.map fun choice => (some parent, some choice, t.depthOf parent + 1) := by
  induction choices generalizing t with
  | nil =>
    show t.origin? id = _
    split
    · rfl
    · next hge => simp [origin?, node?_eq_none (Nat.le_of_not_lt hge)]
  | cons choice choices ih =>
    have hlt : parent < (t.addChild parent choice).2.size := by
      rw [size_addChild]
      omega
    have hdepth : (t.addChild parent choice).2.depthOf parent = t.depthOf parent := by
      refine depthOf_congr ?_
      rw [origin?_addChild choice h, if_neg (Nat.ne_of_lt h)]
    have hfold : t.addChildren parent (choice :: choices) =
        (t.addChild parent choice).2.addChildren parent choices := rfl
    rw [hfold, ih hlt, origin?_addChild choice h, size_addChild, hdepth]
    rcases Nat.lt_trichotomy id t.size with hold | hnew | hlater
    · rw [if_pos (by omega), if_neg (by omega), if_pos hold]
    · rw [if_pos (by omega), if_pos hnew, if_neg (by omega), hnew]
      simp
    · rw [if_neg (by omega), if_neg (by omega)]
      obtain ⟨k, hk⟩ : ∃ k, id - t.size = k + 1 := ⟨id - t.size - 1, by omega⟩
      have hk' : id - (t.size + 1) = k := by omega
      rw [hk, hk', List.getElem?_cons_succ]

@[simp] theorem origin?_backpropagate (t : Tree) (leaf : Nat) (reward : Float) (id : Nat) :
    (t.backpropagate leaf reward).origin? id = t.origin? id := by
  have horigin : ∀ node : Option Node, (node.map fun n => (n.parent, n.choice, n.depth)) =
      (node.map (·.links)).map fun l => (l.1, l.2.1, l.2.2.1) := by
    intro node
    cases node <;> rfl
  unfold origin?
  rw [horigin, links_backpropagate, ← horigin]

/-- Parents and children agree. -/
structure Linked (t : Tree) : Prop where
  root : t.origin? 0 = some (none, none, 0)
  child : ∀ parent, ∀ id ∈ t.childrenOf parent, parent < id ∧
    ∃ choice, t.origin? id = some (some parent, some choice, t.depthOf parent + 1)
  listed : ∀ id < t.size, id ≠ 0 → ∃ parent, id ∈ t.childrenOf parent
  nodup : ∀ id, (t.childrenOf id).Nodup

theorem linked_singleton : singleton.Linked := by
  have hempty : ∀ id, singleton.childrenOf id = [] := by
    intro id
    cases id <;> rfl
  constructor
  case root => rfl
  case child => simp [hempty]
  case listed =>
    intro id hid hne
    have hsize : singleton.size = 1 := rfl
    omega
  case nodup => simp [hempty]

theorem Linked.size_pos (h : t.Linked) : 0 < t.size :=
  lt_size_of_origin h.root

theorem Linked.child_lt_size (h : t.Linked) {parent id : Nat} (hid : id ∈ t.childrenOf parent) :
    id < t.size := by
  obtain ⟨-, choice, horigin⟩ := h.child parent id hid
  exact lt_size_of_origin horigin

theorem Linked.parent_of_child (h : t.Linked) {parent id : Nat} (hid : id ∈ t.childrenOf parent) :
    t.parent? id = some parent := by
  obtain ⟨-, choice, horigin⟩ := h.child parent id hid
  exact parent?_of_origin horigin

/-- A node is a child of one node only. -/
theorem Linked.parent_unique (h : t.Linked) {parent other id : Nat} (hid : id ∈ t.childrenOf parent)
    (hother : id ∈ t.childrenOf other) : parent = other := by
  have hboth := (h.parent_of_child hid).symm.trans (h.parent_of_child hother)
  exact Option.some.inj hboth

/-- What holds of the root and goes over from parents to children holds of every node. -/
theorem Linked.induction (h : t.Linked) {motive : Nat → Prop} (root : motive 0)
    (child : ∀ parent, ∀ id ∈ t.childrenOf parent, motive parent → motive id) :
    ∀ id < t.size, motive id := by
  intro id
  -- parents are smaller than their children
  induction id using Nat.strongRecOn with
  | ind id ih =>
    intro hid
    by_cases hroot : id = 0
    · rw [hroot]
      exact root
    · obtain ⟨parent, hmem⟩ := h.listed id hid hroot
      obtain ⟨hlt, -⟩ := h.child parent id hmem
      exact child parent id hmem (ih parent hlt (Nat.lt_trans hlt hid))

theorem childrenOf_addChildren_of_mem {node : Nat} (hnode : node < t.size)
    (hleaf : t.childrenOf node = []) (choices : List Choice) {parent id : Nat}
    (hid : id ∈ t.childrenOf parent) :
    (t.addChildren node choices).childrenOf parent = t.childrenOf parent := by
  have hne : parent ≠ node := by
    rintro rfl
    rw [hleaf] at hid
    cases hid
  rw [childrenOf_addChildren choices hnode, if_neg hne]

theorem Linked.addChild (h : t.Linked) {parent : Nat} (hparent : parent < t.size) (choice : Choice) :
    (t.addChild parent choice).2.Linked := by
  have hold : ∀ id < t.size, (t.addChild parent choice).2.origin? id = t.origin? id := by
    intro id hid
    rw [origin?_addChild choice hparent, if_neg (Nat.ne_of_lt hid)]
  have hdepth : ∀ id < t.size, (t.addChild parent choice).2.depthOf id = t.depthOf id :=
    fun id hid => depthOf_congr (hold id hid)
  constructor
  case root => rw [hold 0 h.size_pos, h.root]
  case child =>
    intro above id hid
    rw [childrenOf_addChild choice hparent] at hid
    rcases (by grind : id ∈ t.childrenOf above ∨ above = parent ∧ id = t.size) with hmem | ⟨rfl, rfl⟩
    · obtain ⟨hlt, other, horigin⟩ := h.child above id hmem
      have hid' := h.child_lt_size hmem
      refine ⟨hlt, other, ?_⟩
      rw [hold id hid', hdepth above (Nat.lt_trans hlt hid'), horigin]
    · refine ⟨hparent, choice, ?_⟩
      rw [origin?_addChild choice hparent, if_pos rfl, hdepth above hparent]
  case listed =>
    intro id hid hne
    rw [size_addChild] at hid
    rcases Nat.lt_succ_iff_lt_or_eq.mp hid with hlt | rfl
    · obtain ⟨above, hmem⟩ := h.listed id hlt hne
      refine ⟨above, ?_⟩
      rw [childrenOf_addChild choice hparent]
      split <;> simp [hmem]
    · refine ⟨parent, ?_⟩
      rw [childrenOf_addChild choice hparent, if_pos rfl]
      simp
  case nodup =>
    intro id
    rw [childrenOf_addChild choice hparent]
    split
    · have hnew : t.size ∉ t.childrenOf id := fun hmem => absurd (h.child_lt_size hmem) (Nat.lt_irrefl _)
      exact List.nodup_append.mpr ⟨h.nodup id, List.nodup_singleton _, by grind⟩
    · exact h.nodup id

theorem Linked.addChildren (h : t.Linked) {node : Nat} (hnode : node < t.size) (choices : List Choice) :
    (t.addChildren node choices).Linked := by
  induction choices generalizing t with
  | nil => exact h
  | cons choice choices ih => exact ih (h.addChild hnode choice) (by rw [size_addChild]; omega)

theorem Linked.backpropagate (h : t.Linked) (leaf : Nat) (reward : Float) :
    (t.backpropagate leaf reward).Linked := by
  have hdepth : ∀ id, (t.backpropagate leaf reward).depthOf id = t.depthOf id :=
    fun id => depthOf_congr (t.origin?_backpropagate leaf reward id)
  constructor
  case root => simpa using h.root
  case child => simpa [hdepth] using h.child
  case listed => simpa using h.listed
  case nodup => simpa using h.nodup

theorem lineage_eq (t : Tree) (id : Nat) :
    t.lineage id = id ::
      match t.parent? id with
      | some parent => if parent < id then t.lineage parent else []
      | none => [] := by
  rw [lineage]
  rfl

/-- A lineage depends only on the parents of the nodes up to its end. -/
theorem lineage_congr {u : Tree} {id : Nat} (h : ∀ i ≤ id, u.parent? i = t.parent? i) :
    u.lineage id = t.lineage id := by
  induction id using Nat.strongRecOn with
  | ind id ih =>
    rw [lineage_eq, lineage_eq, h id (Nat.le_refl id)]
    split
    · split
      · next parent _ hlt => rw [ih parent hlt fun i hi => h i (by omega)]
      · rfl
    · rfl

theorem lineage_addChild {parent : Nat} (hparent : parent < t.size) (choice : Choice) {id : Nat}
    (hid : id < t.size) : (t.addChild parent choice).2.lineage id = t.lineage id := by
  refine lineage_congr fun i hi => parent?_congr ?_
  rw [origin?_addChild choice hparent, if_neg (by omega)]

@[simp] theorem lineage_backpropagate (t : Tree) (leaf : Nat) (reward : Float) (id : Nat) :
    (t.backpropagate leaf reward).lineage id = t.lineage id :=
  lineage_congr fun i _ => parent?_congr (t.origin?_backpropagate leaf reward i)

theorem lineage_addChildren {node : Nat} (hnode : node < t.size) (choices : List Choice) {id : Nat}
    (hid : id < t.size) : (t.addChildren node choices).lineage id = t.lineage id := by
  refine lineage_congr fun i hi => parent?_congr ?_
  rw [origin?_addChildren choices hnode, if_pos (Nat.lt_of_le_of_lt hi hid)]

theorem Linked.lineage_root (h : t.Linked) : t.lineage 0 = [0] := by
  rw [lineage_eq, parent?_of_origin h.root]

theorem Linked.lineage_child (h : t.Linked) {parent id : Nat} (hid : id ∈ t.childrenOf parent) :
    t.lineage id = id :: t.lineage parent := by
  obtain ⟨hlt, -⟩ := h.child parent id hid
  rw [lineage_eq, h.parent_of_child hid]
  simp [hlt]

theorem Linked.getLast?_lineage (h : t.Linked) {id : Nat} (hid : id < t.size) :
    (t.lineage id).getLast? = some 0 := by
  refine h.induction (motive := fun id => (t.lineage id).getLast? = some 0) ?_ ?_ id hid
  · rw [h.lineage_root]
    rfl
  · intro parent child hchild ih
    rw [h.lineage_child hchild, List.getLast?_cons, ih]
    rfl

theorem Linked.root_mem_lineage (h : t.Linked) {id : Nat} (hid : id < t.size) : 0 ∈ t.lineage id :=
  List.mem_of_getLast? (h.getLast?_lineage hid)

theorem le_of_mem_lineage {x id : Nat} (h : x ∈ t.lineage id) : x ≤ id := by
  induction id using Nat.strongRecOn with
  | ind id ih =>
    rw [lineage_eq] at h
    rcases List.mem_cons.mp h with rfl | hrest
    · exact Nat.le_refl x
    · split at hrest
      · split at hrest
        · next parent _ hlt => exact Nat.le_of_lt (Nat.lt_of_le_of_lt (ih parent hlt hrest) hlt)
        · cases hrest
      · cases hrest

theorem nodup_lineage (t : Tree) (id : Nat) : (t.lineage id).Nodup := by
  induction id using Nat.strongRecOn with
  | ind id ih =>
    rw [lineage_eq, List.nodup_cons]
    split
    · split
      · next parent _ hlt =>
        refine ⟨fun hmem => ?_, ih parent hlt⟩
        have hle := le_of_mem_lineage hmem
        omega
      · simp
    · simp

theorem mem_lineage_self (t : Tree) (id : Nat) : id ∈ t.lineage id := by
  rw [lineage_eq]
  exact List.mem_cons_self

/-- Above a child on a lineage stands its parent. -/
theorem Linked.parent_mem_lineage (h : t.Linked) {leaf : Nat} (hleaf : leaf < t.size) {parent id : Nat}
    (hid : id ∈ t.childrenOf parent) (hmem : id ∈ t.lineage leaf) : parent ∈ t.lineage leaf := by
  revert hmem
  refine h.induction (motive := fun leaf => id ∈ t.lineage leaf → parent ∈ t.lineage leaf) ?_ ?_ leaf hleaf
  · intro hmem
    rw [h.lineage_root, List.mem_singleton] at hmem
    obtain ⟨hlt, -⟩ := h.child parent id hid
    omega
  · intro above node hnode ih hmem
    rw [h.lineage_child hnode] at hmem ⊢
    rcases List.mem_cons.mp hmem with rfl | hrest
    · rw [h.parent_unique hid hnode]
      exact List.mem_cons_of_mem _ (t.mem_lineage_self above)
    · exact List.mem_cons_of_mem _ (ih hrest)

/-- Below a node on a lineage, other than the last, stands one child on it. -/
theorem Linked.exists_child_mem_lineage (h : t.Linked) {leaf : Nat} (hleaf : leaf < t.size) {id : Nat}
    (hmem : id ∈ t.lineage leaf) (hne : id ≠ leaf) :
    ∃ child ∈ t.childrenOf id, child ∈ t.lineage leaf := by
  revert hmem hne
  refine h.induction (motive := fun leaf => id ∈ t.lineage leaf → id ≠ leaf →
    ∃ child ∈ t.childrenOf id, child ∈ t.lineage leaf) ?_ ?_ leaf hleaf
  · intro hmem hne
    rw [h.lineage_root, List.mem_singleton] at hmem
    exact absurd hmem hne
  · intro above node hnode ih hmem hne
    rw [h.lineage_child hnode] at hmem ⊢
    rcases List.mem_cons.mp hmem with rfl | hrest
    · exact absurd rfl hne
    · by_cases habove : id = above
      · subst habove
        exact ⟨node, hnode, List.mem_cons_self⟩
      · obtain ⟨child, hchild, hchildmem⟩ := ih hrest habove
        exact ⟨child, hchild, List.mem_cons_of_mem _ hchildmem⟩

theorem Linked.child_mem_lineage_unique (h : t.Linked) {leaf : Nat} (hleaf : leaf < t.size)
    {id child other : Nat} (hchild : child ∈ t.childrenOf id) (hother : other ∈ t.childrenOf id)
    (hmem : child ∈ t.lineage leaf) (hmem' : other ∈ t.lineage leaf) : child = other := by
  revert hmem hmem'
  refine h.induction (motive := fun leaf => child ∈ t.lineage leaf → other ∈ t.lineage leaf →
    child = other) ?_ ?_ leaf hleaf
  · intro hmem hmem'
    rw [h.lineage_root, List.mem_singleton] at hmem hmem'
    rw [hmem, hmem']
  · intro above node hnode ih hmem hmem'
    rw [h.lineage_child hnode] at hmem hmem'
    rcases List.mem_cons.mp hmem with rfl | hup <;> rcases List.mem_cons.mp hmem' with rfl | hup'
    · rfl
    · have hparent := h.parent_unique hnode hchild
      have hle := le_of_mem_lineage hup'
      obtain ⟨hlt, -⟩ := h.child id other hother
      omega
    · have hparent := h.parent_unique hnode hother
      have hle := le_of_mem_lineage hup
      obtain ⟨hlt, -⟩ := h.child id child hchild
      omega
    · exact ih hup hup'

/-- Of the children of a node, a lineage that goes further down has one, and any other has none. -/
theorem Linked.sum_children_on_lineage (h : t.Linked) {leaf : Nat} (hleaf : leaf < t.size) (id : Nat) :
    ((t.childrenOf id).map fun child => if child ∈ t.lineage leaf then 1 else 0).sum =
      if id ∈ t.lineage leaf ∧ id ≠ leaf then 1 else 0 := by
  let gain : Nat → Nat := fun child => if child ∈ t.lineage leaf then 1 else 0
  show ((t.childrenOf id).map gain).sum = _
  split
  · next hbelow =>
    obtain ⟨child, hchild, hon⟩ := h.exists_child_mem_lineage hleaf hbelow.1 hbelow.2
    have hothers : ∀ other, other ≠ child → other ∈ t.childrenOf id → gain other = 0 := by
      intro other hother hlisted
      refine if_neg fun halso => hother ?_
      exact h.child_mem_lineage_unique hleaf hlisted hchild halso hon
    rw [List.sum_map_eq_nsmul_single child gain hothers, List.count_eq_one_of_mem (h.nodup id) hchild]
    simp [gain, hon]
  · next hnot =>
    have hnone : ∀ child ∈ t.childrenOf id, gain child = 0 := by
      intro child hchild
      refine if_neg fun hmem => hnot ⟨h.parent_mem_lineage hleaf hchild hmem, ?_⟩
      rintro rfl
      obtain ⟨hlt, -⟩ := h.child id child hchild
      have hle := le_of_mem_lineage hmem
      omega
    rw [List.map_congr_left hnone]
    simp

theorem Linked.path_root (h : t.Linked) : t.path 0 = [] := by
  have hchoice : (t.node? 0).bind (·.choice) = none := choice?_of_origin h.root
  unfold path
  rw [h.lineage_root]
  simp [hchoice]

theorem Linked.path_child (h : t.Linked) {parent id : Nat} (hid : id ∈ t.childrenOf parent) :
    t.path id = t.path parent ++ [t.choiceOf id] := by
  obtain ⟨-, choice, horigin⟩ := h.child parent id hid
  have hchoice : (t.node? id).bind (·.choice) = some choice := choice?_of_origin horigin
  unfold path choiceOf
  rw [h.lineage_child hid, List.reverse_cons, List.filterMap_append]
  simp [hchoice]

/-- A path depends only on where the nodes up to its end come from. -/
theorem path_congr {u : Tree} {id : Nat} (h : ∀ i ≤ id, u.origin? i = t.origin? i) :
    u.path id = t.path id := by
  have hlineage := lineage_congr fun i hi => parent?_congr (h i hi)
  unfold path
  rw [hlineage]
  refine List.filterMap_congr fun i hi => choice?_congr (h i ?_)
  exact le_of_mem_lineage (List.mem_reverse.mp hi)

theorem path_addChildren {node : Nat} (hnode : node < t.size) (choices : List Choice) {id : Nat}
    (hid : id < t.size) : (t.addChildren node choices).path id = t.path id := by
  refine path_congr fun i hi => ?_
  rw [origin?_addChildren choices hnode, if_pos (Nat.lt_of_le_of_lt hi hid)]

theorem Linked.choice?_child (h : t.Linked) {parent id : Nat} (hid : id ∈ t.childrenOf parent) :
    t.choice? id = some (t.choiceOf id) := by
  obtain ⟨-, choice, horigin⟩ := h.child parent id hid
  have hchoice : (t.node? id).bind (·.choice) = some choice := choice?_of_origin horigin
  unfold choice? choiceOf
  rw [hchoice]
  rfl

/-- A node stands as deep as its path is long. -/
theorem Linked.depth_eq_length_path (h : t.Linked) {id : Nat} (hid : id < t.size) :
    t.depthOf id = (t.path id).length := by
  refine h.induction (motive := fun id => t.depthOf id = (t.path id).length) ?_ ?_ id hid
  · rw [h.path_root, depthOf_of_origin h.root]
    rfl
  · intro parent id hid ih
    obtain ⟨-, choice, horigin⟩ := h.child parent id hid
    rw [h.path_child hid, depthOf_of_origin horigin, ih, List.length_append, List.length_singleton]

end SnakeDraft.Tree
