import Mathlib.Logic.Relation
import SnakeDraft.Proofs.Search.Exploration
import SnakeDraft.Proofs.Search.Lineage

/-!
Visits and the selection that they steer. A child without a visit is selected before those that have one,
in the order of the list, so whatever is selected, the children listed before it have been visited. A
descent follows the selected children from the root to a node without children, and the nodes that it goes
through are the lineage of the node where it ends (`Search.selects_of_mem_lineage`).
-/

namespace SnakeDraft

namespace Tree

variable {t : Tree}

def visitsOf (t : Tree) (id : Nat) : Nat :=
  ((t.node? id).map (·.visits.toNat)).getD 0

theorem visitsOf_eq_zero {id : Nat} (h : t.size ≤ id) : t.visitsOf id = 0 := by
  simp [visitsOf, node?_eq_none h]

theorem isUnvisited_iff {id : Nat} (h : id < t.size) : t.isUnvisited id = true ↔ t.visitsOf id = 0 := by
  have hnode : t.node? id = some t.nodes[id] := Array.getElem?_eq_getElem h
  unfold isUnvisited visitsOf
  rw [hnode]
  simp [← UInt32.toNat_inj]

@[simp] theorem visitsOf_addChildren {parent : Nat} (choices : List Choice) (h : parent < t.size)
    (id : Nat) : (t.addChildren parent choices).visitsOf id = t.visitsOf id := by
  induction choices generalizing t with
  | nil => rfl
  | cons choice choices ih =>
    have hfold : t.addChildren parent (choice :: choices) =
        (t.addChild parent choice).2.addChildren parent choices := rfl
    rw [hfold, ih (by rw [size_addChild]; omega)]
    by_cases hnew : id = t.size
    · rw [visitsOf_eq_zero (Nat.le_of_eq hnew.symm)]
      simp [visitsOf, node?_addChild choice h, hnew, Node.fresh]
    · unfold visitsOf
      rw [node?_addChild choice h, if_neg hnew]
      cases t.node? id with
      | none => rfl
      | some node =>
        simp only [Option.map_some]
        split <;> rfl

theorem getElem?_foldl_record (reward : Float) {ids : List Nat} (hids : ids.Nodup) (nodes : Array Node)
    (id : Nat) :
    (ids.foldl (fun nodes id => nodes.modify id (·.record reward)) nodes)[id]? =
      if id ∈ ids then nodes[id]?.map (·.record reward) else nodes[id]? := by
  induction ids generalizing nodes with
  | nil => simp
  | cons first ids ih =>
    obtain ⟨hfirst, hrest⟩ := List.nodup_cons.mp hids
    rw [List.foldl_cons, ih hrest, Array.getElem?_modify]
    by_cases heq : first = id
    · subst heq
      simp [hfirst]
    · have hmem : id ∈ first :: ids ↔ id ∈ ids := by simp [Ne.symm heq]
      simp only [heq, hmem, if_false]

/-- A reward counts as one visit of every node on the lineage. -/
theorem visitsOf_backpropagate {leaf id : Nat} (reward : Float) (hid : id < t.size)
    (hfits : t.visitsOf id + 1 < UInt32.size) :
    (t.backpropagate leaf reward).visitsOf id =
      t.visitsOf id + if id ∈ t.lineage leaf then 1 else 0 := by
  have hnode : t.node? id = some t.nodes[id] := Array.getElem?_eq_getElem hid
  have hrecorded := getElem?_foldl_record reward (nodup_lineage t leaf) t.nodes id
  unfold visitsOf at hfits ⊢
  rw [hnode] at hfits ⊢
  show (Option.map _ ((t.lineage leaf).foldl _ t.nodes)[id]?).getD 0 = _
  rw [hrecorded, Array.getElem?_eq_getElem hid]
  simp only [Option.map_some, Option.getD_some] at hfits ⊢
  split
  · simp only [Option.map_some, Option.getD_some, Node.record, UInt32.toNat_add]
    exact Nat.mod_eq_of_lt hfits
  · rfl

theorem selectChild_eq_none_iff {id : Nat} {exploration : Float} :
    t.selectChild id exploration = none ↔ t.childrenOf id = [] := by
  unfold selectChild
  simp only
  split
  · next child hchild =>
    have hmem := List.mem_of_find?_eq_some hchild
    constructor
    · intro h
      cases h
    · intro h
      rw [h] at hmem
      cases hmem
  · rw [Option.map_eq_none_iff, leftmost_eq_none_iff, List.map_eq_nil_iff]

/-- Every child listed before the one that is selected has had a visit, whatever the bounds are. -/
theorem Linked.visited_before_selectChild (h : t.Linked) {id child : Nat} {exploration : Float}
    (hselect : t.selectChild id exploration = some child) {before after : List Nat}
    (hsplit : t.childrenOf id = before ++ child :: after) : ∀ other ∈ before, t.visitsOf other ≠ 0 := by
  intro other hother
  have hlisted : other ∈ t.childrenOf id := by simp [hsplit, hother]
  have hvisited : t.isUnvisited other = false := by
    unfold selectChild at hselect
    simp only at hselect
    split at hselect
    · next first hfirst =>
      cases hselect
      rw [hsplit, List.find?_append] at hfirst
      cases hbefore : before.find? t.isUnvisited with
      | none => simpa using List.find?_eq_none.mp hbefore other hother
      | some earlier =>
        -- the first unvisited child would be listed twice
        have hsame : earlier = child := by simpa [hbefore] using hfirst
        have hmem := List.mem_of_find?_eq_some hbefore
        have hnodup := h.nodup id
        rw [hsplit, List.nodup_append] at hnodup
        exact absurd hsame (hnodup.2.2 earlier hmem child List.mem_cons_self)
    · next hall => simpa using List.find?_eq_none.mp hall other hlisted
  intro hzero
  rw [(isUnvisited_iff (h.child_lt_size hlisted)).mpr hzero] at hvisited
  cases hvisited

/-- The first child of a leaf is the one that is selected once it has children. -/
theorem selectChild_addChildren {node : Nat} {choices : List Choice} (hnode : node < t.size)
    (hleaf : t.childrenOf node = []) (hchoices : choices ≠ []) (exploration : Float) :
    (t.addChildren node choices).selectChild node exploration = some t.size := by
  obtain ⟨first, rest, rfl⟩ := List.exists_cons_of_ne_nil hchoices
  have hchildren : (t.addChildren node (first :: rest)).childrenOf node =
      t.size :: List.range' (t.size + 1) rest.length := by
    rw [childrenOf_addChildren _ hnode, if_pos rfl, hleaf, List.length_cons, List.range'_succ]
    rfl
  have hunvisited : (t.addChildren node (first :: rest)).isUnvisited t.size = true := by
    rw [isUnvisited_iff (by rw [size_addChildren, List.length_cons]; omega),
      visitsOf_addChildren _ hnode]
    exact visitsOf_eq_zero (Nat.le_refl _)
  unfold selectChild
  simp only [hchildren, List.find?_cons_of_pos hunvisited]

end Tree

namespace Search

variable {σ : Type} {s : Search σ} {stateAt : Nat → DraftState}

/-- A child is the one that a descent goes to from its parent. -/
def Selects (s : Search σ) (parent child : Nat) : Prop :=
  s.tree.selectChild parent s.settings.exploration = some child

theorem node_of_step {d e : Descent} {child : Nat} (h : s.step d child = .ok e) : e.node = child := by
  unfold Search.step at h
  cases hadvance : d.state.advance s.rules s.turn.team (s.tree.choiceOf child) with
  | error error =>
    rw [hadvance] at h
    cases h
  | ok result =>
    rw [hadvance] at h
    cases h
    rfl

/-- A descent follows the selected children and ends where there are none. -/
theorem selects_of_descend {d e : Descent} (h : s.descend d = .ok e) :
    Relation.ReflTransGen s.Selects d.node e.node ∧ s.tree.childrenOf e.node = [] := by
  fun_induction Search.descend s d with
  | case1 d hnone =>
    cases h
    exact ⟨.refl, Tree.selectChild_eq_none_iff.mp hnone⟩
  | case2 d child hchild error hstep => cases h
  | case3 d child hchild next hstep ih =>
    obtain ⟨hpath, hleaf⟩ := ih h
    rw [node_of_step hstep] at hpath
    exact ⟨.head hchild hpath, hleaf⟩

/-- Every node that a descent goes through was selected by its parent. -/
theorem selects_of_mem_lineage (h : s.tree.Linked) {leaf : Nat}
    (hpath : Relation.ReflTransGen s.Selects 0 leaf) {parent id : Nat}
    (hid : id ∈ s.tree.childrenOf parent) (hmem : id ∈ s.tree.lineage leaf) : s.Selects parent id := by
  induction hpath with
  | refl =>
    rw [h.lineage_root, List.mem_singleton] at hmem
    obtain ⟨hlt, -⟩ := h.child parent id hid
    omega
  | tail _ hlast ih =>
    rw [h.lineage_child (Tree.selectChild_mem hlast)] at hmem
    rcases List.mem_cons.mp hmem with rfl | hup
    · rw [h.parent_unique hid (Tree.selectChild_mem hlast)]
      exact hlast
    · exact ih hup

end Search

end SnakeDraft
