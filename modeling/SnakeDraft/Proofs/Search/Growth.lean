import Mathlib.Algebra.Order.BigOperators.Group.List
import Mathlib.Algebra.Order.Ring.Nat
import SnakeDraft.Proofs.Search.Highest
import SnakeDraft.Proofs.Search.Selection

/-!
How a tree grows. Children are added below any node and rewards recorded at any node, in any order
(`Tree.Grown`). Parents and children agree throughout (`Tree.Grown.linked`), and a node has seen exactly the rewards
recorded at it or below it (`Tree.Grown.tally?_eq`): nodes that are added later change no lineage, so it does not
matter in which tree the nodes below it are counted.
-/

namespace SnakeDraft

/-- What a node has seen. -/
structure Tally where
  visits : UInt32
  valueSum : Float
  best : Float

namespace Tally

/-- What has been seen with one more reward. -/
def record (seen : Tally) (reward : Float) : Tally :=
  ⟨seen.visits + 1, seen.valueSum + reward, if reward > seen.best then reward else seen.best⟩

theorem valueSum_foldl_record (rewards : List Float) (start : Tally) :
    (rewards.foldl record start).valueSum = rewards.foldl (· + ·) start.valueSum := by
  induction rewards generalizing start with
  | nil => rfl
  | cons first rewards ih => exact ih (start.record first)

theorem best_foldl_record (rewards : List Float) (start : Tally) :
    (rewards.foldl record start).best =
      rewards.foldl (fun best reward => if reward > best then reward else best) start.best := by
  induction rewards generalizing start with
  | nil => rfl
  | cons first rewards ih => exact ih (start.record first)

theorem visits_foldl_record (rewards : List Float) {start : Tally}
    (hfits : start.visits.toNat + rewards.length < UInt32.size) :
    (rewards.foldl record start).visits.toNat = start.visits.toNat + rewards.length := by
  induction rewards generalizing start with
  | nil => rfl
  | cons first rewards ih =>
    rw [List.length_cons] at hfits ⊢
    have hone : (start.record first).visits.toNat = start.visits.toNat + 1 := by
      simp only [record, UInt32.toNat_add]
      exact Nat.mod_eq_of_lt (by show start.visits.toNat + 1 < UInt32.size; omega)
    rw [List.foldl_cons, ih (by omega), hone]
    omega

end Tally

def Node.tally (n : Node) : Tally :=
  ⟨n.visits, n.valueSum, n.best⟩

namespace Tree

variable {t : Tree} {calls : List (Nat × Float)}

/-- A tree grown from a root, with the calls that recorded a reward, each at some node. -/
inductive Grown : Tree → List (Nat × Float) → Prop where
  | singleton : Grown .singleton []
  | addChild {t : Tree} {calls : List (Nat × Float)} {parent : Nat} (choice : Choice) (h : Grown t calls)
      (hparent : parent < t.size) : Grown (t.addChild parent choice).2 calls
  | backpropagate {t : Tree} {calls : List (Nat × Float)} {leaf : Nat} (reward : Float) (h : Grown t calls)
      (hleaf : leaf < t.size) : Grown (t.backpropagate leaf reward) (calls ++ [(leaf, reward)])

/-- The rewards recorded at a node or below it, in the order of the calls. -/
def rewardsThrough (t : Tree) (calls : List (Nat × Float)) (id : Nat) : List Float :=
  (calls.filter fun call => id ∈ t.lineage call.1).map (·.2)

def tally? (t : Tree) (id : Nat) : Option Tally :=
  (t.node? id).map (·.tally)

/-- What a node has seen before any reward: the root starts with a visit. -/
def blankTally (id : Nat) : Tally :=
  if id = 0 then Node.root.tally else (Node.fresh none none 0).tally

theorem Grown.linked (h : Grown t calls) : t.Linked := by
  induction h with
  | singleton => exact linked_singleton
  | addChild choice _ hparent ih => exact ih.addChild hparent choice
  | backpropagate reward _ _ ih => exact ih.backpropagate _ reward

theorem Grown.call_lt (h : Grown t calls) : ∀ call ∈ calls, call.1 < t.size := by
  induction h with
  | singleton => simp
  | addChild choice _ hparent ih =>
    intro call hcall
    have hlt := ih call hcall
    rw [size_addChild]
    omega
  | backpropagate reward _ hleaf ih =>
    intro call hcall
    rw [size_backpropagate]
    rcases List.mem_append.mp hcall with hold | hnew
    · exact ih call hold
    · rw [List.mem_singleton.mp hnew]
      exact hleaf

/-- A new node has seen nothing, and the others what they had seen. -/
theorem tally?_addChild {parent : Nat} (hparent : parent < t.size) (choice : Choice) (id : Nat) :
    (t.addChild parent choice).2.tally? id =
      if id = t.size then some (Node.fresh none none 0).tally else t.tally? id := by
  unfold tally?
  rw [node?_addChild choice hparent]
  by_cases hnew : id = t.size
  · rw [if_pos hnew, if_pos hnew]
    rfl
  · rw [if_neg hnew, if_neg hnew]
    cases t.node? id with
    | none => rfl
    | some node =>
      simp only [Option.map_some]
      split <;> rfl

theorem tally?_backpropagate (t : Tree) (leaf : Nat) (reward : Float) (id : Nat) :
    (t.backpropagate leaf reward).tally? id =
      if id ∈ t.lineage leaf then (t.tally? id).map (·.record reward) else t.tally? id := by
  have hrecorded := getElem?_foldl_record reward (nodup_lineage t leaf) t.nodes id
  unfold tally?
  show (((t.lineage leaf).foldl _ t.nodes)[id]?).map _ = _
  rw [hrecorded]
  split
  · show (Option.map _ (t.node? id)).map _ = _
    cases t.node? id <;> rfl
  · rfl

/-- A node has seen the rewards recorded at it or below it, in order. -/
theorem Grown.tally?_eq (h : Grown t calls) {id : Nat} (hid : id < t.size) :
    t.tally? id = some ((t.rewardsThrough calls id).foldl Tally.record (blankTally id)) := by
  induction h generalizing id with
  | singleton =>
    obtain rfl : id = 0 := Nat.lt_one_iff.mp hid
    rfl
  | @addChild t calls parent choice hgrown hparent ih =>
    have hsame : (t.addChild parent choice).2.rewardsThrough calls id = t.rewardsThrough calls id := by
      unfold rewardsThrough
      congr 1
      refine List.filter_congr fun call hcall => ?_
      rw [lineage_addChild hparent choice (hgrown.call_lt call hcall)]
    rw [tally?_addChild hparent, hsame]
    rw [size_addChild] at hid
    rcases Nat.lt_succ_iff_lt_or_eq.mp hid with hlt | rfl
    · rw [if_neg (Nat.ne_of_lt hlt), ih hlt]
    · -- no lineage of before goes through the new node
      have hnone : t.rewardsThrough calls t.size = [] := by
        unfold rewardsThrough
        rw [List.map_eq_nil_iff, List.filter_eq_nil_iff]
        intro call hcall hmem
        have hle := le_of_mem_lineage (of_decide_eq_true hmem)
        have hlt := hgrown.call_lt call hcall
        omega
      have hpos := hgrown.linked.size_pos
      rw [if_pos rfl, hnone, blankTally, if_neg (by omega)]
      rfl
  | @backpropagate t calls leaf reward hgrown hleaf ih =>
    rw [size_backpropagate] at hid
    rw [tally?_backpropagate, ih hid]
    simp only [rewardsThrough, lineage_backpropagate, List.filter_append, List.map_append, List.foldl_append]
    by_cases hmem : id ∈ t.lineage leaf
    · simp [hmem]
    · simp [hmem]

/-- A node is on a lineage exactly when the lineage starts at it or below it. -/
theorem Linked.mem_lineage_iff (h : t.Linked) {id leaf : Nat} (hleaf : leaf < t.size) :
    id ∈ t.lineage leaf ↔ Relation.ReflTransGen (fun parent child => child ∈ t.childrenOf parent) id leaf := by
  constructor
  · refine h.induction (motive := fun leaf => id ∈ t.lineage leaf →
      Relation.ReflTransGen (fun parent child => child ∈ t.childrenOf parent) id leaf) ?_ ?_ leaf hleaf
    · intro hmem
      rw [h.lineage_root, List.mem_singleton] at hmem
      rw [hmem]
    · intro parent child hchild ih hmem
      rw [h.lineage_child hchild] at hmem
      rcases List.mem_cons.mp hmem with rfl | hup
      · exact .refl
      · exact (ih hup).tail hchild
  · intro hbelow
    induction hbelow with
    | refl => exact t.mem_lineage_self id
    | tail _ hchild ih =>
      rw [h.lineage_child hchild]
      obtain ⟨hlt, -⟩ := h.child _ _ hchild
      exact List.mem_cons_of_mem _ (ih (by omega))

/-- At the children of a node no more rewards are recorded together than at the node. -/
theorem Linked.sum_rewardsThrough_le (h : t.Linked) (hcalls : ∀ call ∈ calls, call.1 < t.size) (id : Nat) :
    ((t.childrenOf id).map fun child => (t.rewardsThrough calls child).length).sum ≤
      (t.rewardsThrough calls id).length := by
  induction calls with
  | nil => simp [rewardsThrough]
  | cons call calls ih =>
    have hlength : ∀ x, (t.rewardsThrough (call :: calls) x).length =
        (if x ∈ t.lineage call.1 then 1 else 0) + (t.rewardsThrough calls x).length := by
      intro x
      unfold rewardsThrough
      rw [List.filter_cons]
      by_cases hmem : x ∈ t.lineage call.1
      · simp [hmem]
        omega
      · simp [hmem]
    -- the lineage of the call goes through one child of the node, or through none
    obtain ⟨hcall, hrest⟩ := List.forall_mem_cons.mp hcalls
    have hothers := ih hrest
    simp only [hlength, List.sum_map_add, h.sum_children_on_lineage hcall id]
    split
    · next hbelow =>
      rw [if_pos hbelow.1]
      omega
    · omega

theorem length_rewardsThrough_le (t : Tree) (calls : List (Nat × Float)) (id : Nat) :
    (t.rewardsThrough calls id).length ≤ calls.length := by
  unfold rewardsThrough
  rw [List.length_map]
  exact List.length_filter_le _ _

/-- A tree and the rewards recorded in it agree. -/
structure Accounted (t : Tree) (calls : List (Nat × Float)) : Prop where
  root : t.parent? 0 = none ∧ t.depthOf 0 = 0 ∧ t.lineage 0 = [0]
  parent : ∀ id < t.size, id ≠ 0 → ∃ parent < id, t.parent? id = some parent ∧
    (t.childrenOf parent).count id = 1 ∧ (∀ other ≠ parent, id ∉ t.childrenOf other) ∧
    t.depthOf id = t.depthOf parent + 1 ∧ t.lineage id = id :: t.lineage parent
  /-- Going up from a node ends at the root. -/
  top : ∀ id < t.size, (t.lineage id).getLast? = some 0
  depth : ∀ id < t.size, (t.path id).length = t.depthOf id
  /-- A reward goes to the node at which it is recorded and to those of which this one is a descendant. -/
  lineage : ∀ id, ∀ leaf < t.size, id ∈ t.lineage leaf ↔
    Relation.ReflTransGen (fun parent child => child ∈ t.childrenOf parent) id leaf
  seen : ∀ id < t.size, ∃ node, t.node? id = some node ∧
    node.visits.toNat = (t.rewardsThrough calls id).length + (if id = 0 then 1 else 0) ∧
    node.valueSum = (t.rewardsThrough calls id).foldl (· + ·) 0 ∧
    IsHighest node.best (t.rewardsThrough calls id)
  children_le : ∀ id, ((t.childrenOf id).map t.visitsOf).sum ≤ t.visitsOf id
  /-- Where confidence bounds are compared, the node has visits to take the logarithm of. -/
  visited : ∀ id, t.childrenOf id ≠ [] → (t.childrenOf id).find? t.isUnvisited = none → t.visitsOf id ≠ 0

theorem Grown.seen (h : Grown t calls) (hcalls : calls.length < 2 ^ 32 - 1) {id : Nat} (hid : id < t.size) :
    ∃ node, t.node? id = some node ∧
      node.visits.toNat = (t.rewardsThrough calls id).length + (if id = 0 then 1 else 0) ∧
      node.valueSum = (t.rewardsThrough calls id).foldl (· + ·) 0 ∧
      IsHighest node.best (t.rewardsThrough calls id) := by
  obtain ⟨node, hnode, htally⟩ := Option.map_eq_some_iff.mp (h.tally?_eq hid)
  have hstart : (blankTally id).visits.toNat = (if id = 0 then 1 else 0) ∧ (blankTally id).valueSum = 0 ∧
      (blankTally id).best = -(1 / 0) := by
    unfold blankTally
    split <;> exact ⟨rfl, rfl, rfl⟩
  obtain ⟨hvisits, hsum, hbest⟩ := hstart
  have hle := t.length_rewardsThrough_le calls id
  refine ⟨node, hnode, ?_, ?_, ?_⟩
  · have hcount := congrArg (·.visits.toNat) htally
    rw [Tally.visits_foldl_record, hvisits, Nat.add_comm] at hcount
    · exact hcount
    · show _ < 2 ^ 32
      split at hvisits <;> omega
  · have hvalue := congrArg (·.valueSum) htally
    rw [Tally.valueSum_foldl_record, hsum] at hvalue
    exact hvalue
  · have hhighest := isHighest_foldl (t.rewardsThrough calls id)
    have hvalue := congrArg (·.best) htally
    rw [Tally.best_foldl_record, hbest] at hvalue
    rwa [← hvalue] at hhighest

theorem Grown.visitsOf_eq (h : Grown t calls) (hcalls : calls.length < 2 ^ 32 - 1) {id : Nat}
    (hid : id < t.size) :
    t.visitsOf id = (t.rewardsThrough calls id).length + if id = 0 then 1 else 0 := by
  obtain ⟨node, hnode, hvisits, -⟩ := h.seen hcalls hid
  rw [visitsOf, hnode]
  exact hvisits

theorem Grown.sum_visitsOf_le (h : Grown t calls) (hcalls : calls.length < 2 ^ 32 - 1) (id : Nat) :
    ((t.childrenOf id).map t.visitsOf).sum ≤ t.visitsOf id := by
  rcases Nat.lt_or_ge id t.size with hid | hge
  · have hchildren : ∀ child ∈ t.childrenOf id,
        t.visitsOf child = (t.rewardsThrough calls child).length := by
      intro child hchild
      obtain ⟨hlt, -⟩ := h.linked.child id child hchild
      rw [h.visitsOf_eq hcalls (h.linked.child_lt_size hchild), if_neg (by omega), Nat.add_zero]
    rw [List.map_congr_left hchildren, h.visitsOf_eq hcalls hid]
    have hle := h.linked.sum_rewardsThrough_le h.call_lt id
    omega
  · simp [childrenOf_eq_nil hge]

/-- Whatever the order in which a tree gets its nodes and rewards, it is a tree, and every node has seen the rewards
that belong to it. -/
theorem grown_tree_is_accounted (h : Grown t calls) (hcalls : calls.length < 2 ^ 32 - 1) :
    t.Accounted calls := by
  have hlinked := h.linked
  constructor
  case root =>
    exact ⟨parent?_of_origin hlinked.root, depthOf_of_origin hlinked.root, hlinked.lineage_root⟩
  case parent =>
    intro id hid hne
    obtain ⟨parent, hchild⟩ := hlinked.listed id hid hne
    obtain ⟨hlt, choice, horigin⟩ := hlinked.child parent id hchild
    refine ⟨parent, hlt, parent?_of_origin horigin, List.count_eq_one_of_mem (hlinked.nodup parent) hchild,
      fun other hother hlisted => hother (hlinked.parent_unique hlisted hchild),
      depthOf_of_origin horigin, hlinked.lineage_child hchild⟩
  case top => exact fun id hid => hlinked.getLast?_lineage hid
  case depth => exact fun id hid => (hlinked.depth_eq_length_path hid).symm
  case lineage => exact fun id leaf hleaf => hlinked.mem_lineage_iff hleaf
  case seen => exact fun id hid => h.seen hcalls hid
  case children_le => exact h.sum_visitsOf_le hcalls
  case visited =>
    intro id hchildren hnone
    obtain ⟨child, hchild⟩ := List.exists_mem_of_ne_nil _ hchildren
    have hvisited : t.visitsOf child ≠ 0 := by
      have hseen := List.find?_eq_none.mp hnone child hchild
      rwa [isUnvisited_iff (hlinked.child_lt_size hchild)] at hseen
    have hle : t.visitsOf child ≤ _ := List.single_le_sum (fun _ _ => Nat.zero_le _) _ (List.mem_map_of_mem hchild)
    have hsum := h.sum_visitsOf_le hcalls id
    omega

/-- A node gets a child after rewards were recorded at it, and a reward is recorded at an inner node. -/
theorem grown_tree_is_accounted_of_three_nodes :
    ∃ t, Grown t [(1, 3), (2, 5), (1, 4)] ∧ t.Accounted [(1, 3), (2, 5), (1, 4)] ∧
      t.rewardsThrough [(1, 3), (2, 5), (1, 4)] 1 = [3, 5, 4] ∧ t.childrenOf 1 = [2] := by
  have hone : Grown (singleton.addChild 0 (.player 7)).2 [] := .addChild _ .singleton (by decide)
  have htwo := Grown.addChild .pass (hone.backpropagate 3 (by decide : 1 < _)) (by decide +kernel : 1 < _)
  have hthree := (htwo.backpropagate 5 (by decide +kernel : 2 < _)).backpropagate 4 (by decide +kernel : 1 < _)
  exact ⟨_, hthree, grown_tree_is_accounted hthree (by decide), by decide +kernel, by decide +kernel⟩

end Tree

end SnakeDraft
