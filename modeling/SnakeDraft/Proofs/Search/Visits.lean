import Mathlib
import SnakeDraft.Proofs.Search.Correspondence

/-!
Where the visits of a search go. A reward is one visit of every node on a lineage, so the visits of a node
are those of its children and at most one of its own: the root is given one from the start, and a first
child below the root's children is visited once before it has children (`Tree.Balanced`). Siblings are
visited in the order in which they are listed (`Tree.InOrder`). Neither depends on what the upper
confidence bounds are: they only choose among siblings that have all been visited.
-/

namespace SnakeDraft

namespace Tree

variable {t : Tree}

/-- Whether a node is the first child of a node other than the root. -/
def startsFamily (t : Tree) (id : Nat) : Bool :=
  (t.parent? id).any fun parent => parent ≠ 0 && (t.childrenOf parent).head? == some id

/-- The visits of a node that are not visits of its children, once it has children. -/
def ownVisits (t : Tree) (id : Nat) : Nat :=
  if id = 0 ∨ t.startsFamily id then 1 else 0

def childVisits (t : Tree) (id : Nat) : Nat :=
  ((t.childrenOf id).map t.visitsOf).sum

def Balanced (t : Tree) (id : Nat) : Prop :=
  t.visitsOf id = t.childVisits id + t.ownVisits id

instance (t : Tree) (id : Nat) : Decidable (t.Balanced id) :=
  inferInstanceAs (Decidable (_ = _))

/-- No child is visited before those listed ahead of it. -/
def InOrder (t : Tree) (id : Nat) : Prop :=
  ∀ before child after, t.childrenOf id = before ++ child :: after → t.visitsOf child ≠ 0 →
    ∀ other ∈ before, t.visitsOf other ≠ 0

/-- A visit of a lineage comes to no child before those listed ahead of it. -/
def InTurn (t : Tree) (leaf : Nat) : Prop :=
  ∀ id before child after, t.childrenOf id = before ++ child :: after → child ∈ t.lineage leaf →
    ∀ other ∈ before, t.visitsOf other ≠ 0

@[simp] theorem ownVisits_backpropagate (t : Tree) (leaf : Nat) (reward : Float) (id : Nat) :
    (t.backpropagate leaf reward).ownVisits id = t.ownVisits id := by
  simp [ownVisits, startsFamily, parent?_congr (t.origin?_backpropagate leaf reward id)]

theorem childVisits_of_leaf {id : Nat} (h : t.childrenOf id = []) : t.childVisits id = 0 := by
  simp [childVisits, h]

theorem InOrder.split {id : Nat} (h : t.InOrder id) :
    ∃ visited rest, t.childrenOf id = visited ++ rest ∧ (∀ child ∈ visited, t.visitsOf child ≠ 0) ∧
      ∀ child ∈ rest, t.visitsOf child = 0 := by
  let seen : Nat → Bool := fun child => t.visitsOf child != 0
  have hsplit := List.takeWhile_append_dropWhile (p := seen) (l := t.childrenOf id)
  have hseen : ∀ child ∈ (t.childrenOf id).takeWhile seen, t.visitsOf child ≠ 0 := by
    intro child hchild
    simpa [seen] using List.mem_takeWhile_imp hchild
  have hhead := List.head_dropWhile_not seen (l := t.childrenOf id)
  generalize (t.childrenOf id).takeWhile seen = visited at hsplit hseen
  generalize (t.childrenOf id).dropWhile seen = rest at hsplit hhead
  refine ⟨visited, rest, hsplit.symm, hseen, ?_⟩
  cases rest with
  | nil => simp
  | cons first rest =>
    have hfirst : t.visitsOf first = 0 := by
      simpa [seen] using hhead (List.cons_ne_nil first rest)
    intro child hchild
    rcases List.mem_cons.mp hchild with rfl | hlater
    · exact hfirst
    · obtain ⟨between, after, rfl⟩ := List.append_of_mem hlater
      by_contra hvisited
      have hlisted : t.childrenOf id = (visited ++ first :: between) ++ child :: after := by
        simp [← hsplit]
      exact h _ child after hlisted hvisited first (by simp) hfirst

section Recording

variable {leaf : Nat}

/-- The children of a node on the lineage, other than the last, get one visit together, and those of other
nodes get none. -/
theorem Linked.childVisits_backpropagate (h : t.Linked) (hleaf : leaf < t.size) (reward : Float)
    (hfits : ∀ id < t.size, t.visitsOf id + 1 < UInt32.size) {id : Nat} (hne : id ≠ leaf) :
    (t.backpropagate leaf reward).childVisits id =
      t.childVisits id + if id ∈ t.lineage leaf then 1 else 0 := by
  have hvisits : ∀ child ∈ t.childrenOf id, (t.backpropagate leaf reward).visitsOf child =
      t.visitsOf child + if child ∈ t.lineage leaf then 1 else 0 := by
    intro child hchild
    have hlt := h.child_lt_size hchild
    exact visitsOf_backpropagate reward hlt (hfits child hlt)
  unfold childVisits
  rw [childrenOf_backpropagate, List.map_congr_left hvisits, List.sum_map_add,
    h.sum_children_on_lineage hleaf id]
  simp only [hne, ne_eq, not_false_eq_true, and_true]

theorem Balanced.backpropagate {id : Nat} (hbalanced : t.Balanced id) (h : t.Linked)
    (hleaf : leaf < t.size) (reward : Float) (hid : id < t.size)
    (hfits : ∀ id < t.size, t.visitsOf id + 1 < UInt32.size) (hne : id ≠ leaf) :
    (t.backpropagate leaf reward).Balanced id := by
  unfold Balanced at hbalanced ⊢
  rw [visitsOf_backpropagate reward hid (hfits id hid), ownVisits_backpropagate,
    h.childVisits_backpropagate hleaf reward hfits hne]
  omega

theorem InOrder.backpropagate {id : Nat} (horder : t.InOrder id) (h : t.Linked)
    (hturn : t.InTurn leaf) (reward : Float)
    (hfits : ∀ id < t.size, t.visitsOf id + 1 < UInt32.size) :
    (t.backpropagate leaf reward).InOrder id := by
  intro before child after hsplit hvisited other hother
  rw [childrenOf_backpropagate] at hsplit
  have hvisits : ∀ x ∈ before ++ child :: after, (t.backpropagate leaf reward).visitsOf x =
      t.visitsOf x + if x ∈ t.lineage leaf then 1 else 0 := by
    intro x hx
    rw [← hsplit] at hx
    have hlt := h.child_lt_size hx
    exact visitsOf_backpropagate reward hlt (hfits x hlt)
  rw [hvisits child (by simp)] at hvisited
  rw [hvisits other (by simp [hother])]
  have hbefore : t.visitsOf other ≠ 0 := by
    by_cases hmem : child ∈ t.lineage leaf
    · exact hturn id before child after hsplit hmem other hother
    · rw [if_neg hmem] at hvisited
      exact horder before child after hsplit hvisited other hother
  omega

end Recording

section Branching

variable {node : Nat}

theorem Linked.ownVisits_addChildren (h : t.Linked) (hnode : node < t.size)
    (hleaf : t.childrenOf node = []) (choices : List Choice) {id : Nat} (hid : id < t.size) :
    (t.addChildren node choices).ownVisits id = t.ownVisits id := by
  by_cases hroot : id = 0
  · simp [ownVisits, hroot]
  · obtain ⟨parent, hlisted⟩ := h.listed id hid hroot
    have hparent := h.parent_of_child hlisted
    have hchildren := childrenOf_addChildren_of_mem hnode hleaf choices hlisted
    have hparent' : (t.addChildren node choices).parent? id = some parent := by
      rw [← hparent]
      refine parent?_congr ?_
      rw [origin?_addChildren choices hnode, if_pos hid]
    simp only [ownVisits, startsFamily, hparent, hparent', Option.any_some, hchildren]

/-- Of the new children of a node, the first one starts a family unless the node is the root. -/
theorem Linked.ownVisits_of_new (h : t.Linked) (hnode : node < t.size)
    (hleaf : t.childrenOf node = []) (choices : List Choice) {id : Nat} (hge : t.size ≤ id)
    (hlt : id < t.size + choices.length) :
    (t.addChildren node choices).ownVisits id = if node ≠ 0 ∧ id = t.size then 1 else 0 := by
  have hchildren : (t.addChildren node choices).childrenOf node =
      List.range' t.size choices.length := by
    rw [childrenOf_addChildren choices hnode, if_pos rfl, hleaf, List.nil_append]
  have hlisted : id ∈ (t.addChildren node choices).childrenOf node := by
    rw [hchildren, List.mem_range'_1]
    exact ⟨hge, hlt⟩
  have hparent := (h.addChildren hnode choices).parent_of_child hlisted
  have hroot : id ≠ 0 := by
    have hpos := h.size_pos
    omega
  have hhead : (List.range' t.size choices.length).head? = some t.size := by
    rw [List.head?_range', if_neg (by omega)]
  have hstarts : (t.addChildren node choices).startsFamily id = true ↔ node ≠ 0 ∧ id = t.size := by
    simp [startsFamily, hparent, hchildren, hhead, eq_comm (a := t.size)]
  simp only [ownVisits, hroot, false_or, hstarts]

theorem childVisits_addChildren (hnode : node < t.size)
    (hleaf : t.childrenOf node = []) (choices : List Choice) (id : Nat) :
    (t.addChildren node choices).childVisits id = t.childVisits id := by
  have hvisits : (t.addChildren node choices).visitsOf = t.visitsOf :=
    funext (visitsOf_addChildren choices hnode)
  unfold childVisits
  rw [hvisits, childrenOf_addChildren choices hnode]
  split
  · next heq =>
    subst heq
    rw [hleaf, List.nil_append]
    have hnone : ∀ child ∈ List.range' t.size choices.length, t.visitsOf child = 0 := by
      intro child hchild
      exact visitsOf_eq_zero (List.mem_range'_1.mp hchild).1
    rw [List.map_congr_left hnone]
    simp
  · rfl

theorem InOrder.addChildren {id : Nat} (horder : t.InOrder id) (hnode : node < t.size)
    (hleaf : t.childrenOf node = []) (choices : List Choice) :
    (t.addChildren node choices).InOrder id := by
  intro before child after hsplit hvisited other hother
  rw [visitsOf_addChildren _ hnode] at hvisited ⊢
  rw [childrenOf_addChildren choices hnode] at hsplit
  split at hsplit
  · next heq =>
    subst heq
    rw [hleaf, List.nil_append] at hsplit
    have hnew : child ∈ List.range' t.size choices.length := by
      simp [hsplit]
    exact absurd (visitsOf_eq_zero (List.mem_range'_1.mp hnew).1) hvisited
  · exact horder before child after hsplit hvisited other hother

theorem Linked.balanced_addChildren (h : t.Linked) (hnode : node < t.size)
    (hleaf : t.childrenOf node = []) (choices : List Choice) {id : Nat} (hid : id < t.size)
    (hbalanced : t.Balanced id) : (t.addChildren node choices).Balanced id := by
  unfold Balanced at hbalanced ⊢
  rw [visitsOf_addChildren _ hnode, childVisits_addChildren hnode hleaf,
    h.ownVisits_addChildren hnode hleaf _ hid, hbalanced]

theorem Linked.balanced_of_new (h : t.Linked) (hnode : node < t.size)
    (hleaf : t.childrenOf node = []) (choices : List Choice) {id : Nat} (hge : t.size ≤ id)
    (hlt : id < t.size + choices.length) (hlater : ¬(node ≠ 0 ∧ id = t.size)) :
    (t.addChildren node choices).Balanced id := by
  unfold Balanced
  rw [visitsOf_addChildren _ hnode, childVisits_addChildren hnode hleaf,
    h.ownVisits_of_new hnode hleaf _ hge hlt, if_neg hlater, visitsOf_eq_zero hge,
    childVisits_of_leaf (childrenOf_eq_nil hge)]

/-- A visit that comes to a leaf in turn goes on to its first child in turn. -/
theorem Linked.inTurn_addChildren (h : t.Linked) (hnode : node < t.size)
    (hleaf : t.childrenOf node = []) {choices : List Choice} (hchoices : choices ≠ [])
    (hturn : t.InTurn node) : (t.addChildren node choices).InTurn t.size := by
  intro id before child after hsplit hmem other hother
  rw [visitsOf_addChildren _ hnode]
  have hnew : (t.addChildren node choices).childrenOf node =
      List.range' t.size choices.length := by
    rw [childrenOf_addChildren choices hnode, if_pos rfl, hleaf, List.nil_append]
  have hfirst : t.size ∈ (t.addChildren node choices).childrenOf node := by
    have hpos := List.length_pos_of_ne_nil hchoices
    rw [hnew, List.mem_range'_1]
    omega
  rw [(h.addChildren hnode choices).lineage_child hfirst,
    lineage_addChildren hnode choices hnode, List.mem_cons] at hmem
  by_cases hid : id = node
  · -- the first child is the only new node on the lineage, and nothing is listed before it
    rw [hid, hnew] at hsplit
    have hsorted := List.pairwise_lt_range' (s := t.size) (n := choices.length)
    rw [hsplit, List.pairwise_append] at hsorted
    have hearlier := hsorted.2.2 other hother child List.mem_cons_self
    have hge : ∀ x ∈ before ++ child :: after, t.size ≤ x := by
      intro x hx
      rw [← hsplit] at hx
      exact (List.mem_range'_1.mp hx).1
    have hother' := hge other (by simp [hother])
    rcases hmem with rfl | hup
    · omega
    · have hle := le_of_mem_lineage hup
      omega
  · rw [childrenOf_addChildren choices hnode, if_neg hid] at hsplit
    have hlt : child < t.size := h.child_lt_size (by rw [hsplit]; simp)
    have hup : child ∈ t.lineage node := hmem.resolve_left (Nat.ne_of_lt hlt)
    exact hturn id before child after hsplit hup other hother

end Branching

end Tree

namespace Search

variable {σ : Type} {s : Search σ} {stateAt : Nat → DraftState} {k : Nat}

/-- After some iterations, every visit is accounted for: the root has one for each iteration and the one
it started with, and a node with children has those of its children, and one more if it is the root or
the first child of a node other than the root. Visited children come first, and only complete drafts are
visited again without getting children. -/
structure ConservesVisits (s : Search σ) (iterations : Nat) : Prop where
  root : s.tree.visitsOf 0 = iterations + 1
  conserved : ∀ id < s.tree.size, s.tree.childrenOf id ≠ [] →
    s.tree.visitsOf id = ((s.tree.childrenOf id).map s.tree.visitsOf).sum +
      if id = 0 ∨ s.tree.startsFamily id then 1 else 0
  visited_first : ∀ id < s.tree.size, ∃ visited rest, s.tree.childrenOf id = visited ++ rest ∧
    (∀ child ∈ visited, s.tree.visitsOf child ≠ 0) ∧ ∀ child ∈ rest, s.tree.visitsOf child = 0
  revisited : ∀ id < s.tree.size, s.tree.childrenOf id = [] → 1 < s.tree.visitsOf id → ∃ state,
    s.state.applyAll s.rules (s.tree.path id) = .ok state ∧ state.isComplete s.rules.schedule

/-- The counts of a search after some iterations. Nodes that can still get children are balanced too. -/
structure Counted (s : Search σ) (stateAt : Nat → DraftState) (k : Nat) : Prop where
  charted : s.Charted stateAt
  expanded : s.tree.childrenOf 0 ≠ []
  root : s.tree.visitsOf 0 = k + 1
  visits_le : ∀ id < s.tree.size, s.tree.visitsOf id ≤ k + 1
  balanced : ∀ id < s.tree.size, (stateAt id).candidates s.rules ≠ [] → s.tree.Balanced id
  inOrder : ∀ id, s.tree.InOrder id

/-- A descent comes to every node in turn, whatever the bounds are. -/
theorem inTurn_of_selects (h : s.tree.Linked) {leaf : Nat}
    (hpath : Relation.ReflTransGen s.Selects 0 leaf) : s.tree.InTurn leaf := by
  intro id before child after hsplit hmem
  have hlisted : child ∈ s.tree.childrenOf id := by simp [hsplit]
  exact h.visited_before_selectChild (selects_of_mem_lineage h hpath hlisted hmem) hsplit

/-- A reward that is recorded where the descent ends counts for one more iteration. -/
theorem counted_backpropagate {leaf : Nat} (hcharted : s.Charted stateAt)
    (hexpanded : s.tree.childrenOf 0 ≠ []) (hroot : s.tree.visitsOf 0 = k + 1)
    (hle : ∀ id < s.tree.size, s.tree.visitsOf id ≤ k + 1) (hk : k + 2 < UInt32.size)
    (hleaf : leaf < s.tree.size)
    (hbalanced : ∀ id < s.tree.size, id ≠ leaf → (stateAt id).candidates s.rules ≠ [] →
      s.tree.Balanced id)
    (hlast : (stateAt leaf).candidates s.rules ≠ [] → s.tree.childrenOf leaf = [] ∧
      s.tree.visitsOf leaf = 0 ∧ s.tree.ownVisits leaf = 1)
    (horder : ∀ id, s.tree.InOrder id) (hturn : s.tree.InTurn leaf) (reward : Float) (memory : σ) :
    Counted { s with tree := s.tree.backpropagate leaf reward, memory } stateAt (k + 1) := by
  have hlinked := hcharted.linked
  have hfits : ∀ id < s.tree.size, s.tree.visitsOf id + 1 < UInt32.size := by
    intro id hid
    have hbound := hle id hid
    omega
  have hvisits : ∀ id < s.tree.size, (s.tree.backpropagate leaf reward).visitsOf id =
      s.tree.visitsOf id + if id ∈ s.tree.lineage leaf then 1 else 0 :=
    fun id hid => Tree.visitsOf_backpropagate reward hid (hfits id hid)
  constructor
  case charted => exact hcharted.backpropagate leaf reward memory
  case expanded => simpa using hexpanded
  case root =>
    show (s.tree.backpropagate leaf reward).visitsOf 0 = _
    rw [hvisits 0 hlinked.size_pos, if_pos (hlinked.root_mem_lineage hleaf), hroot]
  case visits_le =>
    intro id hid
    have hid' : id < s.tree.size := by simpa using hid
    have hbound := hle id hid'
    show (s.tree.backpropagate leaf reward).visitsOf id ≤ _
    rw [hvisits id hid']
    split <;> omega
  case balanced =>
    intro id hid hopen
    have hid' : id < s.tree.size := by simpa using hid
    show (s.tree.backpropagate leaf reward).Balanced id
    by_cases heq : id = leaf
    · -- no child has this visit, so it is the one that the leaf has of its own
      subst heq
      obtain ⟨hchildless, hunvisited, hown⟩ := hlast hopen
      unfold Tree.Balanced
      rw [hvisits id hid', if_pos (s.tree.mem_lineage_self id), Tree.ownVisits_backpropagate,
        Tree.childVisits_of_leaf (by simpa using hchildless), hunvisited, hown]
    · exact (hbalanced id hid' heq hopen).backpropagate hlinked hleaf reward hid' hfits heq
  case inOrder =>
    intro id
    exact (horder id).backpropagate hlinked hturn reward hfits

/-- The same for a leaf that branches: the reward is the one visit that its first child has of its own. -/
theorem Counted.branched (h : s.Counted stateAt k) {leaf : Nat} (hlt : leaf < s.tree.size)
    (hleaf : s.tree.childrenOf leaf = []) (hopen : (stateAt leaf).candidates s.rules ≠ [])
    (hturn : s.tree.InTurn leaf) (hk : k + 2 < UInt32.size) (reward : Float) (memory : σ) :
    let t := s.branch leaf ((stateAt leaf).candidates s.rules)
    Counted { t with tree := t.tree.backpropagate s.tree.size reward, memory }
      (extendStates stateAt s.tree.size s.rules leaf ((stateAt leaf).candidates s.rules)) (k + 1) := by
  intro t
  have hlinked := h.charted.linked
  have hcharted : t.Charted _ := h.charted.branch hlt hleaf
  have hsize : t.tree.size = s.tree.size + ((stateAt leaf).candidates s.rules).length :=
    Tree.size_addChildren _ _ _
  have hpos := List.length_pos_of_ne_nil hopen
  have hvisits : t.tree.visitsOf = s.tree.visitsOf := funext (Tree.visitsOf_addChildren _ hlt)
  have hchildren : ∀ id ≠ leaf, t.tree.childrenOf id = s.tree.childrenOf id :=
    fun id hne => (Tree.childrenOf_addChildren _ hlt id).trans (if_neg hne)
  have hroot : leaf ≠ 0 := by
    rintro rfl
    exact h.expanded hleaf
  apply counted_backpropagate hcharted
  case hexpanded =>
    rw [hchildren 0 hroot.symm]
    exact h.expanded
  case hroot =>
    rw [hvisits]
    exact h.root
  case hle =>
    intro id hid
    rw [hvisits]
    rcases Nat.lt_or_ge id s.tree.size with hid' | hge
    · exact h.visits_le id hid'
    · rw [Tree.visitsOf_eq_zero hge]
      omega
  case hk => exact hk
  case hleaf => omega
  case hbalanced =>
    intro id hid hne hopen'
    rcases Nat.lt_or_ge id s.tree.size with hid' | hge
    · rw [extendStates_of_lt hid'] at hopen'
      exact hlinked.balanced_addChildren hlt hleaf _ hid' (h.balanced id hid' hopen')
    · exact hlinked.balanced_of_new hlt hleaf _ hge (by omega) fun both => hne both.2
  case hlast =>
    intro _
    refine ⟨?_, ?_, ?_⟩
    · rw [hchildren _ (by omega)]
      exact Tree.childrenOf_eq_nil (Nat.le_refl _)
    · rw [hvisits]
      exact Tree.visitsOf_eq_zero (Nat.le_refl _)
    · have hown := hlinked.ownVisits_of_new hlt hleaf ((stateAt leaf).candidates s.rules)
        (Nat.le_refl _) (by omega)
      exact hown.trans (if_pos ⟨hroot, rfl⟩)
  case horder => exact fun id => (h.inOrder id).addChildren hlt hleaf _
  case hturn => exact hlinked.inTurn_addChildren hlt hleaf hopen hturn

theorem Counted.simulate (h : s.Counted stateAt k) (hpolicy : s.policy.Legal)
    (hk : k + 2 < UInt32.size) :
    ∃ t stateAt', s.simulate = .ok t ∧ t.Counted stateAt' (k + 1) ∧ s.Continues t := by
  obtain ⟨t, _, hsimulate, -, hcontinues⟩ := h.charted.explores.simulate hpolicy
  refine ⟨t, ?_⟩
  obtain ⟨leaf, reward, memory, hlt, hleaf, hpath, hcases⟩ :=
    h.charted.explores.simulate_cases hpolicy
  have hturn := inTurn_of_selects h.charted.linked hpath
  rcases hcases with ⟨hcomplete, hended⟩ | ⟨hopen, hbranched⟩
  · cases hsimulate.symm.trans hended
    have hcounted := counted_backpropagate h.charted h.expanded h.root h.visits_le hk hlt
      (fun id hid _ => h.balanced id hid) (fun hopen => absurd hcomplete hopen) h.inOrder hturn
      reward memory
    exact ⟨stateAt, hsimulate, hcounted, hcontinues⟩
  · cases hsimulate.symm.trans hbranched
    exact ⟨_, hsimulate, h.branched hlt hleaf hopen hturn hk reward memory, hcontinues⟩

theorem Counted.conservesVisits (h : s.Counted stateAt k) : s.ConservesVisits k := by
  constructor
  case root => exact h.root
  case conserved =>
    intro id hid hexpanded
    have hopen : (stateAt id).candidates s.rules ≠ [] := by
      rw [← h.charted.explores.choices id hexpanded]
      simpa using hexpanded
    exact h.balanced id hid hopen
  case visited_first => exact fun id _ => (h.inOrder id).split
  case revisited =>
    intro id hid hchildless hagain
    refine ⟨stateAt id, h.charted.applyAll_path hid, ?_⟩
    by_cases hopen : (stateAt id).candidates s.rules = []
    · rw [DraftState.candidates_eq_nil_iff] at hopen
      exact decide_eq_true (Array.getElem?_eq_none_iff.mp hopen)
    · have hbalanced : s.tree.visitsOf id = 0 + s.tree.ownVisits id := by
        rw [← Tree.childVisits_of_leaf hchildless]
        exact h.balanced id hid hopen
      have hown : s.tree.ownVisits id ≤ 1 := by
        unfold Tree.ownVisits
        split <;> omega
      omega

/-- A search starts with the one visit of the root, which none of its children has. -/
theorem counted_start {rules : Rules} {state : DraftState} (hboard : rules.board.Indexed)
    (hseats : state.Seats rules.schedule) {settings : Settings} {policy : Policy σ} {memory : σ}
    (hstart : start rules state settings policy memory = .ok s) : ∃ stateAt, s.Counted stateAt 0 := by
  obtain ⟨turn, hturn, rfl⟩ := of_start hstart
  have halone := charted_alone hboard hseats hturn settings policy memory
  have hlinked := Tree.linked_singleton
  have hleaf : Tree.singleton.childrenOf 0 = [] := rfl
  have hvisits : ∀ id, (Tree.singleton.addChildren 0 (state.candidates rules)).visitsOf id =
      if id = 0 then 1 else 0 := by
    intro id
    rw [Tree.visitsOf_addChildren _ Nat.one_pos]
    cases id <;> rfl
  refine ⟨_, halone.branch halone.explores.size_pos rfl, ?_, hvisits 0, ?_, ?_, ?_⟩
  · have hchildren := Tree.childrenOf_addChildren (state.candidates rules) hlinked.size_pos 0
    rw [if_pos rfl, hleaf, List.nil_append] at hchildren
    have hopen := candidates_ne_nil hturn
    rw [Ne, ← List.length_eq_zero_iff] at hopen
    intro hnil
    have hlength := congrArg List.length (hchildren.symm.trans hnil)
    rw [List.length_range'] at hlength
    exact hopen hlength
  · intro id _
    refine Nat.le_trans (Nat.le_of_eq (hvisits id)) ?_
    split <;> omega
  · intro id hid _
    have hsize := Tree.size_addChildren Tree.singleton 0 (state.candidates rules)
    by_cases hroot : id = 0
    · subst hroot
      have hbalanced : Tree.singleton.Balanced 0 := by
        decide
      exact hlinked.balanced_addChildren hlinked.size_pos hleaf _ hlinked.size_pos hbalanced
    · have hone : Tree.singleton.size = 1 := rfl
      have hid' : id < Tree.singleton.size + (state.candidates rules).length := hsize ▸ hid
      exact hlinked.balanced_of_new hlinked.size_pos hleaf _ (by omega) hid' (by simp)
  · intro id
    have hempty : Tree.singleton.childrenOf id = [] := by
      cases id <;> rfl
    have horder : Tree.singleton.InOrder id := by
      intro before child after hsplit
      simp [hempty] at hsplit
    exact horder.addChildren hlinked.size_pos hleaf _

theorem Counted.iterate (h : s.Counted stateAt 0) (hpolicy : s.policy.Legal) {n : Nat}
    (hn : n + 1 < UInt32.size) :
    ∃ t stateAt', iterate n s = .ok t ∧ t.Counted stateAt' n ∧ s.Continues t := by
  apply iterate_of_step (fun k t stateAt => t.Counted stateAt k) _ h hpolicy
  exact fun k hk t _ ht hlegal => ht.simulate hlegal (by omega)

end Search

/-- After any number of iterations every visit in the tree of a search is accounted for, as long as the
visits of the root can be counted. -/
theorem search_conserves_visits {rows : List Row} {board : Board}
    (hboard : Board.ofRows rows = .ok board) (schedule : Schedule) (requirements : Requirements)
    {state : DraftState} (hseats : state.Seats schedule) {σ : Type} {policy : Policy σ}
    (hpolicy : policy.Legal) {settings : Settings} {memory : σ} {s : Search σ}
    (hstart : Search.start ⟨board, schedule, requirements⟩ state settings policy memory = .ok s)
    {n : Nat} (hn : n + 1 < UInt32.size) :
    ∃ t, Search.iterate n s = .ok t ∧ t.rules = ⟨board, schedule, requirements⟩ ∧ t.state = state ∧
      t.ConservesVisits n := by
  have hindexed : Board.Indexed (Rules.mk board schedule requirements).board :=
    Board.indexed_of_ofRows hboard
  obtain ⟨stateAt, hcounted⟩ := Search.counted_start hindexed hseats hstart
  obtain ⟨-, hrules, hstate, hsame⟩ := Search.charted_start hindexed hseats hstart
  rw [← hsame] at hpolicy
  obtain ⟨t, stateAt', hiterate, ht, hcontinues⟩ := hcounted.iterate hpolicy hn
  exact ⟨t, hiterate, hcontinues.rules.trans hrules, hcontinues.state.trans hstate,
    ht.conservesVisits⟩

theorem search_conserves_visits_of_two_teams :
    ∃ board s, Board.ofRows [⟨2, "QB A", "QB", "10"⟩, ⟨3, "RB B", "RB", "8"⟩] = .ok board ∧
      (DraftState.start 2 board.size).Seats (.snake 2 3) ∧ Policy.uniform.Legal ∧ 20 + 1 < UInt32.size ∧
      Search.start ⟨board, .snake 2 3, .standard⟩ (.start 2 board.size) .small .uniform (.ofSeed 7) = .ok s ∧
      ∃ t, Search.iterate 20 s = .ok t ∧ t.ConservesVisits 20 := by
  have hn : 20 + 1 < UInt32.size := by
    decide
  obtain ⟨board, s, hboard, hseats, hstart⟩ := Search.exists_start_of_two_teams
  obtain ⟨t, hiterate, -, -, ht⟩ := search_conserves_visits hboard (.snake 2 3) .standard hseats
    Policy.uniform_legal hstart hn
  exact ⟨board, s, hboard, hseats, Policy.uniform_legal, hn, hstart, t, hiterate, ht⟩

end SnakeDraft
