import SnakeDraft.Search.Leftmost
import SnakeDraft.Search.Node

/-!
Search trees. The nodes stand in one array, the root first and every other node after its parent, so
that going up from a node leads to smaller and smaller places. Places have no end here. The 32 bits of a
place, of which one number stands for no node, are enough for trees of fewer than `UInt32.size` nodes.
-/

namespace SnakeDraft

/-- A tree as an array of its nodes. The root is node 0. -/
structure Tree where
  nodes : Array Node
deriving Repr

namespace Tree

/-- The tree of a root alone. -/
def singleton : Tree := ⟨#[.root]⟩

/-- The number of nodes. -/
def size (t : Tree) : Nat :=
  t.nodes.size

def node? (t : Tree) (id : Nat) : Option Node :=
  t.nodes[id]?

def childrenOf (t : Tree) (id : Nat) : List Nat :=
  ((t.node? id).map (·.children.toList)).getD []

/-- The choice that leads to a node; for the root a pass. -/
def choiceOf (t : Tree) (id : Nat) : Choice :=
  ((t.node? id).bind (·.choice)).getD .pass

/-- Adds a node below another: its place and the tree with it. -/
def addChild (t : Tree) (parent : Nat) (choice : Choice) : Nat × Tree :=
  let depth := ((t.node? parent).map (·.depth + 1)).getD 0
  let nodes := t.nodes.push (.fresh (some parent) (some choice) depth)
  (t.size, ⟨nodes.modify parent fun n => { n with children := n.children.push t.size }⟩)

/-- Adds one node for each choice below a node. -/
def addChildren (t : Tree) (parent : Nat) (choices : List Choice) : Tree :=
  choices.foldl (fun t choice => (t.addChild parent choice).2) t

/-- Whether a node has had no visit. -/
def isUnvisited (t : Tree) (id : Nat) : Bool :=
  (t.node? id).any fun n => n.visits == 0

/-- The upper confidence bound of a node. -/
def ucbOf (t : Tree) (lnParent exploration : Float) (id : Nat) : Float :=
  ((t.node? id).map (·.ucb lnParent exploration)).getD 0

/-- The child to descend into: the first one without a visit, and otherwise the one with the highest
upper confidence bound. -/
def selectChild (t : Tree) (id : Nat) (exploration : Float) : Option Nat :=
  let children := t.childrenOf id
  match children.find? t.isUnvisited with
  | some child => some child
  | none =>
    let lnParent := ((t.node? id).map (·.visits.toFloat.log)).getD 0
    let scored := children.map fun child => (child, t.ucbOf lnParent exploration child)
    (leftmost (fun a b => a.2 > b.2) scored).map (·.1)

/-- A node and the nodes above it, up to the root. -/
def lineage (t : Tree) (id : Nat) : List Nat :=
  id ::
    match (t.node? id).bind (·.parent) with
    | some parent => if parent < id then t.lineage parent else []
    | none => []
termination_by id

/-- The tree with a reward recorded at a node and all nodes above it. -/
def backpropagate (t : Tree) (leaf : Nat) (reward : Float) : Tree :=
  ⟨(t.lineage leaf).foldl (fun nodes id => nodes.modify id (·.record reward)) t.nodes⟩

/-- The choices that lead from the root to a node. -/
def path (t : Tree) (id : Nat) : List Choice :=
  (t.lineage id).reverse.filterMap fun id => (t.node? id).bind (·.choice)

/-- The greatest distance of a node from the root. -/
def maxDepth (t : Tree) : Nat :=
  t.nodes.foldl (fun deepest n => max deepest n.depth) 0

end Tree

end SnakeDraft
