import SnakeDraft.Draft.Basic

/-!
Nodes of a search tree. A node knows the choice that leads to it and the rewards of the playouts
through it, but not the state of the draft, which is rebuilt from the choices above it.
-/

namespace SnakeDraft

/-- A node of a search tree. Nodes refer to each other by their place in the tree. -/
structure Node where
  /-- The node above, none for the root. -/
  parent : Option Nat
  /-- The choice that leads to the node, none for the root. -/
  choice : Option Choice
  /-- The distance from the root. -/
  depth : Nat
  visits : UInt32
  /-- The sum of the rewards through the node. -/
  valueSum : Float
  /-- The highest reward through the node. -/
  best : Float
  /-- The nodes below, in the order in which they were added. -/
  children : Array Nat
deriving Repr

/-- The mean of rewards, zero without any. -/
def meanValue (valueSum : Float) (visits : UInt32) : Float :=
  if visits = 0 then 0 else valueSum / visits.toFloat

namespace Node

/-- A node without rewards. -/
def fresh (parent : Option Nat) (choice : Option Choice) (depth : Nat) : Node :=
  ⟨parent, choice, depth, 0, 0, -(1 / 0), #[]⟩

/-- The root. Its first visit is counted from the start, so that the logarithm of its visits is
defined. -/
def root : Node :=
  { fresh none none 0 with visits := 1 }

def mean (n : Node) : Float :=
  meanValue n.valueSum n.visits

def isExpanded (n : Node) : Bool :=
  !n.children.isEmpty

/-- The upper confidence bound of a node, from the logarithm of its parent's visits and the weight of
exploration. A node without visits has an infinite one. -/
def ucb (n : Node) (lnParent exploration : Float) : Float :=
  if n.visits = 0 then 1 / 0
  else n.mean + exploration * (lnParent / n.visits.toFloat).sqrt

/-- The node with one more reward. -/
def record (n : Node) (reward : Float) : Node :=
  { n with
    visits := n.visits + 1
    valueSum := n.valueSum + reward
    best := if reward > n.best then reward else n.best }

end Node

end SnakeDraft
