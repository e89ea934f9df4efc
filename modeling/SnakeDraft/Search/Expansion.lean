import SnakeDraft.Search.Candidates
import SnakeDraft.Search.Tree

/-!
Expanding a node: it gets one child for each choice in the state of the draft that it stands for.
-/

namespace SnakeDraft

/-- What an expansion did. -/
inductive Expansion where
  /-- The node had children already. -/
  | alreadyExpanded
  /-- The draft is complete at the node. -/
  | terminal
  /-- The node got one child for each of these choices. -/
  | expanded (choices : List Choice)
deriving DecidableEq, Repr

/-- Whether the only new child is a pass. -/
def Expansion.isPassThrough : Expansion → Bool
  | .expanded choices => choices == [.pass]
  | _ => false

/-- Gives a node its children, in the state that the node stands for. -/
def Tree.expand (t : Tree) (id : Nat) (state : DraftState) (rules : Rules) : Expansion × Tree :=
  if t.childrenOf id ≠ [] then (.alreadyExpanded, t)
  else
    match state.candidates rules with
    | [] => (.terminal, t)
    | choices => (.expanded choices, t.addChildren id choices)

end SnakeDraft
