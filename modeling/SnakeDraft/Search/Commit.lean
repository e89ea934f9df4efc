import SnakeDraft.Search.Leftmost
import SnakeDraft.Search.Node
import SnakeDraft.Search.Settings

/-!
Committing to a choice, from the statistics of the choices at the root.
-/

namespace SnakeDraft

/-- The statistics of one choice. -/
structure ChildStats where
  choice : Choice
  visits : UInt32
  valueSum : Float
  /-- The highest reward. -/
  best : Float
deriving Repr

namespace ChildStats

def mean (c : ChildStats) : Float :=
  meanValue c.valueSum c.visits

/-- Whether a policy prefers the first of two choices to the second. -/
def isBetter (policy : CommitPolicy) (a b : ChildStats) : Bool :=
  match policy with
  | .meanValue => a.mean > b.mean
  | .visitCount => a.visits > b.visits

/-- The greater of two numbers, or the one that is a number at all. -/
def greater (a b : Float) : Float :=
  if a.isNaN then b else if b.isNaN then a else if a < b then b else a

/-- The statistics of one choice from two searches together. -/
def merge (a b : ChildStats) : ChildStats :=
  { a with
    visits := a.visits + b.visits
    valueSum := a.valueSum + b.valueSum
    best := greater a.best b.best }

end ChildStats

/-- The choice to commit to and its place; of equally good ones the first. -/
def committed (policy : CommitPolicy) (children : List ChildStats) : Option (ChildStats × Nat) :=
  leftmost (fun a b => a.1.isBetter policy b.1) children.zipIdx

/-- The place of the choice to commit to. -/
def commitIndex (policy : CommitPolicy) (children : List ChildStats) : Option Nat :=
  (committed policy children).map (·.2)

/-- The choice to commit to. -/
def commit (policy : CommitPolicy) (children : List ChildStats) : Option Choice :=
  (committed policy children).map (·.1.choice)

end SnakeDraft
