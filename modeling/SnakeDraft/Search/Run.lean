import SnakeDraft.Search.Commit
import SnakeDraft.Search.Expansion
import SnakeDraft.Search.Rollout

/-!
Searching for one pick. A search grows a tree from the state of the draft: each iteration descends to
a leaf, expands it, plays the draft out and records the points of the team on the clock on the way
back up. `Search.run` iterates and commits to a choice at the root.
-/

namespace SnakeDraft

/-- Why a search has no result. -/
inductive SearchError where
  | draftComplete
  /-- A choice that the search considered does not apply. -/
  | illegalTransition (error : PickError)
  /-- The clock cannot tell the deadline. The program stops here. -/
  | beyondClock
deriving DecidableEq, Repr

namespace SearchError

def message : SearchError → String
  | draftComplete => "the draft is complete; there is no pick to search"
  | illegalTransition error => s!"illegal transition during search: {error.message}"
  | beyondClock => "overflow when adding duration to instant"

/-- The message and the messages of the causes under it. -/
def chain (e : SearchError) : List String :=
  e.message :: match e with
    | draftComplete | beyondClock => []
    | illegalTransition error => [error.message]

end SearchError

/-- A search in progress. -/
structure Search (σ : Type) where
  rules : Rules
  /-- The draft at the root. -/
  state : DraftState
  /-- The pick that the search is for. -/
  turn : Turn
  settings : Settings
  policy : Policy σ
  memory : σ
  tree : Tree
  /-- The number of nodes whose only child is a pass. -/
  passThroughs : Nat

/-- The extent of a search. -/
structure SearchStats where
  iterations : Nat
  treeSize : Nat
  maxDepth : Nat
  passThroughs : Nat
  workers : Nat
deriving DecidableEq, Repr

/-- The result of a search. -/
structure SearchResult where
  /-- The choice committed to. -/
  choice : Choice
  turn : Turn
  /-- The statistics of all choices at the root. -/
  children : List ChildStats
  stats : SearchStats
deriving Repr

namespace Search

variable {σ : Type}

/-- The search with a node expanded, and what the expansion did. -/
def expand (s : Search σ) (node : Nat) (state : DraftState) : Expansion × Search σ :=
  let (expansion, tree) := s.tree.expand node state s.rules
  let passes := if expansion.isPassThrough then 1 else 0
  (expansion, { s with tree, passThroughs := s.passThroughs + passes })

/-- The search for the pick on the clock, with the root expanded. -/
def start (rules : Rules) (state : DraftState) (settings : Settings) (policy : Policy σ)
    (memory : σ) : Except SearchError (Search σ) :=
  match state.onClock? rules.schedule with
  | none => .error .draftComplete
  | some turn =>
    let search : Search σ := ⟨rules, state, turn, settings, policy, memory, .singleton, 0⟩
    .ok (search.expand 0 state).2

/-- Where a descent has led: a node, the draft at it, and the points on the way. -/
structure Descent where
  node : Nat
  state : DraftState
  accrued : Float

/-- The descent continued to a child. -/
def step (s : Search σ) (d : Descent) (child : Nat) : Except PickError Descent :=
  (d.state.advance s.rules s.turn.team (s.tree.choiceOf child)).map fun (points, state) =>
    ⟨child, state, d.accrued + points⟩

theorem remaining_lt_of_step {s : Search σ} {d e : Descent} {child : Nat}
    (h : s.step d child = .ok e) :
    s.rules.schedule.size - e.state.pointer < s.rules.schedule.size - d.state.pointer := by
  unfold step at h
  cases ha : d.state.advance s.rules s.turn.team (s.tree.choiceOf child) with
  | error e => rw [ha] at h; cases h
  | ok result =>
    rw [ha] at h
    cases h
    exact DraftState.remaining_lt_of_advance ha

/-- The descent continued to a node without children. -/
def descend (s : Search σ) (d : Descent) : Except PickError Descent :=
  match s.tree.selectChild d.node s.settings.exploration with
  | none => .ok d
  | some child =>
    match _h : s.step d child with
    | .error e => .error e
    | .ok next => s.descend next
termination_by s.rules.schedule.size - d.state.pointer
decreasing_by exact remaining_lt_of_step _h

theorem descend_of_leaf {s : Search σ} {d : Descent}
    (hselect : s.tree.selectChild d.node s.settings.exploration = none) : s.descend d = .ok d := by
  rw [descend, hselect]

theorem descend_of_error {s : Search σ} {d : Descent} {child : Nat} {error : PickError}
    (hselect : s.tree.selectChild d.node s.settings.exploration = some child)
    (hstep : s.step d child = .error error) : s.descend d = .error error := by
  rw [descend, hselect]
  grind

theorem descend_of_step {s : Search σ} {d next : Descent} {child : Nat}
    (hselect : s.tree.selectChild d.node s.settings.exploration = some child)
    (hstep : s.step d child = .ok next) : s.descend d = s.descend next := by
  rw [descend.eq_def s d, hselect]
  grind

/-- The search with the node of a descent expanded, and the descent continued to its first child if
there is one. -/
def grow (s : Search σ) (d : Descent) : Except PickError (Descent × Search σ) :=
  match s.expand d.node d.state with
  | (.expanded _, s) =>
    match s.tree.selectChild d.node s.settings.exploration with
    | none => .ok (d, s)
    | some child => (s.step d child).map fun d => (d, s)
  | (_, s) => .ok (d, s)

/-- One descent from the root, expansion and playout: the node where the playout started, its reward,
and the search with the expanded tree. -/
def playout (s : Search σ) : Except PickError (Nat × Float × Search σ) :=
  match s.descend ⟨0, s.state, 0⟩ with
  | .error e => .error e
  | .ok d =>
    match s.grow d with
    | .error e => .error e
    | .ok (d, s) =>
      match rollout s.policy s.rules s.turn.team d.state d.accrued s.memory with
      | (.error e, _) => .error e
      | (.ok reward, memory) => .ok (d.node, reward, { s with memory })

/-- One iteration: a playout and its reward recorded. -/
def simulate (s : Search σ) : Except PickError (Search σ) :=
  s.playout.map fun (leaf, reward, s) => { s with tree := s.tree.backpropagate leaf reward }

/-- A number of iterations. -/
def iterate : Nat → Search σ → Except PickError (Search σ)
  | 0, s => .ok s
  | n + 1, s =>
    match s.simulate with
    | .error e => .error e
    | .ok s => iterate n s

/-- Whether there is only one choice, for which no iteration is needed. -/
def isForced (s : Search σ) : Bool :=
  (s.tree.childrenOf 0).length == 1

/-- The number of iterations of a run, when there is time for this many. -/
def iterations (s : Search σ) (room : Nat) : Nat :=
  if s.isForced then 0 else s.settings.iterations room

/-- The statistics of a node. -/
def statsOf (s : Search σ) (id : Nat) : ChildStats :=
  let node := (s.tree.node? id).getD .root
  ⟨node.choice.getD .pass, node.visits, node.valueSum, node.best⟩

def rootChildren (s : Search σ) : List ChildStats :=
  (s.tree.childrenOf 0).map s.statsOf

/-- The result after a number of iterations. -/
def result (s : Search σ) (iterations : Nat) : SearchResult :=
  { choice := (commit s.settings.commitPolicy s.rootChildren).getD .pass
    turn := s.turn
    children := s.rootChildren
    stats := ⟨iterations, s.tree.size, s.tree.maxDepth, s.passThroughs, 1⟩ }

/-- Iterates as long as the settings and the time allow, and commits to a choice. The deadline is set first, also
where no iteration is needed. -/
def run (s : Search σ) (timing : Timing) : Except SearchError SearchResult :=
  if s.settings.deadlineFits timing.start then
    match iterate (s.iterations timing.room) s with
    | .error e => .error (.illegalTransition e)
    | .ok t => .ok (t.result (s.iterations timing.room))
  else .error .beyondClock

theorem run_of_iterate {s t : Search σ} {timing : Timing} (hfits : s.settings.deadlineFits timing.start = true)
    (h : iterate (s.iterations timing.room) s = .ok t) :
    s.run timing = .ok (t.result (s.iterations timing.room)) := by
  rw [run, if_pos hfits, h]

theorem run_of_deadline {s : Search σ} {timing : Timing} (h : s.settings.deadlineFits timing.start = false) :
    s.run timing = .error .beyondClock := by
  rw [run, if_neg (by simp [h])]

end Search

/-- The search of a single tree for the pick on the clock. -/
def searchTree {σ : Type} (rules : Rules) (state : DraftState) (settings : Settings)
    (policy : Policy σ) (memory : σ) (timing : Timing) : Except SearchError SearchResult :=
  match Search.start rules state settings policy memory with
  | .error e => .error e
  | .ok search => search.run timing

end SnakeDraft
