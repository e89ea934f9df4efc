import SnakeDraft.Search.Run

/-!
Searching several trees for one pick. Each tree has its own policy with its own seed; the statistics
of the choices at the roots are added up before a choice is committed to.
-/

namespace SnakeDraft

/-- The statistics of all choices with those of one more. -/
def absorb : List ChildStats → ChildStats → List ChildStats
  | [], child => [child]
  | c :: cs, child => if c.choice = child.choice then c.merge child :: cs else c :: absorb cs child

/-- The extent of two searches together. -/
def SearchStats.merge (a b : SearchStats) : SearchStats where
  iterations := a.iterations + b.iterations
  treeSize := a.treeSize + b.treeSize
  maxDepth := max a.maxDepth b.maxDepth
  passThroughs := a.passThroughs + b.passThroughs
  workers := a.workers + b.workers

/-- Two results together, before a choice is committed to. -/
def SearchResult.merge (a b : SearchResult) : SearchResult :=
  { a with children := b.children.foldl absorb a.children, stats := a.stats.merge b.stats }

/-- Several results together, with the choice that their totals lead to. -/
def mergeResults (policy : CommitPolicy) : List SearchResult → Option SearchResult
  | [] => none
  | first :: others =>
    let merged := others.foldl SearchResult.merge first
    some { merged with choice := (commit policy merged.children).getD merged.choice }

/-- The results of all searches, or the first error. -/
def collectResults : List (Except SearchError SearchResult) → Except SearchError (List SearchResult)
  | [] => .ok []
  | .error e :: _ => .error e
  | .ok result :: results => (collectResults results).map (result :: ·)

/-- The search for the pick on the clock with as many trees as the settings have workers. The policy
remembers what it makes of the seed of its tree, and each tree has its own start and the iterations that
the clock leaves room for in it. -/
def search {σ : Type} (rules : Rules) (state : DraftState) (settings : Settings)
    (policy : Policy σ) (memoryOf : UInt64 → σ) (clock : Clock) : Except SearchError SearchResult :=
  let searchWith (worker : Nat) :=
    searchTree rules state settings policy (memoryOf (settings.seed + worker.toUInt64))
      (clock.timingIn worker)
  if settings.workers ≤ 1 then searchWith 0
  else
    let results := (List.range settings.workers).map searchWith
    match collectResults results with
    | .error e => .error e
    | .ok results =>
      match mergeResults settings.commitPolicy results with
      | some result => .ok result
      | none => .error .draftComplete

end SnakeDraft
