import SnakeDraft.Draft.State
import SnakeDraft.Random.Index
import SnakeDraft.Search.Leftmost
import SnakeDraft.Search.Settings

/-!
Policies of play. A policy chooses among the candidates of the team on the clock while a draft is
played out, and may keep a state of its own from choice to choice.
-/

namespace SnakeDraft

/-- A way to choose among candidates. The list of candidates is never empty. -/
structure Policy (σ : Type) where
  choose : σ → DraftState → List Choice → Choice × σ

namespace Policy

/-- Whether a policy always chooses one of the candidates. -/
def Legal {σ : Type} (policy : Policy σ) : Prop :=
  ∀ (memory : σ) (state : DraftState) (candidates : List Choice),
    candidates ≠ [] → (policy.choose memory state candidates).1 ∈ candidates

/-- All candidates alike, at random. -/
def uniform : Policy Random.Generator where
  choose generator _ candidates :=
    let (i, generator) := generator.index candidates.length
    (candidates.getD i .pass, generator)

/-- The score of a choice: that of the player, zero for a player without one, and the lowest possible
for a pass. -/
def score (scores : Array Float) : Choice → Float
  | .player id => scores[id]?.getD 0
  | .pass => -(1 / 0)

/-- The candidate with the highest score. -/
def greedyChoice (scores : Array Float) (candidates : List Choice) : Option Choice :=
  leftmost (fun a b => score scores a > score scores b) candidates

/-- The candidate with the highest score, whatever the state of the draft. -/
def greedy (σ : Type) (scores : Array Float) : Policy σ where
  choose memory _ candidates := ((greedyChoice scores candidates).getD .pass, memory)

/-- The policy of a kind. The scores serve the greedy one. -/
def ofKind (scores : Array Float) : RolloutKind → Policy Random.Generator
  | .uniform => uniform
  | .zscore => greedy Random.Generator scores

end Policy

end SnakeDraft
