import SnakeDraft.Duration

/-!
Settings of a search: how wide it explores, how long it runs, and how it commits to a choice.
`SearchOptions` are the options as a league configures them, `Settings` what one search runs with.
-/

namespace SnakeDraft

/-- How a search commits to a choice once it has run. -/
inductive CommitPolicy where
  /-- The highest mean reward. -/
  | meanValue
  /-- The most visits. -/
  | visitCount
deriving DecidableEq, Repr

/-- How choices are made when a draft is played out. -/
inductive RolloutKind where
  /-- At random, all candidates alike. -/
  | uniform
  /-- The candidate who stands furthest above the pool of the own position. -/
  | zscore
deriving DecidableEq, Repr

/-- The square root of two, the usual weight of exploration. -/
def standardExploration : Float := 1.4142135623730951

/-- The search options of a league. -/
structure SearchOptions where
  secondsPerPick : Float := 30
  /-- The iterations after which a search stops even if time remains. -/
  maxIterations : Option Nat := none
  exploration : Float := standardExploration
  commitPolicy : CommitPolicy := .meanValue
  rollout : RolloutKind := .uniform
  /-- A fixed seed; without one every search draws its own. -/
  seed : Option UInt64 := none
  workers : Nat := 1
deriving Repr

/-- What the clock means for the search of a tree. -/
structure Timing where
  /-- The reading of the clock at the start. -/
  start : Duration
  /-- The number of iterations that there is time for before the deadline. -/
  room : Nat

/-- A clock that starts with the search. -/
instance : Coe Nat Timing := ⟨fun room => ⟨⟨0⟩, room⟩⟩

/-- What the clock means for every tree of a search. -/
structure Clock where
  timingIn : Nat → Timing

/-- A clock that means the same for all trees. -/
instance : Coe Timing Clock := ⟨fun timing => ⟨fun _ => timing⟩⟩

/-- The number of iterations that there is time for in a tree. -/
def Clock.roomIn (clock : Clock) (tree : Nat) : Nat :=
  (clock.timingIn tree).room

/-- The settings of one search. -/
structure Settings where
  exploration : Float := standardExploration
  /-- The time that a search may take. -/
  timeBudget : Option Duration := some (.ofWholeSeconds 30)
  /-- The number of iterations that a search may make. -/
  maxIterations : Option Nat := none
  commitPolicy : CommitPolicy := .meanValue
  /-- The number of trees searched side by side. -/
  workers : Nat := 1
  /-- The seed of the first tree; each further tree has the next one. -/
  seed : UInt64 := 0
deriving Repr

namespace Settings

/-- Small settings without a time budget, the same in every run. -/
def small : Settings :=
  { timeBudget := none, maxIterations := some 500, seed := 7 }

/-- The settings for the options of a league, if its seconds per pick are a duration. The fresh seed
serves where the options fix none. -/
def ofOptions? (options : SearchOptions) (freshSeed : UInt64) : Option Settings :=
  (Duration.ofSeconds? options.secondsPerPick).map fun budget =>
    { exploration := options.exploration
      timeBudget := some budget
      maxIterations := options.maxIterations
      commitPolicy := options.commitPolicy
      workers := max options.workers 1
      seed := options.seed.getD freshSeed }

/-- The settings with another number of trees, at least one. -/
def withWorkers (s : Settings) (workers : Nat) : Settings :=
  { s with workers := max workers 1 }

/-- The time after which a search stops: its budget, or half a minute where nothing else would stop it. -/
def timeLimit (s : Settings) : Option Duration :=
  match s.timeBudget, s.maxIterations with
  | some budget, _ => some budget
  | none, some _ => none
  | none, none => some (.ofWholeSeconds 30)

/-- Whether a search that starts at a reading of the clock has no deadline, or one that the clock can tell. -/
def deadlineFits (s : Settings) (start : Duration) : Bool :=
  s.timeLimit.all fun limit => (start.after? limit).isSome

/-- The number of iterations of one tree, when there is time for this many before the deadline. -/
def iterations (s : Settings) (room : Nat) : Nat :=
  match s.timeBudget, s.maxIterations with
  | some _, some limit => min limit room
  | none, some limit => limit
  | _, none => room

theorem iterations_le {s : Settings} {limit : Nat} (h : s.maxIterations = some limit) (room : Nat) :
    s.iterations room ≤ limit := by
  unfold iterations
  rw [h]
  cases s.timeBudget with
  | none => exact Nat.le_refl limit
  | some budget => exact Nat.min_le_left limit room

/-- A search with time for all of its iterations makes them. -/
theorem iterations_eq {s : Settings} {limit room : Nat} (h : s.maxIterations = some limit) (hroom : limit ≤ room) :
    s.iterations room = limit := by
  unfold iterations
  rw [h]
  cases s.timeBudget with
  | none => rfl
  | some budget => exact Nat.min_eq_left hroom

theorem deadlineFits_of_timeLimit {s : Settings} {limit : Duration} (h : s.timeLimit = some limit) (start : Duration) :
    s.deadlineFits start = decide (start.nanoseconds + limit.nanoseconds < signedSize * Duration.perSecond) := by
  unfold deadlineFits
  rw [h, Option.all_some, Duration.isSome_after?]

/-- A search that only its iterations stop has no deadline. -/
theorem deadlineFits_of_iterations {s : Settings} {limit : Nat} (htime : s.timeBudget = none)
    (h : s.maxIterations = some limit) (start : Duration) : s.deadlineFits start = true := by
  unfold deadlineFits timeLimit
  rw [htime, h]
  rfl

end Settings

/-- Whether all trees of a search have deadlines that the clock can tell, if any. -/
def Clock.Fits (clock : Clock) (settings : Settings) : Prop :=
  ∀ tree < max settings.workers 1, settings.deadlineFits (clock.timingIn tree).start = true

namespace Clock

variable {clock : Clock} {settings : Settings}

theorem Fits.first (h : clock.Fits settings) : settings.deadlineFits (clock.timingIn 0).start = true :=
  h 0 (Nat.lt_of_lt_of_le Nat.one_pos (Nat.le_max_right ..))

theorem Fits.tree (h : clock.Fits settings) {tree : Nat} (htree : tree < settings.workers) :
    settings.deadlineFits (clock.timingIn tree).start = true :=
  h tree (Nat.lt_of_lt_of_le htree (Nat.le_max_left ..))

theorem fits_of_iterations {limit : Nat} (htime : settings.timeBudget = none)
    (h : settings.maxIterations = some limit) : clock.Fits settings :=
  fun _ _ => Settings.deadlineFits_of_iterations htime h _

theorem exists_of_not_fits (h : ¬ clock.Fits settings) :
    ∃ tree < max settings.workers 1, settings.deadlineFits (clock.timingIn tree).start = false := by
  unfold Fits at h
  simpa using h

end Clock

end SnakeDraft
