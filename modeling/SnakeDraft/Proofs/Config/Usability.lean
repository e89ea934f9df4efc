import SnakeDraft.Config.Load
import SnakeDraft.Proofs.Draft.Recording
import SnakeDraft.Proofs.Duration
import SnakeDraft.Session.Basic

/-!
What a configuration that is accepted can be used for. Its seconds per pick are positive and finite
(`Config.isPositive_of_parse`), but durations end below two to the power of 64 seconds, and searches take their time as
a duration: a configuration with more seconds than that is accepted, and no session can be started with it
(`Config.accepted_without_duration`). Neither can one be started for a league whose schedule is too long for a list.
All others can be used (`Config.accepted_is_usable_iff`).
-/

namespace SnakeDraft.Config

theorem fault?_of_parse {path text : String} {config : Config} (h : parse path text = .ok config) :
    config.fault? = none := by
  unfold parse at h
  split at h
  · cases h
  · split at h
    · cases h
    · split at h
      · cases h
      · next hnone =>
        cases h
        exact hnone

theorem isPositive_of_parse {path text : String} {config : Config} (h : parse path text = .ok config) :
    isPositive config.search.secondsPerPick = true := by
  have hnone := fault?_of_parse h
  unfold fault? at hnone
  grind

theorem rounds_pos_of_parse {path text : String} {config : Config} (h : parse path text = .ok config) :
    0 < config.draft.rounds := by
  have hnone := fault?_of_parse h
  unfold fault? at hnone
  grind

theorem nonneg_of_isPositive {x : Float} (h : isPositive x = true) : 0 ≤ x := by
  unfold isPositive at h
  rw [Bool.and_eq_true, Bool.not_eq_true', decide_eq_false_iff_not] at h
  obtain ⟨hfinite, hpositive⟩ := h
  rw [← not_lt_zero_iff_le hfinite]
  intro hbelow
  obtain ⟨hnumber, hzero, hrank⟩ := lt_iff_rank.mp hbelow
  exact hpositive (le_iff_rank.mpr ⟨hnumber, hzero, hrank.le⟩)

/-- With at least one round, the schedule takes more room than the rosters. -/
theorem inRange_iff {overflow : Overflow} {draft : DraftOptions} (hrounds : 0 < draft.rounds) :
    draft.InRange overflow ↔ draft.numTeams * draft.rounds * Schedule.turnBytes < signedSize ∧
      (overflow = .stops → ∀ position, position ≠ .flex →
        poolSize draft.requirements draft.numTeams position < UInt64.size) := by
  constructor
  · exact fun h => ⟨h.picks, h.pools⟩
  · rintro ⟨hpicks, hpools⟩
    refine ⟨hpicks, ?_, hpools⟩
    have hteams := Nat.le_mul_of_pos_right draft.numTeams hrounds
    unfold Schedule.turnBytes at hpicks
    unfold DraftState.rosterBytes
    omega

/-- Two teams with the standard requirements are in range for every program. -/
theorem inRange_of_two_teams {overflow : Overflow} {draft : DraftOptions} (hteams : draft.numTeams = 2)
    (hrounds : draft.rounds ≤ 10) (hrequirements : draft.requirements = .standard) : draft.InRange overflow := by
  constructor
  case picks =>
    have hsize : 480 < signedSize := by decide
    rw [hteams]
    unfold Schedule.turnBytes
    omega
  case rosters =>
    rw [hteams]
    decide
  case pools =>
    intro _ position _
    rw [hteams, hrequirements]
    cases position <;> decide

/-- A configuration that is accepted gives settings for searches exactly if its seconds per pick are below two to the
power of 64, and sessions exactly if besides its league is in range: there is room for the schedule, and where products
stop the program, the sizes of all pools fit a word. -/
theorem accepted_is_usable_iff {path text : String} {config : Config} (h : parse path text = .ok config)
    (freshSeed : UInt64) :
    ((Settings.ofOptions? config.search freshSeed).isSome = true ↔
      config.search.secondsPerPick < 18446744073709551616) ∧
    ∀ overflow board draftId, (∃ s, Session.start overflow config board draftId freshSeed = .ok s) ↔
      config.search.secondsPerPick < 18446744073709551616 ∧
      config.draft.numTeams * config.draft.rounds * Schedule.turnBytes < signedSize ∧
      (overflow = .stops → ∀ position, position ≠ .flex →
        poolSize config.draft.requirements config.draft.numTeams position < UInt64.size) := by
  have hnonneg := nonneg_of_isPositive (isPositive_of_parse h)
  have husable : (Settings.ofOptions? config.search freshSeed).isSome = true ↔
      config.search.secondsPerPick < 18446744073709551616 := by
    unfold Settings.ofOptions?
    rw [Option.isSome_map, Duration.isSome_ofSeconds?_iff]
    exact and_iff_right hnonneg
  refine ⟨husable, fun overflow board draftId => ?_⟩
  rw [Session.exists_start_iff, husable, inRange_iff (rounds_pos_of_parse h), and_comm]

/-- A league of the greatest number of teams that can be written down has no room for its schedule. -/
example : ¬ DraftOptions.InRange ⟨9223372036854775807, 1, none, .standard⟩ .wraps :=
  fun h => absurd h.picks (by decide)

/-- The greatest number of seconds that has a duration, in a league of two teams. -/
theorem greatest_seconds_are_usable :
    let text := "[draft]\nnum_teams = 2\n[search]\nseconds_per_pick = 18446744073709549568.0\n" ++
      "[data]\ndraftboard = \"board.csv\"\n"
    ∃ config, parse "draft.toml" text = .ok config ∧
      ∀ freshSeed overflow board draftId, ∃ s, Session.start overflow config board draftId freshSeed = .ok s := by
  intro text
  have hcheck : ((parse "draft.toml" text).toOption.any fun config =>
      config.search.secondsPerPick < 18446744073709551616 ∧ config.draft.numTeams = 2 ∧
      config.draft.rounds = 10 ∧ config.draft.requirements = .standard) = true := by
    decide +kernel
  obtain ⟨config, hparse, hconfig⟩ := (Option.any_eq_true _ _).mp hcheck
  obtain ⟨hseconds, hteams, hrounds, hrequirements⟩ := of_decide_eq_true hconfig
  replace hparse := eq_ok_of_toOption hparse
  have hrange : config.draft.InRange .stops := inRange_of_two_teams hteams hrounds.le hrequirements
  refine ⟨config, hparse, fun freshSeed overflow board draftId => ?_⟩
  refine ((accepted_is_usable_iff hparse freshSeed).2 overflow board draftId).mpr ⟨hseconds, hrange.picks, ?_⟩
  exact fun _ => hrange.pools rfl

/-- A configuration that is accepted and cannot be used: its seconds per pick are a positive number, and too many for
a duration. -/
theorem accepted_without_duration :
    let text := "[draft]\nnum_teams = 2\n[search]\nseconds_per_pick = 1e20\n[data]\ndraftboard = \"board.csv\"\n"
    ∃ config, parse "draft.toml" text = .ok config ∧ ∀ freshSeed,
      Settings.ofOptions? config.search freshSeed = none ∧ ∀ overflow board draftId,
        Session.start overflow config board draftId freshSeed =
          .error (.noDuration config.search.secondsPerPick) := by
  intro text
  have hcheck : ((parse "draft.toml" text).toOption.any fun config =>
      (Duration.ofSeconds? config.search.secondsPerPick).isNone ∧ config.draft.numTeams = 2 ∧
      config.draft.rounds = 10 ∧ config.draft.requirements = .standard) = true := by
    decide +kernel
  obtain ⟨config, hparse, hconfig⟩ := (Option.any_eq_true _ _).mp hcheck
  obtain ⟨hnone, hteams, hrounds, hrequirements⟩ := of_decide_eq_true hconfig
  refine ⟨config, eq_ok_of_toOption hparse, fun freshSeed => ?_⟩
  have hsettings : Settings.ofOptions? config.search freshSeed = none := by
    unfold Settings.ofOptions?
    rw [Option.isNone_iff_eq_none.mp hnone]
    rfl
  refine ⟨hsettings, fun overflow board draftId => ?_⟩
  obtain ⟨prepared, hprepared⟩ : ∃ prepared, Session.prepare overflow config.draft board = .ok prepared :=
    Session.exists_prepare_iff.mpr (inRange_of_two_teams hteams hrounds.le hrequirements)
  unfold Session.start
  rw [hprepared, hsettings]

end SnakeDraft.Config
