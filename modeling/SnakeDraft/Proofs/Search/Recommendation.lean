import SnakeDraft.Config.Load
import SnakeDraft.Proofs.Draft.Recording
import SnakeDraft.Proofs.Search.Iteration
import SnakeDraft.Search.Workers

/-!
What a search recommends. The result of every tree names the turn on the clock and a candidate for it
(`SearchResult.Legal`), and so does what several trees recommend together. Both policies keep to the
candidates, so searches with them never recommend an illegal choice. They fail where the clock cannot tell their
deadline, which accepted configurations do not rule out (`exists_config_beyond_clock`).
-/

namespace SnakeDraft

theorem committed_mem {policy : CommitPolicy} {children : List ChildStats} {child : ChildStats}
    {place : Nat} (h : committed policy children = some (child, place)) : child ∈ children := by
  have hmem := leftmost_mem h
  rw [List.mk_mem_zipIdx_iff_getElem?] at hmem
  exact List.mem_of_getElem? hmem

/-- Among any choices at all, one of them is committed to. -/
theorem exists_commit (policy : CommitPolicy) {children : List ChildStats} (h : children ≠ []) :
    ∃ child ∈ children, commit policy children = some child.choice := by
  unfold commit
  cases hcommitted : committed policy children with
  | none =>
    have hnil := leftmost_eq_none_iff.mp hcommitted
    exact absurd (List.zipIdx_eq_nil_iff.mp hnil) h
  | some best => exact ⟨best.1, committed_mem hcommitted, rfl⟩

/-- A result names the turn on the clock, and nothing but candidates for it. -/
structure SearchResult.Legal (r : SearchResult) (rules : Rules) (state : DraftState) : Prop where
  turn : state.onClock? rules.schedule = some r.turn
  choice : r.choice ∈ state.candidates rules
  children : ∀ child ∈ r.children, child.choice ∈ state.candidates rules

namespace Search

variable {σ : Type} {s : Search σ} {stateAt : Nat → DraftState}

theorem choice_statsOf (s : Search σ) (id : Nat) : (s.statsOf id).choice = s.tree.choiceOf id := by
  unfold statsOf Tree.choiceOf
  cases s.tree.node? id <;> rfl

/-- The choices at an expanded root are the candidates of the draft that is searched. -/
theorem Explores.choices_rootChildren (h : s.Explores stateAt)
    (hroot : s.tree.childrenOf 0 ≠ []) :
    s.rootChildren.map (·.choice) = s.state.candidates s.rules := by
  rw [← h.root, ← h.choices 0 hroot, rootChildren, List.map_map]
  exact List.map_congr_left fun child _ => s.choice_statsOf child

theorem Explores.result_legal (h : s.Explores stateAt) (hroot : s.tree.childrenOf 0 ≠ [])
    (iterations : Nat) : (s.result iterations).Legal s.rules s.state := by
  have hchildren : ∀ child ∈ s.rootChildren, child.choice ∈ s.state.candidates s.rules := by
    intro child hchild
    rw [← h.choices_rootChildren hroot]
    exact List.mem_map_of_mem hchild
  have hne : s.rootChildren ≠ [] := by
    unfold rootChildren
    simpa using hroot
  obtain ⟨best, hbest, hcommit⟩ := exists_commit s.settings.commitPolicy hne
  refine ⟨h.turn, ?_, hchildren⟩
  unfold result
  simp only [hcommit, Option.getD_some]
  exact hchildren best hbest

end Search

theorem searchTree_legal {σ : Type} {rules : Rules} {state : DraftState} {policy : Policy σ}
    (hboard : rules.board.Indexed) (hseats : state.Seats rules.schedule) (hpolicy : policy.Legal)
    (hopen : state.pointer < rules.schedule.size) (settings : Settings) (memory : σ) {timing : Timing}
    (hfits : settings.deadlineFits timing.start = true) :
    ∃ r, searchTree rules state settings policy memory timing = .ok r ∧ r.Legal rules state := by
  have hturn : state.onClock? rules.schedule = some rules.schedule.turns[state.pointer] :=
    Array.getElem?_eq_getElem hopen
  obtain ⟨s, stateAt, hstart, hexplores, hroot, rfl, rfl, -, rfl, rfl⟩ :=
    Search.start_ok hboard hseats hturn settings policy memory
  obtain ⟨t, stateAt', hiterate, ht, hcontinues⟩ := hexplores.iterate hpolicy (s.iterations timing.room)
  have hlegal := ht.result_legal (by rwa [hcontinues.expanded 0 hroot]) (s.iterations timing.room)
  rw [hcontinues.rules, hcontinues.state] at hlegal
  refine ⟨_, ?_, hlegal⟩
  unfold searchTree
  rw [hstart]
  exact Search.run_of_iterate hfits hiterate

/-- A tree is not searched at all when the clock cannot tell its deadline. -/
theorem searchTree_of_deadline {σ : Type} {rules : Rules} {state : DraftState} (policy : Policy σ)
    (hopen : state.pointer < rules.schedule.size) {settings : Settings} (memory : σ) {timing : Timing}
    (hbeyond : settings.deadlineFits timing.start = false) :
    searchTree rules state settings policy memory timing = .error .beyondClock := by
  have hturn : state.onClock? rules.schedule = some rules.schedule.turns[state.pointer] :=
    Array.getElem?_eq_getElem hopen
  unfold searchTree
  rw [Search.start_eq hturn settings policy memory]
  exact Search.run_of_deadline hbeyond

theorem absorb_choice {stats : List ChildStats} {added child : ChildStats}
    (h : child ∈ absorb stats added) :
    child.choice = added.choice ∨ ∃ c ∈ stats, child.choice = c.choice := by
  induction stats with
  | nil =>
    rw [List.mem_singleton.mp h]
    exact .inl rfl
  | cons c cs ih =>
    unfold absorb at h
    split at h
    · rcases List.mem_cons.mp h with rfl | hmem
      · exact .inr ⟨c, List.mem_cons_self, rfl⟩
      · exact .inr ⟨child, List.mem_cons_of_mem c hmem, rfl⟩
    · rcases List.mem_cons.mp h with rfl | hmem
      · exact .inr ⟨child, List.mem_cons_self, rfl⟩
      · rcases ih hmem with hadded | ⟨d, hd, hchoice⟩
        · exact .inl hadded
        · exact .inr ⟨d, List.mem_cons_of_mem c hd, hchoice⟩

namespace SearchResult

variable {rules : Rules} {state : DraftState}

theorem Legal.merge {a b : SearchResult} (ha : a.Legal rules state) (hb : b.Legal rules state) :
    (a.merge b).Legal rules state := by
  have hfold : ∀ (added stats : List ChildStats),
      (∀ c ∈ stats, c.choice ∈ state.candidates rules) →
      (∀ c ∈ added, c.choice ∈ state.candidates rules) →
      ∀ c ∈ added.foldl absorb stats, c.choice ∈ state.candidates rules := by
    intro added
    induction added with
    | nil => exact fun stats hstats _ => hstats
    | cons first added ih =>
      intro stats hstats hadded
      refine ih (absorb stats first) (fun c hc => ?_)
        fun c hc => hadded c (List.mem_cons_of_mem first hc)
      rcases absorb_choice hc with hchoice | ⟨d, hd, hchoice⟩
      · exact hchoice ▸ hadded first List.mem_cons_self
      · exact hchoice ▸ hstats d hd
  exact ⟨ha.turn, ha.choice, hfold b.children a.children ha.children hb.children⟩

theorem Legal.mergeResults {results : List SearchResult} (hne : results ≠ [])
    (h : ∀ r ∈ results, r.Legal rules state) (policy : CommitPolicy) :
    ∃ r, mergeResults policy results = some r ∧ r.Legal rules state := by
  cases results with
  | nil => exact absurd rfl hne
  | cons first others =>
    have hfold : ∀ (others : List SearchResult) (first : SearchResult), first.Legal rules state →
        (∀ r ∈ others, r.Legal rules state) →
        (others.foldl SearchResult.merge first).Legal rules state := by
      intro others
      induction others with
      | nil => exact fun first hfirst _ => hfirst
      | cons next others ih =>
        intro first hfirst hothers
        exact ih (first.merge next) (hfirst.merge (hothers next List.mem_cons_self))
          fun r hr => hothers r (List.mem_cons_of_mem next hr)
    have hmerged := hfold others first (h first List.mem_cons_self)
      fun r hr => h r (List.mem_cons_of_mem first hr)
    refine ⟨_, rfl, hmerged.turn, ?_, hmerged.children⟩
    cases hcommit : commit policy (others.foldl SearchResult.merge first).children with
    | none => exact hmerged.choice
    | some choice =>
      by_cases hnil : (others.foldl SearchResult.merge first).children = []
      · rw [hnil] at hcommit
        cases hcommit
      · obtain ⟨best, hbest, hbest'⟩ := exists_commit policy hnil
        cases hcommit.symm.trans hbest'
        exact hmerged.children best hbest

end SearchResult

/-- Lists agree under two readings when each element of the one has its like. -/
theorem exists_map_eq_map {α β γ : Type} {f : α → γ} {g : β → γ} {P : β → Prop} {xs : List α}
    (h : ∀ x ∈ xs, ∃ y, f x = g y ∧ P y) : ∃ ys : List β, xs.map f = ys.map g ∧ ∀ y ∈ ys, P y := by
  induction xs with
  | nil => exact ⟨[], rfl, by simp⟩
  | cons x xs ih =>
    obtain ⟨hx, hxs⟩ := List.forall_mem_cons.mp h
    obtain ⟨y, hy, hPy⟩ := hx
    obtain ⟨ys, hys, hPys⟩ := ih hxs
    exact ⟨y :: ys, congrArg₂ List.cons hy hys, List.forall_mem_cons.mpr ⟨hPy, hPys⟩⟩

theorem exists_map_range_eq_map {β γ : Type} {f : Nat → γ} {g : β → γ} {P : β → Prop} {n : Nat}
    (h : ∀ i < n, ∃ y, f i = g y ∧ P y) :
    ∃ ys : List β, (List.range n).map f = ys.map g ∧ ys.length = n ∧ ∀ y ∈ ys, P y := by
  obtain ⟨ys, hys, hall⟩ := exists_map_eq_map fun i hi => h i (List.mem_range.mp hi)
  have hlength := congrArg List.length hys
  rw [List.length_map, List.length_map, List.length_range] at hlength
  exact ⟨ys, hys, hlength.symm, hall⟩

/-- Searches that all succeed are collected. -/
theorem collectResults_map_ok (results : List SearchResult) :
    collectResults (results.map .ok) = .ok results := by
  induction results with
  | nil => rfl
  | cons r results ih =>
    rw [List.map_cons, collectResults, ih]
    rfl

/-- Where some searches fail in the same way and all others succeed, the collection fails in that way. -/
theorem collectResults_of_error {outcomes : List (Except SearchError SearchResult)} {e : SearchError}
    (hmem : .error e ∈ outcomes) (hall : ∀ outcome ∈ outcomes, (∃ r, outcome = .ok r) ∨ outcome = .error e) :
    collectResults outcomes = .error e := by
  induction outcomes with
  | nil => cases hmem
  | cons first outcomes ih =>
    obtain ⟨hfirst, hrest⟩ := List.forall_mem_cons.mp hall
    rcases hfirst with ⟨r, rfl⟩ | rfl
    · have hlater : .error e ∈ outcomes := by simpa using hmem
      rw [collectResults, ih hlater hrest]
      rfl
    · rfl

theorem search_legal {σ : Type} {rules : Rules} {state : DraftState} {policy : Policy σ}
    (hboard : rules.board.Indexed) (hseats : state.Seats rules.schedule) (hpolicy : policy.Legal)
    (hopen : state.pointer < rules.schedule.size) {settings : Settings} (memoryOf : UInt64 → σ)
    {clock : Clock} (hclock : clock.Fits settings) :
    ∃ r, search rules state settings policy memoryOf clock = .ok r ∧ r.Legal rules state := by
  unfold search
  simp only
  split
  · exact searchTree_legal hboard hseats hpolicy hopen settings _ (hclock.first)
  · next hworkers =>
    have htree : ∀ worker ∈ List.range settings.workers, ∃ r, searchTree rules state settings policy
        (memoryOf (settings.seed + worker.toUInt64)) (clock.timingIn worker) = .ok r ∧ r.Legal rules state :=
      fun worker hworker => searchTree_legal hboard hseats hpolicy hopen settings _
        (hclock.tree (List.mem_range.mp hworker))
    obtain ⟨rs, hrs, hlegal⟩ := exists_map_eq_map htree
    have hne : rs ≠ [] := by
      rintro rfl
      rw [List.map_nil, List.map_eq_nil_iff, List.range_eq_nil] at hrs
      omega
    obtain ⟨r, hmerge, hr⟩ := SearchResult.Legal.mergeResults hne hlegal settings.commitPolicy
    simp only [hrs, collectResults_map_ok, hmerge]
    exact ⟨r, rfl, hr⟩

/-- A search fails as a whole when the clock cannot tell the deadline of one of its trees. -/
theorem search_of_deadline {σ : Type} {rules : Rules} {state : DraftState} {policy : Policy σ}
    (hboard : rules.board.Indexed) (hseats : state.Seats rules.schedule) (hpolicy : policy.Legal)
    (hopen : state.pointer < rules.schedule.size) {settings : Settings} (memoryOf : UInt64 → σ)
    {clock : Clock} (hclock : ¬ clock.Fits settings) :
    search rules state settings policy memoryOf clock = .error .beyondClock := by
  obtain ⟨tree, htree, hbeyond⟩ := Clock.exists_of_not_fits hclock
  unfold search
  simp only
  split
  · next hworkers =>
    obtain rfl : tree = 0 := by omega
    exact searchTree_of_deadline policy hopen _ hbeyond
  · next hworkers =>
    rw [Nat.max_eq_left (by omega)] at htree
    rw [collectResults_of_error (e := .beyondClock)]
    · exact List.mem_map.mpr ⟨tree, List.mem_range.mpr htree, searchTree_of_deadline policy hopen _ hbeyond⟩
    · intro outcome houtcome
      obtain ⟨worker, -, rfl⟩ := List.mem_map.mp houtcome
      cases hfits : settings.deadlineFits (clock.timingIn worker).start with
      | false => exact .inr (searchTree_of_deadline policy hopen _ hfits)
      | true =>
        obtain ⟨r, hr, -⟩ := searchTree_legal hboard hseats hpolicy hopen settings
          (memoryOf (settings.seed + worker.toUInt64)) hfits
        exact .inl ⟨r, hr⟩

theorem searchTree_of_complete {σ : Type} {rules : Rules} {state : DraftState}
    (hcomplete : rules.schedule.size ≤ state.pointer) (settings : Settings) (policy : Policy σ)
    (memory : σ) (timing : Timing) :
    searchTree rules state settings policy memory timing = .error .draftComplete := by
  have hturn : state.onClock? rules.schedule = none := Array.getElem?_eq_none hcomplete
  unfold searchTree Search.start
  rw [hturn]

theorem search_of_complete {σ : Type} {rules : Rules} {state : DraftState}
    (hcomplete : rules.schedule.size ≤ state.pointer) (settings : Settings) (policy : Policy σ)
    (memoryOf : UInt64 → σ) (clock : Clock) :
    search rules state settings policy memoryOf clock = .error .draftComplete := by
  unfold search
  simp only [searchTree_of_complete hcomplete]
  split
  · rfl
  · next hworkers =>
    obtain ⟨k, hk⟩ : ∃ k, settings.workers = k + 1 := ⟨settings.workers - 1, by omega⟩
    rw [hk, List.range_succ_eq_map]
    rfl

namespace Policy

theorem uniform_legal : uniform.Legal := by
  intro generator state candidates hne
  have hlt := generator.index_lt (List.length_pos_iff.mpr hne)
  show candidates.getD (generator.index candidates.length).1 .pass ∈ candidates
  rw [List.getD_eq_getElem?_getD, List.getElem?_eq_getElem hlt, Option.getD_some]
  exact List.getElem_mem hlt

theorem greedy_legal (σ : Type) (scores : Array Float) : (greedy σ scores).Legal := by
  intro memory state candidates hne
  show (greedyChoice scores candidates).getD .pass ∈ candidates
  cases hchoice : greedyChoice scores candidates with
  | none => exact absurd (leftmost_eq_none_iff.mp hchoice) hne
  | some choice => exact leftmost_mem hchoice

theorem ofKind_legal (scores : Array Float) (kind : RolloutKind) : (ofKind scores kind).Legal := by
  cases kind with
  | uniform => exact uniform_legal
  | zscore => exact greedy_legal _ scores

end Policy

/-- What a search returns: that the draft is complete when no turn is left, and otherwise a choice that the team on
the clock can make, unless there is a deadline that the clock cannot tell. -/
structure Recommends (rules : Rules) (state : DraftState) (inTime : Prop)
    (outcome : Except SearchError SearchResult) : Prop where
  complete : outcome = .error .draftComplete ↔ rules.schedule.size ≤ state.pointer
  choice : state.pointer < rules.schedule.size → inTime → ∃ r pick next, outcome = .ok r ∧
    rules.schedule.turn? state.pointer = some r.turn ∧ r.choice ∈ state.candidates rules ∧
    state.apply rules r.choice = .ok (pick, next)
  beyond : state.pointer < rules.schedule.size → ¬ inTime → outcome = .error .beyondClock

theorem Recommends.of_legal {rules : Rules} {state : DraftState} {inTime : Prop}
    {outcome : Except SearchError SearchResult} (hboard : rules.board.Indexed)
    (hseats : state.Seats rules.schedule)
    (hcomplete : rules.schedule.size ≤ state.pointer → outcome = .error .draftComplete)
    (hlegal : state.pointer < rules.schedule.size → inTime → ∃ r, outcome = .ok r ∧ r.Legal rules state)
    (hbeyond : state.pointer < rules.schedule.size → ¬ inTime → outcome = .error .beyondClock) :
    Recommends rules state inTime outcome := by
  constructor
  case complete =>
    refine ⟨fun herror => ?_, hcomplete⟩
    by_contra hopen
    by_cases htime : inTime
    · obtain ⟨r, hok, -⟩ := hlegal (Nat.lt_of_not_le hopen) htime
      cases herror.symm.trans hok
    · cases herror.symm.trans (hbeyond (Nat.lt_of_not_le hopen) htime)
  case choice =>
    intro hopen htime
    obtain ⟨r, hok, hr⟩ := hlegal hopen htime
    obtain ⟨pick, next, happly⟩ := DraftState.apply_of_mem_candidates hboard hseats hr.choice
    exact ⟨r, pick, next, hok, hr.turn, hr.choice, happly⟩
  case beyond => exact hbeyond

theorem exists_board_of_two_players :
    ∃ board, Board.ofRows [⟨2, "QB A", "QB", "10"⟩, ⟨3, "RB B", "RB", "8"⟩] = .ok board := by
  have hok : (Board.ofRows [⟨2, "QB A", "QB", "10"⟩, ⟨3, "RB B", "RB", "8"⟩]).toOption.isSome := by
    decide +kernel
  obtain ⟨board, hboard⟩ := Option.isSome_iff_exists.mp hok
  exact ⟨board, eq_ok_of_toOption hboard⟩

/-- A search never recommends an illegal choice, whatever its settings and however many iterations there is time for,
as long as its policy keeps to the candidates, as both kinds of policy do. Where a turn is left it fails exactly if the
clock cannot tell the deadline of one of its trees, also when it would have made its iterations long before that. -/
theorem search_recommends_legal_choice {rows : List Row} {board : Board}
    (hboard : Board.ofRows rows = .ok board) (schedule : Schedule) (requirements : Requirements)
    {state : DraftState} (hseats : state.Seats schedule) {σ : Type} {policy : Policy σ}
    (hpolicy : policy.Legal) (settings : Settings) :
    (∀ memory timing, Recommends ⟨board, schedule, requirements⟩ state
      (settings.deadlineFits timing.start = true)
      (searchTree ⟨board, schedule, requirements⟩ state settings policy memory timing)) ∧
    (∀ memoryOf clock, Recommends ⟨board, schedule, requirements⟩ state (clock.Fits settings)
      (search ⟨board, schedule, requirements⟩ state settings policy memoryOf clock)) ∧
    ∀ scores kind, (Policy.ofKind scores kind).Legal := by
  have hindexed : Board.Indexed (Rules.mk board schedule requirements).board :=
    Board.indexed_of_ofRows hboard
  refine ⟨fun memory timing => ?_, fun memoryOf clock => ?_, Policy.ofKind_legal⟩
  · exact .of_legal hindexed hseats
      (fun hcomplete => searchTree_of_complete hcomplete settings policy memory timing)
      (fun hopen hfits => searchTree_legal hindexed hseats hpolicy hopen settings memory hfits)
      (fun hopen hbeyond => searchTree_of_deadline policy hopen memory (Bool.not_eq_true _ ▸ hbeyond))
  · exact .of_legal hindexed hseats
      (fun hcomplete => search_of_complete hcomplete settings policy memoryOf clock)
      (fun hopen hclock => search_legal hindexed hseats hpolicy hopen memoryOf hclock)
      (fun hopen hclock => search_of_deadline hindexed hseats hpolicy hopen memoryOf hclock)

theorem search_recommends_for_two_teams :
    ∃ board, Board.ofRows [⟨2, "QB A", "QB", "10"⟩, ⟨3, "RB B", "RB", "8"⟩] = .ok board ∧
      (DraftState.start 2 board.size).Seats (.snake 2 3) ∧ Policy.uniform.Legal ∧
      Recommends ⟨board, .snake 2 3, .standard⟩ (.start 2 board.size)
        (Clock.Fits (100 : Nat) (Settings.small.withWorkers 3))
        (search ⟨board, .snake 2 3, .standard⟩ (.start 2 board.size) (Settings.small.withWorkers 3) .uniform
          Random.Generator.ofSeed (100 : Nat)) := by
  obtain ⟨board, hboard⟩ := exists_board_of_two_players
  have hseats : (DraftState.start 2 board.size).Seats (.snake 2 3) := by
    show ∀ turn ∈ (Schedule.snake 2 3).turns, turn.team < 2
    decide
  have hsearch := search_recommends_legal_choice hboard (.snake 2 3) .standard hseats
    Policy.uniform_legal (Settings.small.withWorkers 3)
  exact ⟨board, hboard, hseats, Policy.uniform_legal, hsearch.2.1 _ _⟩

/-- A configuration that is accepted, with searches of one iteration and a deadline that no clock can tell. -/
theorem exists_config_beyond_clock :
    let text := "[draft]\nnum_teams = 2\nrounds = 2\n[search]\nseconds_per_pick = 1e19\nmax_iterations = 1\n" ++
      "[data]\ndraftboard = \"board.csv\"\n"
    ∃ config, Config.parse "draft.toml" text = .ok config ∧ config.draft.numTeams = 2 ∧ config.draft.rounds = 2 ∧
      config.draft.requirements = .standard ∧
      ∀ freshSeed, ∃ settings, Settings.ofOptions? config.search freshSeed = some settings ∧
        settings.maxIterations = some 1 ∧ ∀ start, settings.deadlineFits start = false := by
  intro text
  have hcheck : ((Config.parse "draft.toml" text).toOption.any fun config =>
      config.draft.numTeams = 2 ∧ config.draft.rounds = 2 ∧ config.draft.requirements = .standard ∧
      config.search.maxIterations = some 1 ∧
      (Duration.ofSeconds? config.search.secondsPerPick).any fun budget =>
        signedSize * Duration.perSecond ≤ budget.nanoseconds) = true := by
    decide +kernel
  obtain ⟨config, hparse, hconfig⟩ := (Option.any_eq_true _ _).mp hcheck
  obtain ⟨hteams, hrounds, hrequirements, hiterations, hseconds⟩ := of_decide_eq_true hconfig
  obtain ⟨budget, hbudget, hlong⟩ := (Option.any_eq_true _ _).mp hseconds
  replace hlong := of_decide_eq_true hlong
  refine ⟨config, eq_ok_of_toOption hparse, hteams, hrounds, hrequirements, fun freshSeed => ?_⟩
  unfold Settings.ofOptions?
  rw [hbudget]
  refine ⟨_, rfl, hiterations, fun start => ?_⟩
  rw [Settings.deadlineFits_of_timeLimit rfl]
  exact decide_eq_false (by omega)

/-- A search of one iteration that fails at its start, although a turn is left and its settings are those of a
configuration that is accepted. -/
theorem accepted_search_without_result :
    let text := "[draft]\nnum_teams = 2\nrounds = 2\n[search]\nseconds_per_pick = 1e19\nmax_iterations = 1\n" ++
      "[data]\ndraftboard = \"board.csv\"\n"
    ∃ config settings board, Config.parse "draft.toml" text = .ok config ∧
      Settings.ofOptions? config.search 7 = some settings ∧ settings.maxIterations = some 1 ∧
      Board.ofRows [⟨2, "QB A", "QB", "10"⟩, ⟨3, "RB B", "RB", "8"⟩] = .ok board ∧
      let rules : Rules := ⟨board, .snake config.draft.numTeams config.draft.rounds, config.draft.requirements⟩
      let state := DraftState.start config.draft.numTeams board.size
      state.Seats rules.schedule ∧ state.pointer < rules.schedule.size ∧
      (∀ timing, searchTree rules state settings .uniform (.ofSeed 7) timing = .error .beyondClock) ∧
      ∀ clock, search rules state settings .uniform Random.Generator.ofSeed clock = .error .beyondClock := by
  intro text
  obtain ⟨config, hparse, hteams, hrounds, hrequirements, hsettings⟩ := exists_config_beyond_clock
  obtain ⟨settings, hsettings, hiterations, hbeyond⟩ := hsettings 7
  obtain ⟨board, hboard⟩ := exists_board_of_two_players
  have hseats : (DraftState.start 2 board.size).Seats (.snake 2 2) := by
    show ∀ turn ∈ (Schedule.snake 2 2).turns, turn.team < 2
    decide
  have hopen : (DraftState.start 2 board.size).pointer < (Schedule.snake 2 2).size := by
    rw [DraftState.pointer_start, Schedule.size_snake]
    decide
  have hindexed : (Rules.mk board (.snake 2 2) .standard).board.Indexed := Board.indexed_of_ofRows hboard
  refine ⟨config, settings, board, hparse, hsettings, hiterations, hboard, ?_⟩
  rw [hteams, hrounds, hrequirements]
  refine ⟨hseats, hopen, fun timing => ?_, fun clock => ?_⟩
  · exact searchTree_of_deadline .uniform hopen _ (hbeyond timing.start)
  · exact search_of_deadline hindexed hseats Policy.uniform_legal hopen _
      fun hclock => Bool.false_ne_true ((hbeyond _).symm.trans hclock.first)

end SnakeDraft
