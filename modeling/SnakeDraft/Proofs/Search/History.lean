import SnakeDraft.Proofs.Draft.Standing
import SnakeDraft.Proofs.Search.Iteration
import SnakeDraft.Search.Workers

/-!
A search and the history of its draft. The candidates of a team, the points of a choice and the end of a playout
depend on where the draft stands only, so a search from another state that stands alike is the same search rooted
in that state, after any number of iterations (`Search.iterate_withState`), and what it recommends does not depend
on how the draft got there (`search_congr`).
-/

namespace SnakeDraft

/-- Outcomes that are seen alike are the same error, or results that are seen alike. -/
theorem map_eq_map_cases {ε α β γ : Type} {f : α → γ} {g : β → γ} {x : Except ε α} {y : Except ε β}
    (h : x.map f = y.map g) :
    (∃ e, x = .error e ∧ y = .error e) ∨ ∃ a b, x = .ok a ∧ y = .ok b ∧ f a = g b := by
  cases x <;> cases y <;> simp_all [Except.map]

namespace DraftState

variable {s t : DraftState}

theorem candidates_congr (h : s.standing = t.standing) (rules : Rules) :
    s.candidates rules = t.candidates rules := by
  have hbest : ∀ roster, s.bestForNeeds rules roster = t.bestForNeeds rules roster := by
    intro roster
    have hbest := funext (rules.board.bestAvailable?_congr (taken_congr h))
    rw [bestForNeeds, bestForNeeds, hbest]
  unfold candidates
  rw [onClock?_congr h]
  simp only [roster?_congr h, hbest]

/-- A choice earns the same points where the draft stands alike. -/
theorem advance_congr (h : s.standing = t.standing) (rules : Rules) (target : Nat) (choice : Choice) :
    seen (s.advance rules target choice) = seen (t.advance rules target choice) := by
  unfold advance
  rcases map_eq_map_cases (apply_congr h rules choice) with ⟨e, hs, ht⟩ | ⟨a, b, hs, ht, hab⟩
  · rw [hs, ht]
  · rw [hs, ht]
    obtain ⟨hpick, hnext⟩ := Prod.mk.inj hab
    simp only [seen, Except.map, hpick, hnext]

end DraftState

/-- Whether a policy looks only at where a draft stands, and not at the picks that led there. -/
def Policy.Forgetful {σ : Type} (policy : Policy σ) : Prop :=
  ∀ (memory : σ) (s t : DraftState) (candidates : List Choice), s.standing = t.standing →
    policy.choose memory s candidates = policy.choose memory t candidates

theorem Policy.ofKind_forgetful (scores : Array Float) (kind : RolloutKind) :
    (ofKind scores kind).Forgetful := by
  intro memory s t candidates _
  cases kind <;> rfl

variable {σ : Type}

/-- A playout earns the same from states that stand alike. -/
theorem rollout_congr {policy : Policy σ} (hpolicy : policy.Forgetful) (rules : Rules) (target : Nat)
    {s t : DraftState} (h : s.standing = t.standing) (accrued : Float) (memory : σ) :
    rollout policy rules target s accrued memory = rollout policy rules target t accrued memory := by
  fun_induction rollout policy rules target s accrued memory generalizing t with
  | case1 s accrued memory hnone =>
    rw [DraftState.candidates_congr h] at hnone
    exact (rollout_of_complete hnone accrued).symm
  | case2 s accrued memory c cs hcs choice after hchoose e hadvance =>
    have hseen := DraftState.advance_congr h rules target choice
    rw [hadvance] at hseen
    rw [DraftState.candidates_congr h] at hcs
    rw [hpolicy memory s t _ h] at hchoose
    rcases map_eq_map_cases hseen with ⟨e', he, ht⟩ | ⟨a, b, hs, -⟩
    · cases he
      exact (rollout_of_error hcs hchoose ht accrued).symm
    · cases hs
  | case3 s accrued memory c cs hcs choice after hchoose points next hadvance ih =>
    have hseen := DraftState.advance_congr h rules target choice
    rw [hadvance] at hseen
    rw [DraftState.candidates_congr h] at hcs
    rw [hpolicy memory s t _ h] at hchoose
    rcases map_eq_map_cases hseen with ⟨e', he, -⟩ | ⟨a, ⟨points', next'⟩, hs, ht, hab⟩
    · cases he
    · cases hs
      obtain ⟨rfl, hnext⟩ := Prod.mk.inj hab
      rw [rollout_of_advance hcs hchoose ht]
      exact ih hnext

namespace Search

/-- What is seen of a descent: the node, where the draft at it stands, and the points on the way. -/
def Descent.seen (d : Descent) : Nat × Standing × Float :=
  (d.node, d.state.standing, d.accrued)

theorem Descent.seen_eq_iff {d e : Descent} : d.seen = e.seen ↔
    d.node = e.node ∧ d.state.standing = e.state.standing ∧ d.accrued = e.accrued := by
  simp [Descent.seen]

/-- The search with another draft at the root. -/
def withState (s : Search σ) (state : DraftState) : Search σ :=
  { s with state }

variable {s : Search σ} {v : DraftState} {d e : Descent}

theorem step_congr (h : d.seen = e.seen) (child : Nat) :
    (s.step d child).map Descent.seen = (s.step e child).map Descent.seen := by
  obtain ⟨-, hstanding, haccrued⟩ := Descent.seen_eq_iff.mp h
  have hadvance := DraftState.advance_congr hstanding s.rules s.turn.team (s.tree.choiceOf child)
  unfold step
  rcases map_eq_map_cases hadvance with ⟨e, hd, he⟩ | ⟨a, b, hd, he, hab⟩
  · rw [hd, he]
    rfl
  · rw [hd, he]
    obtain ⟨hpoints, hnext⟩ := Prod.mk.inj hab
    simp only [Except.map, Descent.seen, hpoints, hnext, haccrued]

/-- A descent goes the same way from drafts that stand alike, whatever draft is at the root. -/
theorem descend_congr (h : d.seen = e.seen) :
    ((s.withState v).descend d).map Descent.seen = (s.descend e).map Descent.seen := by
  -- the tree selects the children, so the descent from `d` follows the one from `e` step by step
  fun_induction s.descend e generalizing d with
  | case1 e hselect =>
    rw [← (Descent.seen_eq_iff.mp h).1] at hselect
    rw [descend_of_leaf (s := s.withState v) hselect]
    exact congrArg Except.ok h
  | case2 e child hselect error hstep =>
    have hsame := step_congr (s := s) h child
    rw [← (Descent.seen_eq_iff.mp h).1] at hselect
    rw [hstep] at hsame
    rcases map_eq_map_cases hsame with ⟨error', hd, he⟩ | ⟨a, b, -, he, -⟩
    · cases he
      rw [descend_of_error (s := s.withState v) hselect hd]
    · cases he
  | case3 e child hselect next hstep ih =>
    have hsame := step_congr (s := s) h child
    rw [← (Descent.seen_eq_iff.mp h).1] at hselect
    rw [hstep] at hsame
    rcases map_eq_map_cases hsame with ⟨error', -, he⟩ | ⟨a, b, hd, he, hab⟩
    · cases he
    · cases he
      rw [descend_of_step (s := s.withState v) hselect hd]
      exact ih hab

theorem expand_withState (node : Nat) (h : d.state.standing = e.state.standing) :
    (s.withState v).expand node d.state =
      ((s.expand node e.state).1, (s.expand node e.state).2.withState v) := by
  unfold Search.expand Tree.expand
  simp only [withState, DraftState.candidates_congr h]

theorem grow_congr (h : d.seen = e.seen) :
    ((s.withState v).grow d).map (fun (d, t) => (d.seen, t)) =
      (s.grow e).map (fun (e, t) => (e.seen, t.withState v)) := by
  obtain ⟨hnode, hstanding, -⟩ := Descent.seen_eq_iff.mp h
  unfold grow
  rw [expand_withState _ hstanding, hnode]
  obtain ⟨expansion, t⟩ := s.expand e.node e.state
  cases expansion with
  | alreadyExpanded => exact congrArg (fun seen => Except.ok (seen, t.withState v)) h
  | terminal => exact congrArg (fun seen => Except.ok (seen, t.withState v)) h
  | expanded choices =>
    simp only [withState]
    cases t.tree.selectChild e.node t.settings.exploration with
    | none => exact congrArg (fun seen => Except.ok (seen, t.withState v)) h
    | some child =>
      show ((t.step d child).map fun d => (d, t.withState v)).map _ =
        ((t.step e child).map fun e => (e, t)).map _
      rcases map_eq_map_cases (step_congr (s := t) h child) with ⟨error, hd, he⟩ | ⟨a, b, hd, he, hab⟩
      · rw [hd, he]
        rfl
      · rw [hd, he]
        exact congrArg (fun seen => Except.ok (seen, t.withState v)) hab

/-- One iteration's playout goes the same way from a draft at the root that stands alike. -/
theorem playout_withState (hpolicy : s.policy.Forgetful) (h : s.state.standing = v.standing) :
    (s.withState v).playout =
      s.playout.map fun (leaf, reward, t) => (leaf, reward, t.withState v) := by
  have hroot : Descent.seen ⟨0, v, 0⟩ = Descent.seen ⟨0, s.state, 0⟩ :=
    Descent.seen_eq_iff.mpr ⟨rfl, h.symm, rfl⟩
  have hdescend := descend_congr (s := s) (v := v) hroot
  unfold playout
  rcases map_eq_map_cases hdescend with ⟨error, hd, he⟩ | ⟨d, e, hd, he, hde⟩
  · rw [he]
    simp only [withState] at hd ⊢
    rw [hd]
    rfl
  · have hgrow := grow_congr (s := s) (v := v) hde
    rw [he]
    simp only [withState] at hd hgrow ⊢
    rw [hd]
    rcases map_eq_map_cases hgrow with ⟨error, hd', he'⟩ | ⟨⟨d', t'⟩, ⟨e', t⟩, hd', he', hde'⟩
    · simp only [hd', he']
      rfl
    · obtain ⟨hseen, rfl⟩ := Prod.mk.inj hde'
      obtain ⟨hnode, hstanding, haccrued⟩ := (Descent.seen_eq_iff (d := d') (e := e')).mp hseen
      obtain ⟨tree, passThroughs, rfl⟩ := fixed_of_grow he'
      have hrollout := rollout_congr hpolicy s.rules s.turn.team hstanding e'.accrued s.memory
      simp only [hd', he', hrollout, haccrued, hnode]
      rcases rollout s.policy s.rules s.turn.team e'.state e'.accrued s.memory with ⟨_ | _, _⟩ <;> rfl

theorem simulate_withState (hpolicy : s.policy.Forgetful) (h : s.state.standing = v.standing) :
    (s.withState v).simulate = s.simulate.map (·.withState v) := by
  unfold simulate
  rw [playout_withState hpolicy h]
  cases s.playout <;> rfl

/-- A search from a draft that stands alike is the same search, after any number of iterations. -/
theorem iterate_withState (n : Nat) (hpolicy : s.policy.Forgetful)
    (h : s.state.standing = v.standing) :
    iterate n (s.withState v) = (iterate n s).map (·.withState v) := by
  induction n generalizing s with
  | zero => rfl
  | succ n ih =>
    unfold iterate
    rw [simulate_withState hpolicy h]
    cases hsimulate : s.simulate with
    | error error => rfl
    | ok next =>
      obtain ⟨tree, passThroughs, memory, rfl⟩ := fixed_of_simulate hsimulate
      exact ih hpolicy h

theorem start_congr {t : DraftState} (h : v.standing = t.standing) (rules : Rules)
    (settings : Settings) (policy : Policy σ) (memory : σ) :
    start rules t settings policy memory = (start rules v settings policy memory).map (·.withState t) := by
  unfold start
  rw [DraftState.onClock?_congr h]
  cases t.onClock? rules.schedule with
  | none => rfl
  | some turn =>
    have hroot := expand_withState (s := ⟨rules, v, turn, settings, policy, memory, .singleton, 0⟩)
      (v := t) (d := ⟨0, t, 0⟩) (e := ⟨0, v, 0⟩) 0 h.symm
    exact congrArg Except.ok (congrArg Prod.snd hroot)

theorem run_withState (hpolicy : s.policy.Forgetful) (h : s.state.standing = v.standing) (timing : Timing) :
    (s.withState v).run timing = s.run timing := by
  cases hfits : s.settings.deadlineFits timing.start with
  | false => rw [run_of_deadline hfits, run_of_deadline (s := s.withState v) hfits]
  | true =>
    have hsame := iterate_withState (s.iterations timing.room) hpolicy h
    unfold run
    rw [if_pos hfits, if_pos (show (s.withState v).settings.deadlineFits timing.start = true from hfits),
      show (s.withState v).iterations timing.room = s.iterations timing.room from rfl, hsame]
    cases iterate (s.iterations timing.room) s <;> rfl

/-- The clock matters to a run by its deadline and its iterations. -/
theorem run_congr {timing other : Timing}
    (hfits : s.settings.deadlineFits timing.start = s.settings.deadlineFits other.start)
    (hiterations : s.settings.iterations timing.room = s.settings.iterations other.room) :
    s.run timing = s.run other := by
  unfold run iterations
  rw [hfits, hiterations]

end Search

/-- A tree is searched alike from drafts that stand alike, when there is time for as many iterations. -/
theorem searchTree_congr {policy : Policy σ} (hpolicy : policy.Forgetful) {s t : DraftState}
    (h : s.standing = t.standing) {settings : Settings} {timing other : Timing}
    (hfits : settings.deadlineFits timing.start = settings.deadlineFits other.start)
    (hiterations : settings.iterations timing.room = settings.iterations other.room) (rules : Rules) (memory : σ) :
    searchTree rules s settings policy memory timing = searchTree rules t settings policy memory other := by
  unfold searchTree
  rw [Search.start_congr h]
  cases hstart : Search.start rules s settings policy memory with
  | error error => rfl
  | ok search =>
    obtain ⟨turn, -, rfl⟩ := Search.of_start hstart
    exact (Search.run_congr hfits hiterations).trans (Search.run_withState hpolicy h other).symm

theorem search_congr {policy : Policy σ} (hpolicy : policy.Forgetful) {s t : DraftState}
    (h : s.standing = t.standing) {settings : Settings} {clock later : Clock}
    (hdeadlines : ∀ worker, settings.deadlineFits (clock.timingIn worker).start =
      settings.deadlineFits (later.timingIn worker).start)
    (hrooms : ∀ worker, settings.iterations (clock.roomIn worker) = settings.iterations (later.roomIn worker))
    (rules : Rules) (memoryOf : UInt64 → σ) :
    search rules s settings policy memoryOf clock = search rules t settings policy memoryOf later := by
  have htree : ∀ (memory : σ) (worker : Nat),
      searchTree rules s settings policy memory (clock.timingIn worker) =
        searchTree rules t settings policy memory (later.timingIn worker) :=
    fun memory worker => searchTree_congr hpolicy h (hdeadlines worker) (hrooms worker) rules memory
  unfold search
  simp only [htree]

/-- A search that is bounded by its iterations recommends the same for two drafts with as many picks, the same
rosters and the same players off the board, or fails with the same error, whatever picks led there, whenever it is
made and whatever time there was beyond what the iterations need. Where there is a time budget too, its end is one
that the clock can tell at both times or at none. -/
theorem search_ignores_history {s t : DraftState} (hpointer : s.pointer = t.pointer)
    (hrosters : s.rosters = t.rosters) (htaken : ∀ id, s.taken.contains id = t.taken.contains id)
    {settings : Settings} {limit : Nat} (hlimit : settings.maxIterations = some limit)
    {clock later : Clock} (hclock : ∀ worker, limit ≤ clock.roomIn worker)
    (hlater : ∀ worker, limit ≤ later.roomIn worker)
    (hdeadlines : ∀ worker, settings.deadlineFits (clock.timingIn worker).start =
      settings.deadlineFits (later.timingIn worker).start) (rules : Rules) (scores : Array Float)
    (kind : RolloutKind) :
    search rules s settings (Policy.ofKind scores kind) .ofSeed clock =
      search rules t settings (Policy.ofKind scores kind) .ofSeed later := by
  have hstanding := DraftState.standing_eq hpointer hrosters htaken
  refine search_congr (Policy.ofKind_forgetful scores kind) hstanding hdeadlines (fun worker => ?_) rules .ofSeed
  rw [Settings.iterations_eq hlimit (hclock worker), Settings.iterations_eq hlimit (hlater worker)]

/-- A player drafted before another leaves the board, and after. -/
theorem search_ignores_history_of_two_picks :
    let board := Board.ofPlayers #[⟨"QB A", .quarterback, 10, 1⟩, ⟨"RB B", .runningBack, 8, 2⟩,
      ⟨"WR C", .wideReceiver, 7, 3⟩]
    let rules : Rules := ⟨board, .snake 2 3, .standard⟩
    let s := ((DraftState.start 2 board.size).recordAll rules
      [⟨⟨0, 0, 1⟩, .drafted 0, none⟩, ⟨⟨1, 1, 1⟩, .benched 1, none⟩]).2
    let t := ((DraftState.start 2 board.size).recordAll rules
      [⟨⟨0, 0, 1⟩, .benched 1, none⟩, ⟨⟨1, 0, 2⟩, .drafted 0, none⟩]).2
    s.picks ≠ t.picks ∧ s.pointer = 2 ∧
      search rules s (Settings.small.withWorkers 2) (Policy.ofKind #[] .uniform) .ofSeed (500 : Nat) =
        search rules t (Settings.small.withWorkers 2) (Policy.ofKind #[] .uniform) .ofSeed (900 : Nat) := by
  intro board rules s t
  have hpointer : s.pointer = t.pointer := by decide
  have hrosters : s.rosters = t.rosters := by decide
  have htaken : s.taken = t.taken := by decide
  have hclock : ∀ worker, 500 ≤ Clock.roomIn (500 : Nat) worker := fun _ => Nat.le_refl 500
  have hlater : ∀ worker, 500 ≤ Clock.roomIn (900 : Nat) worker := fun _ => Nat.le_add_right 500 400
  refine ⟨by decide, by decide, ?_⟩
  exact search_ignores_history hpointer hrosters (fun id => by rw [htaken]) rfl hclock hlater (fun _ => rfl)
    rules #[] .uniform

end SnakeDraft
