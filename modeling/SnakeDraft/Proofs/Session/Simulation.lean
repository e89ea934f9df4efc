import SnakeDraft.Proofs.Board.Names
import SnakeDraft.Proofs.Config.Usability
import SnakeDraft.Proofs.Draft.Coherence
import SnakeDraft.Proofs.Search.Candidates
import SnakeDraft.Proofs.Search.Recommendation
import SnakeDraft.Proofs.Session.Reached

/-!
Drafts that are simulated to their end. An automatic pick that is in time never fails while a pick is on the clock,
because a search recommends a candidate (`Session.Sound.autoPick`), and it makes the picks that are left one fewer.
The rest of the draft is an induction over these (`Session.Sound.simulateDraft`), up to the first pick that is not in
time if there is one (`Session.Sound.simulateDraft_of_late`).
-/

namespace SnakeDraft.Session

/-- The session after a number of automatic picks, each with the clock at that pick. -/
def afterAutoPicks (s : Session) (clockAt : Nat → Clock) : Nat → Session
  | 0 => s
  | n + 1 => (s.autoPick (clockAt s.state.pointer)).2.afterAutoPicks clockAt n

/-- Whether a pick is in time: the clock at it can tell the deadlines of its search. -/
def InTime (s : Session) (clockAt : Nat → Clock) (number : Nat) : Prop :=
  (clockAt number).Fits s.settings

/-- Whether all picks that are left are in time. -/
def AllInTime (s : Session) (clockAt : Nat → Clock) : Prop :=
  ∀ number, s.state.pointer ≤ number → number < s.schedule.size → s.InTime clockAt number

/-- Whether nobody who is left on the board could be drafted by the team on the clock. -/
def NobodyFits (s : Session) : Prop :=
  ∀ id < s.board.size, s.state.taken.contains id = false → ¬ s.state.Accepts s.rules (.player id)

/-- What an automatic pick reports, and the session after it. -/
structure AutoPicked (s : Session) (r : PickRecord) (t : Session) : Prop where
  number : r.number = s.state.pointer
  turn : s.schedule.turn? r.number = some ⟨r.number, r.team, r.round⟩
  passed_iff : r.kind = .passed ↔ s.NobodyFits
  history : t.history = s.history ++ [r]
  pointer : t.state.pointer = s.state.pointer + 1
  schedule : t.schedule = s.schedule
  board : t.board = s.board
  settings : t.settings = s.settings

/-- The picks that are left of a draft, as they are reported, and the session at its end. -/
structure Completes (s : Session) (clockAt : Nat → Clock) (records : List PickRecord) (t : Session) : Prop where
  last : t = s.afterAutoPicks clockAt records.length
  complete : t.isComplete = true
  length_eq : records.length = s.schedule.size - s.state.pointer
  number : ∀ i r, records[i]? = some r → r.number = s.state.pointer + i
  turn : ∀ r ∈ records, s.schedule.turn? r.number = some ⟨r.number, r.team, r.round⟩
  /-- A pass is reported when nobody could be drafted at that moment, and only then. -/
  passed_iff : ∀ i r, records[i]? = some r → (r.kind = .passed ↔ (s.afterAutoPicks clockAt i).NobodyFits)
  history : t.history = s.history ++ records

section AutoPick

variable {s t : Session} {selection : Selection} {p : Pick} {state : DraftState}

theorem commitPick_of_select (h : s.state.select s.rules selection = .ok (p, state)) :
    ∃ database unsaved,
      s.commitPick selection = (.ok (s.recordOf p), { s with state, database, unsaved }) := by
  obtain ⟨database, unsaved, hpersist⟩ := persist_eq { s with state } p
  refine ⟨database, unsaved, ?_⟩
  unfold commitPick
  simp only [h, hpersist]

theorem history_of_select (h : s.state.select s.rules selection = .ok (p, state)) :
    history { s with state } = s.history ++ [s.recordOf p] := by
  obtain ⟨turn, -, hrecord⟩ := DraftState.record_of_select h
  obtain ⟨slot, -, -, hpicks, -⟩ := DraftState.places_of_record hrecord
  show state.picks.toList.map s.recordOf = _
  rw [hpicks, Array.toList_push, List.map_append]
  rfl

/-- A pick is made on the entry of the schedule that is on the clock. -/
theorem Sound.pick_of_select (h : s.Sound) (hselect : s.state.select s.rules selection = .ok (p, state)) :
    s.onClock? = some p.turn ∧ p.turn.index = s.state.pointer ∧ p.selection = selection := by
  obtain ⟨turn, hturn, hrecord⟩ := DraftState.record_of_select hselect
  obtain ⟨slot, -, rfl, -⟩ := DraftState.places_of_record hrecord
  obtain ⟨hindex, -⟩ := h.regular _ turn hturn
  have hsame : turn = { turn with index := s.state.pointer } := by rw [← hindex]
  exact ⟨hturn.trans (congrArg some hsame), rfl, rfl⟩

theorem Sound.think (h : s.Sound) (hboard : s.rules.board.Indexed) (hopen : s.state.pointer < s.schedule.size)
    {clock : Clock} (hclock : clock.Fits s.settings) :
    ∃ result, s.think clock = .ok result ∧ result.Legal s.rules s.state := by
  obtain ⟨result, hsearch, hlegal⟩ := search_legal hboard h.seats
    (Policy.ofKind_legal s.scores s.config.search.rollout) hopen .ofSeed hclock
  refine ⟨result, ?_, hlegal⟩
  unfold Session.think
  simp only [hsearch]
  rfl

/-- Passing is a candidate, and then the only one, exactly when nobody fits. -/
theorem Sound.choice_eq_pass_iff (h : s.Sound) (hboard : s.rules.board.Indexed)
    (hordered : s.rules.board.Ordered) {result : SearchResult} (hlegal : result.Legal s.rules s.state) :
    result.choice = .pass ↔ s.NobodyFits := by
  obtain ⟨roster, hroster⟩ := h.seats.roster_of_onClock hlegal.turn
  have hoffers := DraftState.offers_candidates hboard hordered hlegal.turn hroster
  have hnobody : s.state.candidates s.rules = [.pass] ↔ s.NobodyFits := by
    rw [hoffers.pass_iff]
    constructor
    · exact fun hnone id hid _ => hnone id hid
    · intro hnone id hid haccepts
      obtain ⟨player, -, -, hfree, -⟩ := (DraftState.accepts_player_iff hlegal.turn hroster).mp haccepts
      exact hnone id hid hfree haccepts
  rw [← hnobody]
  constructor
  · intro hchoice
    exact hoffers.pass_alone (hchoice ▸ hlegal.choice)
  · intro halone
    have hmem := hlegal.choice
    rw [halone] at hmem
    exact List.mem_singleton.mp hmem

theorem kindOf_eq_passed_iff {choice : Choice} : kindOf choice.selection = .passed ↔ choice = .pass := by
  cases choice <;> simp [Choice.selection, kindOf]

/-- An automatic pick that is in time never fails while a pick is on the clock. -/
theorem Sound.autoPick (h : s.Sound) (hboard : s.rules.board.Indexed) (hordered : s.rules.board.Ordered)
    (hopen : s.state.pointer < s.schedule.size) {clock : Clock} (hclock : clock.Fits s.settings) :
    ∃ r t, s.autoPick clock = (.ok r, t) ∧ s.AutoPicked r t ∧ t.Sound := by
  obtain ⟨result, hthink, hlegal⟩ := h.think hboard hopen hclock
  obtain ⟨p, state, happly⟩ := DraftState.apply_of_mem_candidates hboard h.seats hlegal.choice
  have hselect : s.state.select s.rules result.choice.selection = .ok (p, state) := happly
  obtain ⟨database, unsaved, hcommit⟩ := commitPick_of_select hselect
  obtain ⟨hturn, hindex, hselection⟩ := h.pick_of_select hselect
  have hpick : s.autoPick clock = (.ok (s.recordOf p), { s with state, database, unsaved }) := by
    unfold Session.autoPick
    rw [hthink]
    exact hcommit
  have hmoved := s.moved_perform (.autoPick clock)
  rw [perform, hpick] at hmoved
  refine ⟨s.recordOf p, { s with state, database, unsaved }, hpick, ?_, h.moved hmoved⟩
  constructor
  case number => exact hindex
  case turn =>
    show s.schedule.turn? p.turn.index = some p.turn
    rw [hindex]
    exact hturn
  case passed_iff =>
    rw [← h.choice_eq_pass_iff hboard hordered hlegal, ← kindOf_eq_passed_iff, ← hselection]
    rfl
  case history => exact history_of_select hselect
  case pointer => exact DraftState.pointer_of_apply happly
  case schedule => rfl
  case board => rfl
  case settings => rfl

/-- An automatic pick that is not in time stops before anything is changed. -/
theorem Sound.autoPick_of_late (h : s.Sound) (hboard : s.rules.board.Indexed)
    (hopen : s.state.pointer < s.schedule.size) {clock : Clock} (hlate : ¬ clock.Fits s.settings) :
    s.autoPick clock = (.error (.search .beyondClock), s) := by
  have hsearch := search_of_deadline hboard h.seats (Policy.ofKind_legal s.scores s.config.search.rollout) hopen
    .ofSeed hlate
  unfold Session.autoPick Session.think
  simp only [hsearch]
  rfl

end AutoPick

/-- No player stands in a history twice. -/
theorem Sound.nodup_names {s : Session} (h : s.Sound) (hnames : DistinctNames s.board.players) :
    (s.history.filterMap (·.player)).Nodup := by
  have hplayers : s.history.filterMap (·.player) =
      s.state.playersOut.filterMap fun id => (s.board.player? id).map (·.name) := by
    unfold history DraftState.playersOut
    rw [List.filterMap_map, List.filterMap_filterMap]
    congr 1
    funext p
    cases hplayer : p.selection.player? <;> simp [recordOf, hplayer]
  rw [hplayers]
  refine List.Nodup.filterMap ?_ h.built.coherent.nodup_playersOut
  intro id other name hid hother
  obtain ⟨player, hplayer, rfl⟩ := Option.map_eq_some_iff.mp hid
  obtain ⟨rival, hrival, hsame⟩ := Option.map_eq_some_iff.mp hother
  obtain ⟨hlt, rfl⟩ := Array.getElem?_eq_some_iff.mp hplayer
  obtain ⟨hlt', rfl⟩ := Array.getElem?_eq_some_iff.mp hrival
  apply hnames.distinct id other hlt hlt'
  rw [← hsame]
  exact Text.sameFold_self _

section Simulating

variable {s t u : Session} {clockAt : Nat → Clock} {r : PickRecord} {records : List PickRecord}

theorem isComplete_eq_false (hopen : s.state.pointer < s.schedule.size) : s.isComplete = false :=
  decide_eq_false (Nat.not_le.mpr hopen)

theorem simulateDraft_of_complete (h : s.isComplete = true) : s.simulateDraft clockAt = (.ok [], s) := by
  rw [simulateDraft, if_pos h]

theorem simulateDraft_of_error {e : SessionError} (hopen : s.state.pointer < s.schedule.size)
    (hpick : s.autoPick (clockAt s.state.pointer) = (.error e, t)) :
    s.simulateDraft clockAt = (.error e, t) := by
  rw [simulateDraft, if_neg (by simp [isComplete_eq_false hopen])]
  grind

theorem simulateDraft_of_autoPick (hopen : s.state.pointer < s.schedule.size)
    (hpick : s.autoPick (clockAt s.state.pointer) = (.ok r, t)) :
    s.simulateDraft clockAt = ((t.simulateDraft clockAt).1.map (r :: ·), (t.simulateDraft clockAt).2) := by
  rw [simulateDraft, if_neg (by simp [isComplete_eq_false hopen])]
  cases hrest : t.simulateDraft clockAt with
  | mk outcome u => cases outcome <;> grind [Except.map]

theorem completes_nil (h : s.isComplete = true) : s.Completes clockAt [] s := by
  have hge : s.schedule.size ≤ s.state.pointer := of_decide_eq_true h
  constructor
  case last => rfl
  case complete => exact h
  case length_eq => exact (Nat.sub_eq_zero_of_le hge).symm
  case history => exact (List.append_nil _).symm
  all_goals simp

theorem afterAutoPicks_succ (hpick : s.autoPick (clockAt s.state.pointer) = (.ok r, t)) (n : Nat) :
    s.afterAutoPicks clockAt (n + 1) = t.afterAutoPicks clockAt n := by
  rw [afterAutoPicks, hpick]

theorem Completes.cons (hpick : s.autoPick (clockAt s.state.pointer) = (.ok r, t)) (hpicked : s.AutoPicked r t)
    (hrest : t.Completes clockAt records u) : s.Completes clockAt (r :: records) u := by
  have hpointer := hpicked.pointer
  have hnumber := hpicked.number
  constructor
  case last =>
    rw [List.length_cons, afterAutoPicks_succ hpick]
    exact hrest.last
  case complete => exact hrest.complete
  case length_eq =>
    have hlt : r.number < s.schedule.size := (Array.getElem?_eq_some_iff.mp hpicked.turn).1
    have hlength := hrest.length_eq
    rw [hpicked.schedule] at hlength
    rw [List.length_cons]
    omega
  case number =>
    intro i record hrecord
    cases i with
    | zero =>
      obtain rfl := Option.some.inj hrecord
      exact hnumber
    | succ i =>
      have hnext := hrest.number i record hrecord
      omega
  case turn =>
    intro record hrecord
    rcases List.mem_cons.mp hrecord with rfl | hlater
    · exact hpicked.turn
    · rw [← hpicked.schedule]
      exact hrest.turn record hlater
  case passed_iff =>
    intro i record hrecord
    cases i with
    | zero =>
      obtain rfl := Option.some.inj hrecord
      exact hpicked.passed_iff
    | succ i =>
      rw [afterAutoPicks_succ hpick]
      exact hrest.passed_iff i record hrecord
  case history =>
    rw [hrest.history, hpicked.history, List.append_assoc]
    rfl

/-- The rest of a draft can be made by automatic picks if all of them are in time. -/
theorem Sound.simulateDraft (h : s.Sound) (hboard : s.board.Indexed) (hordered : s.board.Ordered)
    (htime : s.AllInTime clockAt) :
    ∃ records t, s.simulateDraft clockAt = (.ok records, t) ∧ s.Completes clockAt records t ∧ t.Sound ∧
      t.board = s.board := by
  -- the induction is on the number of picks that are left
  induction hleft : s.schedule.size - s.state.pointer generalizing s with
  | zero =>
    have hcomplete : s.isComplete = true := decide_eq_true (Nat.le_of_sub_eq_zero hleft)
    exact ⟨[], s, simulateDraft_of_complete hcomplete, completes_nil hcomplete, h, rfl⟩
  | succ left ih =>
    have hopen : s.state.pointer < s.schedule.size := by omega
    obtain ⟨r, t, hpick, hpicked, hsound⟩ := h.autoPick hboard hordered hopen (htime _ le_rfl hopen)
    have hlater : t.AllInTime clockAt := by
      unfold AllInTime InTime
      rw [hpicked.pointer, hpicked.schedule, hpicked.settings]
      exact fun number hnumber => htime number (by omega)
    have hleft' : t.schedule.size - t.state.pointer = left := by
      rw [hpicked.schedule, hpicked.pointer]
      omega
    obtain ⟨records, u, hrest, hcompletes, hlast, hsame⟩ :=
      ih hsound (hpicked.board ▸ hboard) (hpicked.board ▸ hordered) hlater hleft'
    refine ⟨r :: records, u, ?_, hcompletes.cons hpick hpicked, hlast, hsame.trans hpicked.board⟩
    rw [simulateDraft_of_autoPick hopen hpick, hrest]
    rfl

/-- Simulating the rest of a draft stops at the first pick that is not in time, with the picks before it made. -/
theorem Sound.simulateDraft_of_late {n : Nat} (h : s.Sound) (hboard : s.board.Indexed) (hordered : s.board.Ordered)
    (hn : s.state.pointer + n < s.schedule.size) (htime : ∀ i < n, s.InTime clockAt (s.state.pointer + i))
    (hlate : ¬ s.InTime clockAt (s.state.pointer + n)) :
    s.simulateDraft clockAt = (.error (.search .beyondClock), s.afterAutoPicks clockAt n) := by
  induction n generalizing s with
  | zero => exact simulateDraft_of_error hn (h.autoPick_of_late hboard hn hlate)
  | succ n ih =>
    have hopen : s.state.pointer < s.schedule.size := by omega
    obtain ⟨r, t, hpick, hpicked, hsound⟩ := h.autoPick hboard hordered hopen (htime 0 n.succ_pos)
    have hnext : ∀ i, t.state.pointer + i = s.state.pointer + (i + 1) := by
      intro i
      rw [hpicked.pointer]
      omega
    have hsame : ∀ number, t.InTime clockAt number = s.InTime clockAt number := by
      intro number
      unfold InTime
      rw [hpicked.settings]
    have hrest := ih hsound (hpicked.board ▸ hboard) (hpicked.board ▸ hordered)
      (by rw [hnext, hpicked.schedule]; exact hn)
      (fun i hi => by rw [hnext, hsame]; exact htime (i + 1) (Nat.succ_lt_succ hi))
      (by rw [hnext, hsame]; exact hlate)
    rw [simulateDraft_of_autoPick hopen hpick, hrest, afterAutoPicks_succ hpick]
    rfl

/-- A draft of which not all picks are in time has a first pick that is not. -/
theorem exists_first_late (h : ¬ s.AllInTime clockAt) :
    ∃ n, s.state.pointer + n < s.schedule.size ∧ (∀ i < n, s.InTime clockAt (s.state.pointer + i)) ∧
      ¬ s.InTime clockAt (s.state.pointer + n) := by
  classical
  have hlate : ∃ n, s.state.pointer + n < s.schedule.size ∧ ¬ s.InTime clockAt (s.state.pointer + n) := by
    unfold AllInTime at h
    push Not at h
    obtain ⟨number, hfrom, hlt, hlate⟩ := h
    refine ⟨number - s.state.pointer, ?_⟩
    rw [Nat.add_sub_cancel' hfrom]
    exact ⟨hlt, hlate⟩
  obtain ⟨hlt, hfirst⟩ := Nat.find_spec hlate
  refine ⟨Nat.find hlate, hlt, ?_, hfirst⟩
  intro i hi
  by_contra hnot
  exact Nat.find_min hlate hi ⟨by omega, hnot⟩

end Simulating

theorem Reached.autoPick {s t : Session} {clock : Clock} {result : Except SessionError PickRecord} (hs : s.Reached)
    (h : s.autoPick clock = (result, t)) : t.Reached := by
  have hnext := hs.perform (.autoPick clock)
  rw [Session.perform, h] at hnext
  exact hnext

/-- Simulating the rest of a draft leads to a session that can be reached. -/
theorem Reached.simulateDraft {s : Session} (hs : s.Reached) (clockAt : Nat → Clock) :
    (s.simulateDraft clockAt).2.Reached := by
  fun_induction Session.simulateDraft s clockAt with
  | case1 s hcomplete => exact hs
  | case2 s hcomplete e t hpick => exact hs.autoPick hpick
  | case3 s hcomplete r t hpick e u hrest ih =>
    rw [hrest] at ih
    exact ih (hs.autoPick hpick)
  | case4 s hcomplete r t hpick rs u hrest ih =>
    rw [hrest] at ih
    exact ih (hs.autoPick hpick)

/-- Whatever session operations, restored drafts, failing databases and changed settings have led to, the rest of
the draft can be simulated exactly if all picks that are left are in time, with any number of trees and either kind
of playout: then every pick that is left is made for the entry of the schedule that it stands on, a pass is made only
where nobody fits, and nobody is picked twice in the whole draft. Otherwise the simulation stops at the first pick that
is not in time, even if its search would have made all of its iterations long before its deadline. -/
theorem Reached.simulated_draft_completes_iff {rows : List Row} {s : Session}
    (hboard : Board.ofRows rows = .ok s.board) (hs : s.Reached) (clockAt : Nat → Clock) :
    ((∃ records t, s.simulateDraft clockAt = (.ok records, t)) ↔ s.AllInTime clockAt) ∧
    (s.AllInTime clockAt → ∃ records t, s.simulateDraft clockAt = (.ok records, t) ∧
      s.Completes clockAt records t ∧ (t.history.filterMap (·.player)).Nodup) ∧
    (¬ s.AllInTime clockAt → ∃ n, s.state.pointer + n < s.schedule.size ∧
      (∀ i < n, s.InTime clockAt (s.state.pointer + i)) ∧ ¬ s.InTime clockAt (s.state.pointer + n) ∧
      s.simulateDraft clockAt = (.error (.search .beyondClock), s.afterAutoPicks clockAt n)) := by
  have hindexed := Board.indexed_of_ofRows hboard
  have hordered := Board.ordered_of_ofRows hboard
  have hcompletes (htime : s.AllInTime clockAt) : ∃ records t, s.simulateDraft clockAt = (.ok records, t) ∧
      s.Completes clockAt records t ∧ (t.history.filterMap (·.player)).Nodup := by
    obtain ⟨records, t, hrun, hcompletes, hsound, hsame⟩ := hs.sound.simulateDraft hindexed hordered htime
    refine ⟨records, t, hrun, hcompletes, hsound.nodup_names ?_⟩
    rw [hsame]
    exact Board.distinctNames_of_ofRows hboard
  have hstops (hlate : ¬ s.AllInTime clockAt) : ∃ n, s.state.pointer + n < s.schedule.size ∧
      (∀ i < n, s.InTime clockAt (s.state.pointer + i)) ∧ ¬ s.InTime clockAt (s.state.pointer + n) ∧
      s.simulateDraft clockAt = (.error (.search .beyondClock), s.afterAutoPicks clockAt n) := by
    obtain ⟨n, hn, hbefore, hfirst⟩ := exists_first_late hlate
    exact ⟨n, hn, hbefore, hfirst, hs.sound.simulateDraft_of_late hindexed hordered hn hbefore hfirst⟩
  refine ⟨⟨fun hok => ?_, fun htime => ?_⟩, hcompletes, hstops⟩
  · by_contra hlate
    obtain ⟨records, t, hrun⟩ := hok
    obtain ⟨n, -, -, -, herror⟩ := hstops hlate
    cases hrun.symm.trans herror
  · obtain ⟨records, t, hrun, -⟩ := hcompletes htime
    exact ⟨records, t, hrun⟩

/-- Three picks are left of the draft of two teams when the first one has benched a player. -/
theorem simulated_draft_of_two_teams :
    let config : Config :=
      ⟨⟨2, 2, none, .standard⟩, { maxIterations := some 10, workers := 3 }, ⟨"board.csv", false⟩, none⟩
    let rows : List Row := [⟨2, "QB A", "QB", "10"⟩, ⟨3, "RB B", "RB", "8"⟩]
    ∃ board fresh s records t, Board.ofRows rows = .ok board ∧ start .stops config board "first" 1 = .ok fresh ∧
      s = (fresh.perform (.bench "QB A")).2 ∧ s.Reached ∧ s.AllInTime (fun _ => (20 : Nat)) ∧
      s.simulateDraft (fun _ => (20 : Nat)) = (.ok records, t) ∧ s.Completes (fun _ => (20 : Nat)) records t ∧
      records.length = 3 ∧ (t.history.filterMap (·.player)).Nodup := by
  intro config rows
  have hcheck : ((Board.ofRows rows).toOption.any fun board =>
      (start .stops config board "first" 1).toOption.any fun fresh =>
      let s := (fresh.perform (.bench "QB A")).2
      s.schedule.size - s.state.pointer = 3 ∧ s.settings.deadlineFits ⟨0⟩ = true) = true := by
    decide +kernel
  obtain ⟨board, hboard, hcheck⟩ := (Option.any_eq_true _ _).mp hcheck
  obtain ⟨fresh, hstart, hcheck⟩ := (Option.any_eq_true _ _).mp hcheck
  obtain ⟨hleft, hdeadline⟩ := of_decide_eq_true hcheck
  replace hboard := eq_ok_of_toOption hboard
  replace hstart := eq_ok_of_toOption hstart
  have hsame : (fresh.perform (.bench "QB A")).2.board = board := by
    obtain ⟨settings, scores, -, -, rfl⟩ := start_eq_ok hstart
    exact (moved_perform _ _).board
  have hreached := (Reached.start hstart).perform (.bench "QB A")
  have htime : (fresh.perform (.bench "QB A")).2.AllInTime (fun _ => (20 : Nat)) :=
    fun _ _ _ _ _ => hdeadline
  obtain ⟨-, hsimulated, -⟩ :=
    hreached.simulated_draft_completes_iff (hsame.symm ▸ hboard) (fun _ => (20 : Nat))
  obtain ⟨records, t, hrun, hcompletes, hnodup⟩ := hsimulated htime
  exact ⟨board, fresh, _, records, t, hboard, hstart, rfl, hreached, htime, hrun, hcompletes,
    hcompletes.length_eq.trans hleft, hnodup⟩

/-- A session whose draft cannot be simulated, although its configuration is accepted and its searches are of one
iteration. -/
theorem accepted_draft_without_simulation :
    let text := "[draft]\nnum_teams = 2\nrounds = 2\n[search]\nseconds_per_pick = 1e19\nmax_iterations = 1\n" ++
      "[data]\ndraftboard = \"board.csv\"\n"
    ∃ config board s, Config.parse "draft.toml" text = .ok config ∧
      Board.ofRows [⟨2, "QB A", "QB", "10"⟩, ⟨3, "RB B", "RB", "8"⟩] = .ok board ∧
      start .stops config board "first" 1 = .ok s ∧ s.Reached ∧ s.settings.maxIterations = some 1 ∧
      s.schedule.size = 4 ∧
      ∀ clockAt, s.simulateDraft clockAt = (.error (.search .beyondClock), s) := by
  intro text
  obtain ⟨config, hparse, hteams, hrounds, hrequirements, hsettings⟩ := exists_config_beyond_clock
  obtain ⟨settings, hsettings, hiterations, hbeyond⟩ := hsettings 1
  obtain ⟨board, hboard⟩ := exists_board_of_two_players
  have hrange : config.draft.InRange .stops :=
    Config.inRange_of_two_teams hteams (hrounds ▸ by decide) hrequirements
  obtain ⟨s, hstart⟩ : ∃ s, start .stops config board "first" 1 = .ok s :=
    exists_start_iff.mpr ⟨hrange, Option.isSome_of_eq_some hsettings⟩
  have hreached := Reached.start hstart
  obtain ⟨settings', scores, hsettings', -, rfl⟩ := start_eq_ok hstart
  obtain rfl := Option.some.inj (hsettings.symm.trans hsettings')
  have hsize : (Schedule.snake config.draft.numTeams config.draft.rounds).size = 4 := by
    rw [Schedule.size_snake, hteams, hrounds]
  refine ⟨config, board, _, hparse, hboard, hstart, hreached, hiterations, hsize, fun clockAt => ?_⟩
  refine hreached.sound.simulateDraft_of_late (n := 0) (Board.indexed_of_ofRows hboard)
    (Board.ordered_of_ofRows hboard) ?_ (fun i hi => absurd hi (Nat.not_lt_zero i)) ?_
  · show 0 < (Schedule.snake config.draft.numTeams config.draft.rounds).size
    rw [hsize]
    decide
  · exact fun hclock => Bool.false_ne_true ((hbeyond _).symm.trans hclock.first)

end SnakeDraft.Session
