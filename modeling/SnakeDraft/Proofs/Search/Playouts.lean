import SnakeDraft.Proofs.Draft.Demand
import SnakeDraft.Proofs.Search.Legality

/-!
Drafts played out with candidates only. On a board that can fill the pools of the league, a team on the clock
passes just when its roster is complete, so each of its turns fills one more place until then. A team with as many
turns as places therefore completes its roster, whichever candidates are chosen.
-/

namespace SnakeDraft

namespace Roster

/-- The places that are filled on a whole roster. -/
def filledTotal (roster : Roster) : Nat :=
  Position.all.foldr (fun slot places => roster.filled slot + places) 0

theorem filledTotal_of_filled {roster after : Roster} {place : Position}
    (h : ∀ slot, after.filled slot = roster.filled slot + if place = slot then 1 else 0) :
    after.filledTotal = roster.filledTotal + 1 := by
  simp only [filledTotal, Position.all, List.foldr, h]
  cases place <;> simp <;> omega

/-- A roster with as many places filled as there are is complete. -/
theorem isComplete_of_filledTotal {roster : Roster} {reqs : Requirements}
    (hle : ∀ slot, roster.filled slot ≤ reqs.required slot)
    (htotal : reqs.slotsPerTeam ≤ roster.filledTotal) : roster.isComplete reqs = true := by
  simp only [Requirements.slotsPerTeam, filledTotal, Position.all, List.foldr] at htotal
  have hall : ∀ slot ∈ Position.all, roster.filled slot ≤ reqs.required slot := fun slot _ => hle slot
  simp only [Position.all, List.forall_mem_cons] at hall
  apply isComplete_iff.mpr
  intro slot
  cases slot <;> omega

theorem isComplete_of_filled_le {roster after : Roster} {reqs : Requirements}
    (hle : ∀ slot, roster.filled slot ≤ after.filled slot) (h : roster.isComplete reqs = true) :
    after.isComplete reqs = true := by
  apply isComplete_iff.mpr
  intro slot
  exact (isComplete_iff.mp h slot).trans (hle slot)

end Roster

namespace DraftState

variable {board : Board} {reqs : Requirements} {numTeams : Nat} {schedule : Schedule}
  {rules : Rules} {s t u : DraftState}

/-- A selection never empties a place, and fills one more of its team when it has a slot. -/
theorem Places.filledTotal {turn : Turn} {selection : Selection} {slot : Option Position}
    {rosters : Array Roster} (h : Places s rules turn selection slot rosters) {team : Nat}
    {roster : Roster} (hroster : s.roster? team = some roster) :
    ∃ after, rosters[team]? = some after ∧ (∀ q, roster.filled q ≤ after.filled q) ∧
      after.filledTotal =
        roster.filledTotal + if turn.team = team ∧ slot.isSome = true then 1 else 0 := by
  have hlt : team < rosters.size := by
    rw [h.size_rosters]
    exact (Array.getElem?_eq_some_iff.mp hroster).1
  have hafter : rosters[team]? = some rosters[team] := Array.getElem?_eq_getElem hlt
  obtain ⟨before, hbefore, hfilled⟩ := h.filled hafter
  cases hroster.symm.trans hbefore
  refine ⟨rosters[team], hafter, ?_, ?_⟩
  · intro q
    rw [hfilled q]
    exact Nat.le_add_right _ _
  · by_cases hteam : turn.team = team
    · cases slot with
      | some place =>
        simp only [hteam, Option.isSome_some, and_self, if_true]
        have hplace : ∀ q, rosters[team].filled q = roster.filled q + if place = q then 1 else 0 := by
          simpa [hteam] using hfilled
        exact Roster.filledTotal_of_filled hplace
      | none =>
        have hsame : rosters[team] = roster := Roster.ext_filled (by simp [hfilled])
        simp [hsame]
    · have hsame : rosters[team] = roster := Roster.ext_filled (by simp [hfilled, hteam])
      simp [hsame, hteam]

/-- A draft played to its end, every choice being one of the candidates. -/
inductive Playout (rules : Rules) : DraftState → DraftState → Prop where
  | finished {s : DraftState} (hcomplete : s.isComplete rules.schedule = true) : Playout rules s s
  | choose {s t u : DraftState} {choice : Choice} {pick : Pick}
      (hchoice : choice ∈ s.candidates rules) (happly : s.apply rules choice = .ok (pick, t))
      (hrest : Playout rules t u) : Playout rules s u

/-- Candidates lead any draft to its end. -/
theorem exists_playout (hboard : rules.board.Indexed) (hs : s.Seats rules.schedule) :
    ∃ u, Playout rules s u := by
  induction hremaining : rules.schedule.size - s.pointer generalizing s with
  | zero =>
    have hcomplete : s.isComplete rules.schedule = true := by
      simp only [isComplete, decide_eq_true_eq]
      omega
    exact ⟨s, .finished hcomplete⟩
  | succ n ih =>
    cases hcandidates : s.candidates rules with
    | nil =>
      have hnone := candidates_eq_nil_iff.mp hcandidates
      have hsize := Array.getElem?_eq_none_iff.mp hnone
      simp only [Schedule.size] at hremaining
      omega
    | cons choice rest =>
      have hchoice : choice ∈ s.candidates rules := by
        rw [hcandidates]
        exact List.mem_cons_self
      obtain ⟨pick, t, happly⟩ := apply_of_mem_candidates hboard hs hchoice
      have hpointer := pointer_of_apply happly
      obtain ⟨u, hrest⟩ := ih (hs.of_apply happly) (by omega)
      exact ⟨u, .choose hchoice happly hrest⟩

/-- The team on the clock finds a player for every slot that it needs. -/
def Supplied (s : DraftState) (rules : Rules) : Prop :=
  ∀ turn roster, s.onClock? rules.schedule = some turn → s.roster? turn.team = some roster →
    ∀ slot ∈ roster.neededSlots rules.requirements, ∃ id, rules.board.bestAvailable? s.taken slot = some id

/-- A team that finds all it needs passes just when its roster is complete. -/
theorem Supplied.candidates_eq_pass_iff (hs : s.Supplied rules) {turn : Turn} {roster : Roster}
    (hturn : s.onClock? rules.schedule = some turn) (hroster : s.roster? turn.team = some roster) :
    s.candidates rules = [.pass] ↔ roster.isComplete rules.requirements = true := by
  rw [Roster.isComplete, List.isEmpty_iff, candidates_eq_pass_iff_bestForNeeds hturn hroster]
  constructor
  · intro hnone
    apply List.eq_nil_iff_forall_not_mem.mpr
    intro slot hslot
    obtain ⟨id, hid⟩ := hs turn roster hturn hroster slot hslot
    have hmem : id ∈ s.bestForNeeds rules roster := mem_bestForNeeds.mpr ⟨slot, hslot, hid⟩
    rw [hnone] at hmem
    cases hmem
  · intro hneeds
    simp [bestForNeeds, hneeds]

/-- The turns that a team still has. -/
def turnsLeft (s : DraftState) (schedule : Schedule) (team : Nat) : Nat :=
  (schedule.turns.toList.drop s.pointer).countP (·.team == team)

theorem turnsLeft_of_onClock {turn : Turn} (hturn : s.onClock? schedule = some turn)
    (hpointer : t.pointer = s.pointer + 1) (team : Nat) :
    s.turnsLeft schedule team = t.turnsLeft schedule team + if turn.team = team then 1 else 0 := by
  obtain ⟨hlt, hget⟩ := Array.getElem?_eq_some_iff.mp hturn
  have hdrop : schedule.turns.toList.drop s.pointer =
      turn :: schedule.turns.toList.drop (s.pointer + 1) := by
    rw [← hget, ← Array.getElem_toList hlt]
    exact List.drop_eq_getElem_cons _
  rw [turnsLeft, hdrop, List.countP_cons, turnsLeft, hpointer]
  simp

theorem turnsLeft_of_isComplete (h : s.isComplete schedule = true) (team : Nat) :
    s.turnsLeft schedule team = 0 := by
  have hsize : schedule.turns.toList.length ≤ s.pointer := of_decide_eq_true h
  rw [turnsLeft, List.drop_eq_nil_of_le hsize, List.countP_nil]

/-- A team has all its places filled, or it has enough turns left to fill them. -/
def CanComplete (s : DraftState) (rules : Rules) (team : Nat) : Prop :=
  ∃ roster, s.roster? team = some roster ∧
    (roster.isComplete rules.requirements = true ∨
      rules.requirements.slotsPerTeam ≤ roster.filledTotal + s.turnsLeft rules.schedule team)

/-- No candidate wastes a turn that its team needs. -/
theorem CanComplete.of_apply {choice : Choice} {pick : Pick} {team : Nat} (h : s.CanComplete rules team)
    (hs : s.Supplied rules) (hchoice : choice ∈ s.candidates rules)
    (happly : s.apply rules choice = .ok (pick, t)) : t.CanComplete rules team := by
  obtain ⟨roster, hroster, hcan⟩ := h
  obtain ⟨turn, hturn, hrecord⟩ := record_of_select happly
  obtain ⟨slot, hplaces, -⟩ := places_of_record hrecord
  obtain ⟨after, hafter, hle, htotal⟩ := hplaces.filledTotal hroster
  have hleft := turnsLeft_of_onClock hturn (pointer_of_record hrecord) team
  refine ⟨after, hafter, ?_⟩
  rcases hcan with hcomplete | hcan
  · left
    exact Roster.isComplete_of_filled_le hle hcomplete
  by_cases hteam : turn.team = team
  · subst hteam
    cases choice with
    | pass =>
      -- A team on the clock is offered the pass only when it needs nobody.
      left
      have hcandidates := candidates_of_pass_mem hchoice
      exact Roster.isComplete_of_filled_le hle ((hs.candidates_eq_pass_iff hturn hroster).mp hcandidates)
    | player id =>
      right
      generalize t.rosters = rosters at hplaces
      cases hplaces
      simp only [Option.isSome_some, and_self, if_true] at htotal hleft
      omega
  · right
    simp only [hteam, false_and, if_false] at htotal hleft
    omega

section Supply

variable {players : Array Player}

theorem Coherent.supplied (hs : s.Coherent (.ofPlayers players) reqs numTeams) (hfree : s.Unbenched)
    (hsupply : (Board.ofPlayers players).Stocks reqs numTeams) (schedule : Schedule) :
    s.Supplied ⟨.ofPlayers players, schedule, reqs⟩ := by
  intro turn roster _ hroster slot hneeded
  exact hs.exists_best_of_needed hfree hsupply hroster hneeded

/-- A team that can complete its roster has it complete in the end. -/
theorem Playout.isComplete (h : Playout ⟨.ofPlayers players, schedule, reqs⟩ s u)
    (hsupply : (Board.ofPlayers players).Stocks reqs numTeams)
    (hs : Built (.ofPlayers players) reqs numTeams s) (hfree : s.Unbenched) {team : Nat}
    (hcan : s.CanComplete ⟨.ofPlayers players, schedule, reqs⟩ team) :
    ∃ roster, u.roster? team = some roster ∧ roster.isComplete reqs = true := by
  induction h with
  | finished hcomplete =>
    obtain ⟨roster, hroster, hcan⟩ := hcan
    refine ⟨roster, hroster, ?_⟩
    rcases hcan with hwhole | hcan
    · exact hwhole
    · rw [turnsLeft_of_isComplete hcomplete, Nat.add_zero] at hcan
      exact Roster.isComplete_of_filledTotal (hs.coherent.filled_le team roster hroster) hcan
  | choose hchoice happly _ ih =>
    have hsupplied := hs.coherent.supplied hfree hsupply schedule
    exact ih (hs.select happly) (hfree.apply happly) (hcan.of_apply hsupplied hchoice happly)

end Supply

theorem canComplete_start {team : Nat} (boardSize : Nat) (hteam : team < numTeams)
    (hturns : rules.requirements.slotsPerTeam ≤ rules.schedule.turns.toList.countP (·.team == team)) :
    (start numTeams boardSize).CanComplete rules team := by
  refine ⟨.empty, ?_, Or.inr ?_⟩
  · simp [roster?, start, hteam]
  · rw [turnsLeft, pointer_start, List.drop_zero]
    omega

/-- A board that can fill the pools of a league has a player for every need. In every state that choices
lead to, under schedules that may change, the team on the clock finds a best player for each slot that it
needs, so that it passes just when its roster is complete. Playing the candidates to the end completes the
roster of every team that has as many turns as places. -/
theorem pool_supplies_every_need {rows : List Row} {board : Board} (hboard : Board.ofRows rows = .ok board)
    {reqs : Requirements} {numTeams : Nat} (hsupply : board.Stocks reqs numTeams)
    {schedule : Schedule} (hteams : ∀ turn ∈ schedule.turns, turn.team < numTeams) :
    (∀ moves : List (Schedule × Choice),
      let s := (start numTeams board.size).performAll board reqs
        (moves.map fun (schedule, choice) => (schedule, .apply choice))
      ∀ turn, s.onClock? schedule = some turn →
        ∃ roster, s.roster? turn.team = some roster ∧
          (∀ slot ∈ roster.neededSlots reqs, ∃ id, board.bestAvailable? s.taken slot = some id) ∧
          (s.candidates ⟨board, schedule, reqs⟩ = [.pass] ↔ roster.isComplete reqs = true)) ∧
    (∃ u, Playout ⟨board, schedule, reqs⟩ (start numTeams board.size) u) ∧
    ∀ u, Playout ⟨board, schedule, reqs⟩ (start numTeams board.size) u →
      ∀ team < numTeams, reqs.slotsPerTeam ≤ schedule.turns.toList.countP (·.team == team) →
        ∃ roster, u.roster? team = some roster ∧ roster.isComplete reqs = true := by
  have hindexed : Board.Indexed board := Board.indexed_of_ofRows hboard
  obtain ⟨players, -, rfl⟩ := Board.eq_ofPlayers_of_ofRows hboard
  have hseats : (start numTeams (Board.ofPlayers players).size).Seats schedule := by
    intro turn hturn
    simpa [start] using hteams turn hturn
  refine ⟨?_, exists_playout hindexed hseats, ?_⟩
  · intro moves s turn hturn
    have hs : Built (.ofPlayers players) reqs numTeams s := Built.start.performAll _
    have hfree : s.Unbenched := (unbenched_start numTeams _).performAll _ _ moves
    have hlt : turn.team < s.rosters.size := by
      rw [hs.size_rosters]
      exact hteams turn (Array.mem_of_getElem? hturn)
    have hroster : s.roster? turn.team = some s.rosters[turn.team] := Array.getElem?_eq_getElem hlt
    have hsupplied := hs.coherent.supplied hfree hsupply schedule
    exact ⟨_, hroster, hsupplied turn _ hturn hroster, hsupplied.candidates_eq_pass_iff hturn hroster⟩
  · intro u hplay team hteam hturns
    exact hplay.isComplete hsupply .start (unbenched_start numTeams _) (canComplete_start _ hteam hturns)

theorem pool_supplies_two_teams :
    let rows : List Row := [⟨2, "RB A", "RB", "9"⟩, ⟨3, "RB B", "RB", "8"⟩, ⟨4, "RB C", "RB", "7"⟩,
      ⟨5, "RB D", "RB", "6"⟩, ⟨6, "WR A", "WR", "5"⟩, ⟨7, "WR B", "WR", "4"⟩, ⟨8, "TE A", "TE", "3"⟩,
      ⟨9, "TE B", "TE", "2"⟩]
    let reqs := Requirements.ofCounts [(.runningBack, 1), (.flex, 1)]
    ∃ board u, Board.ofRows rows = .ok board ∧
      board.Stocks reqs 2 ∧
      (∀ turn ∈ (Schedule.snake 2 2).turns, turn.team < 2) ∧
      reqs.slotsPerTeam ≤ (Schedule.snake 2 2).turns.toList.countP (·.team == 0) ∧
      Playout ⟨board, .snake 2 2, reqs⟩ (start 2 board.size) u ∧
      ∃ roster, u.roster? 0 = some roster ∧ roster.isComplete reqs = true := by
  intro rows reqs
  have hok : ((Board.ofRows rows).toOption.any fun board => Position.all.all fun position =>
      position == .flex || decide (poolSize reqs 2 position ≤ board.supply position)) = true := by
    decide +kernel
  obtain ⟨board, hfound, hall⟩ := (Option.any_eq_true _ _).mp hok
  have hboard := eq_ok_of_toOption hfound
  have hsupply : board.Stocks reqs 2 := by
    intro position hposition
    simpa [hposition] using List.all_eq_true.mp hall position (Position.mem_all position)
  have hteams : ∀ turn ∈ (Schedule.snake 2 2).turns, turn.team < 2 := by decide
  have hturns : reqs.slotsPerTeam ≤ (Schedule.snake 2 2).turns.toList.countP (·.team == 0) := by
    decide +kernel
  obtain ⟨-, ⟨u, hplay⟩, hends⟩ := pool_supplies_every_need hboard hsupply hteams
  exact ⟨board, u, hboard, hsupply, hteams, hturns, hplay, hends u hplay 0 (by decide) hturns⟩

end DraftState

end SnakeDraft
