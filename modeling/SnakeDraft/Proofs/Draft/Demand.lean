import Mathlib.Algebra.BigOperators.Group.Finset.Piecewise
import Mathlib.Algebra.Order.BigOperators.Group.Finset
import SnakeDraft.Pool
import SnakeDraft.Proofs.Board.Supply
import SnakeDraft.Proofs.Draft.Coherence

/-!
How many players of a position a draft takes. A team holds them at their own slot and, where the position allows
it, at FLEX, so it never holds more than these two require together, and all teams together no more than the pool
of the position. While one team has such a place open, the pool is not used up; on a board that can fill its
pools, that team finds a player for every slot it needs, as long as nobody is benched.
-/

namespace SnakeDraft

/-- Whether a pick drafts a player at a position. -/
def Pick.drafts (board : Board) (position : Position) (pick : Pick) : Bool :=
  match pick.selection with
  | .drafted id => (board.player? id).any (·.position == position)
  | _ => false

/-- The places that players at a position may fill when so many are counted at every slot. -/
def Position.reach (position : Position) (count : Position → Nat) : Nat :=
  count position + if position.isFlexEligible then count .flex else 0

theorem poolSize_eq (reqs : Requirements) (numTeams : Nat) (position : Position) :
    poolSize reqs numTeams position = position.reach reqs.required * numTeams := rfl

/-- At every position that players hold there are enough of them for its pool. -/
def Board.Stocks (board : Board) (reqs : Requirements) (numTeams : Nat) : Prop :=
  ∀ position, position ≠ .flex → poolSize reqs numTeams position ≤ board.supply position

theorem Position.reach_le {position : Position} {few many : Position → Nat}
    (h : ∀ slot, few slot ≤ many slot) : position.reach few ≤ position.reach many := by
  have hown := h position
  have hflex := h .flex
  unfold reach
  split <;> omega

theorem countP_or_le {α : Type} (p q : α → Bool) (xs : List α) :
    xs.countP (fun x => p x || q x) ≤ xs.countP p + xs.countP q := by
  induction xs with
  | nil => simp
  | cons x xs ih =>
    simp only [List.countP_cons]
    cases p x <;> cases q x <;> simp <;> omega

theorem countP_eq_sum_teams {picks : List Pick} {numTeams : Nat}
    (hteams : ∀ pick ∈ picks, pick.turn.team < numTeams) (p : Pick → Bool) :
    picks.countP p =
      ∑ team ∈ Finset.range numTeams, picks.countP fun pick => p pick && pick.turn.team == team := by
  induction picks with
  | nil => simp
  | cons pick picks ih =>
    have hteam := hteams pick List.mem_cons_self
    have hrest := ih fun other hother => hteams other (List.mem_cons_of_mem pick hother)
    simp only [List.countP_cons, Finset.sum_add_distrib, hrest]
    cases p pick <;> simp [hteam]

namespace DraftState

/-- No player was taken off the board without filling a place. -/
def Unbenched (s : DraftState) : Prop :=
  ∀ pick ∈ s.picks, ∀ id, pick.selection ≠ .benched id

variable {board : Board} {reqs : Requirements} {numTeams : Nat} {s t : DraftState}

/-- The players at a position that a team drafted stand at their own slot or at FLEX. -/
theorem Coherent.countP_drafts_le (hs : s.Coherent board reqs numTeams) {team : Nat} {roster : Roster}
    (hroster : s.roster? team = some roster) (position : Position) :
    s.picks.toList.countP (fun pick => pick.drafts board position && pick.turn.team == team) ≤
      position.reach roster.filled := by
  have hfills : ∀ pick ∈ s.picks.toList,
      (pick.drafts board position && pick.turn.team == team) = true →
        (pick.fills team position || position.isFlexEligible && pick.fills team .flex) = true := by
    intro pick hpick hdrafts
    have hallowed := hs.slot_allowed pick (Array.mem_toList_iff.mp hpick)
    rw [Bool.and_eq_true, beq_iff_eq] at hdrafts
    obtain ⟨hdrafts, rfl⟩ := hdrafts
    unfold Pick.drafts at hdrafts
    unfold Pick.SlotAllowed at hallowed
    cases hselection : pick.selection with
    | passed => simp [hselection] at hdrafts
    | benched id => simp [hselection] at hdrafts
    | drafted id =>
      simp only [hselection] at hdrafts hallowed
      obtain ⟨player, slot, hplayer, hslot, hwhere⟩ := hallowed
      obtain rfl : player.position = position := by simpa [hplayer] using hdrafts
      rcases hwhere with rfl | ⟨rfl, heligible⟩
      · simp [Pick.fills, hslot]
      · simp [Pick.fills, hslot, heligible]
  have hown := hs.filled_eq team roster hroster position
  have hflex := hs.filled_eq team roster hroster .flex
  calc s.picks.toList.countP (fun pick => pick.drafts board position && pick.turn.team == team)
      ≤ s.picks.toList.countP
          (fun pick => pick.fills team position || position.isFlexEligible && pick.fills team .flex) :=
        List.countP_mono_left hfills
    _ ≤ s.picks.toList.countP (Pick.fills team position) +
          s.picks.toList.countP (fun pick => position.isFlexEligible && pick.fills team .flex) :=
        countP_or_le _ _ _
    _ = position.reach roster.filled := by
        unfold Position.reach
        rw [hown, hflex]
        cases position.isFlexEligible <;> simp

/-- A pool is not used up while a team can hold more players of its position. -/
theorem Coherent.countP_drafts_lt (hs : s.Coherent board reqs numTeams) {team : Nat} {roster : Roster}
    (hroster : s.roster? team = some roster) {position : Position}
    (hopen : position.reach roster.filled < position.reach reqs.required) :
    s.picks.toList.countP (Pick.drafts board position) < poolSize reqs numTeams position := by
  have hlt : ∀ {other : Nat} {its : Roster}, s.roster? other = some its → other < numTeams := by
    intro other its hits
    rw [← hs.size_rosters]
    exact (Array.getElem?_eq_some_iff.mp hits).1
  have hle : ∀ other ∈ Finset.range numTeams,
      s.picks.toList.countP (fun pick => pick.drafts board position && pick.turn.team == other) ≤
        position.reach reqs.required := by
    intro other hother
    rw [Finset.mem_range, ← hs.size_rosters] at hother
    have hits : s.roster? other = some s.rosters[other] := Array.getElem?_eq_getElem hother
    exact (hs.countP_drafts_le hits position).trans
      (Position.reach_le (hs.filled_le other _ hits))
  have hteam := (hs.countP_drafts_le hroster position).trans_lt hopen
  have hteams : ∀ pick ∈ s.picks.toList, pick.turn.team < numTeams := by
    intro pick hpick
    exact hs.team_lt pick (Array.mem_toList_iff.mp hpick)
  calc s.picks.toList.countP (Pick.drafts board position)
      = ∑ other ∈ Finset.range numTeams, s.picks.toList.countP
          (fun pick => pick.drafts board position && pick.turn.team == other) :=
        countP_eq_sum_teams hteams _
    _ < ∑ _other ∈ Finset.range numTeams, position.reach reqs.required :=
        Finset.sum_lt_sum hle ⟨team, Finset.mem_range.mpr (hlt hroster), hteam⟩
    _ = poolSize reqs numTeams position := by
        rw [Finset.sum_const_nat fun _ _ => rfl, Finset.card_range, poolSize_eq, Nat.mul_comm]

/-- The players at a position who were drafted or benched. -/
def playersOutAt (s : DraftState) (board : Board) (position : Position) : List Nat :=
  s.playersOut.filter fun id => (board.player? id).any (·.position == position)

/-- While nobody is benched, the players at a position who are out are those drafted. -/
theorem Unbenched.length_playersOutAt (hs : s.Unbenched) (board : Board) (position : Position) :
    (s.playersOutAt board position).length = s.picks.toList.countP (Pick.drafts board position) := by
  unfold playersOutAt playersOut
  rw [← List.countP_eq_length_filter, List.countP_filterMap]
  apply List.countP_congr
  intro pick hpick
  unfold Pick.drafts
  cases hselection : pick.selection with
  | passed => simp [Selection.player?]
  | benched id => exact absurd hselection (hs pick (Array.mem_toList_iff.mp hpick) id)
  | drafted id => simp [Selection.player?]

/-- A team that can hold one more player at a position finds one. -/
theorem Coherent.exists_bestAt? {players : Array Player} (hs : s.Coherent (.ofPlayers players) reqs numTeams)
    (hfree : s.Unbenched) {team : Nat} {roster : Roster} (hroster : s.roster? team = some roster)
    {position : Position} (hopen : position.reach roster.filled < position.reach reqs.required)
    (hsupply : poolSize reqs numTeams position ≤ (Board.ofPlayers players).supply position) :
    ∃ id, (Board.ofPlayers players).bestAt? s.taken position = some id := by
  have hout : ∀ id ∈ (Board.ofPlayers players).idsByPosition.get position,
      s.taken.contains id = true → id ∈ s.playersOutAt (.ofPlayers players) position := by
    intro id hid htaken
    obtain ⟨player, hplayer, hposition⟩ := (Board.indexed_ofPlayers players position id).mp hid
    apply List.mem_filter.mpr
    exact ⟨(hs.taken_iff id).mp htaken, by simp [hplayer, hposition]⟩
  apply Board.exists_bestAt? (Board.nodup_idsByPosition_ofPlayers players position) hout
  rw [hfree.length_playersOutAt, Board.length_idsByPosition_ofPlayers]
  exact (hs.countP_drafts_lt hroster hopen).trans_le hsupply

/-- A team finds a player for every slot that it needs. -/
theorem Coherent.exists_best_of_needed {players : Array Player}
    (hs : s.Coherent (.ofPlayers players) reqs numTeams) (hfree : s.Unbenched)
    (hsupply : (Board.ofPlayers players).Stocks reqs numTeams)
    {team : Nat} {roster : Roster} (hroster : s.roster? team = some roster) {slot : Position}
    (hneeded : slot ∈ roster.neededSlots reqs) :
    ∃ id, (Board.ofPlayers players).bestAvailable? s.taken slot = some id := by
  have hopen := Roster.mem_neededSlots.mp hneeded
  by_cases hslot : slot = .flex
  · subst hslot
    have hback := hs.filled_le team roster hroster .runningBack
    have heligible : Position.runningBack.isFlexEligible = true := by decide
    have hreach : Position.runningBack.reach roster.filled < Position.runningBack.reach reqs.required := by
      rw [Position.reach, Position.reach, if_pos heligible, if_pos heligible]
      omega
    obtain ⟨id, hbest⟩ := hs.exists_bestAt? hfree hroster hreach (hsupply .runningBack (by decide))
    exact Board.exists_bestAvailable?_flex heligible hbest
  · have hflex := hs.filled_le team roster hroster .flex
    have hreach : slot.reach roster.filled < slot.reach reqs.required := by
      unfold Position.reach
      split <;> omega
    obtain ⟨id, hbest⟩ := hs.exists_bestAt? hfree hroster hreach (hsupply slot hslot)
    refine ⟨id, ?_⟩
    rw [Board.bestAvailable?, if_neg (fun h => hslot (Position.isSlotOnly_iff.mp h))]
    exact hbest

theorem unbenched_start (numTeams boardSize : Nat) : (start numTeams boardSize).Unbenched := by
  intro pick hpick
  simp [start] at hpick

theorem Unbenched.record {rules : Rules} {turn : Turn} {selection : Selection} {pick : Pick}
    (hs : s.Unbenched) (h : s.record rules turn selection = .ok (pick, t))
    (hselection : ∀ id, selection ≠ .benched id) : t.Unbenched := by
  obtain ⟨slot, -, rfl, hhistory, -⟩ := places_of_record h
  intro other hother
  rw [hhistory, Array.mem_push] at hother
  rcases hother with hold | rfl
  · exact hs other hold
  · exact hselection

theorem Choice.selection_ne_benched (choice : Choice) (id : Nat) : choice.selection ≠ .benched id := by
  cases choice <;> simp [Choice.selection]

theorem Unbenched.apply {rules : Rules} {choice : Choice} {pick : Pick} (hs : s.Unbenched)
    (h : s.apply rules choice = .ok (pick, t)) : t.Unbenched := by
  obtain ⟨turn, -, hrecord⟩ := record_of_select h
  exact hs.record hrecord (Choice.selection_ne_benched choice)

/-- Choices alone bench nobody. -/
theorem Unbenched.performAll (hs : s.Unbenched) (board : Board) (reqs : Requirements)
    (moves : List (Schedule × Choice)) :
    (s.performAll board reqs (moves.map fun (schedule, choice) => (schedule, .apply choice))).Unbenched := by
  induction moves generalizing s with
  | nil => exact hs
  | cons move moves ih =>
    rw [List.map_cons, DraftState.performAll, List.foldl_cons, ← DraftState.performAll]
    apply ih
    simp only [perform]
    split
    · next happly => exact hs.apply happly
    · exact hs

end DraftState

end SnakeDraft
