import SnakeDraft.Draft.State

/-!
What it means to record a selection. Every change of a draft goes through `DraftState.record`, and
`DraftState.record_eq_ok_iff` says all that a recording does which succeeds. A state is built
(`DraftState.Built`) when recordings lead to it from a start; whatever is done to a draft, its state stays
built (`DraftState.Built.performAll`), because undoing and restoring replay picks from the start.
-/

namespace SnakeDraft

theorem eq_ok_of_toOption {ε α : Type} {result : Except ε α} {a : α} (h : result.toOption = some a) :
    result = .ok a := by
  cases result with
  | error e => cases h
  | ok b => exact congrArg Except.ok (Option.some.inj h)

namespace DraftState

/-- The place that a selection takes for the team of a turn: the slot that it fills, and all rosters
after it. There is none when the selection is refused. -/
inductive Places (s : DraftState) (rules : Rules) (turn : Turn) :
    Selection → Option Position → Array Roster → Prop where
  | passed {roster : Roster} (hroster : s.roster? turn.team = some roster) :
      Places s rules turn .passed none s.rosters
  | benched {roster : Roster} {id : Nat} {player : Player}
      (hroster : s.roster? turn.team = some roster)
      (hclaim : s.claim rules.board id = .ok player) :
      Places s rules turn (.benched id) none s.rosters
  | drafted {roster : Roster} {id : Nat} {player : Player} {slot : Position}
      (hroster : s.roster? turn.team = some roster)
      (hclaim : s.claim rules.board id = .ok player)
      (hslot : roster.slotFor? rules.requirements player.position = some slot) :
      Places s rules turn (.drafted id) (some slot)
        (s.rosters.setIfInBounds turn.team (roster.addTo slot))

theorem claim_eq_ok_iff {s : DraftState} {board : Board} {id : Nat} {player : Player} :
    s.claim board id = .ok player ↔
      board.player? id = some player ∧ s.taken.contains id = false := by
  unfold claim
  cases hplayer : board.player? id with
  | none => simp
  | some found =>
    by_cases htaken : s.taken.contains id = true
    · simp [htaken]
    · simp [htaken]

theorem record_eq_ok_iff {s t : DraftState} {rules : Rules} {turn : Turn} {selection : Selection}
    {pick : Pick} :
    s.record rules turn selection = .ok (pick, t) ↔
      ∃ slot rosters, Places s rules turn selection slot rosters ∧
        ({ s with rosters } : DraftState).push turn selection slot = (pick, t) := by
  constructor
  · intro h
    unfold record at h
    cases hroster : s.roster? turn.team with
    | none => simp [hroster] at h
    | some roster =>
      cases selection with
      | passed =>
        simp only [hroster] at h
        exact ⟨none, s.rosters, .passed hroster, Except.ok.inj h⟩
      | benched id =>
        cases hclaim : s.claim rules.board id with
        | error e => simp [hroster, hclaim] at h
        | ok player =>
          simp only [hroster, hclaim] at h
          exact ⟨none, s.rosters, .benched hroster hclaim, Except.ok.inj h⟩
      | drafted id =>
        cases hclaim : s.claim rules.board id with
        | error e => simp [hroster, hclaim] at h
        | ok player =>
          cases hslot : roster.slotFor? rules.requirements player.position with
          | none => simp [hroster, hclaim, draft, Roster.fill, hslot] at h
          | some slot =>
            simp only [hroster, hclaim, draft, Roster.fill, hslot, Option.map_some] at h
            exact ⟨some slot, _, .drafted hroster hclaim hslot, Except.ok.inj h⟩
  · rintro ⟨slot, rosters, hplaces, hpush⟩
    cases hplaces with
    | passed hroster =>
      simp only [record, hroster]
      exact congrArg Except.ok hpush
    | benched hroster hclaim =>
      simp only [record, hroster, hclaim]
      exact congrArg Except.ok hpush
    | drafted hroster hclaim hslot =>
      simp only [record, hroster, hclaim, draft, Roster.fill, hslot, Option.map_some]
      exact congrArg Except.ok hpush

/-- What a recording leaves behind: the pick stands at the end of the history under the index of the
end, the player is taken, and the rosters are those of the place. -/
theorem places_of_record {s t : DraftState} {rules : Rules} {turn : Turn} {selection : Selection}
    {pick : Pick} (h : s.record rules turn selection = .ok (pick, t)) :
    ∃ slot, Places s rules turn selection slot t.rosters ∧
      pick = ⟨{ turn with index := s.pointer }, selection, slot⟩ ∧
      t.picks = s.picks.push pick ∧
      t.taken = (match selection.player? with
        | some id => s.taken.insert id
        | none => s.taken) := by
  obtain ⟨slot, rosters, hplaces, hpush⟩ := record_eq_ok_iff.mp h
  cases hpush
  exact ⟨slot, hplaces, rfl, rfl, rfl⟩

/-- A selection that succeeds is recorded for the turn on the clock. -/
theorem record_of_select {s t : DraftState} {rules : Rules} {selection : Selection} {pick : Pick}
    (h : s.select rules selection = .ok (pick, t)) :
    ∃ turn, s.onClock? rules.schedule = some turn ∧ s.record rules turn selection = .ok (pick, t) := by
  unfold select at h
  cases hturn : s.onClock? rules.schedule with
  | none => simp [hturn] at h
  | some turn =>
    simp only [hturn] at h
    exact ⟨turn, rfl, h⟩

theorem Places.roster_exists {s : DraftState} {rules : Rules} {turn : Turn} {selection : Selection}
    {slot : Option Position} {rosters : Array Roster}
    (h : Places s rules turn selection slot rosters) : ∃ roster, s.roster? turn.team = some roster := by
  cases h with
  | passed hroster => exact ⟨_, hroster⟩
  | benched hroster _ => exact ⟨_, hroster⟩
  | drafted hroster _ _ => exact ⟨_, hroster⟩

theorem Places.team_lt {s : DraftState} {rules : Rules} {turn : Turn} {selection : Selection}
    {slot : Option Position} {rosters : Array Roster}
    (h : Places s rules turn selection slot rosters) : turn.team < s.rosters.size := by
  obtain ⟨roster, hroster⟩ := h.roster_exists
  exact (Array.getElem?_eq_some_iff.mp hroster).1

theorem Places.size_rosters {s : DraftState} {rules : Rules} {turn : Turn} {selection : Selection}
    {slot : Option Position} {rosters : Array Roster}
    (h : Places s rules turn selection slot rosters) : rosters.size = s.rosters.size := by
  cases h with
  | passed _ => rfl
  | benched _ _ => rfl
  | drafted _ _ _ => exact Array.size_setIfInBounds

/-- The player of a selection that finds a place is on the board and was not taken. -/
theorem Places.player_free {s : DraftState} {rules : Rules} {turn : Turn} {selection : Selection}
    {slot : Option Position} {rosters : Array Roster} {id : Nat}
    (h : Places s rules turn selection slot rosters) (hid : selection.player? = some id) :
    ∃ player, rules.board.player? id = some player ∧ s.taken.contains id = false := by
  cases h with
  | passed _ => cases hid
  | benched _ hclaim =>
    cases hid
    exact ⟨_, claim_eq_ok_iff.mp hclaim⟩
  | drafted _ hclaim _ =>
    cases hid
    exact ⟨_, claim_eq_ok_iff.mp hclaim⟩

/-- The rosters after a selection finds its place: one place more is filled where the slot says so,
and nothing else changes. -/
theorem Places.filled {s : DraftState} {rules : Rules} {turn : Turn} {selection : Selection}
    {slot : Option Position} {rosters : Array Roster}
    (h : Places s rules turn selection slot rosters) {team : Nat} {after : Roster}
    (hafter : rosters[team]? = some after) :
    ∃ before, s.roster? team = some before ∧ ∀ q,
      after.filled q = before.filled q + if turn.team = team ∧ slot = some q then 1 else 0 := by
  cases h with
  | passed _ => exact ⟨after, hafter, by simp⟩
  | benched _ _ => exact ⟨after, hafter, by simp⟩
  | @drafted roster id player place hroster _ _ =>
    by_cases hteam : turn.team = team
    · subst hteam
      have hlt : turn.team < s.rosters.size := (Array.getElem?_eq_some_iff.mp hroster).1
      rw [Array.getElem?_setIfInBounds_self_of_lt hlt] at hafter
      cases hafter
      refine ⟨roster, hroster, ?_⟩
      intro q
      rw [Roster.filled_addTo]
      simp [eq_comm]
    · rw [Array.getElem?_setIfInBounds_ne hteam] at hafter
      exact ⟨after, hafter, by simp [hteam]⟩

/-- The set of players off the board has the words of one that is made for the board. -/
def Sized (s : DraftState) (board : Board) : Prop :=
  s.taken.words.size = BitWords.wordsFor board.size

theorem sized_start (numTeams : Nat) (board : Board) : (start numTeams board.size).Sized board :=
  TakenSet.size_words_withCapacity board.size

/-- Only players of the board leave it, so no words are added. -/
theorem Sized.record {s t : DraftState} {rules : Rules} {turn : Turn} {selection : Selection} {pick : Pick}
    (hs : s.Sized rules.board) (h : s.record rules turn selection = .ok (pick, t)) : t.Sized rules.board := by
  obtain ⟨slot, hplaces, -, -, htaken⟩ := places_of_record h
  unfold Sized at hs ⊢
  rw [htaken]
  cases hplayer : selection.player? with
  | none => exact hs
  | some id =>
    obtain ⟨player, hknown, -⟩ := hplaces.player_free hplayer
    have hid : id < rules.board.size := (Array.getElem?_eq_some_iff.mp hknown).1
    rw [TakenSet.size_words_insert, hs]
    unfold BitWords.wordsFor
    omega

/-- What can be done to a draft. -/
inductive Change where
  | apply (choice : Choice)
  | bench (id : Nat)
  | undo
  /-- The draft is rebuilt from these picks, whatever they are. -/
  | restore (picks : List Pick)

/-- The state after a change under some rules. A refused choice leaves it as it is, and a history that
does not apply leaves what was rebuilt so far. -/
def perform (s : DraftState) (rules : Rules) : Change → DraftState
  | .apply choice =>
    match s.apply rules choice with
    | .ok (_, next) => next
    | .error _ => s
  | .bench id =>
    match s.bench rules id with
    | .ok (_, next) => next
    | .error _ => s
  | .undo =>
    match s.undoLast rules with
    | some (_, next) => next
    | none => s
  | .restore picks => (s.restore rules picks).2

/-- The state after changes that each come with the schedule of their moment. -/
def performAll (s : DraftState) (board : Board) (reqs : Requirements)
    (changes : List (Schedule × Change)) : DraftState :=
  changes.foldl (fun s (schedule, change) => s.perform ⟨board, schedule, reqs⟩ change) s

/-- A state that recordings lead to from the start of a draft with this number of teams. The schedule
may change from one recording to the next. -/
inductive Built (board : Board) (reqs : Requirements) (numTeams : Nat) : DraftState → Prop where
  | start : Built board reqs numTeams (.start numTeams board.size)
  | record {s t : DraftState} {schedule : Schedule} {turn : Turn} {selection : Selection} {pick : Pick}
      (hs : Built board reqs numTeams s)
      (hrecord : s.record ⟨board, schedule, reqs⟩ turn selection = .ok (pick, t)) :
      Built board reqs numTeams t

section Built

variable {board : Board} {reqs : Requirements} {numTeams : Nat} {s : DraftState}

theorem Built.size_rosters (hs : Built board reqs numTeams s) : s.rosters.size = numTeams := by
  induction hs with
  | start => simp [DraftState.start]
  | record _ hrecord ih =>
    obtain ⟨_, hplaces, -⟩ := places_of_record hrecord
    exact hplaces.size_rosters.trans ih

theorem Built.cleared (hs : Built board reqs numTeams s) :
    Built board reqs numTeams (s.cleared board.size) := by
  unfold DraftState.cleared
  rw [hs.size_rosters]
  exact .start

theorem Built.select {schedule : Schedule} {selection : Selection} {pick : Pick} {t : DraftState}
    (hs : Built board reqs numTeams s)
    (h : s.select ⟨board, schedule, reqs⟩ selection = .ok (pick, t)) : Built board reqs numTeams t := by
  unfold DraftState.select at h
  split at h
  · cases h
  · exact hs.record h

theorem Built.sized (hs : Built board reqs numTeams s) : s.Sized board := by
  induction hs with
  | start => exact sized_start numTeams board
  | record _ hrecord ih => exact ih.record hrecord

/-- The player of a pick is on the board. -/
theorem Built.player_known (hs : Built board reqs numTeams s) {pick : Pick} (hpick : pick ∈ s.picks)
    {id : Nat} (hid : pick.selection.player? = some id) : ∃ player, board.player? id = some player := by
  induction hs with
  | start => simp [DraftState.start] at hpick
  | record _ hrecord ih =>
    obtain ⟨slot, hplaces, rfl, hhistory, -⟩ := places_of_record hrecord
    rw [hhistory] at hpick
    rcases Array.mem_push.mp hpick with hold | rfl
    · exact ih hold
    · obtain ⟨player, hplayer, -⟩ := hplaces.player_free hid
      exact ⟨player, hplayer⟩

/-- A replay that leaves out what does not apply goes from built states to built states. -/
theorem Built.replay (hs : Built board reqs numTeams s) (schedule : Schedule) (picks : List Pick) :
    Built board reqs numTeams (s.replay ⟨board, schedule, reqs⟩ picks) := by
  induction picks generalizing s with
  | nil => exact hs
  | cons pick picks ih =>
    simp only [DraftState.replay, List.foldl_cons]
    cases hrecord : s.record ⟨board, schedule, reqs⟩ pick.turn pick.selection with
    | error e => exact ih hs
    | ok result => exact ih (hs.record hrecord)

/-- A replay that stops at the first pick that does not apply stops in a built state. -/
theorem Built.recordAll (hs : Built board reqs numTeams s) (schedule : Schedule) (picks : List Pick) :
    Built board reqs numTeams (s.recordAll ⟨board, schedule, reqs⟩ picks).2 := by
  induction picks generalizing s with
  | nil => exact hs
  | cons pick picks ih =>
    unfold DraftState.recordAll
    cases hrecord : s.record ⟨board, schedule, reqs⟩ pick.turn pick.selection with
    | error e => exact hs
    | ok result => exact ih (hs.record hrecord)

theorem Built.of_recordAll {schedule : Schedule} {picks : List Pick} {error : Option PickError}
    {t : DraftState} (hs : Built board reqs numTeams s)
    (h : s.recordAll ⟨board, schedule, reqs⟩ picks = (error, t)) : Built board reqs numTeams t := by
  have hall := hs.recordAll schedule picks
  rwa [h] at hall

theorem Built.undoLast {schedule : Schedule} {pick : Pick} {t : DraftState}
    (hs : Built board reqs numTeams s)
    (h : s.undoLast ⟨board, schedule, reqs⟩ = some (pick, t)) : Built board reqs numTeams t := by
  obtain ⟨last, -, hlast⟩ := Option.map_eq_some_iff.mp h
  cases hlast
  exact hs.cleared.replay schedule _

theorem Built.perform (hs : Built board reqs numTeams s) (schedule : Schedule) (change : Change) :
    Built board reqs numTeams (s.perform ⟨board, schedule, reqs⟩ change) := by
  cases change with
  | apply choice =>
    simp only [DraftState.perform]
    split
    · next happly => exact hs.select happly
    · exact hs
  | bench id =>
    simp only [DraftState.perform]
    split
    · next hbench => exact hs.select hbench
    · exact hs
  | undo =>
    simp only [DraftState.perform]
    split
    · next hundo => exact hs.undoLast hundo
    · exact hs
  | restore picks => exact hs.cleared.recordAll schedule picks

/-- Whatever is done to a draft, its state stays built. -/
theorem Built.performAll (hs : Built board reqs numTeams s) (changes : List (Schedule × Change)) :
    Built board reqs numTeams (s.performAll board reqs changes) := by
  induction changes generalizing s with
  | nil => exact hs
  | cons change changes ih => exact ih (hs.perform change.1 change.2)

end Built

end DraftState

end SnakeDraft
