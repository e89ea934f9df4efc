import SnakeDraft.Proofs.Draft.InPlace

/-!
What becomes of a choice. The checks of a selection are made in one order, and the first that fails says why
it is refused (`DraftState.Refused`); a selection that passes them all adds one pick and what follows from it
(`DraftState.Adds`). A draft that is changed in place is left by a refused choice as it was.
-/

namespace SnakeDraft.DraftState

/-- The team that is on the clock for this turn has this roster. -/
def Serves (s : DraftState) (rules : Rules) (turn : Turn) (roster : Roster) : Prop :=
  s.onClock? rules.schedule = some turn ∧ s.roster? turn.team = some roster

/-- Why a selection is refused: one rule for each check, which says that the checks before it passed. -/
inductive Refused (s : DraftState) (rules : Rules) (selection : Selection) : PickError → Prop where
  | draftComplete (hend : rules.schedule.size ≤ s.pointer) : Refused s rules selection .draftComplete
  | unknownTeam {turn : Turn} (hturn : s.onClock? rules.schedule = some turn)
      (hteam : s.roster? turn.team = none) :
      Refused s rules selection (.unknownTeam turn.team rules.schedule.numTeams)
  | unknownPlayer {turn : Turn} {roster : Roster} {id : Nat} (hserves : s.Serves rules turn roster)
      (hid : selection.player? = some id) (hplayer : rules.board.player? id = none) :
      Refused s rules selection (.unknownPlayer s!"#{id}")
  | alreadyTaken {turn : Turn} {roster : Roster} {id : Nat} {player : Player}
      (hserves : s.Serves rules turn roster) (hid : selection.player? = some id)
      (hplayer : rules.board.player? id = some player) (htaken : s.taken.contains id = true) :
      Refused s rules selection (.alreadyTaken player.name)
  | noOpenSlot {turn : Turn} {roster : Roster} {id : Nat} {player : Player}
      (hserves : s.Serves rules turn roster) (hdrafted : selection = .drafted id)
      (hplayer : rules.board.player? id = some player) (hfree : s.taken.contains id = false)
      (hslot : roster.slotFor? rules.requirements player.position = none) :
      Refused s rules selection (.noOpenSlot player.name player.position turn.team)

/-- What a selection by the team on the clock adds to a draft. -/
structure Adds (s : DraftState) (rules : Rules) (selection : Selection) (pick : Pick) (t : DraftState) :
    Prop where
  /-- The pick is one for the turn on the clock, at the end of the history. -/
  turn_eq : ∃ turn, s.onClock? rules.schedule = some turn ∧ pick.turn = { turn with index := s.pointer }
  selection_eq : pick.selection = selection
  picks_eq : t.picks = s.picks.push pick
  taken_iff : ∀ id, t.taken.contains id = true ↔ s.taken.contains id = true ∨ selection.player? = some id
  was_free : ∀ id, selection.player? = some id → s.taken.contains id = false
  /-- Only the roster of the team that picks may change, by one place in the slot of the pick. -/
  size_rosters : t.rosters.size = s.rosters.size
  roster_of_other : ∀ team, team ≠ pick.turn.team → t.roster? team = s.roster? team
  filled_eq : ∃ before after, s.roster? pick.turn.team = some before ∧ t.roster? pick.turn.team = some after ∧
    ∀ slot, after.filled slot = before.filled slot + if pick.slot = some slot then 1 else 0
  /-- A pick has a slot exactly when it drafts a player. -/
  slot_isSome_iff : pick.slot.isSome = true ↔ ∃ id, selection = .drafted id
  rosters_eq : pick.slot = none → t.rosters = s.rosters

/-- A selection is refused for the reasons that there are, and then a program that makes it in place leaves
the draft as it was; otherwise the program adds to the draft what the selection adds. -/
structure Settles (s : DraftState) (rules : Rules) (selection : Selection)
    (outcome : Except PickError (Pick × DraftState)) (program : InPlace Pick) : Prop where
  refused_iff : ∀ e, outcome = .error e ↔ Refused s rules selection e
  unchanged : ∀ e, outcome = .error e → program.runOn s = (.error e, s)
  added : ∀ pick t, outcome = .ok (pick, t) →
    program.runOn s = (.ok pick, t) ∧ Adds s rules selection pick t

variable {s t : DraftState} {rules : Rules} {selection : Selection} {e : PickError}

theorem onClock?_eq_none_iff {schedule : Schedule} :
    s.onClock? schedule = none ↔ schedule.size ≤ s.pointer :=
  Array.getElem?_eq_none_iff

theorem claim_eq_error_iff {board : Board} {id : Nat} :
    s.claim board id = .error e ↔
      board.player? id = none ∧ .unknownPlayer s!"#{id}" = e ∨
      ∃ player, board.player? id = some player ∧ s.taken.contains id = true ∧
        .alreadyTaken player.name = e := by
  unfold claim
  cases board.player? id with
  | none => simp
  | some player => cases s.taken.contains id <;> simp

theorem draft_eq_error_iff {turn : Turn} {roster : Roster} {id : Nat} {player : Player} :
    s.draft rules turn roster id player = .error e ↔
      roster.slotFor? rules.requirements player.position = none ∧
        .noOpenSlot player.name player.position turn.team = e := by
  unfold draft Roster.fill
  cases roster.slotFor? rules.requirements player.position <;> simp

theorem Refused.of_claim {turn : Turn} {roster : Roster} {id : Nat}
    (hserves : s.Serves rules turn roster) (hid : selection.player? = some id)
    (hclaim : s.claim rules.board id = .error e) : Refused s rules selection e := by
  rcases claim_eq_error_iff.mp hclaim with ⟨hplayer, rfl⟩ | ⟨player, hplayer, htaken, rfl⟩
  · exact .unknownPlayer hserves hid hplayer
  · exact .alreadyTaken hserves hid hplayer htaken

theorem Refused.of_record {turn : Turn} {roster : Roster} (hserves : s.Serves rules turn roster)
    (h : s.record rules turn selection = .error e) : Refused s rules selection e := by
  simp only [record, hserves.2] at h
  cases selection with
  | passed => cases h
  | benched id =>
    cases hclaim : s.claim rules.board id with
    | ok player => simp only [hclaim, reduceCtorEq] at h
    | error refusal =>
      simp only [hclaim, Except.error.injEq] at h
      exact .of_claim hserves rfl (h ▸ hclaim)
  | drafted id =>
    cases hclaim : s.claim rules.board id with
    | error refusal =>
      simp only [hclaim, Except.error.injEq] at h
      exact .of_claim hserves rfl (h ▸ hclaim)
    | ok player =>
      simp only [hclaim] at h
      obtain ⟨hplayer, hfree⟩ := claim_eq_ok_iff.mp hclaim
      obtain ⟨hslot, rfl⟩ := draft_eq_error_iff.mp h
      exact .noOpenSlot hserves rfl hplayer hfree hslot

theorem Refused.of_select (h : s.select rules selection = .error e) : Refused s rules selection e := by
  unfold select at h
  cases hturn : s.onClock? rules.schedule with
  | none =>
    simp only [hturn, Except.error.injEq] at h
    exact h ▸ .draftComplete (onClock?_eq_none_iff.mp hturn)
  | some turn =>
    simp only [hturn] at h
    cases hteam : s.roster? turn.team with
    | none =>
      simp only [record, hteam, Except.error.injEq] at h
      exact h ▸ .unknownTeam hturn hteam
    | some roster => exact .of_record ⟨hturn, hteam⟩ h

theorem select_of_claim {turn : Turn} {roster : Roster} {id : Nat}
    (hserves : s.Serves rules turn roster) (hid : selection.player? = some id)
    (hclaim : s.claim rules.board id = .error e) : s.select rules selection = .error e := by
  obtain ⟨hturn, hteam⟩ := hserves
  cases selection with
  | passed => cases hid
  | benched id =>
    cases hid
    simp only [select, hturn, record, hteam, hclaim]
  | drafted id =>
    cases hid
    simp only [select, hturn, record, hteam, hclaim]

/-- A selection is refused with an error exactly for the reason that the error names. -/
theorem select_eq_error_iff : s.select rules selection = .error e ↔ Refused s rules selection e := by
  constructor
  · exact Refused.of_select
  · intro h
    cases h with
    | draftComplete hend => simp only [select, onClock?_eq_none_iff.mpr hend]
    | unknownTeam hturn hteam => simp only [select, hturn, record, hteam]
    | unknownPlayer hserves hid hplayer =>
      exact select_of_claim hserves hid (claim_eq_error_iff.mpr (Or.inl ⟨hplayer, rfl⟩))
    | alreadyTaken hserves hid hplayer htaken =>
      exact select_of_claim hserves hid (claim_eq_error_iff.mpr (Or.inr ⟨_, hplayer, htaken, rfl⟩))
    | noOpenSlot hserves hdrafted hplayer hfree hslot =>
      obtain ⟨hturn, hteam⟩ := hserves
      subst hdrafted
      simp only [select, hturn, record, hteam, claim_eq_ok_iff.mpr ⟨hplayer, hfree⟩]
      exact draft_eq_error_iff.mpr ⟨hslot, rfl⟩

theorem taken_iff_of_record {turn : Turn} {pick : Pick} (h : s.record rules turn selection = .ok (pick, t))
    (id : Nat) : t.taken.contains id = true ↔ s.taken.contains id = true ∨ selection.player? = some id := by
  obtain ⟨-, -, -, -, htaken⟩ := places_of_record h
  rw [htaken]
  cases selection.player? with
  | none => simp
  | some other =>
    rw [TakenSet.contains_insert, Bool.or_eq_true, beq_iff_eq, Option.some.injEq, eq_comm (a := id)]

theorem Places.roster_of_other {turn : Turn} {slot : Option Position} {rosters : Array Roster}
    (h : Places s rules turn selection slot rosters) {team : Nat} (hne : team ≠ turn.team) :
    rosters[team]? = s.roster? team := by
  cases h with
  | passed _ => rfl
  | benched _ _ => rfl
  | drafted _ _ _ => exact Array.getElem?_setIfInBounds_ne hne.symm

theorem Places.slot_isSome_iff {turn : Turn} {slot : Option Position} {rosters : Array Roster}
    (h : Places s rules turn selection slot rosters) :
    slot.isSome = true ↔ ∃ id, selection = .drafted id := by
  cases h <;> simp

theorem Places.rosters_eq {turn : Turn} {rosters : Array Roster}
    (h : Places s rules turn selection none rosters) : rosters = s.rosters := by
  cases h <;> rfl

theorem adds_of_select {pick : Pick} (h : s.select rules selection = .ok (pick, t)) :
    Adds s rules selection pick t := by
  obtain ⟨turn, hturn, hrecord⟩ := record_of_select h
  have htaken := taken_iff_of_record hrecord
  obtain ⟨slot, hplaces, rfl, hpicks, -⟩ := places_of_record hrecord
  have hlt : turn.team < t.rosters.size := hplaces.size_rosters ▸ hplaces.team_lt
  have hafter : t.roster? turn.team = some t.rosters[turn.team] := Array.getElem?_eq_getElem hlt
  obtain ⟨before, hbefore, hfilled⟩ := hplaces.filled hafter
  constructor
  case turn_eq => exact ⟨turn, hturn, rfl⟩
  case selection_eq => rfl
  case picks_eq => exact hpicks
  case taken_iff => exact htaken
  case was_free =>
    intro id hid
    obtain ⟨_, -, hfree⟩ := hplaces.player_free hid
    exact hfree
  case size_rosters => exact hplaces.size_rosters
  case roster_of_other =>
    intro team hne
    exact hplaces.roster_of_other hne
  case filled_eq =>
    refine ⟨before, _, hbefore, hafter, ?_⟩
    intro q
    rw [hfilled q]
    simp only [true_and]
  case slot_isSome_iff => exact hplaces.slot_isSome_iff
  case rosters_eq =>
    rintro rfl
    exact hplaces.rosters_eq

theorem settles_select (s : DraftState) (rules : Rules) (selection : Selection) :
    Settles s rules selection (s.select rules selection) (selectInPlace rules selection) := by
  constructor
  case refused_iff =>
    intro e
    exact select_eq_error_iff
  case unchanged =>
    intro e h
    rw [runOn_selectInPlace, h, settled]
  case added =>
    intro pick t h
    rw [runOn_selectInPlace, h, settled]
    exact ⟨rfl, adds_of_select h⟩

theorem Refused.of_passed (h : Refused s rules .passed e) :
    e = .draftComplete ∨ ∃ team, e = .unknownTeam team rules.schedule.numTeams := by
  cases h with
  | draftComplete _ => exact Or.inl rfl
  | unknownTeam _ _ => exact Or.inr ⟨_, rfl⟩
  | unknownPlayer _ hid _ => cases hid
  | alreadyTaken _ hid _ _ => cases hid
  | noOpenSlot _ hdrafted _ _ _ => cases hdrafted

/-- Benching is refused for every reason for which drafting the same player is, but for want of an open slot.
-/
theorem refused_benched_iff {id : Nat} :
    Refused s rules (.benched id) e ↔
      Refused s rules (.drafted id) e ∧ ∀ name position team, e ≠ .noOpenSlot name position team := by
  constructor
  · intro h
    cases h with
    | draftComplete hend => exact ⟨.draftComplete hend, by simp⟩
    | unknownTeam hturn hteam => exact ⟨.unknownTeam hturn hteam, by simp⟩
    | unknownPlayer hserves hid hplayer => exact ⟨.unknownPlayer hserves hid hplayer, by simp⟩
    | alreadyTaken hserves hid hplayer htaken => exact ⟨.alreadyTaken hserves hid hplayer htaken, by simp⟩
    | noOpenSlot _ hdrafted _ _ _ => cases hdrafted
  · rintro ⟨h, hslot⟩
    cases h with
    | draftComplete hend => exact .draftComplete hend
    | unknownTeam hturn hteam => exact .unknownTeam hturn hteam
    | unknownPlayer hserves hid hplayer => exact .unknownPlayer hserves hid hplayer
    | alreadyTaken hserves hid hplayer htaken => exact .alreadyTaken hserves hid hplayer htaken
    | noOpenSlot _ _ _ _ _ => exact absurd rfl (hslot _ _ _)

/-- Every choice for the team on the clock is refused for the reason of the first check that fails and then
changes nothing, or adds one pick and what follows from it. A pass is refused only when there is no turn or no
team for it, and benching a player is refused as drafting that player is, but for want of an open slot. -/
theorem choices_settle (s : DraftState) (rules : Rules) :
    (∀ choice, Settles s rules choice.selection (s.apply rules choice) (applyInPlace rules choice)) ∧
    (∀ id, Settles s rules (.benched id) (s.bench rules id) (benchInPlace rules id)) ∧
    (∀ e, s.apply rules .pass = .error e →
      e = .draftComplete ∨ ∃ team, e = .unknownTeam team rules.schedule.numTeams) ∧
    ∀ id e, s.bench rules id = .error e ↔
      s.apply rules (.player id) = .error e ∧ ∀ name position team, e ≠ .noOpenSlot name position team := by
  refine ⟨?_, ?_, ?_, ?_⟩
  · intro choice
    exact settles_select s rules choice.selection
  · intro id
    exact settles_select s rules (.benched id)
  · intro e h
    exact Refused.of_passed (select_eq_error_iff.mp h)
  · intro id e
    unfold bench apply
    rw [select_eq_error_iff, select_eq_error_iff]
    exact refused_benched_iff

end SnakeDraft.DraftState
