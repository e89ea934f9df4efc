import SnakeDraft.Proofs.Draft.Recording
import SnakeDraft.Proofs.TakenSet

/-!
The three records of a draft agree. A state keeps the picks, the players off the board and the rosters
side by side, and `DraftState.Coherent` says how each of the last two follows from the first. It holds of
every built state (`DraftState.Built.coherent`), so whatever is done to a draft keeps it, replays
included.
-/

namespace SnakeDraft

/-- Whether a pick fills a place of this slot for this team. -/
def Pick.fills (team : Nat) (slot : Position) (pick : Pick) : Bool :=
  pick.turn.team == team && pick.slot == some slot

/-- The slot that is recorded in a pick is one its player may fill: the own position, or FLEX where
the position allows it. A pick that drafts nobody fills no slot. -/
def Pick.SlotAllowed (board : Board) (pick : Pick) : Prop :=
  match pick.selection with
  | .drafted id => ∃ player slot, board.player? id = some player ∧ pick.slot = some slot ∧
      (slot = player.position ∨ slot = .flex ∧ player.position.isFlexEligible = true)
  | .benched _ => pick.slot = none
  | .passed => pick.slot = none

theorem Roster.slot_of_slotFor? {roster : Roster} {reqs : Requirements} {position slot : Position}
    (h : roster.slotFor? reqs position = some slot) :
    slot = position ∨ slot = .flex ∧ position.isFlexEligible = true := by
  unfold slotFor? at h
  split at h
  · cases h
  · split at h
    · exact Or.inl (Option.some.inj h).symm
    · split at h
      · next hflex => exact Or.inr ⟨(Option.some.inj h).symm, hflex.1⟩
      · cases h

/-- A place that is filled is one of at most 255. -/
theorem Roster.filled_le_of_fill {roster next : Roster} {reqs : Requirements}
    {position slot : Position} (h : roster.fill reqs position = some (slot, next)) :
    next.filled slot ≤ 255 := by
  obtain ⟨place, hplace, hnext⟩ := Option.map_eq_some_iff.mp h
  cases hnext
  have hopen := open_of_slotFor? hplace
  have hbound := reqs.required_lt slot
  rw [filled_addTo, if_pos rfl]
  omega

namespace DraftState

/-- The players that were drafted or benched, in pick order. -/
def playersOut (s : DraftState) : List Nat :=
  s.picks.toList.filterMap (·.selection.player?)

/-- Picks, players off the board and rosters of a draft tell the same story. -/
structure Coherent (board : Board) (reqs : Requirements) (numTeams : Nat) (s : DraftState) :
    Prop where
  /-- A pick is recorded under its place in the history. -/
  index_eq : ∀ (i : Nat) (pick : Pick), s.picks[i]? = some pick → pick.turn.index = i
  size_rosters : s.rosters.size = numTeams
  team_lt : ∀ pick ∈ s.picks, pick.turn.team < numTeams
  /-- No player is out by two picks. -/
  nodup_playersOut : s.playersOut.Nodup
  taken_iff : ∀ id, s.taken.contains id = true ↔ id ∈ s.playersOut
  size_taken : s.taken.size = s.playersOut.length
  /-- The places that a team has filled are those of its picks. -/
  filled_eq : ∀ (team : Nat) (roster : Roster), s.roster? team = some roster → ∀ slot,
    roster.filled slot = s.picks.toList.countP (Pick.fills team slot)
  filled_le : ∀ (team : Nat) (roster : Roster), s.roster? team = some roster → ∀ slot,
    roster.filled slot ≤ reqs.required slot
  slot_allowed : ∀ pick ∈ s.picks, pick.SlotAllowed board

variable {board : Board} {reqs : Requirements} {numTeams : Nat} {s t : DraftState}

theorem coherent_start (boardSize : Nat) : (start numTeams boardSize).Coherent board reqs numTeams := by
  have hempty : ∀ (team : Nat) (roster : Roster), (start numTeams boardSize).roster? team = some roster →
      ∀ slot, roster.filled slot = 0 := by
    intro team roster hroster slot
    obtain ⟨_, hget⟩ := Array.getElem?_eq_some_iff.mp hroster
    simp only [start, Array.getElem_replicate] at hget
    rw [← hget, Roster.filled_empty]
  constructor
  case filled_eq =>
    intro team roster hroster slot
    rw [hempty team roster hroster slot]
    rfl
  case filled_le =>
    intro team roster hroster slot
    rw [hempty team roster hroster slot]
    exact Nat.zero_le _
  all_goals simp [start, playersOut]

theorem Coherent.indices (hs : s.Coherent board reqs numTeams) :
    s.picks.toList.map (·.turn.index) = List.range s.pointer := by
  apply List.ext_getElem?
  intro i
  rw [List.getElem?_map, Array.getElem?_toList]
  cases hpick : s.picks[i]? with
  | none =>
    have hge := Array.getElem?_eq_none_iff.mp hpick
    simpa [pointer] using hge
  | some pick =>
    have hlt : i < s.pointer := (Array.getElem?_eq_some_iff.mp hpick).1
    rw [Option.map_some, hs.index_eq i pick hpick, List.getElem?_range hlt]

/-- The players out after a recording. -/
theorem playersOut_of_record {rules : Rules} {turn : Turn} {selection : Selection} {pick : Pick}
    (h : s.record rules turn selection = .ok (pick, t)) :
    t.playersOut = s.playersOut ++ selection.player?.toList := by
  obtain ⟨slot, -, rfl, hpicks, -⟩ := places_of_record h
  unfold playersOut
  rw [hpicks, Array.toList_push, List.filterMap_append]
  cases hplayer : selection.player? <;> simp [hplayer]

/-- A recording changes who is off the board by exactly the player of the selection. -/
theorem Coherent.players_of_record {rules : Rules} {turn : Turn} {selection : Selection} {pick : Pick}
    (hs : s.Coherent board reqs numTeams) (h : s.record rules turn selection = .ok (pick, t)) :
    t.playersOut.Nodup ∧ (∀ id, t.taken.contains id = true ↔ id ∈ t.playersOut) ∧
      t.taken.size = t.playersOut.length := by
  obtain ⟨slot, hplaces, -, -, htaken⟩ := places_of_record h
  rw [playersOut_of_record h, htaken]
  cases hplayer : selection.player? with
  | none =>
    simp only [Option.toList_none, List.append_nil]
    exact ⟨hs.nodup_playersOut, hs.taken_iff, hs.size_taken⟩
  | some id =>
    obtain ⟨_, -, hfree⟩ := hplaces.player_free hplayer
    have hnew : id ∉ s.playersOut := by
      rw [← hs.taken_iff, hfree]
      simp
    refine ⟨?_, ?_, ?_⟩
    · rw [Option.toList_some, List.nodup_append]
      refine ⟨hs.nodup_playersOut, by simp, ?_⟩
      intro a ha b hb heq
      rw [List.mem_singleton] at hb
      exact hnew (hb ▸ heq ▸ ha)
    · intro other
      rw [TakenSet.contains_insert, Bool.or_eq_true, hs.taken_iff]
      simp
    · rw [TakenSet.size_insert hfree, hs.size_taken]
      simp

/-- A place is only taken where one is open, so no more are filled than required. -/
theorem Places.filled_le {rules : Rules} {turn : Turn} {selection : Selection}
    {slot : Option Position} {rosters : Array Roster}
    (h : Places s rules turn selection slot rosters)
    (hle : ∀ (team : Nat) (roster : Roster), s.roster? team = some roster → ∀ q,
      roster.filled q ≤ rules.requirements.required q)
    {team : Nat} {after : Roster} (hafter : rosters[team]? = some after) (q : Position) :
    after.filled q ≤ rules.requirements.required q := by
  obtain ⟨before, hbefore, hfilled⟩ := h.filled hafter
  have hbound := hle team before hbefore q
  rw [hfilled q]
  split
  · next hfills =>
    obtain ⟨rfl, hslot⟩ := hfills
    cases h with
    | passed _ => cases hslot
    | benched _ _ => cases hslot
    | drafted hroster _ hopen =>
      cases hslot
      cases hroster.symm.trans hbefore
      exact Roster.open_of_slotFor? hopen
  · exact hbound

theorem Places.slot_allowed {rules : Rules} {turn : Turn} {selection : Selection}
    {slot : Option Position} {rosters : Array Roster}
    (h : Places s rules turn selection slot rosters) (recorded : Turn) :
    (⟨recorded, selection, slot⟩ : Pick).SlotAllowed rules.board := by
  cases h with
  | passed _ => rfl
  | benched _ _ => rfl
  | drafted _ hclaim hslot =>
    obtain ⟨hplayer, -⟩ := claim_eq_ok_iff.mp hclaim
    exact ⟨_, _, hplayer, rfl, Roster.slot_of_slotFor? hslot⟩

/-- What one recording keeps. -/
theorem Coherent.record {schedule : Schedule} {turn : Turn} {selection : Selection} {pick : Pick}
    (hs : s.Coherent board reqs numTeams)
    (h : s.record ⟨board, schedule, reqs⟩ turn selection = .ok (pick, t)) :
    t.Coherent board reqs numTeams := by
  obtain ⟨hnodup, htaken, hsize⟩ := hs.players_of_record h
  obtain ⟨slot, hplaces, rfl, hpicks, -⟩ := places_of_record h
  constructor
  case index_eq =>
    intro i p hp
    rw [hpicks, Array.getElem?_push] at hp
    split at hp
    · next hi =>
      cases hp
      exact hi.symm
    · exact hs.index_eq i p hp
  case size_rosters => exact hplaces.size_rosters.trans hs.size_rosters
  case team_lt =>
    intro p hp
    rw [hpicks, Array.mem_push] at hp
    rcases hp with hold | rfl
    · exact hs.team_lt p hold
    · exact hs.size_rosters ▸ hplaces.team_lt
  case nodup_playersOut => exact hnodup
  case taken_iff => exact htaken
  case size_taken => exact hsize
  case filled_eq =>
    intro team after hafter q
    obtain ⟨before, hbefore, hfilled⟩ := hplaces.filled hafter
    rw [hfilled q, hs.filled_eq team before hbefore q, hpicks, Array.toList_push,
      List.countP_append, List.countP_singleton]
    simp [Pick.fills]
  case filled_le =>
    intro team after hafter
    exact hplaces.filled_le hs.filled_le hafter
  case slot_allowed =>
    intro p hp
    rw [hpicks, Array.mem_push] at hp
    rcases hp with hold | rfl
    · exact hs.slot_allowed p hold
    · exact hplaces.slot_allowed _

theorem Built.coherent (hs : Built board reqs numTeams s) : s.Coherent board reqs numTeams := by
  induction hs with
  | start => exact coherent_start board.size
  | record _ hrecord ih => exact ih.record hrecord

/-- Whatever is done to a draft of any number of teams, under schedules that may change at any time and
with any histories to restore, its records agree; and a place that is filled next makes at most 255. -/
theorem coherent_performAll (board : Board) (reqs : Requirements) (numTeams : Nat)
    (changes : List (Schedule × Change)) :
    let s := (start numTeams board.size).performAll board reqs changes
    s.Coherent board reqs numTeams ∧
      ∀ (team : Nat) (roster next : Roster) (position slot : Position),
        s.roster? team = some roster → roster.fill reqs position = some (slot, next) →
          next.filled slot ≤ 255 := by
  intro s
  refine ⟨(Built.start.performAll changes).coherent, ?_⟩
  intro team roster next position slot _ hfill
  exact Roster.filled_le_of_fill hfill

end DraftState

end SnakeDraft
