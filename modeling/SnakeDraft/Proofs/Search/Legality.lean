import SnakeDraft.Proofs.Board.Availability
import SnakeDraft.Proofs.Draft.Recording
import SnakeDraft.Search.Rollout

/-!
Candidates are legal. On an indexed board every candidate of a team that has a roster can be applied
(`DraftState.apply_of_mem_candidates`), so a policy that keeps to the candidates plays any draft to its end
(`rollout_ok`).
-/

namespace SnakeDraft

/-- A player who fits a slot that is needed finds a place. -/
theorem Roster.slotFor?_of_needed {roster : Roster} {reqs : Requirements} {slot position : Position}
    (hneeded : slot ∈ roster.neededSlots reqs) (hfits : slot.Fits position) :
    ∃ place, roster.slotFor? reqs position = some place := by
  have hopen : 0 < roster.openAt reqs slot := by
    simpa using (List.mem_filter.mp hneeded).2
  unfold slotFor?
  rcases hfits with ⟨hne, rfl⟩ | ⟨rfl, heligible⟩
  · refine ⟨slot, ?_⟩
    have hplayer : slot.isSlotOnly = false := by
      cases slot <;> simp_all [Position.isSlotOnly]
    simp [hplayer, hopen]
  · have hplayer : position.isSlotOnly = false := by
      cases position <;> simp_all [Position.isSlotOnly, Position.isFlexEligible]
    by_cases hown : 0 < roster.openAt reqs position
    · exact ⟨position, by simp [hplayer, hown]⟩
    · exact ⟨.flex, by simp [hplayer, hown, heligible, hopen]⟩

namespace DraftState

/-- Every team of a schedule has a roster. -/
def Seats (s : DraftState) (schedule : Schedule) : Prop :=
  ∀ turn ∈ schedule.turns, turn.team < s.rosters.size

theorem size_rosters_of_apply {s t : DraftState} {rules : Rules} {choice : Choice} {pick : Pick}
    (h : s.apply rules choice = .ok (pick, t)) : t.rosters.size = s.rosters.size := by
  unfold apply select at h
  split at h
  · cases h
  · obtain ⟨_, hplaces, -⟩ := places_of_record h
    exact hplaces.size_rosters

theorem Seats.of_apply {s t : DraftState} {rules : Rules} {choice : Choice} {pick : Pick}
    (hs : s.Seats rules.schedule) (h : s.apply rules choice = .ok (pick, t)) :
    t.Seats rules.schedule := by
  intro turn hturn
  rw [size_rosters_of_apply h]
  exact hs turn hturn

theorem Seats.roster_of_onClock {s : DraftState} {schedule : Schedule} {turn : Turn}
    (hs : s.Seats schedule) (hturn : s.onClock? schedule = some turn) :
    ∃ roster, s.roster? turn.team = some roster := by
  have hlt := hs turn (Array.mem_of_getElem? hturn)
  exact ⟨s.rosters[turn.team], Array.getElem?_eq_getElem hlt⟩

section Candidates

variable {s : DraftState} {rules : Rules} {turn : Turn} {roster : Roster} {id : Nat}

theorem mem_bestForNeeds : id ∈ s.bestForNeeds rules roster ↔
    ∃ slot ∈ roster.neededSlots rules.requirements, rules.board.bestAvailable? s.taken slot = some id := by
  rw [bestForNeeds, List.mem_eraseDups, List.mem_filterMap]

/-- The candidates are a pass alone, or the best players for the needs of the team. -/
theorem candidates_cases (hturn : s.onClock? rules.schedule = some turn)
    (hroster : s.roster? turn.team = some roster) :
    s.bestForNeeds rules roster = [] ∧ s.candidates rules = [.pass] ∨
      s.bestForNeeds rules roster ≠ [] ∧
        s.candidates rules = (s.bestForNeeds rules roster).map .player := by
  simp only [candidates, hturn, hroster]
  cases s.bestForNeeds rules roster with
  | nil => exact Or.inl ⟨rfl, rfl⟩
  | cons first rest => exact Or.inr ⟨List.cons_ne_nil first rest, rfl⟩

theorem candidates_eq_pass_iff_bestForNeeds (hturn : s.onClock? rules.schedule = some turn)
    (hroster : s.roster? turn.team = some roster) :
    s.candidates rules = [.pass] ↔ s.bestForNeeds rules roster = [] := by
  rcases candidates_cases hturn hroster with ⟨hnone, hpass⟩ | ⟨hsome, hplayers⟩
  · exact iff_of_true hpass hnone
  · refine iff_of_false (fun hpass => ?_) hsome
    rw [hplayers, List.map_eq_singleton_iff] at hpass
    obtain ⟨id, -, hid⟩ := hpass
    cases hid

theorem candidates_of_pass_mem (hpass : .pass ∈ s.candidates rules) : s.candidates rules = [.pass] := by
  unfold candidates at hpass ⊢
  split at hpass
  · simp at hpass
  · split at hpass
    · simp [*]
    · split at hpass
      · simp [*]
      · simp at hpass

end Candidates

/-- The best players for the needs of a roster are free and find a place on it. -/
theorem place_of_mem_bestForNeeds {s : DraftState} {rules : Rules} (hboard : rules.board.Indexed)
    {roster : Roster} {id : Nat} (hid : id ∈ s.bestForNeeds rules roster) :
    ∃ player place, s.claim rules.board id = .ok player ∧
      roster.slotFor? rules.requirements player.position = some place := by
  obtain ⟨slot, hslot, hbest⟩ := mem_bestForNeeds.mp hid
  obtain ⟨hfree, player, hplayer, hfits⟩ := hboard.of_bestAvailable? hbest
  obtain ⟨place, hplace⟩ := Roster.slotFor?_of_needed hslot hfits
  exact ⟨player, place, claim_eq_ok_iff.mpr ⟨hplayer, hfree⟩, hplace⟩

/-- A choice can be applied when its selection finds a place for the team on the clock. -/
theorem Places.apply_ok {s : DraftState} {rules : Rules} {turn : Turn} {choice : Choice}
    {slot : Option Position} {rosters : Array Roster}
    (hturn : s.onClock? rules.schedule = some turn)
    (h : Places s rules turn choice.selection slot rosters) :
    ∃ pick t, s.apply rules choice = .ok (pick, t) := by
  let result := ({ s with rosters } : DraftState).push turn choice.selection slot
  refine ⟨result.1, result.2, ?_⟩
  unfold apply select
  rw [hturn]
  exact record_eq_ok_iff.mpr ⟨slot, rosters, h, rfl⟩

/-- Every candidate of a team that has a roster can be applied. -/
theorem apply_of_candidate {s : DraftState} {rules : Rules} (hboard : rules.board.Indexed)
    {turn : Turn} {roster : Roster} (hturn : s.onClock? rules.schedule = some turn)
    (hroster : s.roster? turn.team = some roster) {choice : Choice}
    (hchoice : choice ∈ s.candidates rules) : ∃ pick t, s.apply rules choice = .ok (pick, t) := by
  rcases candidates_cases hturn hroster with ⟨-, hpass⟩ | ⟨-, hplayers⟩
  · rw [hpass, List.mem_singleton] at hchoice
    subst hchoice
    exact Places.apply_ok hturn (.passed hroster)
  · rw [hplayers] at hchoice
    obtain ⟨id, hid, rfl⟩ := List.mem_map.mp hchoice
    obtain ⟨player, place, hclaim, hplace⟩ := place_of_mem_bestForNeeds hboard hid
    exact Places.apply_ok hturn (.drafted hroster hclaim hplace)

theorem apply_of_mem_candidates {s : DraftState} {rules : Rules} (hboard : rules.board.Indexed)
    (hs : s.Seats rules.schedule) {choice : Choice} (hchoice : choice ∈ s.candidates rules) :
    ∃ pick t, s.apply rules choice = .ok (pick, t) := by
  cases hturn : s.onClock? rules.schedule with
  | none =>
    rw [candidates_eq_nil_iff.mpr hturn] at hchoice
    cases hchoice
  | some turn =>
    obtain ⟨roster, hroster⟩ := hs.roster_of_onClock hturn
    exact apply_of_candidate hboard hturn hroster hchoice

theorem advance_of_apply {s t : DraftState} {rules : Rules} {target : Nat} {choice : Choice}
    {pick : Pick} (h : s.apply rules choice = .ok (pick, t)) :
    s.advance rules target choice = .ok (rewardOf rules.board target pick.turn.team choice, t) := by
  unfold advance
  rw [h]
  rfl

theorem advance_of_mem_candidates {s : DraftState} {rules : Rules} (hboard : rules.board.Indexed)
    (hs : s.Seats rules.schedule) (target : Nat) {choice : Choice}
    (hchoice : choice ∈ s.candidates rules) :
    ∃ points t, s.advance rules target choice = .ok (points, t) ∧ t.Seats rules.schedule := by
  obtain ⟨pick, t, happly⟩ := apply_of_mem_candidates hboard hs hchoice
  exact ⟨_, t, advance_of_apply happly, hs.of_apply happly⟩

end DraftState

/-- A legal policy chooses a candidate of the state that it is asked for. -/
theorem Policy.Legal.choose_mem {σ : Type} {policy : Policy σ} (hpolicy : policy.Legal)
    {state : DraftState} {rules : Rules} {first choice : Choice} {rest : List Choice} {memory after : σ}
    (hcandidates : state.candidates rules = first :: rest)
    (hchoose : policy.choose memory state (first :: rest) = (choice, after)) :
    choice ∈ state.candidates rules := by
  have hlegal := hpolicy memory state (first :: rest) (List.cons_ne_nil first rest)
  rw [hchoose] at hlegal
  rw [hcandidates]
  exact hlegal

/-- A legal policy plays every draft to its end. -/
theorem rollout_ok {σ : Type} {policy : Policy σ} (hpolicy : policy.Legal) {rules : Rules}
    (hboard : rules.board.Indexed) (target : Nat) {state : DraftState}
    (hstate : state.Seats rules.schedule) (accrued : Float) (memory : σ) :
    ∃ reward after, rollout policy rules target state accrued memory = (.ok reward, after) := by
  fun_induction rollout policy rules target state accrued memory with
  | case1 state accrued memory hnone => exact ⟨accrued, memory, rfl⟩
  | case2 state accrued memory c cs hcs choice after hchoose e h =>
    obtain ⟨points, next, hadvance, -⟩ := DraftState.advance_of_mem_candidates hboard hstate target
      (hpolicy.choose_mem hcs hchoose)
    cases h.symm.trans hadvance
  | case3 state accrued memory c cs hcs choice after hchoose points next h ih =>
    obtain ⟨points', next', hadvance, hseats⟩ := DraftState.advance_of_mem_candidates hboard hstate
      target (hpolicy.choose_mem hcs hchoose)
    cases h.symm.trans hadvance
    exact ih hseats

end SnakeDraft
