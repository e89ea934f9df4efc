import Mathlib.Data.List.Basic
import SnakeDraft.Proofs.Draft.Replaying

/-!
Replaying part of a history. A state is within another one (`DraftState.Within`) when it has no more players
off the board and no more places filled at any slot. What the larger state records the smaller one records
too, though maybe at another slot: a player for whom only FLEX was left may find the own position open. So a
history from which picks are missing can always be replayed (`DraftState.Built.recordAll_sublist`).
-/

namespace SnakeDraft

/-- No more places are filled than in another roster, at any slot. -/
def Roster.Within (roster other : Roster) : Prop :=
  ∀ slot, roster.filled slot ≤ other.filled slot

/-- A player who finds a place finds one in a roster with fewer places filled, and there are no more places
filled afterwards. -/
theorem Roster.Within.slotFor? {roster other : Roster} (h : roster.Within other) {reqs : Requirements}
    {position slot : Position} (hslot : other.slotFor? reqs position = some slot) :
    ∃ place, roster.slotFor? reqs position = some place ∧
      (roster.addTo place).Within (other.addTo slot) := by
  have hown := h position
  have hflex := h .flex
  unfold Roster.slotFor? Roster.openAt at hslot ⊢
  split at hslot
  · cases hslot
  · next hslotOnly =>
    rw [if_neg hslotOnly]
    split at hslot
    · next hopen =>
      cases hslot
      refine ⟨position, if_pos (by omega), fun q => ?_⟩
      rw [filled_addTo, filled_addTo]
      have hq := h q
      omega
    · next hfull =>
      split at hslot
      · next heligible =>
        cases hslot
        by_cases hopen : 0 < reqs.required position - roster.filled position
        · -- the own position is still open, where the larger roster is full
          refine ⟨position, if_pos hopen, fun q => ?_⟩
          rw [filled_addTo, filled_addTo]
          have hq := h q
          by_cases heq : q = position
          · subst heq
            rw [if_pos rfl]
            omega
          · rw [if_neg heq]
            omega
        · refine ⟨.flex, by rw [if_neg hopen, if_pos ⟨heligible.1, by omega⟩], fun q => ?_⟩
          rw [filled_addTo, filled_addTo]
          have hq := h q
          omega
      · cases hslot

namespace DraftState

/-- No more players are off the board and no more places are filled than in another state of a draft with as
many teams. -/
structure Within (t s : DraftState) : Prop where
  taken : ∀ id, t.taken.contains id = true → s.taken.contains id = true
  rosters : ∀ team other, s.roster? team = some other →
    ∃ roster, t.roster? team = some roster ∧ roster.Within other

variable {s s' t : DraftState} {rules : Rules} {turn : Turn} {selection : Selection} {pick : Pick}

theorem Within.refl (s : DraftState) : s.Within s :=
  ⟨fun _ h => h, fun _ roster hroster => ⟨roster, hroster, fun _ => Nat.le_refl _⟩⟩

theorem contains_taken_of_record (h : s.record rules turn selection = .ok (pick, s')) (id : Nat) :
    s'.taken.contains id = true ↔ s.taken.contains id = true ∨ selection.player? = some id := by
  obtain ⟨slot, -, -, -, htaken⟩ := places_of_record h
  rw [htaken]
  cases hplayer : selection.player? with
  | none => simp
  | some other =>
    rw [TakenSet.contains_insert, Bool.or_eq_true, beq_iff_eq, Option.some_inj]
    exact or_congr_right eq_comm

/-- A state stays within one that goes on. -/
theorem Within.of_record (h : t.Within s) (hrecord : s.record rules turn selection = .ok (pick, s')) :
    t.Within s' := by
  obtain ⟨slot, hplaces, -⟩ := places_of_record hrecord
  constructor
  case taken =>
    intro id hid
    exact (contains_taken_of_record hrecord id).mpr (.inl (h.taken id hid))
  case rosters =>
    intro team after hafter
    obtain ⟨before, hbefore, hfilled⟩ := hplaces.filled hafter
    obtain ⟨roster, hroster, hwithin⟩ := h.rosters team before hbefore
    refine ⟨roster, hroster, fun q => ?_⟩
    have hq := hwithin q
    have hq' := hfilled q
    omega

theorem Within.claim (h : t.Within s) {board : Board} {id : Nat} {player : Player}
    (hclaim : s.claim board id = .ok player) : t.claim board id = .ok player := by
  obtain ⟨hplayer, hfree⟩ := claim_eq_ok_iff.mp hclaim
  refine claim_eq_ok_iff.mpr ⟨hplayer, ?_⟩
  cases htaken : t.taken.contains id with
  | false => rfl
  | true => rw [h.taken id htaken] at hfree; cases hfree

theorem Within.places (h : t.Within s) {slot : Option Position} {rosters : Array Roster}
    (hplaces : Places s rules turn selection slot rosters) :
    ∃ place rosters', Places t rules turn selection place rosters' ∧
      ∀ (team : Nat) (other : Roster), rosters[team]? = some other →
        ∃ roster : Roster, rosters'[team]? = some roster ∧ roster.Within other := by
  cases hplaces with
  | passed hroster =>
    obtain ⟨roster, hroster', -⟩ := h.rosters _ _ hroster
    exact ⟨none, t.rosters, .passed hroster', h.rosters⟩
  | benched hroster hclaim =>
    obtain ⟨roster, hroster', -⟩ := h.rosters _ _ hroster
    exact ⟨none, t.rosters, .benched hroster' (h.claim hclaim), h.rosters⟩
  | drafted hroster hclaim hslot =>
    obtain ⟨roster, hroster', hwithin⟩ := h.rosters _ _ hroster
    obtain ⟨place, hplace, hafter⟩ := hwithin.slotFor? hslot
    refine ⟨some place, _, .drafted hroster' (h.claim hclaim) hplace, ?_⟩
    intro team other hother
    have hlt : turn.team < s.rosters.size := (Array.getElem?_eq_some_iff.mp hroster).1
    have hlt' : turn.team < t.rosters.size := (Array.getElem?_eq_some_iff.mp hroster').1
    by_cases hteam : turn.team = team
    · subst hteam
      rw [Array.getElem?_setIfInBounds_self_of_lt hlt] at hother
      rw [Array.getElem?_setIfInBounds_self_of_lt hlt']
      cases hother
      exact ⟨_, rfl, hafter⟩
    · rw [Array.getElem?_setIfInBounds_ne hteam] at hother ⊢
      exact h.rosters team other hother

/-- What a state records, one within it records too, and stays within it. -/
theorem Within.record (h : t.Within s) (hrecord : s.record rules turn selection = .ok (pick, s')) :
    ∃ own t', t.record rules turn selection = .ok (own, t') ∧ t'.Within s' := by
  obtain ⟨slot, hplaces, -⟩ := places_of_record hrecord
  obtain ⟨place, rosters', hplaces', hrosters⟩ := h.places hplaces
  have hrecord' := record_eq_ok_iff.mpr ⟨place, rosters', hplaces', rfl⟩
  refine ⟨_, _, hrecord', ?_, hrosters⟩
  intro id hid
  rw [contains_taken_of_record hrecord]
  rw [contains_taken_of_record hrecord'] at hid
  exact hid.imp_left (h.taken id)

section Built

variable {board : Board} {reqs : Requirements} {numTeams : Nat}

/-- A history can be replayed without some of its picks, under any schedule. -/
theorem Built.recordAll_sublist (hs : Built board reqs numTeams s) (schedule : Schedule)
    {picks : List Pick} (hpicks : (picks.map Pick.account).Sublist (s.picks.toList.map Pick.account)) :
    ∃ t, (DraftState.start numTeams board.size).recordAll ⟨board, schedule, reqs⟩ picks = (none, t) ∧
      Built board reqs numTeams t ∧ t.Within s := by
  induction hs generalizing picks with
  | start =>
    have hnone : picks = [] := by simpa [DraftState.start] using hpicks
    subst hnone
    exact ⟨_, rfl, .start, .refl _⟩
  | @record s s' _ turn selection pick _ hrecord ih =>
    obtain ⟨slot, -, hpick, hhistory, -⟩ := places_of_record hrecord
    rw [hhistory, Array.toList_push, List.map_append, List.sublist_append_iff] at hpicks
    obtain ⟨front, back, hsplit, hfront, hback⟩ := hpicks
    obtain ⟨before, after, rfl, rfl, rfl⟩ := List.map_eq_append_iff.mp hsplit
    obtain ⟨t, hreplay, hbuilt, hwithin⟩ := ih hfront
    rcases List.sublist_singleton.mp hback with hmissing | hthere
    · -- the last pick is missing
      obtain rfl := List.map_eq_nil_iff.mp hmissing
      rw [List.append_nil]
      exact ⟨t, hreplay, hbuilt, hwithin.of_record hrecord⟩
    · obtain ⟨last, rfl, hlast⟩ := List.map_eq_singleton_iff.mp hthere
      subst hpick
      obtain ⟨hteam, hround, hselection⟩ : last.turn.team = turn.team ∧
          last.turn.round = turn.round ∧ last.selection = selection := by
        simpa [Pick.account] using hlast
      obtain ⟨own, t', hrecord', hwithin'⟩ := hwithin.record hrecord
      refine ⟨t', ?_, hbuilt.record hrecord', hwithin'⟩
      rw [recordAll_concat hreplay, DraftState.recordAll, hselection,
        record_of_record hteam hround hrecord']
      rfl

end Built

end DraftState

end SnakeDraft
