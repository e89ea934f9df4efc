import SnakeDraft.Proofs.Board.Counterparts
import SnakeDraft.Proofs.Draft.Coherence
import SnakeDraft.Proofs.Draft.Replaying

/-!
Drafts on another board. A recording looks at the position of a player and at whether the player is taken, and at
nothing else. A history whose players are renamed to players of the same positions on another board, no two to one,
is therefore replayed there without an error and fills the same places
(`DraftState.Built.recordAll_renamed`).
-/

namespace SnakeDraft

def Selection.rename (f : Nat → Nat) : Selection → Selection
  | .drafted id => .drafted (f id)
  | .benched id => .benched (f id)
  | .passed => .passed

/-- The pick with the id of its player renamed. -/
def Pick.rename (f : Nat → Nat) (pick : Pick) : Pick :=
  { pick with selection := pick.selection.rename f }

@[simp] theorem Selection.player?_rename (f : Nat → Nat) (selection : Selection) :
    (selection.rename f).player? = selection.player?.map f := by
  cases selection <;> rfl

namespace DraftState

variable {board other : Board} {reqs : Requirements} {numTeams : Nat} {s t u : DraftState} {f : Nat → Nat}

theorem playersOut_of_rename (hpicks : u.picks.toList = s.picks.toList.map (Pick.rename f)) :
    u.playersOut = s.playersOut.map f := by
  unfold playersOut
  rw [hpicks, List.filterMap_map, List.map_filterMap]
  congr 1
  funext pick
  exact Selection.player?_rename f pick.selection

theorem playersOut_subset_of_record {rules : Rules} {turn : Turn} {selection : Selection} {pick : Pick}
    (h : s.record rules turn selection = .ok (pick, t)) : s.playersOut ⊆ t.playersOut := by
  rw [playersOut_of_record h]
  exact List.subset_append_left _ _

/-- A player who is free to be claimed is so under the new id. -/
theorem Coherent.claim_rename (hu : u.Coherent other reqs numTeams)
    (hpicks : u.picks.toList = s.picks.toList.map (Pick.rename f)) (hs : s.Coherent board reqs numTeams)
    {id : Nat} (hf : Renames board other f (id :: s.playersOut)) {player : Player}
    (hclaim : s.claim board id = .ok player) :
    ∃ again, u.claim other (f id) = .ok again ∧ again.position = player.position := by
  obtain ⟨hplayer, hfree⟩ := claim_eq_ok_iff.mp hclaim
  obtain ⟨again, hagain, hposition⟩ := hf.position_eq id List.mem_cons_self player hplayer
  refine ⟨again, claim_eq_ok_iff.mpr ⟨hagain, ?_⟩, hposition⟩
  rw [Bool.eq_false_iff]
  intro htaken
  rw [hu.taken_iff, playersOut_of_rename hpicks] at htaken
  obtain ⟨before, hbefore, hsame⟩ := List.mem_map.mp htaken
  obtain rfl := hf.injective before (List.mem_cons_of_mem id hbefore) id List.mem_cons_self hsame
  rw [(hs.taken_iff before).mpr hbefore] at hfree
  cases hfree

/-- A recording of a renamed selection fills the same place. -/
theorem Coherent.record_rename (hu : u.Coherent other reqs numTeams)
    (hpicks : u.picks.toList = s.picks.toList.map (Pick.rename f)) (hrosters : u.rosters = s.rosters)
    (hs : s.Coherent board reqs numTeams) {schedule : Schedule} {turn : Turn}
    {selection : Selection} {pick : Pick} (hf : Renames board other f t.playersOut)
    (h : s.record ⟨board, schedule, reqs⟩ turn selection = .ok (pick, t)) (later : Schedule) :
    ∃ next, u.record ⟨other, later, reqs⟩ turn (selection.rename f) = .ok (pick.rename f, next) ∧
      next.picks.toList = t.picks.toList.map (Pick.rename f) ∧ next.rosters = t.rosters := by
  have hpointer : u.pointer = s.pointer := by
    have hlength := congrArg List.length hpicks
    simpa [pointer] using hlength
  have hroster : ∀ team, u.roster? team = s.roster? team := by
    intro team
    rw [roster?, roster?, hrosters]
  have hclaims : ∀ id player, selection.player? = some id → s.claim board id = .ok player →
      ∃ again, u.claim other (f id) = .ok again ∧ again.position = player.position := by
    intro id player hid
    apply hu.claim_rename hpicks hs
    rw [playersOut_of_record h, hid] at hf
    exact hf.mono (by simp)
  obtain ⟨slot, hplaces, hpick, hhistory, -⟩ := places_of_record h
  have hplaces' : Places u ⟨other, later, reqs⟩ turn (selection.rename f) slot t.rosters := by
    generalize t.rosters = rosters at hplaces
    cases hplaces with
    | passed hfound =>
      rw [← hrosters]
      exact .passed ((hroster _).trans hfound)
    | benched hfound hclaim =>
      obtain ⟨again, hagain, -⟩ := hclaims _ _ rfl hclaim
      rw [← hrosters]
      exact .benched ((hroster _).trans hfound) hagain
    | drafted hfound hclaim hslot =>
      obtain ⟨again, hagain, hposition⟩ := hclaims _ _ rfl hclaim
      rw [← hrosters]
      rw [← hposition] at hslot
      exact .drafted ((hroster _).trans hfound) hagain hslot
  have hown : ⟨{ turn with index := u.pointer }, selection.rename f, slot⟩ = pick.rename f := by
    rw [hpick, hpointer]
    rfl
  let result := ({ u with rosters := t.rosters } : DraftState).push turn (selection.rename f) slot
  have hresult : result.1 = pick.rename f := hown
  refine ⟨result.2, record_eq_ok_iff.mpr ⟨slot, t.rosters, hplaces', Prod.ext hresult rfl⟩, ?_, rfl⟩
  have hpush : result.2.picks = u.picks.push (pick.rename f) := congrArg u.picks.push hown
  rw [hpush, hhistory, Array.toList_push, Array.toList_push, List.map_append, hpicks]
  rfl

/-- A draft can be built on another board, its players renamed to those of the same positions there. -/
theorem Built.exists_renamed (hs : Built board reqs numTeams s)
    (hf : Renames board other f s.playersOut) :
    ∃ u, Built other reqs numTeams u ∧ u.picks.toList = s.picks.toList.map (Pick.rename f) ∧
      u.rosters = s.rosters := by
  induction hs with
  | start => exact ⟨.start numTeams other.size, .start, rfl, rfl⟩
  | @record s t schedule turn selection pick hbefore hrecord ih =>
    obtain ⟨u, hu, hpicks, hrosters⟩ := ih (hf.mono (playersOut_subset_of_record hrecord))
    obtain ⟨next, hnext, hpicks', hrosters'⟩ := hu.coherent.record_rename hpicks hrosters
      hbefore.coherent hf hrecord schedule
    exact ⟨next, hu.record hnext, hpicks', hrosters'⟩

/-- A history is replayed on another board once its players are renamed. -/
theorem Built.recordAll_renamed (hs : Built board reqs numTeams s)
    (hf : Renames board other f s.playersOut) (schedule : Schedule) {picks : List Pick}
    (hpicks : picks.map Pick.account = (s.picks.toList.map (Pick.rename f)).map Pick.account) :
    ∃ u, (DraftState.start numTeams other.size).recordAll ⟨other, schedule, reqs⟩ picks = (none, u) ∧
      u.picks.toList = s.picks.toList.map (Pick.rename f) ∧ u.rosters = s.rosters := by
  obtain ⟨u, hu, hsame, hrosters⟩ := hs.exists_renamed hf
  rw [← hsame] at hpicks
  exact ⟨u, hu.recordAll_picks schedule hpicks, hsame, hrosters⟩

end DraftState

end SnakeDraft
