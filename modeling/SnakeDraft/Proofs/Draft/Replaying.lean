import SnakeDraft.Proofs.Draft.Recording

/-!
Replaying a history. What a recording does depends on the team and round of its turn alone, so the picks of
a built state lead to that state again under any schedule, even when they have lost their numbers and slots
(`DraftState.Built.recordAll_picks`). Undoing a pick therefore leads to the state before that pick.
-/

namespace SnakeDraft

/-- What a history must tell of a pick: who made it, in which round, and what was selected. -/
def Pick.account (p : Pick) : Nat × Nat × Selection :=
  (p.turn.team, p.turn.round, p.selection)

/-- Picks with the same accounts under the same numbers differ in their slots at most. -/
theorem Pick.eq_of_accounts {xs ys : List Pick} (hslot : ∀ pick ∈ xs, pick.slot = none)
    (haccounts : ys.map account = xs.map account)
    (hindices : ys.map (·.turn.index) = xs.map (·.turn.index)) :
    xs = ys.map fun pick => { pick with slot := none } := by
  induction xs generalizing ys with
  | nil =>
    rw [List.map_eq_nil_iff.mp haccounts]
    rfl
  | cons x xs ih =>
    obtain ⟨y, ys, rfl, haccount, haccounts⟩ := List.map_eq_cons_iff.mp haccounts
    simp only [List.map_cons, List.cons.injEq] at hindices ⊢
    refine ⟨?_, ih (fun pick hpick => hslot pick (List.mem_cons_of_mem x hpick)) haccounts hindices.2⟩
    have hnone := hslot x List.mem_cons_self
    obtain ⟨⟨_, _, _⟩, _, _⟩ := x
    obtain ⟨⟨_, _, _⟩, _, _⟩ := y
    simp_all [account]

namespace DraftState

@[simp] theorem cleared_start (numTeams boardSize other : Nat) :
    (start numTeams boardSize).cleared other = start numTeams other := by
  simp [cleared, start]

/-- Neither the schedule nor the index of the turn matters to a recording that succeeds. -/
theorem record_of_record {s t : DraftState} {board : Board} {reqs : Requirements}
    {schedule other : Schedule} {turn again : Turn} {selection : Selection} {pick : Pick}
    (hteam : again.team = turn.team) (hround : again.round = turn.round)
    (h : s.record ⟨board, schedule, reqs⟩ turn selection = .ok (pick, t)) :
    s.record ⟨board, other, reqs⟩ again selection = .ok (pick, t) := by
  obtain ⟨index, team, round⟩ := turn
  obtain ⟨_, _, _⟩ := again
  cases hteam
  cases hround
  obtain ⟨slot, rosters, hplaces, hpush⟩ := record_eq_ok_iff.mp h
  refine record_eq_ok_iff.mpr ⟨slot, rosters, ?_, hpush⟩
  cases hplaces with
  | passed hroster => exact .passed hroster
  | benched hroster hclaim => exact .benched hroster hclaim
  | drafted hroster hclaim hslot => exact .drafted hroster hclaim hslot

/-- A replay without an error records its first pick and goes on without an error. -/
theorem recordAll_cons_eq_none {s t : DraftState} {rules : Rules} {pick : Pick} {picks : List Pick}
    (h : s.recordAll rules (pick :: picks) = (none, t)) :
    ∃ own next, s.record rules pick.turn pick.selection = .ok (own, next) ∧
      next.recordAll rules picks = (none, t) := by
  rw [recordAll] at h
  cases hrecord : s.record rules pick.turn pick.selection with
  | error e => simp [hrecord] at h
  | ok result =>
    simp only [hrecord] at h
    exact ⟨result.1, result.2, rfl, h⟩

theorem Sized.recordAll {s t : DraftState} {rules : Rules} {picks : List Pick} (hs : s.Sized rules.board)
    (h : s.recordAll rules picks = (none, t)) : t.Sized rules.board := by
  induction picks generalizing s with
  | nil =>
    cases h
    exact hs
  | cons pick picks ih =>
    obtain ⟨own, next, hrecord, hrest⟩ := recordAll_cons_eq_none h
    exact ih (hs.record hrecord) hrest

theorem recordAll_concat {s t : DraftState} {rules : Rules} {picks : List Pick}
    (h : s.recordAll rules picks = (none, t)) (last : Pick) :
    s.recordAll rules (picks ++ [last]) = t.recordAll rules [last] := by
  induction picks generalizing s with
  | nil =>
    cases h
    rfl
  | cons pick picks ih =>
    obtain ⟨own, next, hrecord, hrest⟩ := recordAll_cons_eq_none h
    rw [List.cons_append, recordAll, hrecord]
    exact ih hrest

/-- A replay that leaves nothing out is one that meets no error. -/
theorem replay_of_recordAll {s t : DraftState} {rules : Rules} {picks : List Pick}
    (h : s.recordAll rules picks = (none, t)) : s.replay rules picks = t := by
  induction picks generalizing s with
  | nil =>
    cases h
    rfl
  | cons pick picks ih =>
    obtain ⟨own, next, hrecord, hrest⟩ := recordAll_cons_eq_none h
    rw [replay, List.foldl_cons, hrecord]
    exact ih hrest

/-- A history that is replayed without an error follows the history that was there. -/
theorem picks_of_recordAll {s t : DraftState} {rules : Rules} {picks : List Pick}
    (h : s.recordAll rules picks = (none, t)) :
    t.picks.toList.map Pick.account = s.picks.toList.map Pick.account ++ picks.map Pick.account := by
  induction picks generalizing s with
  | nil =>
    cases h
    simp
  | cons pick picks ih =>
    obtain ⟨own, next, hrecord, hrest⟩ := recordAll_cons_eq_none h
    obtain ⟨slot, -, hown, hhistory, -⟩ := places_of_record hrecord
    rw [ih hrest, hhistory, hown, Array.toList_push, List.map_append, List.append_assoc]
    rfl

section Built

variable {board : Board} {reqs : Requirements} {numTeams : Nat} {s t : DraftState}

theorem Built.cleared_eq (hs : Built board reqs numTeams s) :
    s.cleared board.size = .start numTeams board.size := by
  unfold DraftState.cleared
  rw [hs.size_rosters]

/-- The history of a built state leads to it again. -/
theorem Built.recordAll_picks (hs : Built board reqs numTeams s) (schedule : Schedule)
    {picks : List Pick} (hpicks : picks.map Pick.account = s.picks.toList.map Pick.account) :
    (DraftState.start numTeams board.size).recordAll ⟨board, schedule, reqs⟩ picks = (none, s) := by
  induction hs generalizing picks with
  | start =>
    rw [List.map_eq_nil_iff.mp hpicks]
    rfl
  | @record s t _ turn selection pick _ hrecord ih =>
    obtain ⟨slot, -, hpick, hhistory, -⟩ := places_of_record hrecord
    rw [hhistory, Array.toList_push, List.map_append] at hpicks
    obtain ⟨before, after, rfl, hbefore, hafter⟩ := List.map_eq_append_iff.mp hpicks
    obtain ⟨last, rfl, hlast⟩ := List.map_eq_singleton_iff.mp hafter
    subst hpick
    obtain ⟨hteam, hround, hselection⟩ : last.turn.team = turn.team ∧
        last.turn.round = turn.round ∧ last.selection = selection := by
      simpa [Pick.account] using hlast
    rw [recordAll_concat (ih hbefore), DraftState.recordAll, hselection,
      record_of_record hteam hround hrecord]
    rfl

/-- Undoing a pick gives that pick and the state before it. -/
theorem Built.undoLast_of_record (hs : Built board reqs numTeams s) {schedule : Schedule} {turn : Turn}
    {selection : Selection} {pick : Pick}
    (h : s.record ⟨board, schedule, reqs⟩ turn selection = .ok (pick, t)) (later : Schedule) :
    t.undoLast ⟨board, later, reqs⟩ = some (pick, s) := by
  obtain ⟨slot, -, -, hhistory, -⟩ := places_of_record h
  have hcleared := (hs.record h).cleared_eq
  have hreplay := replay_of_recordAll (hs.recordAll_picks later rfl)
  unfold DraftState.undoLast
  rw [hhistory, Array.back?_push, Option.map_some, Array.pop_push, hcleared, hreplay]

/-- Undoing leads back to the state before the last pick. -/
theorem Built.before_undoLast (hs : Built board reqs numTeams s) {schedule : Schedule} {last : Pick}
    (h : s.undoLast ⟨board, schedule, reqs⟩ = some (last, t)) :
    Built board reqs numTeams t ∧ s.picks = t.picks.push last := by
  cases hs with
  | start => simp [DraftState.undoLast, DraftState.start] at h
  | record hbefore hrecord =>
    cases (hbefore.undoLast_of_record hrecord schedule).symm.trans h
    obtain ⟨slot, -, -, hhistory, -⟩ := places_of_record hrecord
    exact ⟨hbefore, hhistory⟩

end Built

end DraftState

end SnakeDraft
