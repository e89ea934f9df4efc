import Mathlib.Data.List.Perm.Basic
import SnakeDraft.Proofs.Draft.Salvage
import SnakeDraft.Proofs.Draft.Standing

/-!
The order of picks. A player takes the own slot while it is open and FLEX after that, so which player of a team
stands where depends on the order of its picks. How many places are filled at each slot does not: two picks that are
made one after the other could have been made the other way round (`Standing.after?_comm`), and so a history is
accepted in any order if it is accepted in one, and leads to where the draft stood before (`Standing.afterAll?_perm`).
-/

namespace SnakeDraft

namespace Standing

/-- Who is off the board after a player leaves it, who must not have left it before, or after nobody does. -/
def take? (taken : Nat → Bool) : Option Nat → Option (Nat → Bool)
  | none => some taken
  | some id => if taken id then none else some fun other => taken other || other == id

theorem take?_eq_some_iff {taken after : Nat → Bool} {player : Option Nat} :
    take? taken player = some after ↔ (∀ id, player = some id → taken id = false) ∧
      ∀ id, after id = true ↔ taken id = true ∨ player = some id := by
  have hext : ∀ t : Nat → Bool, t = after ↔ ∀ id, after id = true ↔ t id = true := by
    intro t
    rw [eq_comm, funext_iff]
    exact forall_congr' fun _ => Bool.eq_iff_iff
  cases player with
  | none => simp [take?, hext]
  | some x => by_cases hx : taken x = true <;> simp [take?, hx, hext, eq_comm (a := x)]

theorem take?_swap {taken after : Nat → Bool} {a b : Option Nat}
    (h : (take? taken a).bind (take? · b) = some after) : (take? taken b).bind (take? · a) = some after := by
  obtain ⟨between, hfirst, hsecond⟩ := Option.bind_eq_some_iff.mp h
  obtain ⟨hfree, hbetween⟩ := take?_eq_some_iff.mp hfirst
  obtain ⟨hfree', hafter⟩ := take?_eq_some_iff.mp hsecond
  cases b with
  | none => simpa [take?] using h
  | some y =>
    have hy : between y = false := hfree' y rfl
    have hy' : taken y = false := by
      have hyy := hbetween y
      grind
    refine Option.bind_eq_some_iff.mpr ⟨_, by simp only [take?, hy', Bool.false_eq_true, if_false]; rfl,
      take?_eq_some_iff.mpr ⟨?_, ?_⟩⟩
    · rintro x rfl
      have hx := hfree x rfl
      have hxy := hbetween y
      grind
    · intro id
      rw [hafter, hbetween]
      grind

end Standing

namespace Roster

variable {roster : Roster} {reqs : Requirements}

theorem addTo_comm (roster : Roster) (a b : Position) :
    (roster.addTo a).addTo b = (roster.addTo b).addTo a := by
  apply ext_filled
  intro slot
  simp only [filled_addTo]
  omega

theorem slotFor?_eq_some_iff {position slot : Position} :
    roster.slotFor? reqs position = some slot ↔ position ≠ .flex ∧
      (slot = position ∧ roster.filled position < reqs.required position ∨
        slot = .flex ∧ reqs.required position ≤ roster.filled position ∧
          position.isFlexEligible = true ∧ roster.filled .flex < reqs.required .flex) := by
  unfold slotFor? openAt
  grind [Position.isSlotOnly_iff]

/-- Players of two positions take the same slots whoever is placed first. -/
theorem slotFor?_swap {p q a b : Position} (hne : p ≠ q) (ha : roster.slotFor? reqs p = some a)
    (hb : (roster.addTo a).slotFor? reqs q = some b) :
    roster.slotFor? reqs q = some b ∧ (roster.addTo b).slotFor? reqs p = some a := by
  rw [slotFor?_eq_some_iff] at ha hb ⊢
  rw [slotFor?_eq_some_iff]
  simp only [filled_addTo] at hb ⊢
  obtain ⟨hp, ha⟩ := ha
  obtain ⟨hq, hb⟩ := hb
  -- own slots are two different ones, and FLEX was open for both before either took it
  rcases ha with ⟨rfl, hown⟩ | ⟨rfl, hfull, heligible, hflex⟩ <;>
    rcases hb with ⟨rfl, hown'⟩ | ⟨rfl, hfull', heligible', hflex'⟩ <;>
    grind

/-- The roster after a player at a position finds a place, or after nobody looks for one. -/
def seat? (roster : Roster) (reqs : Requirements) : Option Position → Option Roster
  | none => some roster
  | some position => (roster.fill reqs position).map (·.2)

theorem seat?_eq_some_iff {position : Position} {after : Roster} :
    roster.seat? reqs (some position) = some after ↔
      ∃ slot, roster.slotFor? reqs position = some slot ∧ after = roster.addTo slot := by
  simp only [seat?, fill, Option.map_map, Option.map_eq_some_iff, Function.comp_apply]
  grind

theorem seat?_swap {p q : Position} {after : Roster}
    (h : (roster.seat? reqs (some p)).bind (·.seat? reqs (some q)) = some after) :
    (roster.seat? reqs (some q)).bind (·.seat? reqs (some p)) = some after := by
  -- players of one position may take each other's slots, but then the two orders are the same
  by_cases hpq : p = q
  · rw [hpq] at h ⊢
    exact h
  · obtain ⟨between, hfirst, hsecond⟩ := Option.bind_eq_some_iff.mp h
    obtain ⟨a, ha, rfl⟩ := seat?_eq_some_iff.mp hfirst
    obtain ⟨b, hb, rfl⟩ := seat?_eq_some_iff.mp hsecond
    obtain ⟨hb', ha'⟩ := slotFor?_swap hpq ha hb
    refine Option.bind_eq_some_iff.mpr ⟨roster.addTo b, seat?_eq_some_iff.mpr ⟨b, hb', rfl⟩, ?_⟩
    exact seat?_eq_some_iff.mpr ⟨a, ha', addTo_comm roster a b⟩

theorem seat?_comm (roster : Roster) (reqs : Requirements) (a b : Option Position) :
    (roster.seat? reqs a).bind (·.seat? reqs b) = (roster.seat? reqs b).bind (·.seat? reqs a) := by
  cases a with
  | none =>
    show roster.seat? reqs b = (roster.seat? reqs b).bind some
    cases roster.seat? reqs b <;> rfl
  | some p =>
    cases b with
    | none =>
      show (roster.seat? reqs (some p)).bind some = roster.seat? reqs (some p)
      cases roster.seat? reqs (some p) <;> rfl
    | some q =>
      apply Option.ext
      intro after
      exact ⟨seat?_swap, seat?_swap⟩

/-- All rosters after a player at a position finds a place with a team, or after nobody looks for one. -/
def seatIn? (rosters : Array Roster) (reqs : Requirements) (team : Nat) (position : Option Position) :
    Option (Array Roster) :=
  (rosters[team]?.bind (·.seat? reqs position)).map (rosters.setIfInBounds team)

theorem seatIn?_eq_some_iff {rosters after : Array Roster} {team : Nat} {position : Option Position} :
    seatIn? rosters reqs team position = some after ↔ ∃ roster seated,
      rosters[team]? = some roster ∧ roster.seat? reqs position = some seated ∧
        after = rosters.setIfInBounds team seated := by
  simp only [seatIn?, Option.map_eq_some_iff, Option.bind_eq_some_iff]
  grind

theorem seatIn?_none_iff {rosters after : Array Roster} {team : Nat} :
    seatIn? rosters reqs team none = some after ↔
      (∃ roster, rosters[team]? = some roster) ∧ after = rosters := by
  have hsame : ∀ roster, rosters[team]? = some roster → rosters.setIfInBounds team roster = rosters := by
    intro roster hroster
    apply Array.ext_getElem?
    grind
  rw [seatIn?_eq_some_iff]
  constructor
  · rintro ⟨roster, seated, hroster, hseated, rfl⟩
    cases hseated
    exact ⟨⟨roster, hroster⟩, hsame roster hroster⟩
  · rintro ⟨⟨roster, hroster⟩, rfl⟩
    exact ⟨roster, roster, hroster, rfl, (hsame roster hroster).symm⟩

theorem seatIn?_swap {rosters after : Array Roster} {team other : Nat} {a b : Option Position}
    (h : (seatIn? rosters reqs team a).bind (seatIn? · reqs other b) = some after) :
    (seatIn? rosters reqs other b).bind (seatIn? · reqs team a) = some after := by
  obtain ⟨between, hfirst, hsecond⟩ := Option.bind_eq_some_iff.mp h
  obtain ⟨roster, seated, hroster, hseated, rfl⟩ := seatIn?_eq_some_iff.mp hfirst
  obtain ⟨roster', seated', hroster', hseated', rfl⟩ := seatIn?_eq_some_iff.mp hsecond
  have hlt : team < rosters.size := (Array.getElem?_eq_some_iff.mp hroster).1
  by_cases hteam : team = other
  · subst hteam
    rw [Array.getElem?_setIfInBounds_self_of_lt hlt] at hroster'
    cases hroster'
    have hboth : (roster.seat? reqs b).bind (·.seat? reqs a) = some seated' := by
      rw [← seat?_comm]
      exact Option.bind_eq_some_iff.mpr ⟨seated, hseated, hseated'⟩
    obtain ⟨alone, hb, ha⟩ := Option.bind_eq_some_iff.mp hboth
    refine Option.bind_eq_some_iff.mpr ⟨_, seatIn?_eq_some_iff.mpr ⟨roster, alone, hroster, hb, rfl⟩, ?_⟩
    refine seatIn?_eq_some_iff.mpr ⟨alone, seated', ?_, ha, ?_⟩
    · exact Array.getElem?_setIfInBounds_self_of_lt hlt
    · rw [Array.setIfInBounds_setIfInBounds, Array.setIfInBounds_setIfInBounds]
  · rw [Array.getElem?_setIfInBounds_ne hteam] at hroster'
    refine Option.bind_eq_some_iff.mpr
      ⟨_, seatIn?_eq_some_iff.mpr ⟨roster', seated', hroster', hseated', rfl⟩, ?_⟩
    refine seatIn?_eq_some_iff.mpr ⟨roster, seated, ?_, hseated, ?_⟩
    · rw [Array.getElem?_setIfInBounds_ne (Ne.symm hteam)]
      exact hroster
    · exact Array.setIfInBounds_comm _ _ hteam

end Roster

/-- The position at which a selection looks for a place. -/
def Selection.position? (board : Board) : Selection → Option Position
  | .drafted id => (board.player? id).map (·.position)
  | .benched _ | .passed => none

/-- Whether the player of a selection, if there is one, is on the board. -/
def Selection.isKnown (board : Board) (selection : Selection) : Bool :=
  selection.player?.all fun id => (board.player? id).isSome

namespace Standing

/-- Where a draft stands after a pick, or nothing when the pick is refused. -/
def after? (p : Standing) (rules : Rules) (pick : Pick) : Option Standing :=
  if pick.selection.isKnown rules.board then
    (take? p.taken pick.selection.player?).bind fun taken =>
      (Roster.seatIn? p.rosters rules.requirements pick.turn.team
        (pick.selection.position? rules.board)).map fun rosters => ⟨p.pointer + 1, taken, rosters⟩
  else none

variable {p q : Standing} {rules : Rules} {pick other : Pick}

theorem after?_eq_some_iff :
    p.after? rules pick = some q ↔ pick.selection.isKnown rules.board = true ∧
      take? p.taken pick.selection.player? = some q.taken ∧
      Roster.seatIn? p.rosters rules.requirements pick.turn.team
        (pick.selection.position? rules.board) = some q.rosters ∧
      q.pointer = p.pointer + 1 := by
  obtain ⟨pointer, taken, rosters⟩ := q
  unfold after?
  split
  · simp only [Option.bind_eq_some_iff, Option.map_eq_some_iff, Standing.mk.injEq]
    grind
  · simp [*]

theorem after?_swap (h : (p.after? rules pick).bind (·.after? rules other) = some q) :
    (p.after? rules other).bind (·.after? rules pick) = some q := by
  obtain ⟨between, hfirst, hsecond⟩ := Option.bind_eq_some_iff.mp h
  obtain ⟨hknown, htaken, hrosters, hpointer⟩ := after?_eq_some_iff.mp hfirst
  obtain ⟨hknown', htaken', hrosters', hpointer'⟩ := after?_eq_some_iff.mp hsecond
  have hleave := take?_swap (Option.bind_eq_some_iff.mpr ⟨_, htaken, htaken'⟩)
  obtain ⟨taken, htaken, htaken'⟩ := Option.bind_eq_some_iff.mp hleave
  have hseats := Roster.seatIn?_swap (Option.bind_eq_some_iff.mpr ⟨_, hrosters, hrosters'⟩)
  obtain ⟨rosters, hrosters, hrosters'⟩ := Option.bind_eq_some_iff.mp hseats
  refine Option.bind_eq_some_iff.mpr ⟨⟨p.pointer + 1, taken, rosters⟩, ?_, ?_⟩
  · exact after?_eq_some_iff.mpr ⟨hknown', htaken, hrosters, rfl⟩
  · exact after?_eq_some_iff.mpr ⟨hknown, htaken', hrosters', by rw [hpointer', hpointer]⟩

/-- Two picks lead to the same standing in either order, or are refused in both. -/
theorem after?_comm (p : Standing) (rules : Rules) (pick other : Pick) :
    (p.after? rules pick).bind (·.after? rules other) =
      (p.after? rules other).bind (·.after? rules pick) := by
  apply Option.ext
  intro q
  exact ⟨after?_swap, after?_swap⟩

/-- Where a draft stands after some picks, or nothing when one of them is refused. -/
def afterAll? (p : Standing) (rules : Rules) : List Pick → Option Standing
  | [] => some p
  | pick :: picks => (p.after? rules pick).bind (·.afterAll? rules picks)

/-- Picks in any order lead to the same standing. -/
theorem afterAll?_perm {picks others : List Pick} (hperm : picks.Perm others) (p : Standing)
    (rules : Rules) : p.afterAll? rules picks = p.afterAll? rules others := by
  induction hperm generalizing p with
  | nil => rfl
  | cons pick _ ih => simp only [afterAll?, ih]
  | swap pick other picks =>
    simp only [afterAll?, ← Option.bind_assoc]
    rw [after?_comm]
  | trans _ _ ih ih' => exact (ih p).trans (ih' p)

end Standing

namespace DraftState

variable {s t : DraftState} {rules : Rules} {picks others : List Pick}

theorem claimable_iff {selection : Selection} {board : Board} :
    (∀ id, selection.player? = some id → ∃ player, s.claim board id = .ok player) ↔
      selection.isKnown board = true ∧
        ∀ id, selection.player? = some id → s.taken.contains id = false := by
  unfold Selection.isKnown
  cases selection.player? with
  | none => simp
  | some id => simp [claim_eq_ok_iff, Option.isSome_iff_exists]

/-- A selection finds a place where its player can be claimed and the team has one open. -/
theorem exists_places_iff {turn : Turn} {selection : Selection} {rosters : Array Roster} :
    (∃ slot, Places s rules turn selection slot rosters) ↔
      (∀ id, selection.player? = some id → ∃ player, s.claim rules.board id = .ok player) ∧
      Roster.seatIn? s.rosters rules.requirements turn.team (selection.position? rules.board) =
        some rosters := by
  cases selection with
  | passed =>
    simp only [Selection.position?, Roster.seatIn?_none_iff]
    constructor
    · rintro ⟨slot, h⟩
      cases h with
      | passed hroster => exact ⟨by simp [Selection.player?], ⟨_, hroster⟩, rfl⟩
    · rintro ⟨-, ⟨roster, hroster⟩, rfl⟩
      exact ⟨none, .passed hroster⟩
  | benched id =>
    simp only [Selection.position?, Roster.seatIn?_none_iff]
    constructor
    · rintro ⟨slot, h⟩
      cases h with
      | benched hroster hclaim => exact ⟨by simp [Selection.player?, hclaim], ⟨_, hroster⟩, rfl⟩
    · rintro ⟨hclaims, ⟨roster, hroster⟩, rfl⟩
      obtain ⟨player, hclaim⟩ := hclaims id rfl
      exact ⟨none, .benched hroster hclaim⟩
  | drafted id =>
    have hposition : ∀ player, s.claim rules.board id = .ok player →
        (Selection.drafted id).position? rules.board = some player.position := by
      intro player hclaim
      simp only [Selection.position?, (claim_eq_ok_iff.mp hclaim).1, Option.map_some]
    constructor
    · rintro ⟨slot, h⟩
      cases h with
      | drafted hroster hclaim hslot =>
        refine ⟨by simp [Selection.player?, hclaim], ?_⟩
        rw [hposition _ hclaim]
        exact Roster.seatIn?_eq_some_iff.mpr
          ⟨_, _, hroster, Roster.seat?_eq_some_iff.mpr ⟨_, hslot, rfl⟩, rfl⟩
    · rintro ⟨hclaims, hseat⟩
      obtain ⟨player, hclaim⟩ := hclaims id rfl
      rw [hposition player hclaim] at hseat
      obtain ⟨roster, seated, hroster, hseated, rfl⟩ := Roster.seatIn?_eq_some_iff.mp hseat
      obtain ⟨slot, hslot, rfl⟩ := Roster.seat?_eq_some_iff.mp hseated
      exact ⟨some slot, .drafted hroster hclaim hslot⟩

/-- A recording succeeds where the standing after it is defined, and leads there. -/
theorem exists_record_iff {pick : Pick} {q : Standing} :
    (∃ own t, s.record rules pick.turn pick.selection = .ok (own, t) ∧ t.standing = q) ↔
      s.standing.after? rules pick = some q := by
  rw [Standing.after?_eq_some_iff, Standing.take?_eq_some_iff]
  constructor
  · rintro ⟨own, t, hrecord, rfl⟩
    obtain ⟨slot, hplaces, -⟩ := places_of_record hrecord
    obtain ⟨hclaims, hseat⟩ := exists_places_iff.mp ⟨slot, hplaces⟩
    obtain ⟨hknown, hfree⟩ := claimable_iff.mp hclaims
    exact ⟨hknown, ⟨hfree, contains_taken_of_record hrecord⟩, hseat, pointer_of_record hrecord⟩
  · rintro ⟨hknown, ⟨hfree, htaken⟩, hseat, hpointer⟩
    obtain ⟨slot, hplaces⟩ := exists_places_iff.mpr ⟨claimable_iff.mpr ⟨hknown, hfree⟩, hseat⟩
    have hrecord := record_eq_ok_iff.mpr ⟨slot, q.rosters, hplaces, rfl⟩
    refine ⟨_, _, hrecord, ?_⟩
    obtain ⟨pointer, taken, rosters⟩ := q
    rw [standing, Standing.mk.injEq]
    refine ⟨(pointer_of_record hrecord).trans hpointer.symm, funext fun id => ?_, rfl⟩
    rw [Bool.eq_iff_iff, contains_taken_of_record hrecord, htaken id]
    rfl

/-- A history is accepted where the standing after it is defined, and leads there. -/
theorem exists_recordAll_iff {q : Standing} :
    (∃ t, s.recordAll rules picks = (none, t) ∧ t.standing = q) ↔
      s.standing.afterAll? rules picks = some q := by
  induction picks generalizing s with
  | nil => simp [recordAll, Standing.afterAll?]
  | cons pick picks ih =>
    rw [Standing.afterAll?, Option.bind_eq_some_iff]
    constructor
    · rintro ⟨t, hall, hq⟩
      obtain ⟨own, next, hrecord, hrest⟩ := recordAll_cons_eq_none hall
      exact ⟨next.standing, exists_record_iff.mp ⟨own, next, hrecord, rfl⟩, ih.mp ⟨t, hrest, hq⟩⟩
    · rintro ⟨_, hfirst, hrest⟩
      obtain ⟨own, next, hrecord, rfl⟩ := exists_record_iff.mpr hfirst
      obtain ⟨t, hall, hq⟩ := ih.mpr hrest
      refine ⟨t, ?_, hq⟩
      rw [recordAll, hrecord]
      exact hall

/-- A history that can be restored can be restored in any order, and leads to the same rosters and the same players
off the board: the order decides only which player of a team stands at which slot. -/
theorem restoring_ignores_order (hperm : picks.Perm others) (h : t.restore rules picks = (none, s)) :
    ∃ u, t.restore rules others = (none, u) ∧ u.rosters = s.rosters ∧ u.taken = s.taken := by
  have hstanding := exists_recordAll_iff.mp ⟨s, h, rfl⟩
  rw [Standing.afterAll?_perm hperm] at hstanding
  obtain ⟨u, hrestore, hsame⟩ := exists_recordAll_iff.mpr hstanding
  -- both sets keep the words that they are made with
  have hsized : ∀ {ps : List Pick} {v : DraftState}, t.restore rules ps = (none, v) → v.Sized rules.board :=
    fun hv => Sized.recordAll (sized_start t.rosters.size rules.board) hv
  refine ⟨u, hrestore, rosters_congr hsame, TakenSet.ext_contains ?_ (taken_congr hsame)⟩
  exact (hsized hrestore).trans (hsized h).symm

/-- The second running back of a team stands at FLEX, and at the own slot when the picks are turned around. -/
theorem restoring_ignores_order_of_two_teams :
    let board := Board.ofPlayers #[⟨"RB A", .runningBack, 9, 1⟩, ⟨"RB B", .runningBack, 8, 2⟩,
      ⟨"WR C", .wideReceiver, 7, 3⟩]
    let rules : Rules := ⟨board, .snake 2 2, (Requirements.none.set .runningBack 1).set .flex 1⟩
    let picks : List Pick := [⟨⟨0, 0, 1⟩, .drafted 0, none⟩, ⟨⟨1, 1, 1⟩, .drafted 2, none⟩,
      ⟨⟨2, 1, 2⟩, .passed, none⟩, ⟨⟨3, 0, 2⟩, .drafted 1, none⟩]
    ∃ s u, (start 2 board.size).restore rules picks = (none, s) ∧
      s.picks.toList.map Pick.slot = [some .runningBack, some .flex, none, some .flex] ∧
      picks.Perm picks.reverse ∧
      (start 2 board.size).restore rules picks.reverse = (none, u) ∧ u.rosters = s.rosters ∧ u.taken = s.taken := by
  intro board rules picks
  have hperm : picks.Perm picks.reverse := (List.reverse_perm picks).symm
  have hrestore : (start 2 board.size).restore rules picks = (none, ((start 2 board.size).restore rules picks).2) :=
    Prod.ext (by decide) rfl
  obtain ⟨u, hothers, hrosters, htaken⟩ := restoring_ignores_order hperm hrestore
  exact ⟨_, u, hrestore, by decide, hperm, hothers, hrosters, htaken⟩

end DraftState

end SnakeDraft
