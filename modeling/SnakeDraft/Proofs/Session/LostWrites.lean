import Mathlib.Data.List.Perm.Subperm
import SnakeDraft.Proofs.Draft.Salvage
import SnakeDraft.Proofs.Session.Carrying

/-!
Reopening a draft whose picks were lost in part. The numbers of the stored picks may then have gaps. The
restored draft always opens, but its history is the stored one numbered anew from zero
(`Session.Carries.reopen`): it keeps the numbers exactly if there is no gap, and otherwise every pick after the
first lost one moves to the place of another pick.
-/

namespace SnakeDraft

/-- Numbers in increasing order that are all smaller than their count are the numbers from zero up. -/
theorem eq_range_of_lt_length {numbers : List Nat} (hsorted : numbers.Pairwise (· < ·))
    (hlt : ∀ n ∈ numbers, n < numbers.length) : numbers = List.range numbers.length := by
  have hsubset : numbers ⊆ List.range numbers.length := by
    intro n hn
    exact List.mem_range.mpr (hlt n hn)
  have hnodup : numbers.Nodup := hsorted.imp Nat.ne_of_lt
  have hperm : numbers.Perm (List.range numbers.length) :=
    (List.subperm_of_subset hnodup hsubset).perm_of_length_le (by simp)
  refine hperm.eq_of_pairwise ?_ hsorted List.pairwise_lt_range
  intro a b _ _ hab hba
  omega

/-- Stored picks with the numbers from zero up, in their order. -/
def renumbered (stored : List StoredPick) : List StoredPick :=
  stored.mapIdx fun i p => { p with number := i }

theorem getElem?_renumbered (stored : List StoredPick) (i : Nat) :
    (renumbered stored)[i]? = stored[i]?.map fun p => { p with number := i } :=
  List.getElem?_mapIdx

theorem number_of_getElem? {stored : List StoredPick}
    (h : stored.map (·.number) = List.range stored.length) {i : Nat} {p : StoredPick}
    (hi : stored[i]? = some p) : p.number = i := by
  have hlt : i < stored.length := (List.getElem?_eq_some_iff.mp hi).1
  have hnumber : (stored.map (·.number))[i]? = (List.range stored.length)[i]? := by rw [h]
  rw [List.getElem?_map, hi, List.getElem?_range hlt] at hnumber
  exact Option.some.inj hnumber

theorem renumbered_eq_self {stored : List StoredPick}
    (h : stored.map (·.number) = List.range stored.length) : renumbered stored = stored := by
  refine List.ext_getElem? fun i => ?_
  rw [getElem?_renumbered]
  cases hi : stored[i]? with
  | none => rfl
  | some p =>
    obtain rfl := number_of_getElem? h hi
    rfl

namespace Session

/-- A restored session has every stored pick under its own number, with everything that is stored of it, and
all picks on the schedule; the pick on the clock was not stored. -/
structure KeepsNumbers (s : Session) (stored : List StoredPick) : Prop where
  own : ∀ p ∈ stored, s.storedPicks[p.number]? = some p
  onSchedule : s.OnSchedule
  unstored : ∀ p ∈ stored, p.number ≠ s.state.pointer

section Reopening

variable {s : Session} {db : Database} {kept : List Pick}

theorem Attached.reopen_attached (h : s.Attached db) (hnames : DistinctNames s.board.players)
    (hfits : FitsStore s.config) (l : Launch) :
    ∃ settings, s.reopen l = .ok { s.settled with settings } ∧
      Attached { s.settled with settings } (.ofStore db.store) := by
  obtain ⟨settings, hreopen, -, hstarted⟩ := h.recorded.retains.reopen h.database h.started hnames hfits
    h.recorded.recordAll_picks l
  have hsame : { s.settled with settings, state := s.state, unsaved := 0 } =
      { s.settled with settings } :=
    congrArg (fun unsaved => { s.settled with settings, unsaved }) h.unsaved.symm
  have hrecorded := h.settled.recorded
  refine ⟨settings, hreopen.trans (congrArg Except.ok hsame), h.settled_database,
    Database.reliable_ofStore _, ?_, h.unsaved, hstarted⟩
  exact ⟨hrecorded.built, hrecorded.registered, hrecorded.draft_mem, hrecorded.current, hrecorded.rows,
    hrecorded.trades_nodup, hrecorded.schedule, hrecorded.pointer_le⟩

/-- While nothing is lost, operations and reopenings leave a session that is attached to its draft, and no id
that is drawn later is that of a draft. -/
theorem Attached.runAll_attached (hs : s.Attached db) (honSchedule : s.OnSchedule)
    (hnames : DistinctNames s.board.players) (hfits : FitsStore s.config) {events : List Event}
    {later : List Operation}
    (hnodup : ((events.filterMap Event.operation? ++ later).filterMap Operation.freshId?).Nodup)
    (hfresh : ∀ freshId ∈ (events.filterMap Event.operation? ++ later).filterMap Operation.freshId?,
      freshId ∉ db.store.drafts)
    {replies : List Reply} {t : Session} (hrun : s.runAll events = .ok (replies, t)) :
    ∃ after, t.Attached after ∧ t.OnSchedule ∧ t.config = s.config ∧ t.board = s.board ∧
      ∀ freshId ∈ later.filterMap Operation.freshId?, freshId ∉ after.store.drafts := by
  induction events generalizing s db replies with
  | nil =>
    cases hrun
    exact ⟨db, hs, honSchedule, rfl, rfl, hfresh⟩
  | cons event events ih =>
    unfold Session.runAll at hrun
    cases event with
    | operate op =>
      rw [List.filterMap_cons_some (rfl : (Event.operate op).operation? = some op),
        List.cons_append] at hnodup hfresh
      have hkept := hs.perform op (fresh_head hfresh)
      have hgoesOn := (hs.carries honSchedule).perform op (fun _ => hs.reliable) (fresh_head hfresh)
      obtain ⟨after, hattached, hdrafts⟩ := hkept.attached
      obtain ⟨_, _, hcarries, -⟩ := hgoesOn.carries
      obtain ⟨hnodup', hfresh'⟩ := fresh_tail hnodup hfresh hdrafts
      cases hrest : (s.perform op).2.runAll events with
      | error e => simp [hrest] at hrun
      | ok result =>
        simp only [hrest] at hrun
        cases hrun
        obtain ⟨last, hlast, honSchedule', hconfig, hboard, hlater⟩ := ih hattached
          hcarries.onSchedule (by rw [hkept.board]; exact hnames) (by rw [hkept.config]; exact hfits)
          hnodup' hfresh' hrest
        exact ⟨last, hlast, honSchedule', hconfig.trans hkept.config, hboard.trans hkept.board, hlater⟩
    | reopen l =>
      obtain ⟨settings, hreopen, hattached⟩ := hs.reopen_attached hnames hfits l
      simp only [hreopen] at hrun
      have hrest := ih hattached honSchedule hnames hfits hnodup hfresh hrun
      exact hrest

theorem storedPicks_of_accounts {t : Session} (hboard : t.board = s.board)
    (hindex : ∀ (i : Nat) (pick : Pick), t.state.picks[i]? = some pick → pick.turn.index = i)
    (haccounts : t.state.picks.toList.map Pick.account = kept.map Pick.account) :
    t.storedPicks = renumbered (kept.map fun pick => (s.recordOf pick).toStored) := by
  refine List.ext_getElem? fun i => ?_
  have hi := congrArg (·[i]?) haccounts
  simp only [List.getElem?_map] at hi
  rw [storedPicks_eq, getElem?_renumbered, List.getElem?_map, List.getElem?_map]
  cases hpick : t.state.picks.toList[i]? with
  | none =>
    rw [hpick, Option.map_none, eq_comm, Option.map_eq_none_iff] at hi
    rw [hi]
    rfl
  | some pick =>
    rw [hpick, Option.map_some, eq_comm, Option.map_eq_some_iff] at hi
    obtain ⟨original, horiginal, haccount⟩ := hi
    rw [horiginal]
    have hindex' : pick.turn.index = i := hindex i pick (by rw [← Array.getElem?_toList, hpick])
    obtain ⟨hteam, hround, hselection⟩ : original.turn.team = pick.turn.team ∧
        original.turn.round = pick.turn.round ∧ original.selection = pick.selection := by
      simpa [Pick.account] using haccount
    simp only [Option.map_some, recordOf, PickRecord.toStored, hboard, hteam, hround, hselection,
      hindex']

theorem Carries.reopen (h : s.Carries db kept) (hnames : DistinctNames s.board.players)
    (hfits : FitsStore s.config) (l : Launch) :
    ∃ t, s.reopen l = .ok t ∧ t.draftId = s.draftId ∧ t.schedule = s.schedule ∧
      t.storedPicks = renumbered (kept.map fun pick => (s.recordOf pick).toStored) ∧
      t.state.picks.toList.map Pick.account = kept.map Pick.account := by
  have hkept : (kept.map fun pick => { pick with slot := none }).map Pick.account =
      kept.map Pick.account := by
    rw [List.map_map]
    rfl
  have hsublist : ((kept.map fun pick => { pick with slot := none }).map Pick.account).Sublist
      (s.state.picks.toList.map Pick.account) := by
    rw [hkept]
    exact h.retains.sublist.map _
  obtain ⟨state, hreplay, hbuilt, -⟩ := h.retains.built.recordAll_sublist s.schedule hsublist
  have haccounts : state.picks.toList.map Pick.account = kept.map Pick.account := by
    rw [DraftState.picks_of_recordAll hreplay, hkept]
    rfl
  obtain ⟨settings, hreopen, -⟩ := h.retains.reopen h.database h.started hnames hfits hreplay l
  refine ⟨_, hreopen, rfl, rfl, ?_, haccounts⟩
  exact storedPicks_of_accounts rfl hbuilt.coherent.index_eq haccounts

/-- The restored draft keeps the numbers exactly if none of those below a stored pick is missing. -/
theorem Carries.keepsNumbers_iff (h : s.Carries db kept) {stored : List StoredPick}
    (hkept : stored = kept.map fun pick => (s.recordOf pick).toStored) {t : Session}
    (hschedule : t.schedule = s.schedule) (hstored : t.storedPicks = renumbered stored)
    (haccounts : t.state.picks.toList.map Pick.account = kept.map Pick.account) :
    t.KeepsNumbers stored ↔ stored.map (·.number) = List.range stored.length := by
  have hlength : stored.length = kept.length := by rw [hkept, List.length_map]
  constructor
  · -- a pick that is found under its number has a number below the count of stored picks
    intro hkeeps
    have hsorted : (stored.map (·.number)).Pairwise (· < ·) := by
      rw [hkept, List.map_map, List.pairwise_map]
      exact h.retains.sorted
    rw [← List.length_map (f := (·.number))]
    refine eq_range_of_lt_length hsorted fun n hn => ?_
    obtain ⟨p, hp, rfl⟩ := List.mem_map.mp hn
    have hlt := (List.getElem?_eq_some_iff.mp (hkeeps.own p hp)).1
    rw [hstored] at hlt
    simpa [renumbered] using hlt
  · intro hnumbers
    have hpointer : t.state.pointer = stored.length := by
      have hboth := congrArg List.length haccounts
      simpa [DraftState.pointer, hlength] using hboth
    constructor
    case own =>
      intro p hp
      obtain ⟨i, hi⟩ := List.mem_iff_getElem?.mp hp
      rw [hstored, renumbered_eq_self hnumbers, number_of_getElem? hnumbers hi]
      exact hi
    case onSchedule =>
      intro i pick hpick
      have hi := congrArg (·[i]?) haccounts
      simp only [List.getElem?_map, Array.getElem?_toList, hpick, Option.map_some] at hi
      obtain ⟨original, horiginal, haccount⟩ := Option.map_eq_some_iff.mp hi.symm
      have hindex : original.turn.index = i := by
        refine number_of_getElem? (p := (s.recordOf original).toStored) hnumbers ?_
        rw [hkept, List.getElem?_map, horiginal]
        rfl
      have hlive := h.retains.getElem?_index (List.mem_of_getElem? horiginal)
      rw [hindex] at hlive
      obtain ⟨turn, hturn, hteam, hround⟩ := h.onSchedule i original hlive
      obtain ⟨hteam', hround', -⟩ : original.turn.team = pick.turn.team ∧
          original.turn.round = pick.turn.round ∧ original.selection = pick.selection := by
        simpa [Pick.account] using haccount
      rw [hschedule]
      exact ⟨turn, hturn, hteam.trans hteam', hround.trans hround'⟩
    case unstored =>
      intro p hp
      obtain ⟨i, hi⟩ := List.mem_iff_getElem?.mp hp
      have hlt := (List.getElem?_eq_some_iff.mp hi).1
      rw [number_of_getElem? hnumbers hi, hpointer]
      exact Nat.ne_of_lt hlt

theorem attached_of_launch {overflow : Overflow} {config : Config} {board : Board}
    (hnames : DistinctNames board.players) (hfits : FitsStore config) (hdb : db.Reliable) (hempty : db.store = .empty) {l : Launch}
    (hlaunch : launch overflow config board db l = .ok s) :
    ∃ first, s.Attached first ∧ first.store.drafts = [l.freshId] ∧ s.OnSchedule ∧
      s.config = config ∧ s.board = board := by
  obtain ⟨fresh, hstart, -⟩ := attach_of_launch hlaunch
  obtain ⟨first, hlaunch', hattached, hdrafts⟩ := launch_eq hnames hfits hdb hempty hstart
  cases hlaunch.symm.trans hlaunch'
  obtain ⟨settings, scores, -, -, rfl⟩ := start_eq_ok hstart
  exact ⟨first, hattached, hdrafts, onSchedule_of_start rfl, rfl, rfl⟩

/-- Whichever picks are lost after a draft was stored so far, a new session opens on the store and restores the
stored picks with their teams and rounds, numbered anew from zero. They keep their numbers, and stay on the
schedule, exactly if no number below a stored one is missing. -/
theorem restored_picks_keep_numbers_iff {rows : List Row} {board : Board}
    (hboard : Board.ofRows rows = .ok board) {config : Config} (hfits : FitsStore config) {db : Database}
    (hdb : db.Reliable) (hempty : db.store = .empty) {overflow : Overflow} {l : Launch} {s : Session}
    (hlaunch : launch overflow config board db l = .ok s) {events : List Event} {replies : List Reply}
    {opened : Session} (hrun : s.runAll events = .ok (replies, opened)) (ops : List (Operation × Bool))
    (hids : (l.freshId :: (events.filterMap Event.operation? ++ ops.map (·.1)).filterMap
      Operation.freshId?).Nodup) :
    let live := opened.performLosing ops
    ∃ stored, live.store.picksOf live.draftId = .ok stored ∧ stored.Sublist live.storedPicks ∧
      live.state.pointer ≤ stored.length + live.unsaved ∧
      ∀ again, ∃ t, live.reopen again = .ok t ∧ t.draftId = live.draftId ∧
        t.schedule = live.schedule ∧ t.storedPicks = renumbered stored ∧
        (t.KeepsNumbers stored ↔ stored.map (·.number) = List.range stored.length) := by
  intro live
  have hnames := Board.distinctNames_of_ofRows hboard
  obtain ⟨hnew, hnodup⟩ := List.nodup_cons.mp hids
  obtain ⟨first, hattached, hdrafts, hstarted, rfl, rfl⟩ :=
    attached_of_launch hnames hfits hdb hempty hlaunch
  have hfresh : ∀ freshId ∈ (events.filterMap Event.operation? ++ ops.map (·.1)).filterMap
      Operation.freshId?, freshId ∉ first.store.drafts := by
    intro freshId hmem hdraft
    rw [hdrafts, List.mem_singleton] at hdraft
    exact hnew (hdraft ▸ hmem)
  obtain ⟨db', hopened, honSchedule, hconfig, hboard', hlater⟩ :=
    hattached.runAll_attached hstarted hnames hfits hnodup hfresh hrun
  have hnodup' : ((ops.map (·.1)).filterMap Operation.freshId?).Nodup := by
    rw [List.filterMap_append] at hnodup
    exact hnodup.of_append_right
  obtain ⟨after, kept, hcarries, hconfig', hboard''⟩ :=
    (hopened.carries honSchedule).performLosing hnodup' hlater
  have hnames' : DistinctNames live.board.players := by
    rw [hboard'', hboard']
    exact hnames
  have hfits' : FitsStore live.config := by
    rw [hconfig', hconfig]
    exact hfits
  refine ⟨kept.map fun pick => (live.recordOf pick).toStored, ?_, ?_, ?_, fun again => ?_⟩
  · rw [store_of_database hcarries.database]
    exact hcarries.retains.picksOf hfits'
  · rw [storedPicks_eq]
    exact hcarries.retains.sublist.map _
  · rw [List.length_map]
    exact hcarries.counted
  · obtain ⟨t, hreopen, hid, hschedule, hstored, haccounts⟩ := hcarries.reopen hnames' hfits' again
    exact ⟨t, hreopen, hid, hschedule, hstored,
      hcarries.keepsNumbers_iff rfl hschedule hstored haccounts⟩

theorem restored_picks_of_two_teams :
    let config : Config :=
      ⟨⟨2, 1, none, .standard⟩, { maxIterations := some 10 }, ⟨"board.csv", false⟩, none⟩
    let rows : List Row := [⟨2, "QB A", "QB", "10"⟩, ⟨3, "RB B", "RB", "8"⟩]
    let events : List Event := [.operate (.givePick 1 0)]
    let ops : List (Operation × Bool) := [(.makePick "QB A", true), (.makePick "RB B", false)]
    ∃ board s replies opened, Board.ofRows rows = .ok board ∧
      launch .stops config board (.ofStore .empty) ⟨"first", 1⟩ = .ok s ∧
      s.runAll events = .ok (replies, opened) ∧
      ∀ again, ∃ t, (opened.performLosing ops).reopen again = .ok t := by
  intro config rows events ops
  have hcheck : ((Board.ofRows rows).toOption.any fun board =>
      (launch .stops config board (.ofStore .empty) ⟨"first", 1⟩).toOption.isSome) = true := by
    decide +kernel
  obtain ⟨board, hboard, hlaunched⟩ := (Option.any_eq_true _ _).mp hcheck
  obtain ⟨s, hlaunch⟩ := Option.isSome_iff_exists.mp hlaunched
  replace hboard := eq_ok_of_toOption hboard
  replace hlaunch := eq_ok_of_toOption hlaunch
  have hfits : FitsStore config := by
    unfold FitsStore
    decide
  have hrun : s.runAll events = .ok ([(s.perform (.givePick 1 0)).1], (s.perform (.givePick 1 0)).2) := rfl
  obtain ⟨_, -, -, -, hreopen⟩ := restored_picks_keep_numbers_iff hboard hfits
    (Database.reliable_ofStore .empty) rfl hlaunch hrun ops (by decide)
  refine ⟨board, s, _, _, hboard, hlaunch, hrun, fun again => ?_⟩
  obtain ⟨t, ht, -⟩ := hreopen again
  exact ⟨t, ht⟩

/-- The pick after a lost one moves into its place. -/
theorem lost_pick_moves_next :
    let config : Config :=
      ⟨⟨2, 1, none, .standard⟩, { maxIterations := some 10 }, ⟨"board.csv", false⟩, none⟩
    let rows : List Row := [⟨2, "QB A", "QB", "10"⟩, ⟨3, "RB B", "RB", "8"⟩]
    let ops : List (Operation × Bool) := [(.makePick "QB A", true), (.makePick "RB B", false)]
    ∃ board s stored t, Board.ofRows rows = .ok board ∧
      launch .stops config board (.ofStore .empty) ⟨"first", 1⟩ = .ok s ∧
      (s.performLosing ops).store.picksOf (s.performLosing ops).draftId = .ok stored ∧
      (s.performLosing ops).reopen ⟨"second", 2⟩ = .ok t ∧ ¬ t.KeepsNumbers stored := by
  intro config rows ops
  have hcheck : ((Board.ofRows rows).toOption.any fun board =>
      (launch .stops config board (.ofStore .empty) ⟨"first", 1⟩).toOption.any fun s =>
      ((s.performLosing ops).store.picksOf (s.performLosing ops).draftId).toOption.any fun stored =>
      ((s.performLosing ops).reopen ⟨"second", 2⟩).toOption.any fun t =>
      stored.any fun p => t.storedPicks[p.number]? ≠ some p) = true := by
    decide +kernel
  obtain ⟨board, hboard, hcheck⟩ := (Option.any_eq_true _ _).mp hcheck
  obtain ⟨s, hlaunch, hcheck⟩ := (Option.any_eq_true _ _).mp hcheck
  obtain ⟨stored, hstored, hcheck⟩ := (Option.any_eq_true _ _).mp hcheck
  obtain ⟨t, hreopen, hcheck⟩ := (Option.any_eq_true _ _).mp hcheck
  obtain ⟨p, hp, hmoved⟩ := List.any_eq_true.mp hcheck
  refine ⟨board, s, stored, t, eq_ok_of_toOption hboard, eq_ok_of_toOption hlaunch,
    eq_ok_of_toOption hstored, eq_ok_of_toOption hreopen, fun hkeeps => ?_⟩
  exact of_decide_eq_true hmoved (hkeeps.own p hp)

end Reopening

end Session

end SnakeDraft
