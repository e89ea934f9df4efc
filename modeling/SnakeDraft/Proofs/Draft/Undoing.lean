import SnakeDraft.Proofs.Draft.Coherence
import SnakeDraft.Proofs.Draft.Replaying

/-!
Undoing is the inverse of picking. The state before a pick is rebuilt exactly from the picks that remain, none
of which is refused, whatever has become of the schedule. So a number of picks taken back after a longer run of
them leaves what the first picks of the run had led to.
-/

namespace SnakeDraft.DraftState

/-- The picks that some selections lead to, made one after the other, and the state after them. Each selection
comes with the schedule of its moment. -/
def selectAll (s : DraftState) (board : Board) (reqs : Requirements) :
    List (Schedule × Selection) → Except PickError (List Pick × DraftState)
  | [] => .ok ([], s)
  | (schedule, selection) :: moves =>
    match s.select ⟨board, schedule, reqs⟩ selection with
    | .error e => .error e
    | .ok (pick, t) => (t.selectAll board reqs moves).map fun (picks, u) => (pick :: picks, u)

/-- The picks that are taken back, one for each schedule in force at that moment, and the state without them. -/
def undoAll (s : DraftState) (board : Board) (reqs : Requirements) :
    List Schedule → Option (List Pick × DraftState)
  | [] => some ([], s)
  | schedule :: schedules =>
    match s.undoLast ⟨board, schedule, reqs⟩ with
    | none => none
    | some (pick, t) => (t.undoAll board reqs schedules).map fun (picks, u) => (pick :: picks, u)

variable {board : Board} {reqs : Requirements} {numTeams : Nat} {s t u : DraftState}

theorem Built.lt_size_of_taken (hs : Built board reqs numTeams s) {id : Nat}
    (hid : s.taken.contains id = true) : id < board.size := by
  rw [hs.coherent.taken_iff] at hid
  obtain ⟨pick, hpick, hplayer⟩ := List.mem_filterMap.mp hid
  obtain ⟨player, hboard⟩ := hs.player_known (Array.mem_toList_iff.mp hpick) hplayer
  exact (Array.getElem?_eq_some_iff.mp hboard).1

theorem selectAll_cons_eq_ok {schedule : Schedule} {selection : Selection}
    {moves : List (Schedule × Selection)} {picks : List Pick}
    (h : s.selectAll board reqs ((schedule, selection) :: moves) = .ok (picks, u)) :
    ∃ pick t rest, s.select ⟨board, schedule, reqs⟩ selection = .ok (pick, t) ∧
      t.selectAll board reqs moves = .ok (rest, u) ∧ picks = pick :: rest := by
  rw [selectAll] at h
  cases hselect : s.select ⟨board, schedule, reqs⟩ selection with
  | error e => simp [hselect] at h
  | ok result =>
    obtain ⟨pick, t⟩ := result
    simp only [hselect] at h
    cases hrest : t.selectAll board reqs moves with
    | error e => simp [hrest, Except.map] at h
    | ok result =>
      obtain ⟨rest, after⟩ := result
      rw [hrest] at h
      cases h
      exact ⟨pick, t, rest, rfl, hrest, rfl⟩

theorem length_of_selectAll {moves : List (Schedule × Selection)} {picks : List Pick}
    (h : s.selectAll board reqs moves = .ok (picks, t)) : picks.length = moves.length := by
  induction moves generalizing s picks with
  | nil =>
    cases h
    rfl
  | cons move moves ih =>
    obtain ⟨pick, next, rest, -, hrest, rfl⟩ := selectAll_cons_eq_ok h
    rw [List.length_cons, List.length_cons, ih hrest]

theorem Built.selectAll {moves : List (Schedule × Selection)} {picks : List Pick}
    (hs : Built board reqs numTeams s) (h : s.selectAll board reqs moves = .ok (picks, t)) :
    Built board reqs numTeams t := by
  induction moves generalizing s picks with
  | nil =>
    cases h
    exact hs
  | cons move moves ih =>
    obtain ⟨pick, next, rest, hselect, hrest, -⟩ := selectAll_cons_eq_ok h
    exact ih (hs.select hselect) hrest

/-- A run of picks passes through the state after each of its parts. -/
theorem selectAll_append_eq_ok {before after : List (Schedule × Selection)} {picks : List Pick}
    (h : s.selectAll board reqs (before ++ after) = .ok (picks, u)) :
    ∃ t first rest, s.selectAll board reqs before = .ok (first, t) ∧
      t.selectAll board reqs after = .ok (rest, u) ∧ picks = first ++ rest := by
  induction before generalizing s picks with
  | nil => exact ⟨s, [], picks, rfl, h, rfl⟩
  | cons move before ih =>
    obtain ⟨pick, next, more, hselect, hmore, rfl⟩ := selectAll_cons_eq_ok h
    obtain ⟨t, first, rest, hfirst, hrest, rfl⟩ := ih hmore
    refine ⟨t, pick :: first, rest, ?_, hrest, rfl⟩
    rw [DraftState.selectAll, hselect]
    simp only [hfirst]
    rfl

theorem undoAll_concat {schedules : List Schedule} {last : Schedule} {picks : List Pick} {pick : Pick}
    (h : s.undoAll board reqs schedules = some (picks, t))
    (hlast : t.undoLast ⟨board, last, reqs⟩ = some (pick, u)) :
    s.undoAll board reqs (schedules ++ [last]) = some (picks ++ [pick], u) := by
  induction schedules generalizing s picks with
  | nil =>
    cases h
    simp only [List.nil_append, undoAll, hlast, Option.map_some]
  | cons schedule schedules ih =>
    rw [undoAll] at h
    rw [List.cons_append, undoAll]
    cases hundo : s.undoLast ⟨board, schedule, reqs⟩ with
    | none => simp [hundo] at h
    | some result =>
      simp only [hundo] at h ⊢
      obtain ⟨rest, hrest, hpicks⟩ := Option.map_eq_some_iff.mp h
      cases hpicks
      rw [ih hrest]
      rfl

/-- As many picks taken back as were made lead to where they started. -/
theorem Built.undoAll_of_selectAll {moves : List (Schedule × Selection)} {picks : List Pick}
    (hs : Built board reqs numTeams s) (h : s.selectAll board reqs moves = .ok (picks, t))
    {schedules : List Schedule} (hlength : schedules.length = moves.length) :
    t.undoAll board reqs schedules = some (picks.reverse, s) := by
  induction moves generalizing s picks schedules with
  | nil =>
    cases h
    rw [List.length_eq_zero_iff.mp hlength]
    rfl
  | cons move moves ih =>
    obtain ⟨pick, next, rest, hselect, hrest, rfl⟩ := selectAll_cons_eq_ok h
    obtain ⟨turn, -, hrecord⟩ := record_of_select hselect
    -- the first pick is the last one to be taken back
    rcases List.eq_nil_or_concat schedules with rfl | ⟨schedules, last, rfl⟩
    · cases hlength
    · rw [List.concat_eq_append, List.length_append, List.length_cons] at hlength
      have hback := ih (hs.select hselect) hrest (Nat.succ.inj hlength)
      rw [List.concat_eq_append, List.reverse_cons]
      exact undoAll_concat hback (hs.undoLast_of_record hrecord last)

/-- Whatever was done to a draft, a player who is applied or benched next, or a pass, is undone exactly: the pick
is given back with the state before it, and no other pick is dropped on the way, though the schedule may have
changed. So a run of picks is undone from its end, pick by pick. All players off the board are on it, and the set of
them keeps the words that it is made with. -/
theorem undoing_inverts_picking (board : Board) (reqs : Requirements) (numTeams : Nat)
    (changes : List (Schedule × Change)) :
    let s := (start numTeams board.size).performAll board reqs changes
    (∀ id, s.taken.contains id = true → id < board.size) ∧ s.Sized board ∧
    (∀ (schedule later : Schedule) (pick : Pick) (t : DraftState),
      ((∃ choice, s.apply ⟨board, schedule, reqs⟩ choice = .ok (pick, t)) ∨
        ∃ id, s.bench ⟨board, schedule, reqs⟩ id = .ok (pick, t)) →
      t.undoLast ⟨board, later, reqs⟩ = some (pick, s) ∧
        (t.cleared board.size).recordAll ⟨board, later, reqs⟩ t.picks.pop.toList = (none, s)) ∧
    ∀ (moves : List (Schedule × Selection)) (picks : List Pick) (t : DraftState),
      s.selectAll board reqs moves = .ok (picks, t) →
      ∀ laters : List Schedule, laters.length ≤ moves.length →
        ∃ u, s.selectAll board reqs (moves.take (moves.length - laters.length)) =
            .ok (picks.take (moves.length - laters.length), u) ∧
          t.undoAll board reqs laters =
            some ((picks.drop (moves.length - laters.length)).reverse, u) := by
  intro s
  have hs : Built board reqs numTeams s := Built.start.performAll changes
  refine ⟨fun id hid => hs.lt_size_of_taken hid, hs.sized, ?_, ?_⟩
  · intro schedule later pick t hpick
    obtain ⟨turn, selection, hrecord⟩ : ∃ turn selection,
        s.record ⟨board, schedule, reqs⟩ turn selection = .ok (pick, t) := by
      rcases hpick with ⟨choice, happly⟩ | ⟨id, hbench⟩
      · obtain ⟨turn, -, hrecord⟩ := record_of_select happly
        exact ⟨turn, _, hrecord⟩
      · obtain ⟨turn, -, hrecord⟩ := record_of_select hbench
        exact ⟨turn, _, hrecord⟩
    obtain ⟨slot, -, -, hhistory, -⟩ := places_of_record hrecord
    refine ⟨hs.undoLast_of_record hrecord later, ?_⟩
    rw [hhistory, Array.pop_push, (hs.record hrecord).cleared_eq]
    exact hs.recordAll_picks later rfl
  · intro moves picks t hmoves laters hle
    have hsplit : moves.take (moves.length - laters.length) ++
        moves.drop (moves.length - laters.length) = moves := List.take_append_drop _ moves
    obtain ⟨u, first, rest, hfirst, hrest, rfl⟩ := selectAll_append_eq_ok (hsplit.symm ▸ hmoves)
    have hlength : first.length = moves.length - laters.length := by
      rw [length_of_selectAll hfirst, List.length_take]
      omega
    refine ⟨u, ?_, ?_⟩
    · rw [← hlength, List.take_left, hlength]
      exact hfirst
    · rw [← hlength, List.drop_left]
      apply (hs.selectAll hfirst).undoAll_of_selectAll hrest
      rw [List.length_drop]
      omega

theorem undoing_inverts_picking_of_two_teams :
    let board : Board := .ofPlayers
      #[⟨"RB A", .runningBack, 10, 1⟩, ⟨"QB B", .quarterback, 8, 2⟩, ⟨"RB C", .runningBack, 6, 3⟩]
    let schedule : Schedule := .snake 2 2
    let traded := schedule.applyTrades [(0, 1), (1, 0)]
    let s := (start 2 board.size).performAll board .standard [(schedule, .apply (.player 0)), (schedule, .undo)]
    let moves : List (Schedule × Selection) :=
      [(schedule, .drafted 2), (traded, .benched 0), (schedule, .passed)]
    ∃ pick t picks last, s.apply ⟨board, schedule, .standard⟩ (.player 2) = .ok (pick, t) ∧
      t.undoLast ⟨board, traded, .standard⟩ = some (pick, s) ∧
      s.selectAll board .standard moves = .ok (picks, last) ∧
      last.undoAll board .standard [traded, traded] = some ((picks.drop 1).reverse, t) := by
  intro board schedule traded s moves
  have happlies : (s.apply ⟨board, schedule, .standard⟩ (.player 2)).toOption.isSome = true := by
    decide +kernel
  have hruns : (s.selectAll board .standard moves).toOption.isSome = true := by
    decide +kernel
  obtain ⟨⟨pick, t⟩, happly⟩ := Option.isSome_iff_exists.mp happlies
  obtain ⟨⟨picks, last⟩, hmoves⟩ := Option.isSome_iff_exists.mp hruns
  replace happly := eq_ok_of_toOption happly
  replace hmoves := eq_ok_of_toOption hmoves
  obtain ⟨-, -, hone, hmany⟩ := undoing_inverts_picking board .standard 2
    [(schedule, .apply (.player 0)), (schedule, .undo)]
  obtain ⟨hundo, -⟩ := hone schedule traded pick t (.inl ⟨_, happly⟩)
  obtain ⟨u, hfirst, hundoAll⟩ := hmany moves picks last hmoves [traded, traded] (by decide)
  refine ⟨pick, t, picks, last, happly, hundo, hmoves, ?_⟩
  obtain rfl : u = t := by
    obtain ⟨p, t', rest, hselect, hrest, -⟩ := selectAll_cons_eq_ok hfirst
    cases hselect.symm.trans happly
    cases hrest
    rfl
  exact hundoAll

end SnakeDraft.DraftState
