import SnakeDraft.Proofs.Session.Simulation
import SnakeDraft.Session.Report

/-!
The rosters that a session reports. Each roster walks the picks of its team anew and cuts off what exceeds the places
of a slot; as the picks of a slot never exceed its places (`Session.Sound.length_recordsAt_le`), it cuts off nobody,
and the places of a slot show its picks and are empty after them (`Session.Sound.placesAt_eq`). What is left is
grouping the picks by their teams, slots and kinds, which keeps every one of them (`flatMap_filter_perm`).
-/

namespace SnakeDraft

/-- A list is rearranged when it is grouped by different keys, one of which each of its members has. -/
theorem flatMap_filter_perm {α κ : Type} [DecidableEq κ] (key : α → κ) {keys : List κ} (hkeys : keys.Nodup)
    {l : List α} (hl : ∀ a ∈ l, key a ∈ keys) :
    (keys.flatMap fun k => l.filter fun a => key a = k).Perm l := by
  induction keys generalizing l with
  | nil =>
    have hnil : l = [] := List.eq_nil_iff_forall_not_mem.mpr fun a ha => List.not_mem_nil (hl a ha)
    simp [hnil]
  | cons k keys ih =>
    obtain ⟨hk, hkeys⟩ := List.nodup_cons.mp hkeys
    have hrest : keys.flatMap (fun j => l.filter fun a => key a = j) =
        keys.flatMap fun j => (l.filter fun a => !decide (key a = k)).filter fun a => key a = j := by
      refine List.flatMap_congr fun j hj => ?_
      rw [List.filter_filter]
      refine List.filter_congr fun a _ => ?_
      by_cases ha : key a = j
      · have hne : key a ≠ k := fun h => hk (h ▸ ha ▸ hj)
        simp [ha, ha ▸ hne]
      · simp [ha]
    rw [List.flatMap_cons, hrest]
    refine ((ih hkeys fun a ha => ?_).append_left _).trans (List.filter_append_perm _ l)
    obtain ⟨hmem, hne⟩ := List.mem_filter.mp ha
    exact (List.mem_cons.mp (hl a hmem)).resolve_left (by simpa using hne)

/-- Reading a list at more places than it has. -/
theorem map_getElem?_range {α : Type} (l : List α) {n : Nat} (hn : l.length ≤ n) :
    (List.range n).map (fun i => l[i]?) = l.map some ++ List.replicate (n - l.length) none := by
  refine List.ext_getElem (by simp; omega) fun i hi _ => ?_
  rw [List.length_map, List.length_range] at hi
  rw [List.getElem_map, List.getElem_range]
  by_cases hlt : i < l.length
  · rw [List.getElem_append_left (by simpa using hlt), List.getElem_map, List.getElem?_eq_getElem hlt]
  · rw [List.getElem_append_right (by simpa using hlt), List.getElem_replicate,
      List.getElem?_eq_none (Nat.le_of_not_lt hlt)]

/-- Nothing is left out where every member gives a value. -/
theorem map_some_filterMap {α β : Type} {f : α → Option β} {l : List α} (h : ∀ a ∈ l, (f a).isSome = true) :
    (l.filterMap f).map some = l.map f := by
  induction l with
  | nil => rfl
  | cons a l ih =>
    obtain ⟨b, hb⟩ := Option.isSome_iff_exists.mp (h a List.mem_cons_self)
    rw [List.filterMap_cons_some hb, List.map_cons, List.map_cons, hb,
      ih fun other hother => h other (List.mem_cons_of_mem a hother)]

/-- The players who fill places, in display order. -/
def RosterSheet.starters (sheet : RosterSheet) : List String :=
  sheet.slots.filterMap (·.2)

/-- The places of a slot, in display order. -/
def RosterSheet.entriesAt (sheet : RosterSheet) (slot : Position) : List (Option String) :=
  (sheet.slots.filter fun entry => entry.1 = slot).map (·.2)

namespace Session

/-- The picks of one kind that a team made, as they are reported. -/
def recordsOf (s : Session) (team : Nat) (kind : PickKind) : List PickRecord :=
  s.history.filter fun r => r.team = team ∧ r.kind = kind

/-- The picks that a team made for one slot, as they are reported. -/
def recordsAt (s : Session) (team : Nat) (slot : Position) : List PickRecord :=
  ((s.picksOf team).filter fun p => p.slot = some slot).map s.recordOf

/-- A roster that lists all picks of a team: the drafted players at the slots their picks recorded, in pick order and
before the places that are empty, and the benched ones beside them. -/
structure Lists (s : Session) (team : Nat) (sheet : RosterSheet) : Prop where
  team_eq : sheet.team = team
  length_slots : sheet.slots.length = s.config.draft.requirements.slotsPerTeam
  display_order : sheet.slots.map (·.1) = Position.all.flatMap fun slot =>
    List.replicate (s.config.draft.requirements.required slot) slot
  entries : ∀ slot, sheet.entriesAt slot = (s.recordsAt team slot).map (·.player) ++
    List.replicate (s.config.draft.requirements.required slot - (s.recordsAt team slot).length) none
  starters : sheet.starters.Perm ((s.recordsOf team .drafted).filterMap (·.player))
  bench : sheet.bench = (s.recordsOf team .benched).filterMap (·.player)

section Listing

variable {s : Session} {team : Nat}

/-- A pick recorded a slot exactly if it drafted a player. -/
theorem Sound.isSome_slot_iff (h : s.Sound) {p : Pick} (hp : p ∈ s.state.picks) :
    p.slot.isSome = true ↔ kindOf p.selection = .drafted := by
  have hallowed := h.built.coherent.slot_allowed p hp
  unfold Pick.SlotAllowed at hallowed
  cases hselection : p.selection with
  | drafted id =>
    rw [hselection] at hallowed
    obtain ⟨player, slot, -, hslot, -⟩ := hallowed
    simp [hslot, kindOf]
  | benched id =>
    rw [hselection] at hallowed
    have hslot : p.slot = none := hallowed
    simp [hslot, kindOf]
  | passed =>
    rw [hselection] at hallowed
    have hslot : p.slot = none := hallowed
    simp [hslot, kindOf]

/-- A pick is reported with a player exactly if it was no pass. -/
theorem Sound.isSome_player_iff (h : s.Sound) {p : Pick} (hp : p ∈ s.state.picks) :
    (s.recordOf p).player.isSome = true ↔ kindOf p.selection ≠ .passed := by
  have hknown : ∀ id, p.selection.player? = some id → ∃ player, s.board.player? id = some player :=
    fun id hid => h.built.player_known hp hid
  unfold recordOf
  cases hselection : p.selection with
  | drafted id =>
    obtain ⟨player, hplayer⟩ := hknown id (by rw [hselection]; rfl)
    simp [Selection.player?, hplayer, kindOf]
  | benched id =>
    obtain ⟨player, hplayer⟩ := hknown id (by rw [hselection]; rfl)
    simp [Selection.player?, hplayer, kindOf]
  | passed => simp [Selection.player?, kindOf]

theorem mem_picks_of_mem_picksOf {p : Pick} (hp : p ∈ s.picksOf team) : p ∈ s.state.picks :=
  Array.mem_toList_iff.mp (List.mem_of_mem_filter hp)

/-- The picks of a slot are no more than its places. -/
theorem Sound.length_recordsAt_le (h : s.Sound) (hteam : team < s.schedule.numTeams) (slot : Position) :
    (s.recordsAt team slot).length ≤ s.config.draft.requirements.required slot := by
  have hcoherent := h.built.coherent
  have hlt : team < s.state.rosters.size := by rwa [hcoherent.size_rosters, ← h.numTeams]
  have hroster : s.state.roster? team = some s.state.rosters[team] := Array.getElem?_eq_getElem hlt
  have hcount : (s.recordsAt team slot).length = s.state.picks.toList.countP (Pick.fills team slot) := by
    unfold recordsAt picksOf
    rw [List.length_map, List.filter_filter, List.countP_eq_length_filter]
    refine congrArg List.length (List.filter_congr fun p _ => ?_)
    by_cases hslot : p.slot = some slot <;> simp [Pick.fills, hslot]
  rw [hcount, ← hcoherent.filled_eq team _ hroster slot]
  exact hcoherent.filled_le team _ hroster slot

theorem Sound.isSome_player_of_mem_recordsAt (h : s.Sound) {slot : Position} {r : PickRecord}
    (hr : r ∈ s.recordsAt team slot) : r.player.isSome = true := by
  obtain ⟨p, hp, rfl⟩ := List.mem_map.mp hr
  obtain ⟨hp, hslot⟩ := List.mem_filter.mp hp
  have hmem := mem_picks_of_mem_picksOf hp
  have hdrafted := (h.isSome_slot_iff hmem).mp (by simp [of_decide_eq_true hslot])
  rw [h.isSome_player_iff hmem, hdrafted]
  decide

theorem namesAt_eq (slot : Position) : s.namesAt team slot = (s.recordsAt team slot).filterMap (·.player) := by
  unfold namesAt recordsAt
  rw [List.filterMap_map, List.filterMap_filter]
  simp [recordOf]

/-- The places of a slot show its picks and are empty after them. -/
theorem Sound.placesAt_eq (h : s.Sound) (hteam : team < s.schedule.numTeams) (slot : Position) :
    (s.placesAt team slot).map (·.2) = (s.recordsAt team slot).map (·.player) ++ List.replicate
      (s.config.draft.requirements.required slot - (s.recordsAt team slot).length) none := by
  have hshown : (s.namesAt team slot).map some = (s.recordsAt team slot).map (·.player) := by
    rw [namesAt_eq]
    exact map_some_filterMap fun r hr => h.isSome_player_of_mem_recordsAt hr
  have hlength : (s.namesAt team slot).length = (s.recordsAt team slot).length := by
    simpa using congrArg List.length hshown
  have hroom := h.length_recordsAt_le hteam slot
  rw [← hlength] at hroom
  rw [← hshown, ← hlength, ← map_getElem?_range _ hroom]
  unfold placesAt
  rw [List.map_map]
  rfl

theorem map_slot_placesAt (slot : Position) : (s.placesAt team slot).map (·.1) =
    List.replicate (s.config.draft.requirements.required slot) slot := by
  simp [placesAt, Function.comp_def]

theorem entriesAt_roster (slot : Position) :
    (s.roster team).entriesAt slot = (s.placesAt team slot).map (·.2) := by
  have hgroup : ∀ other, (s.placesAt team other).filter (fun entry => entry.1 = slot) =
      if other = slot then s.placesAt team other else [] := by
    intro other
    unfold placesAt
    rw [List.filter_map]
    split
    · next hsame => simp [hsame, Function.comp_def]
    · next hother => simp [hother, Function.comp_def]
  unfold RosterSheet.entriesAt roster
  rw [List.filter_flatMap]
  simp only [hgroup]
  cases slot <;> simp [Position.all]

/-- The picks of a team that are of one kind. -/
theorem recordsOf_eq (kind : PickKind) :
    s.recordsOf team kind = ((s.picksOf team).filter fun p => kindOf p.selection = kind).map s.recordOf := by
  unfold recordsOf history picksOf
  rw [List.filter_map, List.filter_filter]
  refine congrArg (List.map _) (List.filter_congr fun p _ => ?_)
  by_cases hteam : p.turn.team = team <;> simp [recordOf, hteam]

theorem Sound.starters_roster (h : s.Sound) (hteam : team < s.schedule.numTeams) :
    (s.roster team).starters.Perm ((s.recordsOf team .drafted).filterMap (·.player)) := by
  have hstarters : (s.roster team).starters =
      (Position.all.flatMap (s.recordsAt team)).filterMap (·.player) := by
    have hplace : ∀ slot, (s.placesAt team slot).filterMap (·.2) =
        (s.recordsAt team slot).filterMap (·.player) := by
      intro slot
      have hshown := congrArg (List.filterMap id) (h.placesAt_eq hteam slot)
      simpa [List.filterMap_map, Function.comp_def] using hshown
    unfold RosterSheet.starters roster
    rw [List.filterMap_flatMap, List.filterMap_flatMap]
    exact List.flatMap_congr fun slot _ => hplace slot
  have hgrouped : (Position.all.flatMap (s.recordsAt team)).Perm (s.recordsOf team .drafted) := by
    have hslots : ((Position.all.map some).flatMap fun slot =>
        ((s.picksOf team).filter fun p => kindOf p.selection = .drafted).filter fun p => p.slot = slot) =
        Position.all.flatMap fun slot => (s.picksOf team).filter fun p => p.slot = some slot := by
      rw [List.flatMap_map]
      refine List.flatMap_congr fun slot _ => ?_
      rw [List.filter_filter]
      refine List.filter_congr fun p hp => ?_
      by_cases hslot : p.slot = some slot
      · have hdrafted := (h.isSome_slot_iff (mem_picks_of_mem_picksOf hp)).mp (by simp [hslot])
        simp [hslot, hdrafted]
      · simp [hslot]
    rw [recordsOf_eq]
    unfold recordsAt
    rw [← List.map_flatMap, ← hslots]
    have hall : (Position.all.map some).Nodup := by decide
    refine (flatMap_filter_perm Pick.slot hall fun p hp => ?_).map _
    obtain ⟨hp, hdrafted⟩ := List.mem_filter.mp hp
    have hslot := (h.isSome_slot_iff (mem_picks_of_mem_picksOf hp)).mpr (of_decide_eq_true hdrafted)
    obtain ⟨slot, hslot⟩ := Option.isSome_iff_exists.mp hslot
    rw [hslot]
    exact List.mem_map_of_mem slot.mem_all
  rw [hstarters]
  exact hgrouped.filterMap _

theorem bench_roster : (s.roster team).bench = (s.recordsOf team .benched).filterMap (·.player) := by
  rw [recordsOf_eq, List.filterMap_map, List.filterMap_filter]
  show s.benchOf team = _
  unfold benchOf
  refine List.filterMap_congr fun p _ => ?_
  cases hselection : p.selection <;> simp [recordOf, kindOf, Selection.player?, hselection]

theorem Sound.lists_roster (h : s.Sound) (hteam : team < s.schedule.numTeams) : s.Lists team (s.roster team) where
  team_eq := rfl
  length_slots := by
    simp [roster, placesAt, Requirements.slotsPerTeam, Position.all]
  display_order := by
    unfold roster
    rw [List.map_flatMap]
    exact List.flatMap_congr fun slot _ => map_slot_placesAt slot
  entries slot := by
    rw [entriesAt_roster]
    exact h.placesAt_eq hteam slot
  starters := h.starters_roster hteam
  bench := bench_roster

/-- The records of a team are those of its drafted and its benched players, and passes, which name nobody. -/
theorem Sound.players_of_team (h : s.Sound) (team : Nat) :
    ((s.recordsOf team .drafted).filterMap (·.player) ++ (s.recordsOf team .benched).filterMap (·.player)).Perm
      ((s.history.filter fun r => r.team = team).filterMap (·.player)) := by
  have hkind : ∀ kind : PickKind,
      ((s.history.filter fun r => r.team = team).filter fun r => r.kind = kind) = s.recordsOf team kind := by
    intro kind
    unfold recordsOf
    rw [List.filter_filter]
    exact List.filter_congr fun r _ => by simp [Bool.and_comm]
  have hpassed : (s.recordsOf team .passed).filterMap (·.player) = [] := by
    refine List.filterMap_eq_nil_iff.mpr fun r hr => ?_
    rw [recordsOf_eq] at hr
    obtain ⟨p, hp, rfl⟩ := List.mem_map.mp hr
    obtain ⟨hp, hkind⟩ := List.mem_filter.mp hp
    have hplayer := h.isSome_player_iff (mem_picks_of_mem_picksOf hp)
    simpa [of_decide_eq_true hkind] using hplayer
  have hall : ∀ r ∈ s.history.filter (fun r => r.team = team), r.kind ∈ [.drafted, .benched, .passed] := by
    intro r _
    cases r.kind <;> simp
  have hkinds := flatMap_filter_perm PickRecord.kind (by decide) hall
  have hnames := hkinds.filterMap (·.player)
  simp only [hkind, List.flatMap_cons, List.flatMap_nil, List.append_nil, List.filterMap_append, hpassed] at hnames
  exact hnames

/-- The rosters of all teams list the players of the whole history. -/
theorem Sound.players_rosters (h : s.Sound) :
    (s.rosters.flatMap fun sheet => sheet.starters ++ sheet.bench).Perm (s.history.filterMap (·.player)) := by
  have hteams : ∀ r ∈ s.history, r.team ∈ List.range s.schedule.numTeams := by
    intro r hr
    obtain ⟨p, hp, rfl⟩ := List.mem_map.mp hr
    rw [h.numTeams]
    exact List.mem_range.mpr (h.built.coherent.team_lt p (Array.mem_toList_iff.mp hp))
  have hgrouped := (flatMap_filter_perm PickRecord.team List.nodup_range hteams).filterMap (·.player)
  rw [List.filterMap_flatMap] at hgrouped
  refine List.Perm.trans ?_ hgrouped
  unfold rosters
  rw [List.flatMap_map]
  refine List.Perm.flatMap_left _ fun team hteam => ?_
  rw [bench_roster]
  exact ((h.starters_roster (List.mem_range.mp hteam)).append_right _).trans (h.players_of_team team)

end Listing

/-- Whatever session operations, restored drafts, failing databases and changed settings have led to, the rosters list
everyone and nobody twice. The roster of a team has all places of the league in display order; the places of a slot
show the players of the picks that recorded it, in pick order and before the empty ones; the bench lists the players
who were benched, in pick order. A pick recorded a slot exactly if it drafted a player, and is reported with a player
exactly if it was no pass, so over all teams every player of the history is listed, once. -/
theorem Reached.rosters_list_everyone_once {rows : List Row} {s : Session} (hboard : Board.ofRows rows = .ok s.board)
    (hs : s.Reached) :
    (∀ team < s.schedule.numTeams, s.Lists team (s.roster team)) ∧
    (∀ p ∈ s.state.picks, (p.slot.isSome = true ↔ kindOf p.selection = .drafted) ∧
      ((s.recordOf p).player.isSome = true ↔ kindOf p.selection ≠ .passed)) ∧
    (s.rosters.flatMap fun sheet => sheet.starters ++ sheet.bench).Perm (s.history.filterMap (·.player)) ∧
    (s.history.filterMap (·.player)).Nodup := by
  have hsound := hs.sound
  refine ⟨fun team hteam => hsound.lists_roster hteam, fun p hp => ?_, hsound.players_rosters,
    hsound.nodup_names (Board.distinctNames_of_ofRows hboard)⟩
  exact ⟨hsound.isSome_slot_iff hp, hsound.isSome_player_iff hp⟩

/-- A team that was given the pick of another one has drafted one player and benched another. -/
theorem rosters_after_a_trade_and_a_benching :
    let config : Config :=
      ⟨⟨2, 2, none, .standard⟩, { maxIterations := some 10 }, ⟨"board.csv", false⟩, none⟩
    let rows : List Row := [⟨2, "QB A", "QB", "10"⟩, ⟨3, "RB B", "RB", "8"⟩, ⟨4, "WR C", "WR", "6"⟩]
    let ops : List Operation := [.makePick "RB B", .givePick 1 0, .bench "QB A", .makePick "WR C", .undo]
    ∃ board fresh s, Board.ofRows rows = .ok board ∧ start .stops config board "first" 1 = .ok fresh ∧
      s = (fresh.performAll ops).2 ∧ s.Reached ∧ Board.ofRows rows = .ok s.board ∧
      s.Lists 0 (s.roster 0) ∧ (s.roster 0).starters = ["RB B"] ∧ (s.roster 0).bench = ["QB A"] ∧
      (s.rosters.flatMap fun sheet => sheet.starters ++ sheet.bench).Perm ["RB B", "QB A"] := by
  intro config rows ops
  have hcheck : ((Board.ofRows rows).toOption.any fun board =>
      (start .stops config board "first" 1).toOption.any fun fresh =>
      let s := (fresh.performAll ops).2
      s.schedule.numTeams = 2 ∧ (s.recordsOf 0 .drafted).filterMap (·.player) = ["RB B"] ∧
        (s.recordsOf 0 .benched).filterMap (·.player) = ["QB A"] ∧
        s.history.filterMap (·.player) = ["RB B", "QB A"]) = true := by
    decide +kernel
  obtain ⟨board, hboard, hcheck⟩ := (Option.any_eq_true _ _).mp hcheck
  obtain ⟨fresh, hstart, hcheck⟩ := (Option.any_eq_true _ _).mp hcheck
  obtain ⟨hteams, hdrafted, hbenched, hhistory⟩ := of_decide_eq_true hcheck
  replace hboard := eq_ok_of_toOption hboard
  replace hstart := eq_ok_of_toOption hstart
  have hreached := (Reached.start hstart).performAll ops
  have hsame : Board.ofRows rows = .ok (fresh.performAll ops).2.board := by
    obtain ⟨settings, scores, -, -, rfl⟩ := start_eq_ok hstart
    rw [board_performAll]
    exact hboard
  obtain ⟨hlists, -, hperm, -⟩ := hreached.rosters_list_everyone_once hsame
  have hlist := hlists 0 (by omega)
  refine ⟨board, fresh, _, hboard, hstart, rfl, hreached, hsame, hlist, ?_, ?_, ?_⟩
  · exact List.perm_singleton.mp (hdrafted ▸ hlist.starters)
  · exact hlist.bench.trans hbenched
  · rw [hhistory] at hperm
    exact hperm

end Session

end SnakeDraft
