import Mathlib.Data.List.Nodup
import Mathlib.Data.List.Perm.Subperm
import SnakeDraft.Proofs.Search.Legality
import SnakeDraft.Proofs.Sorting

/-!
What the candidates of a team leave out. A player who could be drafted fits a slot that is needed, and the best
player left for this slot is a candidate who comes no later on the board (`DraftState.exists_candidate_le`). The
candidates of different positions are the first ones left there, so the list is short and names nobody twice.
-/

namespace SnakeDraft

theorem Position.Fits.ne_flex {slot position : Position} (h : slot.Fits position) : position ≠ .flex := by
  rcases h with ⟨hne, rfl⟩ | ⟨-, heligible⟩
  · exact hne
  · rintro rfl
    cases heligible

/-- A player finds a place at a slot that is needed and that the player fits. -/
theorem Roster.needed_of_slotFor? {roster : Roster} {reqs : Requirements} {position slot : Position}
    (h : roster.slotFor? reqs position = some slot) :
    slot ∈ roster.neededSlots reqs ∧ slot.Fits position := by
  refine ⟨mem_neededSlots.mpr (open_of_slotFor? h), ?_⟩
  unfold slotFor? at h
  split at h
  · cases h
  · next hplayer =>
    split at h
    · obtain rfl := Option.some.inj h
      exact Or.inl ⟨fun hflex => hplayer (Position.isSlotOnly_iff.mpr hflex), rfl⟩
    · split at h
      · next hflex =>
        obtain rfl := Option.some.inj h
        exact Or.inr ⟨rfl, hflex.1⟩
      · cases h

namespace DraftState

/-- Whether the team on the clock can make a choice. -/
def Accepts (s : DraftState) (rules : Rules) (choice : Choice) : Prop :=
  ∃ pick t, s.apply rules choice = .ok (pick, t)

variable {s : DraftState} {rules : Rules} {turn : Turn} {roster : Roster} {id : Nat}

/-- A player can be drafted who is free and finds a place. -/
theorem accepts_player_iff (hturn : s.onClock? rules.schedule = some turn)
    (hroster : s.roster? turn.team = some roster) :
    s.Accepts rules (.player id) ↔ ∃ player place, rules.board.player? id = some player ∧
      s.taken.contains id = false ∧ roster.slotFor? rules.requirements player.position = some place := by
  constructor
  · rintro ⟨pick, t, happly⟩
    obtain ⟨turn', hturn', hrecord⟩ := record_of_select happly
    cases hturn.symm.trans hturn'
    obtain ⟨slot, hplaces, -⟩ := places_of_record hrecord
    generalize t.rosters = rosters at hplaces
    cases hplaces with
    | drafted hroster' hclaim hslot =>
      cases hroster.symm.trans hroster'
      obtain ⟨hplayer, hfree⟩ := claim_eq_ok_iff.mp hclaim
      exact ⟨_, _, hplayer, hfree, hslot⟩
  · rintro ⟨player, place, hplayer, hfree, hplace⟩
    have hclaim := claim_eq_ok_iff.mpr ⟨hplayer, hfree⟩
    exact Places.apply_ok hturn (.drafted hroster hclaim hplace)

theorem player_mem_candidates_iff (hturn : s.onClock? rules.schedule = some turn)
    (hroster : s.roster? turn.team = some roster) :
    .player id ∈ s.candidates rules ↔ id ∈ s.bestForNeeds rules roster := by
  rcases candidates_cases hturn hroster with ⟨hnone, hpass⟩ | ⟨-, hplayers⟩
  · rw [hnone, hpass]
    simp
  · rw [hplayers]
    simp

/-- For every player who could be drafted there is a candidate who is that player or comes before. -/
theorem exists_candidate_le (hboard : rules.board.Indexed) (hordered : rules.board.Ordered)
    (hturn : s.onClock? rules.schedule = some turn) (hroster : s.roster? turn.team = some roster)
    (haccepts : s.Accepts rules (.player id)) : ∃ best ≤ id, .player best ∈ s.candidates rules := by
  obtain ⟨player, place, hplayer, hfree, hplace⟩ := (accepts_player_iff hturn hroster).mp haccepts
  obtain ⟨hneeded, hfits⟩ := Roster.needed_of_slotFor? hplace
  obtain ⟨best, hle, hbest⟩ := hboard.exists_bestAvailable?_le hordered hplayer hfree hfits
  refine ⟨best, hle, (player_mem_candidates_iff hturn hroster).mpr ?_⟩
  exact mem_bestForNeeds.mpr ⟨place, hneeded, hbest⟩

/-- Passing is offered exactly when nobody could be drafted. -/
theorem candidates_eq_pass_iff (hboard : rules.board.Indexed) (hordered : rules.board.Ordered)
    (hturn : s.onClock? rules.schedule = some turn) (hroster : s.roster? turn.team = some roster) :
    s.candidates rules = [.pass] ↔ ∀ id, ¬ s.Accepts rules (.player id) := by
  constructor
  · intro hpass id haccepts
    obtain ⟨best, -, hbest⟩ := exists_candidate_le hboard hordered hturn hroster haccepts
    rw [hpass] at hbest
    simp at hbest
  · intro hnobody
    rcases candidates_cases hturn hroster with ⟨-, hpass⟩ | ⟨hsome, -⟩
    · exact hpass
    · obtain ⟨id, hid⟩ := List.exists_mem_of_ne_nil _ hsome
      have hmem := (player_mem_candidates_iff hturn hroster).mpr hid
      exact absurd (apply_of_candidate hboard hturn hroster hmem) (hnobody id)

/-- A candidate is the best player left at the own position, which is no slot only. -/
theorem bestAt?_of_candidate (hboard : rules.board.Indexed)
    (hturn : s.onClock? rules.schedule = some turn) (hroster : s.roster? turn.team = some roster)
    (hid : .player id ∈ s.candidates rules) :
    ∃ player, rules.board.player? id = some player ∧ player.position ≠ .flex ∧
      rules.board.bestAt? s.taken player.position = some id := by
  obtain ⟨slot, -, hbest⟩ := mem_bestForNeeds.mp ((player_mem_candidates_iff hturn hroster).mp hid)
  obtain ⟨player, hplayer, hfits, hfirst⟩ := hboard.bestAt?_of_bestAvailable? hbest
  exact ⟨player, hplayer, hfits.ne_flex, hfirst⟩

theorem nodup_candidates (s : DraftState) (rules : Rules) : (s.candidates rules).Nodup := by
  unfold candidates
  split
  · exact List.nodup_nil
  · split
    · exact List.nodup_singleton _
    · split
      · exact List.nodup_singleton _
      · next roster _ _ =>
        apply (nodup_eraseDups _).map
        intro a b heq
        exact Choice.player.inj heq

/-- What a list of choices offers the team on the clock. -/
structure Offers (s : DraftState) (rules : Rules) (choices : List Choice) : Prop where
  nonempty : choices ≠ []
  nodup : choices.Nodup
  accepted : ∀ choice ∈ choices, s.Accepts rules choice
  pass_iff : choices = [.pass] ↔ ∀ id < rules.board.size, ¬ s.Accepts rules (.player id)
  pass_alone : .pass ∈ choices → choices = [.pass]
  /-- A player who is offered is the first one left at a position. -/
  first : ∀ id, .player id ∈ choices → ∃ player, rules.board.player? id = some player ∧
    s.taken.contains id = false ∧ ∀ other < id, ∀ rival, rules.board.player? other = some rival →
      rival.position = player.position → s.taken.contains other = true
  positions_differ : ∀ id other player rival, .player id ∈ choices → .player other ∈ choices →
    rules.board.player? id = some player → rules.board.player? other = some rival →
    player.position = rival.position → id = other
  length_le : choices.length ≤ 6
  /-- Every player who could be drafted is matched by one who is offered and comes no later. -/
  matched : ∀ id, s.Accepts rules (.player id) → ∃ best ≤ id, .player best ∈ choices
  lowest : ∀ id, s.Accepts rules (.player id) →
    (∀ other < id, ¬ s.Accepts rules (.player other)) → .player id ∈ choices

/-- There are no more candidates than positions of players. -/
theorem length_candidates_le (hboard : rules.board.Indexed)
    (hturn : s.onClock? rules.schedule = some turn) (hroster : s.roster? turn.team = some roster) :
    (s.candidates rules).length ≤ 6 := by
  rcases candidates_cases hturn hroster with ⟨-, hpass⟩ | ⟨-, hplayers⟩
  · rw [hpass, List.length_singleton]
    omega
  let positionOf (id : Nat) : Option Position := (rules.board.player? id).map (·.position)
  have hbest : ∀ id ∈ s.bestForNeeds rules roster, ∃ player, rules.board.player? id = some player ∧
      player.position ≠ .flex ∧ rules.board.bestAt? s.taken player.position = some id := by
    intro id hid
    exact bestAt?_of_candidate hboard hturn hroster
      ((player_mem_candidates_iff hturn hroster).mpr hid)
  have hnodup : ((s.bestForNeeds rules roster).map positionOf).Nodup := by
    apply List.Nodup.map_on _ (nodup_eraseDups _)
    intro id hid other hother hsame
    obtain ⟨player, hplayer, -, hfirst⟩ := hbest id hid
    obtain ⟨rival, hrival, -, hfirst'⟩ := hbest other hother
    have hposition : player.position = rival.position := by
      simpa [positionOf, hplayer, hrival] using hsame
    rw [hposition, hfirst'] at hfirst
    exact (Option.some.inj hfirst).symm
  have hsubset : (s.bestForNeeds rules roster).map positionOf ⊆ (Position.all.erase .flex).map some := by
    intro position hmem
    obtain ⟨id, hid, rfl⟩ := List.mem_map.mp hmem
    obtain ⟨player, hplayer, hne, -⟩ := hbest id hid
    apply List.mem_map.mpr
    refine ⟨player.position, (List.mem_erase_of_ne hne).mpr (Position.mem_all _), ?_⟩
    simp [positionOf, hplayer]
  have hle := (List.subperm_of_subset hnodup hsubset).length_le
  rw [hplayers, List.length_map]
  rw [List.length_map, List.length_map] at hle
  exact hle

theorem offers_candidates (hboard : rules.board.Indexed) (hordered : rules.board.Ordered)
    (hturn : s.onClock? rules.schedule = some turn) (hroster : s.roster? turn.team = some roster) :
    s.Offers rules (s.candidates rules) := by
  constructor
  case nonempty =>
    rw [Ne, candidates_eq_nil_iff, hturn]
    exact Option.some_ne_none turn
  case nodup => exact nodup_candidates s rules
  case accepted => exact fun choice hchoice => apply_of_candidate hboard hturn hroster hchoice
  case pass_iff =>
    rw [candidates_eq_pass_iff hboard hordered hturn hroster]
    constructor
    · exact fun hnobody id _ => hnobody id
    · intro hnobody id haccepts
      obtain ⟨player, -, hplayer, -⟩ := (accepts_player_iff hturn hroster).mp haccepts
      exact hnobody id (Array.getElem?_eq_some_iff.mp hplayer).1 haccepts
  case pass_alone => exact candidates_of_pass_mem
  case first =>
    intro id hid
    obtain ⟨player, hplayer, -, hbest⟩ := bestAt?_of_candidate hboard hturn hroster hid
    refine ⟨player, hplayer, (hboard.of_bestAt? hbest).1, fun other hlt rival hrival hsame => ?_⟩
    cases htaken : s.taken.contains other with
    | true => rfl
    | false =>
      obtain ⟨best, hle, hbest'⟩ := hboard.exists_bestAt?_le hordered hrival htaken
      rw [hsame, hbest] at hbest'
      obtain rfl := Option.some.inj hbest'
      omega
  case positions_differ =>
    intro id other player rival hid hother hplayer hrival hsame
    obtain ⟨found, hfound, -, hbest⟩ := bestAt?_of_candidate hboard hturn hroster hid
    obtain ⟨found', hfound', -, hbest'⟩ := bestAt?_of_candidate hboard hturn hroster hother
    cases hplayer.symm.trans hfound
    cases hrival.symm.trans hfound'
    rw [hsame, hbest'] at hbest
    exact (Option.some.inj hbest).symm
  case length_le => exact length_candidates_le hboard hturn hroster
  case matched => exact fun id => exists_candidate_le hboard hordered hturn hroster
  case lowest =>
    intro id haccepts hnone
    obtain ⟨best, hle, hbest⟩ := exists_candidate_le hboard hordered hturn hroster haccepts
    have haccepted := apply_of_candidate hboard hturn hroster hbest
    rcases Nat.lt_or_eq_of_le hle with hlt | rfl
    · exact absurd haccepted (hnone best hlt)
    · exact hbest

/-- In every state of a draft, whatever its rosters and whoever is off the board, the candidates are what the
team on the clock should look at: all of them can be chosen, and nobody who could be drafted comes before all of
them. There are none once the draft is complete. -/
theorem candidates_are_first_of_positions {rows : List Row} {board : Board}
    (hboard : Board.ofRows rows = .ok board) (schedule : Schedule) (requirements : Requirements)
    (s : DraftState) :
    (∀ turn roster, s.onClock? schedule = some turn → s.roster? turn.team = some roster →
      s.Offers ⟨board, schedule, requirements⟩ (s.candidates ⟨board, schedule, requirements⟩)) ∧
    (s.isComplete schedule = true → s.candidates ⟨board, schedule, requirements⟩ = []) := by
  constructor
  · intro turn roster hturn hroster
    have hindexed : Board.Indexed (Rules.mk board schedule requirements).board :=
      Board.indexed_of_ofRows hboard
    have hordered : Board.Ordered (Rules.mk board schedule requirements).board :=
      Board.ordered_of_ofRows hboard
    exact offers_candidates hindexed hordered hturn hroster
  · intro hcomplete
    apply candidates_eq_nil_iff.mpr
    exact Array.getElem?_eq_none (of_decide_eq_true hcomplete)

/-- A running back who is the best one for two slots is offered once. -/
theorem candidates_of_flex_roster :
    let rows : List Row := [⟨2, "RB A", "RB", "100"⟩, ⟨3, "QB A", "QB", "95"⟩, ⟨4, "WR A", "WR", "90"⟩,
      ⟨5, "RB B", "RB", "85"⟩]
    let reqs := Requirements.ofCounts [(.quarterback, 1), (.runningBack, 1), (.wideReceiver, 1), (.flex, 1)]
    ∃ board turn roster, Board.ofRows rows = .ok board ∧
      let s := start 2 board.size
      s.onClock? (.snake 2 4) = some turn ∧ s.roster? turn.team = some roster ∧
      s.Offers ⟨board, .snake 2 4, reqs⟩ (s.candidates ⟨board, .snake 2 4, reqs⟩) ∧
      s.candidates ⟨board, .snake 2 4, reqs⟩ = [.player 1, .player 0, .player 2] := by
  intro rows reqs
  have hok : (Board.ofRows rows).toOption.any (fun board => decide
      ((start 2 board.size).candidates ⟨board, .snake 2 4, reqs⟩ = [.player 1, .player 0, .player 2])) = true := by
    decide +kernel
  obtain ⟨board, hfound, hlist⟩ := (Option.any_eq_true _ _).mp hok
  have hboard := eq_ok_of_toOption hfound
  have hoffers :=
    (candidates_are_first_of_positions hboard (.snake 2 4) reqs (start 2 board.size)).1 ⟨0, 0, 0⟩ .empty rfl rfl
  exact ⟨board, _, _, hboard, rfl, rfl, hoffers, of_decide_eq_true hlist⟩

end DraftState

end SnakeDraft
