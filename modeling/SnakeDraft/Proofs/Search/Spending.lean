import SnakeDraft.Proofs.Search.Merging
import SnakeDraft.Proofs.Search.Rewards
import SnakeDraft.Proofs.Search.Signs
import SnakeDraft.Proofs.Search.Visits

/-!
How iterations are spent on the choices at the root. An iteration records its reward at the child of the root
that is selected, and at no other one (`Search.Charted.simulate_root`). A child without a visit is selected
before those with one, so no child is visited a second time before all have been visited; and since no reward
is below zero, neither is any sum of them (`Search.Spent`).
-/

namespace SnakeDraft

namespace Board

/-- No player has points below zero. -/
def PointsNotBelowZero (players : Array Player) : Prop :=
  ∀ player ∈ players, ¬ player.points < 0

theorem points_of_readRow {name : String} {row : Row} {position : Position} {points : Float}
    (h : readRow name row = .ok (position, points)) : ¬ points < 0 := by
  unfold readRow at h
  split at h
  · cases h
  · split at h
    · cases h
    · split at h
      · next hpoints =>
        cases h
        exact hpoints.2
      · cases h

theorem PointsNotBelowZero.addRow {players more : Array Player} {row : Row}
    (hplayers : PointsNotBelowZero players) (h : addRow players row = .ok more) :
    PointsNotBelowZero more := by
  unfold Board.addRow at h
  cases hname : newName players row with
  | error fault => simp [hname] at h
  | ok name =>
    cases hread : readRow name row with
    | error fault => simp [hname, hread] at h
    | ok found =>
      simp only [hname, hread] at h
      have hpoints := points_of_readRow hread
      have hpushed : more = players.push ⟨name, found.1, found.2, players.size + 1⟩ := by
        split at h
        · split at h
          · cases h
          · exact (Except.ok.inj h).symm
        · exact (Except.ok.inj h).symm
      intro player hplayer
      rw [hpushed, Array.mem_push] at hplayer
      rcases hplayer with hold | rfl
      · exact hplayers player hold
      · exact hpoints

theorem PointsNotBelowZero.addRows {players more : Array Player} {rows : List Row}
    (hplayers : PointsNotBelowZero players) (h : addRows players rows = .ok more) :
    PointsNotBelowZero more := by
  induction rows generalizing players with
  | nil =>
    cases h
    exact hplayers
  | cons row rows ih =>
    unfold Board.addRows at h
    split at h
    · cases h
    · next next hnext => exact ih (hplayers.addRow hnext) h

theorem pointsNotBelowZero_of_ofRows {rows : List Row} {b : Board} (h : ofRows rows = .ok b) :
    PointsNotBelowZero b.players := by
  obtain ⟨players, hplayers, rfl⟩ := eq_ofPlayers_of_ofRows h
  exact PointsNotBelowZero.addRows (by simp [PointsNotBelowZero]) hplayers

end Board

theorem not_zero_lt_zero : ¬ (0 : Float) < 0 := by
  decide +kernel

theorem not_foldl_add_lt_zero {rewards : List Float} (hrewards : ∀ reward ∈ rewards, ¬ reward < 0)
    {start : Float} (hstart : ¬ start < 0) : ¬ rewards.foldl (· + ·) start < 0 := by
  induction rewards generalizing start with
  | nil => exact hstart
  | cons first rewards ih =>
    obtain ⟨hfirst, hrest⟩ := List.forall_mem_cons.mp hrewards
    exact ih hrest (not_add_lt_zero hstart hfirst)

theorem not_earned_lt_zero {board : Board} (hboard : Board.PointsNotBelowZero board.players) (target : Nat)
    (picks : List Pick) : ¬ earned board target picks < 0 := by
  apply not_foldl_add_lt_zero _ not_zero_lt_zero
  intro reward hreward
  obtain ⟨pick, -, rfl⟩ := List.mem_map.mp hreward
  unfold Pick.pointsFor
  cases pick.selection with
  | benched id => exact not_zero_lt_zero
  | passed => exact not_zero_lt_zero
  | drafted id =>
    dsimp only
    split
    · cases hplayer : board.player? id with
      | none => exact not_zero_lt_zero
      | some player => exact hboard player (Array.mem_of_getElem? hplayer)
    · exact not_zero_lt_zero

namespace Tree

variable {t : Tree}

theorem visitsOf_eq_tally? (t : Tree) (id : Nat) :
    t.visitsOf id = ((t.tally? id).map (·.visits.toNat)).getD 0 := by
  unfold visitsOf tally?
  cases t.node? id <;> rfl

theorem tally?_addChildren {node : Nat} (hnode : node < t.size) (choices : List Choice) {id : Nat}
    (hid : id < t.size) : (t.addChildren node choices).tally? id = t.tally? id := by
  induction choices generalizing t with
  | nil => rfl
  | cons choice choices ih =>
    have hsize := t.size_addChild node choice
    have hrest := ih (t := (t.addChild node choice).2) (by omega) (by omega)
    rw [tally?_addChild hnode choice, if_neg (by omega)] at hrest
    exact hrest

/-- Where a child has had no visit, the one that is selected has had none. -/
theorem Linked.unvisited_of_selectChild (h : t.Linked) {id child other : Nat} {exploration : Float}
    (hselect : t.selectChild id exploration = some child) (hother : other ∈ t.childrenOf id)
    (hunvisited : t.visitsOf other = 0) : t.visitsOf child = 0 := by
  have hnew : t.isUnvisited other = true := (isUnvisited_iff (h.child_lt_size hother)).mpr hunvisited
  unfold selectChild at hselect
  simp only at hselect
  split at hselect
  · next first hfirst =>
    cases hselect
    have hlt := h.child_lt_size (List.mem_of_find?_eq_some hfirst)
    exact (isUnvisited_iff hlt).mp (List.find?_some hfirst)
  · next hnone => exact absurd hnew (List.find?_eq_none.mp hnone other hother)

end Tree

namespace Search

variable {σ : Type} {s t : Search σ} {stateAt : Nat → DraftState} {k : Nat}

/-- Growing the tree below the root leaves what its nodes have seen as it was, and the lineage of the node
where the reward is recorded goes through the nodes that the descent went through. -/
theorem tally?_of_grow {d e : Descent} (h : s.tree.Linked) (hd : d.Accounted s)
    (hleaf : s.tree.childrenOf d.node = []) (hgrow : s.grow d = .ok (e, t)) {id : Nat}
    (hid : id < s.tree.size) :
    t.tree.tally? id = s.tree.tally? id ∧ (id ∈ t.tree.lineage e.node ↔ id ∈ s.tree.lineage d.node) := by
  by_cases hopen : d.state.candidates s.rules = []
  · rw [grow_of_complete hleaf hopen] at hgrow
    cases hgrow
    exact ⟨rfl, Iff.rfl⟩
  · rw [grow_of_open hd.node_lt hleaf hopen] at hgrow
    generalize d.state.candidates s.rules = choices at hopen hgrow
    cases hstep : (s.branch d.node choices).step d s.tree.size with
    | error error => rw [hstep] at hgrow; cases hgrow
    | ok next =>
      rw [hstep] at hgrow
      cases hgrow
      have hlinked : (s.branch d.node choices).tree.Linked := h.addChildren hd.node_lt choices
      have hchild : s.tree.size ∈ (s.branch d.node choices).tree.childrenOf d.node :=
        Tree.selectChild_mem (Tree.selectChild_addChildren hd.node_lt hleaf hopen s.settings.exploration)
      refine ⟨Tree.tally?_addChildren hd.node_lt choices hid, ?_⟩
      rw [node_of_step hstep, hlinked.lineage_child hchild, List.mem_cons]
      have hsame : (s.branch d.node choices).tree.lineage d.node = s.tree.lineage d.node :=
        Tree.lineage_addChildren hd.node_lt choices hd.node_lt
      rw [hsame]
      exact or_iff_right (Nat.ne_of_lt hid)

/-- An iteration records its reward at the child of the root that is selected, and at no other child of the
root. -/
theorem Charted.simulate_root (h : s.Charted stateAt)
    (hboard : Board.PointsNotBelowZero s.rules.board.players) (hexpanded : s.tree.childrenOf 0 ≠ [])
    (hsimulate : s.simulate = .ok t) :
    ∃ chosen reward, s.Selects 0 chosen ∧ ¬ reward < 0 ∧ ∀ id ∈ s.tree.childrenOf 0,
      t.tree.tally? id =
        if id = chosen then (s.tree.tally? id).map (·.record reward) else s.tree.tally? id := by
  have hlinked := h.linked
  have hopen : s.state.pointer ≤ s.rules.schedule.size :=
    Nat.le_of_lt (Array.getElem?_eq_some_iff.mp h.explores.turn).1
  obtain ⟨leaf, reward, next, hplayout, rfl⟩ := of_simulate hsimulate
  obtain ⟨final, haccounts⟩ := accounts_of_playout hlinked hopen hplayout
  obtain ⟨d, e, grown, memory, hdescend, hgrow, -, rfl, rfl⟩ := of_playout hplayout
  obtain ⟨hpath, hleaf⟩ := selects_of_descend hdescend
  have hd := (accounted_root hlinked).descend hlinked hdescend
  have hroot : 0 ≠ d.node := by
    intro heq
    rw [← heq] at hleaf
    exact hexpanded hleaf
  obtain ⟨chosen, hchosen, hmem⟩ :=
    hlinked.exists_child_mem_lineage hd.node_lt (hlinked.root_mem_lineage hd.node_lt) hroot
  refine ⟨chosen, reward, selects_of_mem_lineage hlinked hpath hchosen hmem, ?_, ?_⟩
  · rw [haccounts.counted]
    exact not_earned_lt_zero hboard _ _
  · intro id hid
    obtain ⟨hseen, hlineage⟩ := tally?_of_grow hlinked hd hleaf hgrow (hlinked.child_lt_size hid)
    show (grown.tree.backpropagate e.node reward).tally? id = _
    rw [Tree.tally?_backpropagate, hseen]
    by_cases hsame : id = chosen
    · rw [if_pos (hlineage.mpr (hsame ▸ hmem)), if_pos hsame]
    · rw [if_neg, if_neg hsame]
      intro hon
      exact hsame (hlinked.child_mem_lineage_unique hd.node_lt hid hchosen (hlineage.mp hon) hmem)

/-- How some iterations were spent on the children of the root. -/
structure Spent (s : Search σ) (stateAt : Nat → DraftState) (k : Nat) : Prop where
  counted : s.Counted stateAt k
  points : Board.PointsNotBelowZero s.rules.board.players
  valueSum : ∀ id ∈ s.tree.childrenOf 0, ∀ seen, s.tree.tally? id = some seen → ¬ seen.valueSum < 0
  /-- No child has a second visit before all have one. -/
  once : ∀ id ∈ s.tree.childrenOf 0, s.tree.visitsOf id = 0 →
    ∀ other ∈ s.tree.childrenOf 0, s.tree.visitsOf other ≤ 1

theorem Counted.sum_root (h : s.Counted stateAt k) : ((s.tree.childrenOf 0).map s.tree.visitsOf).sum = k := by
  have hopen : (stateAt 0).candidates s.rules ≠ [] := by
    rw [← h.charted.explores.choices 0 h.expanded]
    simpa using h.expanded
  have hbalanced := h.balanced 0 h.charted.linked.size_pos hopen
  unfold Tree.Balanced Tree.childVisits Tree.ownVisits at hbalanced
  rw [h.root, if_pos (Or.inl rfl)] at hbalanced
  omega

/-- Where only the chosen node gets a reward, only it has one visit more. -/
theorem Counted.visitsOf_simulate (h : s.Counted stateAt k) (hk : k + 2 < UInt32.size) {id chosen : Nat}
    {reward : Float} (hlt : id < s.tree.size)
    (hseen : t.tree.tally? id =
      if id = chosen then (s.tree.tally? id).map (·.record reward) else s.tree.tally? id) :
    t.tree.visitsOf id = s.tree.visitsOf id + if id = chosen then 1 else 0 := by
  have hle := h.visits_le id hlt
  have htally : s.tree.tally? id = some s.tree.nodes[id].tally :=
    congrArg (Option.map Node.tally) (Array.getElem?_eq_getElem hlt)
  rw [Tree.visitsOf_eq_tally?] at hle ⊢
  rw [hseen, Tree.visitsOf_eq_tally?, htally]
  rw [htally] at hle
  split
  · exact Tally.visits_foldl_record [reward] (Nat.lt_of_le_of_lt (Nat.succ_le_succ hle) hk)
  · rfl

theorem Spent.simulate (h : s.Spent stateAt k) (hpolicy : s.policy.Legal) (hk : k + 2 < UInt32.size) :
    ∃ t stateAt', s.simulate = .ok t ∧ t.Spent stateAt' (k + 1) ∧ s.Continues t := by
  have hlinked := h.counted.charted.linked
  obtain ⟨t, stateAt', hsimulate, hcounted, hcontinues⟩ := h.counted.simulate hpolicy hk
  obtain ⟨chosen, reward, hselects, hreward, hseen⟩ :=
    h.counted.charted.simulate_root h.points h.counted.expanded hsimulate
  have hchildren := hcontinues.expanded 0 h.counted.expanded
  have hvisits : ∀ id ∈ s.tree.childrenOf 0,
      t.tree.visitsOf id = s.tree.visitsOf id + if id = chosen then 1 else 0 := by
    intro id hid
    exact h.counted.visitsOf_simulate hk (hlinked.child_lt_size hid) (hseen id hid)
  refine ⟨t, stateAt', hsimulate, ?_, hcontinues⟩
  constructor
  case counted => exact hcounted
  case points =>
    rw [hcontinues.rules]
    exact h.points
  case valueSum =>
    intro id hid seen htally
    rw [hchildren] at hid
    rw [hseen id hid] at htally
    split at htally
    · obtain ⟨before, hbefore, rfl⟩ := Option.map_eq_some_iff.mp htally
      exact not_add_lt_zero (h.valueSum id hid before hbefore) hreward
    · exact h.valueSum id hid seen htally
  case once =>
    intro id hid hunvisited other hother
    rw [hchildren] at hid hother
    have hbefore : s.tree.visitsOf id = 0 := by
      have hid' := hvisits id hid
      omega
    have honce := h.once id hid hbefore other hother
    rw [hvisits other hother]
    split
    · next hchosen =>
      -- a child without a visit was left, so the chosen one had none either
      rw [hchosen, hlinked.unvisited_of_selectChild hselects hid hbefore]
    · exact honce

theorem Spent.iterate (h : s.Spent stateAt 0) (hpolicy : s.policy.Legal) {n : Nat}
    (hn : n + 1 < UInt32.size) :
    ∃ t stateAt', iterate n s = .ok t ∧ t.Spent stateAt' n ∧ s.Continues t := by
  apply iterate_of_step (fun k t stateAt => t.Spent stateAt k) _ h hpolicy
  intro k hk t stateAt ht hlegal
  exact ht.simulate hlegal (by omega)

theorem spent_start {rules : Rules} {state : DraftState} {rows : List Row}
    (hboard : Board.ofRows rows = .ok rules.board) (hseats : state.Seats rules.schedule) {settings : Settings}
    {policy : Policy σ} {memory : σ} (hstart : start rules state settings policy memory = .ok s) :
    ∃ stateAt, s.Spent stateAt 0 := by
  have hindexed := Board.indexed_of_ofRows hboard
  obtain ⟨stateAt, hcounted⟩ := counted_start hindexed hseats hstart
  obtain ⟨_, -, calls, hgrown, hcalls⟩ := gathered_start hindexed hseats hstart
  obtain ⟨-, hrules, -, -⟩ := charted_start hindexed hseats hstart
  refine ⟨stateAt, hcounted, ?_, ?_, ?_⟩
  · rw [hrules]
    exact Board.pointsNotBelowZero_of_ofRows hboard
  · intro id hid seen htally
    obtain ⟨hpos, -⟩ := hcounted.charted.linked.child 0 id hid
    rw [hgrown.tally?_eq (hcounted.charted.linked.child_lt_size hid), List.length_eq_zero_iff.mp hcalls,
      Tree.blankTally, if_neg (by omega)] at htally
    obtain rfl := Option.some.inj htally
    exact not_zero_lt_zero
  · intro id _ _ other hother
    have hsum := hcounted.sum_root
    have hmem : s.tree.visitsOf other ∈ (s.tree.childrenOf 0).map s.tree.visitsOf :=
      List.mem_map_of_mem hother
    have hle := List.single_le_sum (fun _ _ => Nat.zero_le _) _ hmem
    omega

theorem all_one_of_sum_le {visits : List Nat} (hvisited : ∀ n ∈ visits, n ≠ 0)
    (hsum : visits.sum ≤ visits.length) : ∀ n ∈ visits, n = 1 := by
  induction visits with
  | nil => simp
  | cons first visits ih =>
    obtain ⟨hfirst, hrest⟩ := List.forall_mem_cons.mp hvisited
    have hle : visits.length ≤ visits.sum :=
      List.length_le_sum_of_one_le visits fun n hn => Nat.one_le_iff_ne_zero.mpr (hrest n hn)
    rw [List.sum_cons, List.length_cons] at hsum
    exact List.forall_mem_cons.mpr ⟨by omega, ih hrest (by omega)⟩

/-- The first iterations visit the children of the root one after the other. -/
theorem Spent.visits_root (h : s.Spent stateAt k) (hk : k ≤ (s.tree.childrenOf 0).length) :
    (s.tree.childrenOf 0).map s.tree.visitsOf =
      List.replicate k 1 ++ List.replicate ((s.tree.childrenOf 0).length - k) 0 := by
  obtain ⟨visited, rest, hsplit, hvisited, hrest⟩ := (h.counted.inOrder 0).split
  have hsum := h.counted.sum_root
  have honce := h.once
  rw [hsplit] at hsum hk honce ⊢
  have hzeros : rest.map s.tree.visitsOf = List.replicate rest.length 0 :=
    List.map_eq_replicate_iff.mpr hrest
  have hones : visited.map s.tree.visitsOf = List.replicate visited.length 1 := by
    rw [List.map_eq_replicate_iff]
    intro child hchild
    cases rest with
    | nil =>
      rw [List.append_nil] at hsum hk
      have hnonzero : ∀ n ∈ visited.map s.tree.visitsOf, n ≠ 0 := by
        intro n hn
        obtain ⟨other, hother, rfl⟩ := List.mem_map.mp hn
        exact hvisited other hother
      exact all_one_of_sum_le hnonzero (by rwa [hsum, List.length_map]) _ (List.mem_map_of_mem hchild)
    | cons first rest =>
      have hle := honce first (by simp) (hrest first List.mem_cons_self) child (by simp [hchild])
      have hpos := hvisited child hchild
      omega
  rw [List.map_append, hzeros, hones, List.sum_append, List.sum_replicate, List.sum_replicate] at hsum
  rw [List.map_append, hzeros, hones, List.length_append]
  have hlength : visited.length = k := by simpa using hsum
  rw [hlength, Nat.add_sub_cancel_left]

theorem Spent.node_of_child (h : s.Spent stateAt k) {id : Nat} (hid : id ∈ s.tree.childrenOf 0) :
    ∃ node, s.tree.node? id = some node :=
  ⟨_, Array.getElem?_eq_getElem (h.counted.charted.linked.child_lt_size hid)⟩

theorem Spent.visits_rootChildren (h : s.Spent stateAt k) :
    s.rootChildren.map (·.visits.toNat) = (s.tree.childrenOf 0).map s.tree.visitsOf := by
  unfold rootChildren
  rw [List.map_map]
  apply List.map_congr_left
  intro id hid
  obtain ⟨node, hnode⟩ := h.node_of_child hid
  unfold Tree.visitsOf
  rw [Function.comp_apply, statsOf, hnode]
  rfl

theorem Spent.choices_rootChildren (h : s.Spent stateAt k) :
    s.rootChildren.map (·.choice) = s.state.candidates s.rules :=
  h.counted.charted.explores.choices_rootChildren h.counted.expanded

theorem Spent.length_childrenOf (h : s.Spent stateAt k) :
    (s.tree.childrenOf 0).length = (s.state.candidates s.rules).length := by
  rw [← h.choices_rootChildren, rootChildren, List.length_map, List.length_map]

/-- As long as no choice is visited again, the first ones have been visited once each. -/
theorem Spent.visits_in_turn (h : s.Spent stateAt k) (hk : k ≤ (s.state.candidates s.rules).length) :
    s.rootChildren.map (·.visits.toNat) =
      List.replicate k 1 ++ List.replicate ((s.state.candidates s.rules).length - k) 0 := by
  rw [← h.length_childrenOf] at hk ⊢
  rw [h.visits_rootChildren, h.visits_root hk]

theorem Spent.first_visited (h : s.Spent stateAt k) (hk : 1 ≤ k) :
    ∀ first ∈ s.rootChildren.head?, first.visits ≠ 0 := by
  intro first hfirst hunvisited
  have hvisits := h.visits_rootChildren
  have hsum := h.counted.sum_root
  obtain ⟨visited, rest, hsplit, hvisited, hrest⟩ := (h.counted.inOrder 0).split
  obtain ⟨others, hothers⟩ := List.head?_eq_some_iff.mp hfirst
  rw [hothers, hsplit] at hvisits
  cases visited with
  | nil =>
    rw [hsplit, List.nil_append, List.map_congr_left hrest] at hsum
    simp at hsum
    omega
  | cons child visited =>
    have hhead : first.visits.toNat = s.tree.visitsOf child := List.head_eq_of_cons_eq hvisits
    rw [hunvisited] at hhead
    exact hvisited child List.mem_cons_self hhead.symm

theorem Spent.valueSum_rootChildren (h : s.Spent stateAt k) :
    ∀ child ∈ s.rootChildren, ¬ child.valueSum < 0 := by
  intro child hchild
  obtain ⟨id, hid, rfl⟩ := List.mem_map.mp hchild
  obtain ⟨node, hnode⟩ := h.node_of_child hid
  have hsum := h.valueSum id hid node.tally (congrArg (Option.map Node.tally) hnode)
  unfold statsOf
  rw [hnode]
  exact hsum

end Search

end SnakeDraft
