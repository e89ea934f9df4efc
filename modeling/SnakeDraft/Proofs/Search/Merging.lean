import Mathlib.Order.Bounds.Defs
import SnakeDraft.Proofs.Search.Candidates
import SnakeDraft.Proofs.Search.Combination
import SnakeDraft.Proofs.Search.Correspondence
import SnakeDraft.Proofs.Search.Growth
import SnakeDraft.Proofs.Search.Recommendation

/-!
What several trees find together. The tree of a search is grown by one reward for each iteration
(`Search.Gathered`), so its root has the candidates of the pick as children, none of which has more visits than
there were iterations. All trees agree on the list of choices, and the merged result has for each choice what the
trees have found out about it, each tree counted once (`SearchResult.Sums`).
-/

namespace SnakeDraft

namespace Tree

theorem Grown.addChildren {t : Tree} {calls : List (Nat × Float)} (h : Grown t calls) {node : Nat}
    (hnode : node < t.size) (choices : List Choice) : Grown (t.addChildren node choices) calls := by
  induction choices generalizing t with
  | nil => exact h
  | cons choice choices ih =>
    have hgrown := ih (h.addChild choice hnode) (by rw [size_addChild]; omega)
    exact hgrown

end Tree

namespace Search

variable {σ : Type} {s : Search σ} {stateAt : Nat → DraftState} {k : Nat}

/-- A search has recorded one reward for each of its iterations. -/
structure Gathered (s : Search σ) (stateAt : Nat → DraftState) (k : Nat) : Prop where
  explores : s.Explores stateAt
  grown : ∃ calls, s.tree.Grown calls ∧ calls.length = k

/-- A search starts with a tree that has recorded nothing. -/
theorem gathered_start {rules : Rules} {state : DraftState} (hboard : rules.board.Indexed)
    (hseats : state.Seats rules.schedule) {settings : Settings} {policy : Policy σ} {memory : σ}
    (hstart : start rules state settings policy memory = .ok s) : ∃ stateAt, s.Gathered stateAt 0 := by
  obtain ⟨turn, hturn, rfl⟩ := of_start hstart
  have halone := explores_alone hboard hseats hturn settings policy memory
  have hgrown := Tree.Grown.singleton.addChildren halone.size_pos (state.candidates rules)
  exact ⟨_, halone.branch halone.size_pos rfl, [], hgrown, rfl⟩

theorem Gathered.simulate (h : s.Gathered stateAt k) (hpolicy : s.policy.Legal) :
    ∃ t stateAt', s.simulate = .ok t ∧ t.Gathered stateAt' (k + 1) ∧ s.Continues t := by
  obtain ⟨t, stateAt', hsimulate, hexplores, hcontinues⟩ := h.explores.simulate hpolicy
  refine ⟨t, stateAt', hsimulate, ⟨hexplores, ?_⟩, hcontinues⟩
  obtain ⟨calls, hgrown, hlength⟩ := h.grown
  obtain ⟨leaf, reward, memory, hlt, -, -, ⟨-, hended⟩ | ⟨hopen, hbranched⟩⟩ :=
    h.explores.simulate_cases hpolicy
  · obtain rfl := Except.ok.inj (hsimulate.symm.trans hended)
    exact ⟨_, hgrown.backpropagate reward hlt, by simp [hlength]⟩
  · obtain rfl := Except.ok.inj (hsimulate.symm.trans hbranched)
    -- the reward is recorded at the first of the new children
    have hnew : s.tree.size < (s.tree.addChildren leaf ((stateAt leaf).candidates s.rules)).size := by
      have hsome := List.length_pos_iff.mpr hopen
      rw [Tree.size_addChildren]
      omega
    exact ⟨_, (hgrown.addChildren hlt _).backpropagate reward hnew, by simp [hlength]⟩

theorem Gathered.iterate (h : s.Gathered stateAt 0) (hpolicy : s.policy.Legal) (n : Nat) :
    ∃ t stateAt', iterate n s = .ok t ∧ t.Gathered stateAt' n ∧ s.Continues t := by
  apply iterate_of_step (fun k t stateAt => t.Gathered stateAt k) _ h hpolicy
  exact fun _ _ t _ ht hlegal => ht.simulate hlegal

/-- A child of the root has been visited once in each iteration at most, and its highest reward is a number. -/
theorem Gathered.of_mem_rootChildren (h : s.Gathered stateAt k) (hk : k < 2 ^ 32 - 1) {child : ChildStats}
    (hchild : child ∈ s.rootChildren) : child.visits.toNat ≤ k ∧ child.best.isNaN = false := by
  obtain ⟨calls, hgrown, rfl⟩ := h.grown
  obtain ⟨id, hid, rfl⟩ := List.mem_map.mp hchild
  obtain ⟨hpos, -⟩ := hgrown.linked.child 0 id hid
  obtain ⟨node, hnode, hvisits, -, hbest⟩ := hgrown.seen hk (hgrown.linked.child_lt_size hid)
  have hle := s.tree.length_rewardsThrough_le calls id
  rw [if_neg (by omega)] at hvisits
  unfold statsOf
  rw [hnode]
  exact ⟨hvisits.trans_le hle, hbest.number⟩

end Search

/-- What the search of a single tree reports. -/
structure SearchResult.OfTree (r : SearchResult) (rules : Rules) (state : DraftState) (budget : Nat) :
    Prop where
  turn : state.onClock? rules.schedule = some r.turn
  choices : r.children.map (·.choice) = state.candidates rules
  visits_le : ∀ child ∈ r.children, child.visits.toNat ≤ budget
  best_number : ∀ child ∈ r.children, child.best.isNaN = false
  workers : r.stats.workers = 1

section Tree

variable {σ : Type} {rules : Rules} {state : DraftState} {policy : Policy σ} (hboard : rules.board.Indexed)
  (hseats : state.Seats rules.schedule) (hpolicy : policy.Legal) (hopen : state.pointer < rules.schedule.size)

include hboard hseats hpolicy hopen

/-- The search of a tree comes to an end, and reports what it has gathered by then. -/
theorem searchTree_gathers (settings : Settings) (memory : σ) {timing : Timing}
    (hdeadline : settings.deadlineFits timing.start = true) :
    ∃ (t : Search σ) (stateAt : Nat → DraftState) (n : Nat),
      searchTree rules state settings policy memory timing = .ok (t.result n) ∧ t.Gathered stateAt n ∧
      t.rules = rules ∧ t.state = state ∧ t.rootChildren.map (·.choice) = state.candidates rules ∧
      n = if (state.candidates rules).length = 1 then 0 else settings.iterations timing.room := by
  have hturn : state.onClock? rules.schedule = some rules.schedule.turns[state.pointer] :=
    Array.getElem?_eq_getElem hopen
  obtain ⟨s, startAt, hstart, hexplores, hroot, rfl, rfl, -, rfl, rfl⟩ :=
    Search.start_ok hboard hseats hturn settings policy memory
  obtain ⟨stateAt, hgathered⟩ := Search.gathered_start hboard hseats hstart
  obtain ⟨t, stateAt', hiterate, ht, hcontinues⟩ := hgathered.iterate hpolicy (s.iterations timing.room)
  have hchoices := ht.explores.choices_rootChildren (by rwa [hcontinues.expanded 0 hroot])
  rw [hcontinues.rules, hcontinues.state] at hchoices
  have hlength := congrArg List.length (hexplores.choices_rootChildren hroot)
  rw [Search.rootChildren, List.length_map, List.length_map] at hlength
  refine ⟨t, stateAt', s.iterations timing.room, ?_, ht, hcontinues.rules, hcontinues.state, hchoices, ?_⟩
  · unfold searchTree
    rw [hstart]
    exact Search.run_of_iterate hdeadline hiterate
  · unfold Search.iterations Search.isForced
    rw [hlength]
    simp only [beq_iff_eq]

theorem searchTree_ofTree {settings : Settings} {budget : Nat} (hbudget : settings.maxIterations = some budget)
    (hfits : budget < 2 ^ 32 - 1) (memory : σ) {timing : Timing}
    (hdeadline : settings.deadlineFits timing.start = true) :
    ∃ r, searchTree rules state settings policy memory timing = .ok r ∧ r.OfTree rules state budget := by
  obtain ⟨t, stateAt, n, hreports, ht, rfl, rfl, hchoices, hn⟩ :=
    searchTree_gathers hboard hseats hpolicy hopen settings memory hdeadline
  have hwithin : n ≤ budget := by
    rw [hn]
    split
    · exact Nat.zero_le budget
    · exact Settings.iterations_le hbudget timing.room
  have hchild : ∀ child ∈ t.rootChildren, child.visits.toNat ≤ n ∧ child.best.isNaN = false :=
    fun child hchild => ht.of_mem_rootChildren (by omega) hchild
  refine ⟨t.result n, hreports, ht.explores.turn, hchoices, ?_, ?_, rfl⟩
  · exact fun child hmem => (hchild child hmem).1.trans hwithin
  · exact fun child hmem => (hchild child hmem).2

end Tree

/-- The statistics of one choice, as those of an arithmetic. -/
def ChildStats.totals (c : ChildStats) : Totals Float :=
  ⟨c.choice, c.visits, c.valueSum, c.best⟩

/-- What a result reports of all choices. -/
def SearchResult.totals (r : SearchResult) : List (Totals Float) :=
  r.children.map (·.totals)

section Totals

theorem totals_absorb (stats : List ChildStats) (child : ChildStats) :
    (absorb stats child).map (·.totals) = Totals.absorb .float (stats.map (·.totals)) child.totals := by
  induction stats with
  | nil => rfl
  | cons c cs ih =>
    show _ = if c.choice = child.choice then _ else _
    unfold absorb
    split
    · rfl
    · rw [List.map_cons, ih]

theorem SearchResult.totals_merge (a b : SearchResult) :
    (a.merge b).totals = b.totals.foldl (Totals.absorb .float) a.totals := by
  unfold SearchResult.merge totals
  rw [List.foldl_map]
  exact (List.foldl_hom (List.map ChildStats.totals) fun stats child => (totals_absorb stats child).symm).symm

theorem SearchResult.totals_foldl_merge (first : SearchResult) (others : List SearchResult) :
    (others.foldl merge first).totals =
      (others.map (·.totals)).foldl (fun totals children => children.foldl (Totals.absorb .float) totals)
        first.totals := by
  rw [List.foldl_map]
  exact (List.foldl_hom SearchResult.totals fun a b => (totals_merge a b).symm).symm

theorem commit_eq_totals (policy : CommitPolicy) (children : List ChildStats) :
    commit policy children = Totals.commit .float policy (children.map (·.totals)) := by
  have hbetter : ∀ a b : ChildStats, Totals.isBetter .float policy a.totals b.totals = a.isBetter policy b := by
    intro a b
    cases policy <;> rfl
  have hfirst := leftmost_map (fun a b : ChildStats => a.isBetter policy b) Prod.fst children.zipIdx
  rw [List.zipIdx_map_fst] at hfirst
  unfold Totals.commit commit committed
  rw [leftmost_map]
  simp only [hbetter, hfirst, Option.map_map]
  rfl

end Totals

/-- A sum of numbers from left to right, starting with the first one. -/
def inOrderSum : List Float → Float
  | [] => 0
  | first :: rest => rest.foldl (· + ·) first

/-- The statistics of a choice are what several searches have found out about it. -/
structure ChildStats.SumsUp (total : ChildStats) (parts : List ChildStats) : Prop where
  visits : total.visits.toNat = (parts.map (·.visits.toNat)).sum
  valueSum : total.valueSum = inOrderSum (parts.map (·.valueSum))
  best : IsGreatest {best | best ∈ parts.map (·.best)} total.best

section SumsUp

theorem toNat_foldl_add (visits : List UInt32) {start : UInt32}
    (hfits : start.toNat + (visits.map (·.toNat)).sum < UInt32.size) :
    (visits.foldl (· + ·) start).toNat = start.toNat + (visits.map (·.toNat)).sum := by
  induction visits generalizing start with
  | nil => rfl
  | cons first visits ih =>
    rw [List.map_cons, List.sum_cons] at hfits ⊢
    have hsum : (start + first).toNat = start.toNat + first.toNat := by
      rw [UInt32.toNat_add]
      exact Nat.mod_eq_of_lt (by show _ < UInt32.size; omega)
    rw [List.foldl_cons, ih (by omega), hsum]
    omega

/-- The greater of two when the first one is a number. -/
theorem greater_of_number (b : Float) {a : Float} (ha : a.isNaN = false) :
    ChildStats.greater a b = if b > a then b else a := by
  unfold ChildStats.greater
  rw [ha, if_neg Bool.false_ne_true]
  split
  · next hb =>
    have hnot : ¬ b > a := by
      intro hgt
      obtain ⟨-, hnumber, -⟩ := lt_iff_rank.mp hgt
      exact Bool.false_ne_true (hnumber.symm.trans hb)
    rw [if_neg hnot]
  · rfl

theorem foldl_greater (bests : List Float) {start : Float} (hstart : start.isNaN = false) :
    bests.foldl ChildStats.greater start =
      bests.foldl (fun best reward => if reward > best then reward else best) start := by
  induction bests generalizing start with
  | nil => rfl
  | cons first bests ih =>
    obtain ⟨-, hnext, -⟩ := higher_of_two first hstart
    rw [List.foldl_cons, List.foldl_cons, greater_of_number first hstart]
    exact ih hnext

theorem isGreatest_foldl_greater {bests : List Float} {start : Float} (hstart : start.isNaN = false)
    (hbests : ∀ best ∈ bests, best.isNaN = false) :
    IsGreatest {best | best ∈ start :: bests} (bests.foldl ChildStats.greater start) := by
  rw [foldl_greater bests hstart]
  obtain ⟨hmem, hle, hall⟩ := foldl_higher bests hstart
  refine ⟨hmem, fun best hbest => ?_⟩
  rcases List.mem_cons.mp hbest with rfl | hlater
  · exact hle
  · exact hall best hlater (hbests best hlater)

theorem ChildStats.sumsUp_of_totals {total own : ChildStats} {rest : List ChildStats}
    (htotal : total.totals = (rest.map (·.totals)).foldl (Totals.merge .float) own.totals)
    (hfits : ((own :: rest).map (·.visits.toNat)).sum < UInt32.size)
    (hnumbers : ∀ part ∈ own :: rest, part.best.isNaN = false) : total.SumsUp (own :: rest) := by
  rw [Totals.foldl_merge, List.map_map, List.map_map, List.map_map] at htotal
  constructor
  case visits =>
    have hvisits : total.visits = (rest.map (·.visits)).foldl (· + ·) own.visits :=
      congrArg Totals.visits htotal
    rw [List.map_cons, List.sum_cons] at hfits ⊢
    have hsame : (rest.map (·.visits)).map (·.toNat) = rest.map (·.visits.toNat) := by
      rw [List.map_map]
      rfl
    rw [hvisits, toNat_foldl_add, hsame]
    rwa [hsame]
  case valueSum => exact congrArg Totals.valueSum htotal
  case best =>
    have hbest : total.best = (rest.map (·.best)).foldl ChildStats.greater own.best :=
      congrArg Totals.best htotal
    rw [hbest]
    apply isGreatest_foldl_greater (hnumbers own List.mem_cons_self)
    intro best hmem
    obtain ⟨part, hpart, rfl⟩ := List.mem_map.mp hmem
    exact hnumbers part (List.mem_cons_of_mem own hpart)

end SumsUp

namespace SearchResult

/-- A result is what several results come to together. -/
structure Sums (merged : SearchResult) (results : List SearchResult) (policy : CommitPolicy)
    (choices : List Choice) : Prop where
  choices_eq : merged.children.map (·.choice) = choices
  /-- The parts of a total are what the results have in its place. -/
  child : ∀ (i : Nat) (total : ChildStats), merged.children[i]? = some total →
    ∃ parts : List ChildStats, results.map (·.children[i]?) = parts.map some ∧ total.SumsUp parts
  iterations : merged.stats.iterations = (results.map (·.stats.iterations)).sum
  treeSize : merged.stats.treeSize = (results.map (·.stats.treeSize)).sum
  passThroughs : merged.stats.passThroughs = (results.map (·.stats.passThroughs)).sum
  workers : merged.stats.workers = (results.map (·.stats.workers)).sum
  maxDepth : (results.map (·.stats.maxDepth)).max? = some merged.stats.maxDepth
  choice : commit policy merged.children = some merged.choice
  combined : Totals.combine .float policy (results.map (·.totals)) = some (merged.totals, some merged.choice)

section Sums

variable {rules : Rules} {state : DraftState} {budget : Nat} {first : SearchResult}
  {others : List SearchResult}

theorem stats_foldl_merge (first : SearchResult) (others : List SearchResult) :
    (others.foldl merge first).stats =
      { iterations := ((first :: others).map (·.stats.iterations)).sum
        treeSize := ((first :: others).map (·.stats.treeSize)).sum
        maxDepth := (others.map (·.stats.maxDepth)).foldl max first.stats.maxDepth
        passThroughs := ((first :: others).map (·.stats.passThroughs)).sum
        workers := ((first :: others).map (·.stats.workers)).sum } := by
  induction others generalizing first with
  | nil => rfl
  | cons next others ih =>
    rw [List.foldl_cons, ih]
    simp [merge, SearchStats.merge, Nat.add_assoc]

theorem turn_foldl_merge (first : SearchResult) (others : List SearchResult) :
    (others.foldl merge first).turn = first.turn := by
  induction others generalizing first with
  | nil => rfl
  | cons next others ih => exact ih (first.merge next)

theorem map_choice_totals (r : SearchResult) : r.totals.map (·.choice) = r.children.map (·.choice) := by
  unfold totals
  rw [List.map_map]
  rfl

theorem OfTree.map_choice {r : SearchResult} (h : r.OfTree rules state budget) :
    r.totals.map (·.choice) = state.candidates rules :=
  r.map_choice_totals.trans h.choices

theorem OfTree.length_children {r : SearchResult} (h : r.OfTree rules state budget) :
    r.children.length = (state.candidates rules).length := by
  rw [← h.choices, List.length_map]

/-- The totals of several trees stand in the order of the candidates, each with what the trees have in its
place. -/
theorem totals_of_trees (hfirst : first.OfTree rules state budget)
    (hothers : ∀ r ∈ others, r.OfTree rules state budget) :
    (others.foldl merge first).totals.map (·.choice) = state.candidates rules ∧
    ∀ i : Nat, (others.foldl merge first).totals[i]? = first.totals[i]?.map fun own =>
      ((others.map totals).filterMap (·[i]?)).foldl (Totals.merge .float) own := by
  have hrows : ∀ row ∈ others.map (·.totals), row.map (·.choice) = state.candidates rules := by
    intro row hrow
    obtain ⟨r, hr, rfl⟩ := List.mem_map.mp hrow
    exact (hothers r hr).map_choice
  obtain ⟨hside, hchoices⟩ := Totals.foldl_foldl_absorb (A := .float) (state.nodup_candidates rules) hrows
    hfirst.map_choice
  rw [totals_foldl_merge, hside]
  refine ⟨hchoices, Totals.getElem?_foldl_zipWith fun row hrow => ?_⟩
  have hlength := congrArg List.length (hfirst.map_choice.trans (hrows row hrow).symm)
  rw [List.length_map, List.length_map] at hlength
  exact hlength.le

theorem getElem?_totals (r : SearchResult) (i : Nat) :
    r.totals[i]? = r.children[i]?.map ChildStats.totals :=
  List.getElem?_map

/-- Every tree has a child for each candidate. -/
theorem exists_parts {results : List SearchResult} (hall : ∀ r ∈ results, r.OfTree rules state budget)
    {i : Nat} (hi : i < (state.candidates rules).length) :
    ∃ parts : List ChildStats, results.map (·.children[i]?) = parts.map some ∧
      ∀ part ∈ parts, part.visits.toNat ≤ budget ∧ part.best.isNaN = false := by
  apply exists_map_eq_map
  intro r hr
  have hlt : i < r.children.length := by
    rw [(hall r hr).length_children]
    exact hi
  have hmem : r.children[i] ∈ r.children := List.getElem_mem hlt
  exact ⟨r.children[i], List.getElem?_eq_getElem hlt, (hall r hr).visits_le _ hmem,
    (hall r hr).best_number _ hmem⟩

theorem filterMap_totals {results : List SearchResult} {parts : List ChildStats} {i : Nat}
    (hparts : results.map (·.children[i]?) = parts.map some) :
    (results.map totals).filterMap (·[i]?) = parts.map (·.totals) := by
  calc (results.map totals).filterMap (·[i]?)
    _ = results.filterMap fun r => r.children[i]?.map ChildStats.totals := by
      rw [List.filterMap_map]
      exact List.filterMap_congr fun r _ => r.getElem?_totals i
    _ = (results.map (·.children[i]?)).filterMap (·.map ChildStats.totals) := by
      rw [List.filterMap_map]
      rfl
    _ = parts.map (·.totals) := by
      rw [hparts, List.filterMap_map]
      exact congrFun List.filterMap_eq_map parts

theorem sumsUp_of_trees (hfirst : first.OfTree rules state budget)
    (hothers : ∀ r ∈ others, r.OfTree rules state budget)
    (hfits : (first :: others).length * budget < UInt32.size) {i : Nat} {total : ChildStats}
    (htotal : (others.foldl merge first).children[i]? = some total) :
    ∃ parts, (first :: others).map (·.children[i]?) = parts.map some ∧ total.SumsUp parts := by
  obtain ⟨hchoices, hplaces⟩ := totals_of_trees hfirst hothers
  have hplace := hplaces i
  have hi : i < (state.candidates rules).length := by
    rw [← hchoices, map_choice_totals, List.length_map]
    exact (List.getElem?_eq_some_iff.mp htotal).1
  obtain ⟨parts, hparts, hbounds⟩ := exists_parts (List.forall_mem_cons.mpr ⟨hfirst, hothers⟩) hi
  obtain ⟨own, rest, rfl, hown, hrest⟩ := List.map_eq_cons_iff.mp hparts.symm
  refine ⟨own :: rest, hparts, ChildStats.sumsUp_of_totals ?_ ?_ fun part hpart => (hbounds part hpart).2⟩
  · have hfirst' : first.children[i]? = some own := hown.symm
    rw [getElem?_totals, getElem?_totals, htotal, hfirst', filterMap_totals hrest.symm] at hplace
    exact Option.some.inj hplace
  · have hlength := congrArg List.length hparts
    rw [List.length_map, List.length_map] at hlength
    have hle : ((own :: rest).map (·.visits.toNat)).sum ≤ (own :: rest).length * budget := by
      have hbound : ∀ visits ∈ (own :: rest).map (·.visits.toNat), visits ≤ budget := by
        intro visits hvisits
        obtain ⟨part, hpart, rfl⟩ := List.mem_map.mp hvisits
        exact (hbounds part hpart).1
      have hsum := List.sum_le_card_nsmul _ budget hbound
      rwa [List.length_map, nsmul_eq_mul, Nat.cast_id] at hsum
    rw [← hlength] at hle
    omega

/-- Trees for the same pick come to their sums. -/
theorem exists_sums {results : List SearchResult} (hne : results ≠ [])
    (hall : ∀ r ∈ results, r.OfTree rules state budget) (hfits : results.length * budget < UInt32.size)
    (policy : CommitPolicy) : ∃ merged, mergeResults policy results = some merged ∧
      state.onClock? rules.schedule = some merged.turn ∧
      merged.Sums results policy (state.candidates rules) := by
  obtain ⟨first, others, rfl⟩ := List.exists_cons_of_ne_nil hne
  obtain ⟨hfirst, hothers⟩ := List.forall_mem_cons.mp hall
  have hchoices := (totals_of_trees hfirst hothers).1
  rw [map_choice_totals] at hchoices
  have hturn : state.onClock? rules.schedule = some (others.foldl merge first).turn := by
    rw [turn_foldl_merge]
    exact hfirst.turn
  have hstats := stats_foldl_merge first others
  have hsome : (others.foldl merge first).children ≠ [] := by
    have hcandidates := Search.candidates_ne_nil hfirst.turn
    rintro hnil
    rw [hnil] at hchoices
    exact hcandidates hchoices.symm
  obtain ⟨best, -, hcommit⟩ := exists_commit policy hsome
  refine ⟨_, rfl, hturn, ?_⟩
  constructor
  case choices_eq => exact hchoices
  case child => exact fun i total htotal => sumsUp_of_trees hfirst hothers hfits htotal
  case iterations => exact congrArg (·.iterations) hstats
  case treeSize => exact congrArg (·.treeSize) hstats
  case passThroughs => exact congrArg (·.passThroughs) hstats
  case workers => exact congrArg (·.workers) hstats
  case maxDepth =>
    rw [hstats]
    rfl
  case choice =>
    simp only [hcommit, Option.getD_some]
  case combined =>
    have htotals : Totals.ofSearches .float ((first :: others).map totals) =
        some (others.foldl merge first).totals :=
      congrArg some (totals_foldl_merge first others).symm
    have hcommit' : Totals.commit .float policy (others.foldl merge first).totals = some best.choice :=
      (commit_eq_totals policy _).symm.trans hcommit
    unfold Totals.combine
    rw [htotals, Option.map_some, hcommit', hcommit]
    rfl

end Sums

end SearchResult

/-- A search with several trees comes to the sums of what its trees report, one tree for each worker with the seed
of the worker, as long as the clock can tell the deadlines of all. All trees have the candidates as their choices,
and the search commits to a choice by its totals. Where sums do not depend on their order, the order of the trees
does not matter. Both kinds of policy keep to the candidates. -/
theorem search_sums_up_trees {rows : List Row} {board : Board} (hboard : Board.ofRows rows = .ok board)
    (schedule : Schedule) (requirements : Requirements) {state : DraftState} (hseats : state.Seats schedule)
    (hopen : state.pointer < schedule.size) {σ : Type} {policy : Policy σ} (hpolicy : policy.Legal)
    (memoryOf : UInt64 → σ) {settings : Settings} (hworkers : 2 ≤ settings.workers) {budget : Nat}
    (hbudget : settings.maxIterations = some budget) (hfits : settings.workers * budget < UInt32.size)
    {clock : Clock} (hclock : clock.Fits settings) :
    let rules : Rules := ⟨board, schedule, requirements⟩
    (∃ results merged,
      (List.range settings.workers).map (fun worker => searchTree rules state settings policy
        (memoryOf (settings.seed + worker.toUInt64)) (clock.timingIn worker)) = results.map .ok ∧
      (∀ r ∈ results, r.children.map (·.choice) = state.candidates rules) ∧
      search rules state settings policy memoryOf clock = .ok merged ∧
      state.onClock? schedule = some merged.turn ∧
      merged.Sums results settings.commitPolicy (state.candidates rules) ∧
      ∀ (K : Type) [Field K] [LinearOrder K] (value : Float → K) (others : List SearchResult),
        results.Perm others →
          Totals.combine (.exact K) settings.commitPolicy (results.map fun r => r.totals.map (·.map value)) =
          Totals.combine (.exact K) settings.commitPolicy (others.map fun r => r.totals.map (·.map value))) ∧
    ∀ scores kind, (Policy.ofKind scores kind).Legal := by
  intro rules
  refine ⟨?_, Policy.ofKind_legal⟩
  have hindexed : rules.board.Indexed := Board.indexed_of_ofRows hboard
  have hone : budget < 2 ^ 32 - 1 := by
    have htwice := Nat.mul_le_mul_right budget hworkers
    have hsize : UInt32.size = 2 ^ 32 := rfl
    omega
  have htree : ∀ worker ∈ List.range settings.workers, ∃ r, searchTree rules state settings policy
      (memoryOf (settings.seed + worker.toUInt64)) (clock.timingIn worker) = .ok r ∧
      r.OfTree rules state budget :=
    fun worker hworker => searchTree_ofTree hindexed hseats hpolicy hopen hbudget hone _
      (hclock.tree (List.mem_range.mp hworker))
  obtain ⟨results, hresults, htrees⟩ := exists_map_eq_map htree
  have hlength : results.length = settings.workers := by
    have hsame := congrArg List.length hresults
    rw [List.length_map, List.length_map, List.length_range] at hsame
    exact hsame.symm
  have hne : results ≠ [] := List.ne_nil_of_length_pos (by omega)
  obtain ⟨merged, hmerge, hturn, hsums⟩ :=
    SearchResult.exists_sums hne htrees (by rwa [hlength]) settings.commitPolicy
  refine ⟨results, merged, hresults, fun r hr => (htrees r hr).choices, ?_, hturn, hsums, ?_⟩
  · unfold search
    simp only [if_neg (show ¬ settings.workers ≤ 1 by omega), hresults, collectResults_map_ok, hmerge]
  · intro K _ _ value others hperm
    apply Totals.combine_exact_perm (state.nodup_candidates rules) (hperm.map _)
    intro totals htotals
    obtain ⟨r, hr, rfl⟩ := List.mem_map.mp htotals
    rw [List.map_map]
    exact (htrees r hr).map_choice

theorem search_sums_up_three_trees :
    ∃ board results merged, Board.ofRows [⟨2, "QB A", "QB", "10"⟩, ⟨3, "RB B", "RB", "8"⟩] = .ok board ∧
      (DraftState.start 2 board.size).Seats (.snake 2 3) ∧ Policy.uniform.Legal ∧
      search ⟨board, .snake 2 3, .standard⟩ (.start 2 board.size) (Settings.small.withWorkers 3) .uniform
        Random.Generator.ofSeed (100 : Nat) = .ok merged ∧
      results.length = 3 ∧
      merged.Sums results .meanValue
        ((DraftState.start 2 board.size).candidates ⟨board, .snake 2 3, .standard⟩) := by
  obtain ⟨board, s, hboard, hseats, -⟩ := Search.exists_start_of_two_teams
  have hopen : (DraftState.start 2 board.size).pointer < (Schedule.snake 2 3).size := by
    rw [DraftState.pointer_start, Schedule.size_snake]
    decide
  have hworkers : 2 ≤ (Settings.small.withWorkers 3).workers := by
    decide
  have hfits : (Settings.small.withWorkers 3).workers * 500 < UInt32.size := by
    decide
  have hclock : Clock.Fits (100 : Nat) (Settings.small.withWorkers 3) :=
    Clock.fits_of_iterations rfl rfl
  obtain ⟨results, merged, hresults, -, hsearch, -, hsums, -⟩ :=
    (search_sums_up_trees hboard (.snake 2 3) .standard hseats hopen Policy.uniform_legal
      Random.Generator.ofSeed hworkers rfl hfits hclock).1
  have hlength := congrArg List.length hresults
  rw [List.length_map, List.length_map, List.length_range] at hlength
  exact ⟨board, results, merged, hboard, hseats, Policy.uniform_legal, hsearch, hlength.symm, hsums⟩

end SnakeDraft
