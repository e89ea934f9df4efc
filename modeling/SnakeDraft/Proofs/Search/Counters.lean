import SnakeDraft.Config.Load
import SnakeDraft.Proofs.Draft.Recording
import SnakeDraft.Proofs.Search.Budget
import SnakeDraft.Proofs.Search.Size

/-!
The range of the counters of visits. Iterations are counted without an end, but the visits of a node, and those of a
choice in the results of all trees together, in 32 bits. An iteration counts one visit of every node on a lineage, of
which the root has the most, so the visits of one tree stay in range as long as those of its root do
(`Search.recordsFit_iff`); and the results of several trees stay in range as long as the visits of each choice do
(`SearchResult.mergesFit_iff`). Configurations are accepted with any number of iterations, also with those that are out
of range.
-/

namespace SnakeDraft

/-- A reward that is recorded at a node counts one more visit of it and of the nodes above it, all of them in range. -/
def Tree.RecordFits (t : Tree) (leaf : Nat) : Prop :=
  ∀ id ∈ t.lineage leaf, t.visitsOf id + 1 < UInt32.size

namespace Search

variable {σ : Type} {s t : Search σ} {stateAt : Nat → DraftState} {k n : Nat}

/-- Every reward of so many iterations is counted in range. -/
def RecordsFit (s : Search σ) (n : Nat) : Prop :=
  ∀ k < n, ∀ t leaf reward grown, iterate k s = .ok t → t.playout = .ok (leaf, reward, grown) →
    grown.tree.RecordFits leaf

theorem visitsOf_of_grow {d e : Descent} (hnode : d.node < s.tree.size) (hleaf : s.tree.childrenOf d.node = [])
    (hgrow : s.grow d = .ok (e, t)) (id : Nat) : t.tree.visitsOf id = s.tree.visitsOf id := by
  by_cases hopen : d.state.candidates s.rules = []
  · rw [grow_of_complete hleaf hopen] at hgrow
    cases hgrow
    rfl
  · rw [search_of_grow hgrow, expand_of_open hleaf hopen]
    exact Tree.visitsOf_addChildren _ hnode id

/-- The root is visited in every iteration, and no node has been visited more often. -/
theorem Counted.recordFits_iff (h : s.Counted stateAt k) {leaf : Nat} {reward : Float} {grown : Search σ}
    (hplayout : s.playout = .ok (leaf, reward, grown)) : grown.tree.RecordFits leaf ↔ k + 2 < UInt32.size := by
  have hlinked := h.charted.linked
  obtain ⟨d, e, grown, memory, hdescend, hgrow, -, rfl, rfl⟩ := of_playout hplayout
  obtain ⟨-, hleaf⟩ := selects_of_descend hdescend
  have hd := (accounted_root hlinked).descend hlinked hdescend
  have hvisits := visitsOf_of_grow hd.node_lt hleaf hgrow
  have hroot : 0 ∈ grown.tree.lineage e.node :=
    (tally?_of_grow hlinked hd hleaf hgrow hlinked.size_pos).2.mpr (hlinked.root_mem_lineage hd.node_lt)
  constructor
  · intro hfits
    have hzero : grown.tree.visitsOf 0 + 1 < UInt32.size := hfits 0 hroot
    rwa [hvisits, h.root] at hzero
  · intro hk id _
    show grown.tree.visitsOf id + 1 < UInt32.size
    rw [hvisits]
    rcases Nat.lt_or_ge id s.tree.size with hid | hid
    · have hle := h.visits_le id hid
      omega
    · rw [Tree.visitsOf_eq_zero hid]
      omega

/-- The visits of a tree are counted in range as long as those of its root are, which starts with one. -/
theorem Counted.recordsFit_iff (h : s.Counted stateAt 0) (hpolicy : s.policy.Legal) :
    s.RecordsFit n ↔ n + 1 < UInt32.size := by
  constructor
  · intro hfits
    by_contra hnot
    -- the visits of the root are counted up to their greatest number before one is out of range
    obtain ⟨t, stateAt', hiterate, ht, hcontinues⟩ :=
      h.iterate hpolicy (n := UInt32.size - 2) (by decide)
    obtain ⟨u, -, hsimulate, -⟩ := ht.charted.explores.simulate (hcontinues.policy ▸ hpolicy)
    obtain ⟨leaf, reward, grown, hplayout, -⟩ := of_simulate hsimulate
    have hlast : UInt32.size - 2 < n := by
      have hsize : 2 ≤ UInt32.size := by decide
      omega
    have hfit := (ht.recordFits_iff hplayout).mp (hfits _ hlast t leaf reward grown hiterate hplayout)
    exact absurd hfit (by decide)
  · intro hn k hk t leaf reward grown hiterate hplayout
    obtain ⟨t', stateAt', hiterate', ht, -⟩ := h.iterate hpolicy (n := k) (by omega)
    obtain rfl := Except.ok.inj (hiterate.symm.trans hiterate')
    exact (ht.recordFits_iff hplayout).mpr (by omega)

end Search

/-- The visits that statistics hold of a choice. -/
def visitsFor (choice : Choice) (stats : List ChildStats) : Nat :=
  ((stats.find? (·.choice = choice)).map (·.visits.toNat)).getD 0

/-- The visits of each child are added to those of its choice, all of them in range. -/
def AdditionsFit : List ChildStats → List ChildStats → Prop
  | _, [] => True
  | stats, child :: children =>
    visitsFor child.choice stats + child.visits.toNat < UInt32.size ∧ AdditionsFit (absorb stats child) children

section Additions

variable {stats children : List ChildStats} {choice : Choice}

theorem visitsFor_cons (child : ChildStats) (stats : List ChildStats) :
    visitsFor choice (child :: stats) =
      if child.choice = choice then child.visits.toNat else visitsFor choice stats := by
  unfold visitsFor
  rw [List.find?_cons]
  by_cases hsame : child.choice = choice <;> simp [hsame]

theorem visitsFor_lt (choice : Choice) (stats : List ChildStats) : visitsFor choice stats < UInt32.size := by
  unfold visitsFor
  cases stats.find? (·.choice = choice) with
  | none => decide
  | some child => exact child.visits.toNat_lt_size

theorem toNat_merge {own child : ChildStats} (hfits : own.visits.toNat + child.visits.toNat < UInt32.size) :
    (own.merge child).visits.toNat = own.visits.toNat + child.visits.toNat := by
  show (own.visits + child.visits).toNat = _
  rw [UInt32.toNat_add]
  exact Nat.mod_eq_of_lt hfits

/-- An addition in range adds the visits to those of their choice, and to no others. -/
theorem visitsFor_absorb {child : ChildStats}
    (hfits : visitsFor child.choice stats + child.visits.toNat < UInt32.size) :
    visitsFor choice (absorb stats child) =
      visitsFor choice stats + if child.choice = choice then child.visits.toNat else 0 := by
  induction stats with
  | nil =>
    show visitsFor choice [child] = _
    rw [visitsFor_cons]
    exact (Nat.zero_add _).symm
  | cons own stats ih =>
    rw [visitsFor_cons] at hfits
    rw [absorb, visitsFor_cons]
    split at hfits
    · next hown =>
      have hchoice : (own.merge child).choice = own.choice := rfl
      rw [if_pos hown, visitsFor_cons, hchoice, toNat_merge hfits, hown]
      split <;> rfl
    · next hother =>
      rw [if_neg hother, visitsFor_cons, ih hfits]
      by_cases hsame : own.choice = choice
      · rw [if_pos hsame, if_pos hsame, if_neg fun hchild => hother (hsame.trans hchild.symm), Nat.add_zero]
      · rw [if_neg hsame, if_neg hsame]

theorem visitsFor_le_sum (choice : Choice) (stats : List ChildStats) :
    visitsFor choice stats ≤ (stats.map (·.visits.toNat)).sum := by
  induction stats with
  | nil => exact Nat.le_refl 0
  | cons own stats ih =>
    rw [visitsFor_cons, List.map_cons, List.sum_cons]
    split <;> omega

theorem sum_absorb {child : ChildStats}
    (hfits : visitsFor child.choice stats + child.visits.toNat < UInt32.size) :
    ((absorb stats child).map (·.visits.toNat)).sum =
      (stats.map (·.visits.toNat)).sum + child.visits.toNat := by
  induction stats with
  | nil => simp [absorb]
  | cons own stats ih =>
    rw [visitsFor_cons] at hfits
    rw [absorb]
    split at hfits
    · next hown =>
      rw [if_pos hown, List.map_cons, List.sum_cons, toNat_merge hfits, List.map_cons, List.sum_cons]
      omega
    · next hother =>
      rw [if_neg hother, List.map_cons, List.sum_cons, ih hfits, List.map_cons, List.sum_cons]
      omega

/-- The visits that are added to those of a choice. -/
def visitsAdded (choice : Choice) (children : List ChildStats) : Nat :=
  ((children.filter (·.choice = choice)).map (·.visits.toNat)).sum

theorem visitsAdded_cons (child : ChildStats) (children : List ChildStats) :
    visitsAdded choice (child :: children) =
      (if child.choice = choice then child.visits.toNat else 0) + visitsAdded choice children := by
  unfold visitsAdded
  by_cases hsame : child.choice = choice <;> simp [hsame]

/-- Additions are in range exactly if the visits of every choice come to a number in range. -/
theorem additionsFit_iff : AdditionsFit stats children ↔
    ∀ choice, visitsFor choice stats + visitsAdded choice children < UInt32.size := by
  induction children generalizing stats with
  | nil => exact iff_of_true trivial fun choice => visitsFor_lt choice stats
  | cons child children ih =>
    rw [AdditionsFit, ih]
    constructor
    · rintro ⟨hfits, hrest⟩ choice
      have hchoice := hrest choice
      rw [visitsFor_absorb hfits] at hchoice
      rw [visitsAdded_cons]
      omega
    · intro hall
      have hfits := hall child.choice
      rw [visitsAdded_cons, if_pos rfl] at hfits
      have hone : visitsFor child.choice stats + child.visits.toNat < UInt32.size := by omega
      refine ⟨hone, fun choice => ?_⟩
      have hchoice := hall choice
      rw [visitsAdded_cons] at hchoice
      rw [visitsFor_absorb hone]
      omega

theorem AdditionsFit.sum_visits (h : AdditionsFit stats children) :
    ((children.foldl absorb stats).map (·.visits.toNat)).sum =
      (stats.map (·.visits.toNat)).sum + (children.map (·.visits.toNat)).sum := by
  induction children generalizing stats with
  | nil => rfl
  | cons child children ih =>
    obtain ⟨hfits, hrest⟩ := h
    rw [List.foldl_cons, ih hrest, sum_absorb hfits, List.map_cons, List.sum_cons]
    omega

/-- Where every choice stands once, all that is added for it are the visits that it has. -/
theorem visitsAdded_of_nodup (hnodup : (children.map (·.choice)).Nodup) :
    visitsAdded choice children = visitsFor choice children := by
  induction children with
  | nil => rfl
  | cons child children ih =>
    obtain ⟨hnew, hrest⟩ := List.nodup_cons.mp hnodup
    rw [visitsAdded_cons, visitsFor_cons, ih hrest]
    split
    · next hsame =>
      have hnone : children.find? (·.choice = choice) = none := by
        rw [List.find?_eq_none]
        intro other hother hchoice
        have hagain : other.choice = child.choice := (of_decide_eq_true hchoice).trans hsame.symm
        exact hnew (List.mem_map.mpr ⟨other, hother, hagain⟩)
      rw [visitsFor, hnone]
      rfl
    · exact Nat.zero_add _

end Additions

theorem sum_map_flatMap {α β : Type} (f : α → List β) (count : β → Nat) (xs : List α) :
    ((xs.flatMap f).map count).sum = (xs.map fun x => ((f x).map count).sum).sum := by
  rw [List.map_flatMap, List.flatMap_def, List.sum_flatten, List.map_map]
  rfl

namespace SearchResult

/-- The visits that a result reports of a choice. -/
def visitsOf (r : SearchResult) (choice : Choice) : Nat :=
  visitsFor choice r.children

/-- The visits of several results are added in range. -/
def MergesFit : List SearchResult → Prop
  | [] => True
  | first :: others => AdditionsFit first.children (others.flatMap (·.children))

variable {results others : List SearchResult} {first : SearchResult} {choices : List Choice}

theorem children_foldl_merge (first : SearchResult) (others : List SearchResult) :
    (others.foldl merge first).children = (others.flatMap (·.children)).foldl absorb first.children := by
  rw [List.foldl_flatMap]
  exact (List.foldl_hom SearchResult.children fun _ _ => rfl).symm

theorem visitsAdded_flatMap (choice : Choice) (results : List SearchResult) :
    visitsAdded choice (results.flatMap (·.children)) =
      (results.map fun r => visitsAdded choice r.children).sum := by
  unfold visitsAdded
  rw [List.filter_flatMap, sum_map_flatMap]

/-- Results of trees are merged in range exactly if, of every choice, they report visits in range together. -/
theorem mergesFit_iff (hnodup : ∀ r ∈ results, (r.children.map (·.choice)).Nodup) :
    MergesFit results ↔ ∀ choice, (results.map (·.visitsOf choice)).sum < UInt32.size := by
  cases results with
  | nil => exact iff_of_true trivial fun _ => Nat.two_pow_pos 32
  | cons first others =>
    rw [MergesFit, additionsFit_iff]
    apply forall_congr'
    intro choice
    have hsame : (others.map fun r => visitsAdded choice r.children) = others.map (·.visitsOf choice) :=
      List.map_congr_left fun r hr => visitsAdded_of_nodup (hnodup r (List.mem_cons_of_mem first hr))
    rw [visitsAdded_flatMap, hsame, List.map_cons, List.sum_cons]
    rfl

theorem MergesFit.sum_visits (h : MergesFit (first :: others)) :
    ((others.foldl merge first).children.map (·.visits.toNat)).sum =
      ((first :: others).map fun r => (r.children.map (·.visits.toNat)).sum).sum := by
  rw [children_foldl_merge, AdditionsFit.sum_visits h, sum_map_flatMap, List.map_cons, List.sum_cons]

/-- The choices of results that agree on them are those of all together, whatever their visits come to. -/
theorem choices_foldl_merge (hchoices : choices.Nodup)
    (hresults : ∀ r ∈ first :: others, r.children.map (·.choice) = choices) :
    (others.foldl merge first).children.map (·.choice) = choices := by
  obtain ⟨hfirst, hothers⟩ := List.forall_mem_cons.mp hresults
  have htotals : ∀ ys ∈ others.map (·.totals), ys.map (·.choice) = choices := by
    intro ys hys
    obtain ⟨r, hr, rfl⟩ := List.mem_map.mp hys
    exact r.map_choice_totals.trans (hothers r hr)
  obtain ⟨hsides, hsame⟩ :=
    Totals.foldl_foldl_absorb (A := .float) hchoices htotals (first.map_choice_totals.trans hfirst)
  rw [← map_choice_totals, totals_foldl_merge, hsides, hsame]

/-- However many iterations there were, a choice has no more visits than there are numbers for them. -/
theorem sum_visits_le (r : SearchResult) :
    (r.children.map (·.visits.toNat)).sum ≤ r.children.length * (UInt32.size - 1) := by
  have hle := List.sum_le_card_nsmul (r.children.map (·.visits.toNat)) (UInt32.size - 1) (by
    intro visits hvisits
    obtain ⟨child, -, rfl⟩ := List.mem_map.mp hvisits
    have hlt := child.visits.toNat_lt_size
    omega)
  simpa using hle

end SearchResult

theorem DraftState.pointer_lt_of_candidates {s : DraftState} {rules : Rules} (h : s.candidates rules ≠ []) :
    s.pointer < rules.schedule.size := by
  rw [Ne, candidates_eq_nil_iff] at h
  by_contra hnot
  exact h (Array.getElem?_eq_none_iff.mpr (Nat.le_of_not_lt hnot))

theorem sum_map_of_eq {α : Type} {f : α → Nat} {xs : List α} {n : Nat} (h : ∀ x ∈ xs, f x = n) :
    (xs.map f).sum = n * xs.length := by
  rw [List.map_congr_left h, List.map_const', List.sum_replicate, smul_eq_mul, Nat.mul_comm]

/-- What a tree reports of so many iterations, with so many turns left at its root. The iterations are counted without
an end, the visits are not. -/
structure SearchResult.OfIterations (r : SearchResult) (choices : List Choice) (budget turns : Nat) : Prop where
  choices_eq : r.children.map (·.choice) = choices
  iterations : r.stats.iterations = budget
  visits_sum : budget + 1 < UInt32.size → (r.children.map (·.visits.toNat)).sum = budget
  treeSize_le : r.stats.treeSize ≤ Tree.sizeBound budget turns

/-- The additions of visits in a search, those of the iterations of each tree and those of the merging of what the trees
report, are in range. -/
structure CountsInRange {σ : Type} (rules : Rules) (state : DraftState) (settings : Settings) (policy : Policy σ)
    (memoryOf : UInt64 → σ) (budget : Nat) (results : List SearchResult) : Prop where
  records : ∀ worker < max settings.workers 1, ∀ s,
    Search.start rules state settings policy (memoryOf (settings.seed + worker.toUInt64)) = .ok s →
      s.RecordsFit budget
  merges : SearchResult.MergesFit results

section Trees

variable {σ : Type} {rules : Rules} {state : DraftState} {rows : List Row} {policy : Policy σ}
  {settings : Settings} {budget : Nat}

/-- The search reports what its trees report together, of one tree as it is. -/
theorem search_of_results {memoryOf : UInt64 → σ} {clock : Clock} {results : List SearchResult}
    (hresults : (List.range (max settings.workers 1)).map (fun worker => searchTree rules state settings policy
      (memoryOf (settings.seed + worker.toUInt64)) (clock.timingIn worker)) = results.map .ok) :
    ∃ first others merged, results = first :: others ∧
      search rules state settings policy memoryOf clock = .ok merged ∧
      merged.children = (others.foldl SearchResult.merge first).children ∧
      merged.stats = (others.foldl SearchResult.merge first).stats := by
  have hne : results ≠ [] := by
    rintro rfl
    have hlength := congrArg List.length hresults
    rw [List.length_map, List.length_range] at hlength
    simp at hlength
  obtain ⟨first, others, rfl⟩ := List.exists_cons_of_ne_nil hne
  unfold search
  by_cases hone : settings.workers ≤ 1
  · rw [Nat.max_eq_right hone] at hresults
    obtain ⟨hfirst, hothers⟩ := List.cons.inj hresults
    rw [List.map_eq_nil_iff.mp hothers.symm]
    refine ⟨first, [], first, rfl, ?_, rfl, rfl⟩
    simp only [if_pos hone]
    exact hfirst
  · rw [Nat.max_eq_left (by omega)] at hresults
    let merged := others.foldl SearchResult.merge first
    refine ⟨first, others,
      { merged with choice := (commit settings.commitPolicy merged.children).getD merged.choice }, rfl, ?_, rfl, rfl⟩
    simp only [if_neg hone, hresults, collectResults_map_ok]
    rfl

variable (hboard : Board.ofRows rows = .ok rules.board) (hseats : state.Seats rules.schedule)
  (hpolicy : policy.Legal)

include hboard hseats hpolicy

theorem recordsFit_of_start {memory : σ} {s : Search σ}
    (hstart : Search.start rules state settings policy memory = .ok s) (n : Nat) :
    s.RecordsFit n ↔ n + 1 < UInt32.size := by
  have hindexed := Board.indexed_of_ofRows hboard
  obtain ⟨stateAt, hcounted⟩ := Search.counted_start hindexed hseats hstart
  obtain ⟨-, -, -, hsame⟩ := Search.charted_start hindexed hseats hstart
  exact hcounted.recordsFit_iff (hsame ▸ hpolicy)

variable (hopen : state.pointer < rules.schedule.size)

include hopen

theorem countsInRange_iff {memoryOf : UInt64 → σ} {results : List SearchResult} :
    CountsInRange rules state settings policy memoryOf budget results ↔
      budget + 1 < UInt32.size ∧ SearchResult.MergesFit results := by
  constructor
  · intro h
    -- every search has a first tree
    have hturn : state.onClock? rules.schedule = some rules.schedule.turns[state.pointer] :=
      Array.getElem?_eq_getElem hopen
    have hstart := Search.start_eq hturn settings policy (memoryOf (settings.seed + Nat.toUInt64 0))
    have hrecords := h.records 0 (Nat.lt_of_lt_of_le Nat.one_pos (Nat.le_max_right _ _)) _ hstart
    exact ⟨(recordsFit_of_start hboard hseats hpolicy hstart budget).mp hrecords, h.merges⟩
  · rintro ⟨hfits, hmerges⟩
    exact ⟨fun _ _ _ hstart => (recordsFit_of_start hboard hseats hpolicy hstart budget).mpr hfits, hmerges⟩

variable (hmany : 2 ≤ (state.candidates rules).length) (hbudget : settings.maxIterations = some budget)

include hmany hbudget

theorem searchTree_ofIterations (memory : σ) {timing : Timing}
    (hdeadline : settings.deadlineFits timing.start = true) (hroom : budget ≤ timing.room) :
    ∃ r, searchTree rules state settings policy memory timing = .ok r ∧
      r.OfIterations (state.candidates rules) budget (rules.schedule.size - state.pointer) := by
  have hindexed := Board.indexed_of_ofRows hboard
  obtain ⟨t, stateAt, n, hreports, -, -, -, hchoices, hn⟩ :=
    searchTree_gathers hindexed hseats hpolicy hopen settings memory hdeadline
  have hiterations : n = budget := by
    rw [hn, if_neg (by omega)]
    exact Settings.iterations_eq hbudget hroom
  have hsize := searchTree_size_le hindexed hseats hpolicy hreports
  refine ⟨t.result n, hreports, hchoices, hiterations, fun hfits => ?_, ?_⟩
  · obtain ⟨r, hr, hallots, -⟩ :=
      searchTree_allots hboard hseats hpolicy hopen hbudget hfits memory hdeadline hroom
    obtain rfl := Except.ok.inj (hreports.symm.trans hr)
    have hsum := hallots.visits_sum
    rwa [Nat.mul_one, SearchResult.iterationsFor, if_neg (by omega)] at hsum
  · rw [← hiterations]
    exact hsize

/-- A search comes to its iterations, and to no more visits than the counters of all choices hold. -/
theorem search_reports (memoryOf : UInt64 → σ) {clock : Clock} (hclock : clock.Fits settings)
    (hroom : ∀ worker < max settings.workers 1, budget ≤ clock.roomIn worker) :
    ∃ first others merged,
      (List.range (max settings.workers 1)).map (fun worker => searchTree rules state settings policy
        (memoryOf (settings.seed + worker.toUInt64)) (clock.timingIn worker)) = (first :: others).map .ok ∧
      (first :: others).length = max settings.workers 1 ∧
      (∀ r ∈ first :: others,
        r.OfIterations (state.candidates rules) budget (rules.schedule.size - state.pointer)) ∧
      search rules state settings policy memoryOf clock = .ok merged ∧
      merged.children = (others.foldl SearchResult.merge first).children ∧
      merged.stats = (others.foldl SearchResult.merge first).stats ∧
      merged.stats.iterations = budget * max settings.workers 1 ∧
      (merged.children.map (·.visits.toNat)).sum ≤ (state.candidates rules).length * (UInt32.size - 1) := by
  obtain ⟨results, hresults, hlength, htrees⟩ := exists_map_range_eq_map fun worker hworker =>
    searchTree_ofIterations hboard hseats hpolicy hopen hmany hbudget
      (memoryOf (settings.seed + worker.toUInt64)) (hclock worker hworker) (hroom worker hworker)
  obtain ⟨first, others, merged, rfl, hsearch, hchildren, hstats⟩ := search_of_results hresults
  refine ⟨first, others, merged, hresults, hlength, htrees, hsearch, hchildren, hstats, ?_, ?_⟩
  · rw [hstats, SearchResult.stats_foldl_merge, ← hlength]
    exact sum_map_of_eq fun r hr => (htrees r hr).iterations
  · have hchoices := congrArg List.length (SearchResult.choices_foldl_merge (state.nodup_candidates rules)
      fun r hr => (htrees r hr).choices_eq)
    rw [List.length_map, ← hchildren] at hchoices
    rw [← hchoices]
    exact merged.sum_visits_le

end Trees

theorem SearchResult.OfIterations.visitsOf_le {r : SearchResult} {choices : List Choice} {budget turns : Nat}
    (h : r.OfIterations choices budget turns) (hfits : budget + 1 < UInt32.size) (choice : Choice) :
    r.visitsOf choice ≤ budget := by
  rw [← h.visits_sum hfits]
  exact visitsFor_le_sum choice r.children

/-- With iterations that can be counted in all trees together, so can the visits of every choice. -/
theorem sum_visitsOf_lt {results : List SearchResult} {choices : List Choice} {budget turns : Nat}
    (hresults : ∀ r ∈ results, r.OfIterations choices budget turns) (hfits : budget + 1 < UInt32.size)
    (hall : results.length * budget < UInt32.size) (choice : Choice) :
    (results.map (·.visitsOf choice)).sum < UInt32.size := by
  have hle := List.sum_le_card_nsmul (results.map (·.visitsOf choice)) budget (by
    intro visits hvisits
    obtain ⟨r, hr, rfl⟩ := List.mem_map.mp hvisits
    exact (hresults r hr).visitsOf_le hfits choice)
  rw [List.length_map, smul_eq_mul] at hle
  omega

/-- Every number of iterations and of workers is accepted but zero. -/
theorem Config.fault?_withIterations {config : Config} (h : config.fault? = none) (iterations workers : Nat) :
    ({ config with search := { config.search with maxIterations := some iterations, workers } } : Config).fault? =
      none ↔ iterations ≠ 0 ∧ workers ≠ 0 := by
  have hcheck : ∀ (p : Prop) [Decidable p] (fault : ConfigFault) (rest : Option ConfigFault),
      (if p then some fault else rest) = none ↔ ¬ p ∧ rest = none := by
    intro p _ fault rest
    split <;> simp [*]
  simp only [fault?, hcheck] at h ⊢
  simp [h]

/-- With deadlines that the clock can tell and time for all of its iterations, a search makes as many as it may, however
many that are. No tree has more nodes than its iterations and the turns that are left allow. The additions of visits
are in range exactly if the root of each tree can count its iterations beside the visit that it starts with, and if the
visits of every choice can be counted in all trees together; then the visits that the search reports come to its
iterations. They never come to more than the counters of all choices hold, although every number of iterations is
accepted. -/
theorem visits_counted_in_range_iff {rows : List Row} {board : Board} (hboard : Board.ofRows rows = .ok board)
    (schedule : Schedule) (requirements : Requirements) {state : DraftState} (hseats : state.Seats schedule)
    (hmany : 2 ≤ (state.candidates ⟨board, schedule, requirements⟩).length) {σ : Type} {policy : Policy σ}
    (hpolicy : policy.Legal) {settings : Settings} {budget : Nat} (hbudget : settings.maxIterations = some budget)
    (memoryOf : UInt64 → σ) {clock : Clock} (hclock : clock.Fits settings)
    (hroom : ∀ worker < max settings.workers 1, budget ≤ clock.roomIn worker) :
    let rules : Rules := ⟨board, schedule, requirements⟩
    (∀ config : Config, config.fault? = none → ∀ iterations workers : Nat,
      ({ config with search := { config.search with maxIterations := some iterations, workers } } : Config).fault? =
        none ↔ iterations ≠ 0 ∧ workers ≠ 0) ∧
    ∃ results merged,
      (List.range (max settings.workers 1)).map (fun worker => searchTree rules state settings policy
        (memoryOf (settings.seed + worker.toUInt64)) (clock.timingIn worker)) = results.map .ok ∧
      search rules state settings policy memoryOf clock = .ok merged ∧
      merged.stats.iterations = budget * max settings.workers 1 ∧
      (∀ r ∈ results, r.stats.treeSize ≤ Tree.sizeBound budget (schedule.size - state.pointer)) ∧
      (CountsInRange rules state settings policy memoryOf budget results ↔
        budget + 1 < UInt32.size ∧ ∀ choice, (results.map (·.visitsOf choice)).sum < UInt32.size) ∧
      (budget + 1 < UInt32.size → max settings.workers 1 * budget < UInt32.size →
        CountsInRange rules state settings policy memoryOf budget results) ∧
      (CountsInRange rules state settings policy memoryOf budget results →
        (merged.children.map (·.visits.toNat)).sum = merged.stats.iterations) ∧
      (merged.children.map (·.visits.toNat)).sum ≤ (state.candidates rules).length * (UInt32.size - 1) := by
  intro rules
  have hboard' : Board.ofRows rows = .ok rules.board := hboard
  have hopen := DraftState.pointer_lt_of_candidates (List.ne_nil_of_length_pos (Nat.zero_lt_of_lt hmany))
  refine ⟨fun config hconfig => Config.fault?_withIterations hconfig, ?_⟩
  obtain ⟨first, others, merged, hresults, hlength, htrees, hsearch, hchildren, -, hiterations, hle⟩ :=
    search_reports hboard' hseats hpolicy hopen hmany hbudget memoryOf hclock hroom
  have hrange : CountsInRange rules state settings policy memoryOf budget (first :: others) ↔
      budget + 1 < UInt32.size ∧ ∀ choice, ((first :: others).map (·.visitsOf choice)).sum < UInt32.size := by
    have hnodup : ∀ r ∈ first :: others, (r.children.map (·.choice)).Nodup := by
      intro r hr
      rw [(htrees r hr).choices_eq]
      exact state.nodup_candidates rules
    rw [← SearchResult.mergesFit_iff hnodup]
    exact countsInRange_iff hboard' hseats hpolicy hopen
  have hsizes := fun r hr => (htrees r hr).treeSize_le
  refine ⟨first :: others, merged, hresults, hsearch, hiterations, hsizes, hrange, ?_, ?_, hle⟩
  · intro hfits hall
    exact hrange.mpr ⟨hfits, sum_visitsOf_lt htrees hfits (by rwa [hlength])⟩
  · intro hin
    rw [hchildren, hin.merges.sum_visits, hiterations, ← hlength]
    exact sum_map_of_eq fun r hr => (htrees r hr).visits_sum (hrange.mp hin).1

theorem exists_board_of_two_choices :
    ∃ board, Board.ofRows [⟨2, "QB A", "QB", "10"⟩, ⟨3, "RB B", "RB", "8"⟩] = .ok board ∧
      (DraftState.start 2 board.size).Seats (.snake 2 3) ∧
      ((DraftState.start 2 board.size).candidates ⟨board, .snake 2 3, .standard⟩).length = 2 := by
  have hcheck : ((Board.ofRows [⟨2, "QB A", "QB", "10"⟩, ⟨3, "RB B", "RB", "8"⟩]).toOption.any fun board =>
      ((DraftState.start 2 board.size).candidates ⟨board, .snake 2 3, .standard⟩).length == 2) = true := by
    decide +kernel
  have hseats : ∀ turn ∈ (Schedule.snake 2 3).turns, turn.team < 2 := by
    decide
  obtain ⟨board, hboard, htwo⟩ := (Option.any_eq_true _ _).mp hcheck
  exact ⟨board, eq_ok_of_toOption hboard, hseats, beq_iff_eq.mp htwo⟩

theorem visits_counted_in_range_of_two_trees :
    ∃ board results merged, Board.ofRows [⟨2, "QB A", "QB", "10"⟩, ⟨3, "RB B", "RB", "8"⟩] = .ok board ∧
      (DraftState.start 2 board.size).Seats (.snake 2 3) ∧ Policy.uniform.Legal ∧
      2 ≤ ((DraftState.start 2 board.size).candidates ⟨board, .snake 2 3, .standard⟩).length ∧
      search ⟨board, .snake 2 3, .standard⟩ (.start 2 board.size) (Settings.small.withWorkers 2) .uniform
        Random.Generator.ofSeed (500 : Nat) = .ok merged ∧
      CountsInRange ⟨board, .snake 2 3, .standard⟩ (.start 2 board.size) (Settings.small.withWorkers 2) .uniform
        Random.Generator.ofSeed 500 results ∧
      (merged.children.map (·.visits.toNat)).sum = 1000 := by
  obtain ⟨board, hboard, hseats, htwo⟩ := exists_board_of_two_choices
  have hbudget : (Settings.small.withWorkers 2).maxIterations = some 500 := rfl
  have hclock : Clock.Fits (500 : Nat) (Settings.small.withWorkers 2) :=
    Clock.fits_of_iterations rfl rfl
  have hroom : ∀ worker < max (Settings.small.withWorkers 2).workers 1, 500 ≤ Clock.roomIn (500 : Nat) worker :=
    fun _ _ => Nat.le_refl 500
  have hvisits : max (Settings.small.withWorkers 2).workers 1 * 500 < UInt32.size := by
    decide
  obtain ⟨-, results, merged, -, hsearch, hiterations, -, -, hfits, hsum, -⟩ :=
    visits_counted_in_range_iff hboard (.snake 2 3) .standard hseats htwo.ge Policy.uniform_legal hbudget
      Random.Generator.ofSeed hclock hroom
  have hin := hfits (by decide) hvisits
  exact ⟨board, results, merged, hboard, hseats, Policy.uniform_legal, htwo.ge, hsearch, hin,
    (hsum hin).trans hiterations⟩

/-- A configuration that is accepted and with which visits are not counted: its iterations are more than the counters
of two choices hold. The nodes are few. -/
theorem accepted_iterations_out_of_range :
    let text := "[draft]\nnum_teams = 2\nrounds = 3\n[search]\nseconds_per_pick = 86400.0\n" ++
      "max_iterations = 8589934592\n[data]\ndraftboard = \"board.csv\"\n"
    ∃ config settings board s r, Config.parse "draft.toml" text = .ok config ∧
      Settings.ofOptions? config.search 7 = some settings ∧
      Board.ofRows [⟨2, "QB A", "QB", "10"⟩, ⟨3, "RB B", "RB", "8"⟩] = .ok board ∧
      let rules : Rules := ⟨board, .snake config.draft.numTeams config.draft.rounds, config.draft.requirements⟩
      let state := DraftState.start config.draft.numTeams board.size
      (state.candidates rules).length = 2 ∧
      Search.start rules state settings .uniform (.ofSeed 7) = .ok s ∧ ¬ s.RecordsFit 8589934592 ∧
      search rules state settings .uniform Random.Generator.ofSeed (8589934592 : Nat) = .ok r ∧
      r.stats.iterations = 8589934592 ∧ (r.children.map (·.visits.toNat)).sum < 8589934592 ∧
      r.stats.treeSize < UInt32.size := by
  intro text
  have hcheck : ((Config.parse "draft.toml" text).toOption.any fun config =>
      config.draft.numTeams = 2 ∧ config.draft.rounds = 3 ∧ config.draft.requirements = .standard ∧
      (Settings.ofOptions? config.search 7).any fun settings =>
        settings.maxIterations = some 8589934592 ∧ settings.workers = 1 ∧ settings.deadlineFits ⟨0⟩ = true) = true := by
    decide +kernel
  obtain ⟨config, hparse, hconfig⟩ := (Option.any_eq_true _ _).mp hcheck
  obtain ⟨hteams, hrounds, hrequirements, hoptions⟩ := of_decide_eq_true hconfig
  obtain ⟨settings, hsettings, hlimits⟩ := (Option.any_eq_true _ _).mp hoptions
  obtain ⟨hbudget, hworkers, hdeadline⟩ := of_decide_eq_true hlimits
  obtain ⟨board, hboard, hseats, htwo⟩ := exists_board_of_two_choices
  have hboard' : Board.ofRows _ = .ok (Rules.mk board (.snake 2 3) .standard).board := hboard
  have hopen := DraftState.pointer_lt_of_candidates (List.ne_nil_of_length_pos (by rw [htwo]; decide))
  have hroom : ∀ worker < max settings.workers 1, 8589934592 ≤ Clock.roomIn (8589934592 : Nat) worker :=
    fun _ _ => Nat.le_refl 8589934592
  obtain ⟨first, others, r, -, hlength, htrees, hsearch, -, hstats, hiterations, hsum⟩ :=
    search_reports hboard' hseats Policy.uniform_legal hopen htwo.ge hbudget Random.Generator.ofSeed
      (fun _ _ => hdeadline) hroom
  obtain ⟨s, -, hstart, -⟩ := Search.start_ok (Board.indexed_of_ofRows hboard') hseats
    (Array.getElem?_eq_getElem hopen) settings .uniform (.ofSeed 7)
  have hfits := recordsFit_of_start hboard' hseats Policy.uniform_legal hstart 8589934592
  rw [hworkers] at hiterations hlength
  rw [htwo] at hsum
  -- there is one tree, with six turns left at its root
  obtain rfl : others = [] := List.length_eq_zero_iff.mp (Nat.succ.inj hlength)
  have hturns : (Schedule.snake 2 3).size - (DraftState.start 2 board.size).pointer = 6 := rfl
  have hsize : r.stats.treeSize < UInt32.size := by
    have hle := (htrees first List.mem_cons_self).treeSize_le
    rw [hturns] at hle
    rw [hstats]
    exact Nat.lt_of_le_of_lt hle (Tree.sizeBound_lt (.inr (by decide)))
  refine ⟨config, settings, board, s, r, eq_ok_of_toOption hparse, hsettings, hboard, ?_⟩
  rw [hteams, hrounds, hrequirements]
  exact ⟨htwo, hstart, mt hfits.mp (by decide), hsearch, hiterations, Nat.lt_of_le_of_lt hsum (by decide), hsize⟩

end SnakeDraft
