import Mathlib.Algebra.Order.Field.Basic
import SnakeDraft.Proofs.Search.Spending

/-!
Searches that use up their iterations. With time for all of them, a search makes as many iterations as it may,
or none when there is only one choice; every one of them is a visit of one choice at the root, and of several
trees together as well (`SearchResult.Allots`). As long as there are choices without a visit, none of the
others is visited again. A choice without a visit has the mean zero, but it is never committed to: the first
choice has been visited, its mean is not below zero, and only a better choice takes its place.
-/

namespace SnakeDraft

/-- What the first element has, and what passes on to every better one, the leftmost of the best has. -/
theorem leftmost_induction {α : Type} {better : α → α → Bool} {P : α → Prop} {first : α} {others : List α}
    (hfirst : P first) (hstep : ∀ best, P best → ∀ x ∈ others, better x best = true → P x) :
    ∃ best, leftmost better (first :: others) = some best ∧ P best := by
  refine ⟨_, rfl, ?_⟩
  induction others generalizing first with
  | nil => exact hfirst
  | cons x others ih =>
    rw [List.foldl_cons]
    apply ih
    · split
      · next hbetter => exact hstep first hfirst x List.mem_cons_self hbetter
      · exact hfirst
    · intro best hbest y hy
      exact hstep best hbest y (List.mem_cons_of_mem x hy)

namespace Totals

variable {ν : Type}

/-- When the first choice has been visited and no mean is below that of a choice without visits, neither
policy commits to a choice without visits. -/
theorem exists_commit_visited (A : Arithmetic ν) (policy : CommitPolicy) (first : Totals ν)
    (others : List (Totals ν)) (hfirst : first.visits ≠ 0)
    (hmean : ∀ total ∈ first :: others, ∀ sum,
      A.isAbove (A.mean sum 0) (A.mean total.valueSum total.visits) = false) :
    ∃ total ∈ first :: others, commit A policy (first :: others) = some total.choice ∧ total.visits ≠ 0 := by
  have hbest : ∃ best, leftmost (isBetter A policy) (first :: others) = some best ∧
      best ∈ first :: others ∧ best.visits ≠ 0 := by
    apply leftmost_induction ⟨List.mem_cons_self, hfirst⟩
    rintro best ⟨hmem, hvisited⟩ total htotal hbetter
    refine ⟨List.mem_cons_of_mem first htotal, ?_⟩
    intro hunvisited
    cases policy with
    | meanValue =>
      have hnot := hmean best hmem total.valueSum
      rw [isBetter, hunvisited, hnot] at hbetter
      cases hbetter
    | visitCount =>
      rw [isBetter, hunvisited, decide_eq_true_eq] at hbetter
      exact UInt32.not_lt_zero hbetter
  obtain ⟨best, hbest, hmem, hvisited⟩ := hbest
  refine ⟨best, hmem, ?_, hvisited⟩
  rw [commit, hbest, Option.map_some]

end Totals

namespace SearchResult

/-- What a search reports of so many iterations in each of its trees. -/
structure Allots (r : SearchResult) (choices : List Choice) (n workers : Nat) : Prop where
  choices_eq : r.children.map (·.choice) = choices
  iterations : r.stats.iterations = n * workers
  visits_sum : (r.children.map (·.visits.toNat)).sum = n * workers
  in_turn : n ≤ choices.length → r.children.map (·.visits.toNat) =
    List.replicate n workers ++ List.replicate (choices.length - n) 0
  first_visited : 1 ≤ n → ∀ first ∈ r.children.head?, first.visits ≠ 0
  valueSum : ∀ child ∈ r.children, ¬ child.valueSum < 0

/-- The iterations that a search makes in each tree, given time. -/
def iterationsFor (choices : List Choice) (budget : Nat) : Nat :=
  if choices.length = 1 then 0 else budget

/-- What a search reports when it has made as many iterations as it may, in each of its trees. -/
structure UsesUp (r : SearchResult) (choices : List Choice) (policy : CommitPolicy) (budget workers : Nat) :
    Prop where
  choices_eq : r.children.map (·.choice) = choices
  commits : commit policy r.children = some r.choice
  /-- The only choice is made without an iteration. -/
  forced : choices.length = 1 → r.stats.iterations = 0 ∧ choices = [r.choice]
  iterations : choices.length ≠ 1 → r.stats.iterations = budget * workers
  visits_sum : choices.length ≠ 1 → (r.children.map (·.visits.toNat)).sum = budget * workers
  /-- The first choices are visited once by each tree, one after the other. -/
  in_turn : choices.length ≠ 1 → budget ≤ choices.length → r.children.map (·.visits.toNat) =
    List.replicate budget workers ++ List.replicate (choices.length - budget) 0
  /-- Both policies commit to a choice that has been visited. -/
  visited : choices.length ≠ 1 → 1 ≤ budget → ∀ policy : CommitPolicy,
    ∃ child ∈ r.children, commit policy r.children = some child.choice ∧ child.visits ≠ 0
  /-- So they do when means are taken and compared without rounding. -/
  visited_exact : choices.length ≠ 1 → 1 ≤ budget → ∀ (policy : CommitPolicy)
    (K : Type) [Field K] [LinearOrder K] [IsStrictOrderedRing K] (value : Float → K),
    (∀ x, ¬ x < 0 → 0 ≤ value x) →
    ∃ child ∈ r.children,
      Totals.commit (.exact K) policy (r.totals.map (·.map value)) = some child.choice ∧ child.visits ≠ 0

variable {r : SearchResult} {choices : List Choice} {policy : CommitPolicy} {n budget workers : Nat}

theorem Allots.exists_commit_visited {ν : Type} (h : r.Allots choices n workers) (hn : 1 ≤ n)
    (hchoices : choices ≠ []) (policy : CommitPolicy) (A : Arithmetic ν) (value : Float → ν)
    (hmean : ∀ child ∈ r.children, ∀ sum,
      A.isAbove (A.mean sum 0) (A.mean (value child.valueSum) child.visits) = false) :
    ∃ child ∈ r.children,
      Totals.commit A policy (r.totals.map (·.map value)) = some child.choice ∧ child.visits ≠ 0 := by
  have hfirst := h.first_visited hn
  have hchoices_eq := h.choices_eq
  unfold totals
  rw [List.map_map]
  cases hchildren : r.children with
  | nil =>
    rw [hchildren] at hchoices_eq
    exact absurd hchoices_eq.symm hchoices
  | cons first others =>
    rw [hchildren] at hfirst hmean
    obtain ⟨total, htotal, hcommit, hvisited⟩ := Totals.exists_commit_visited A policy
      (first.totals.map value) (others.map fun child => child.totals.map value) (hfirst first rfl) (by
        intro total htotal sum
        rw [← List.map_cons (f := fun child : ChildStats => child.totals.map value)] at htotal
        obtain ⟨child, hchild, rfl⟩ := List.mem_map.mp htotal
        exact hmean child hchild sum)
    rw [← List.map_cons (f := fun child : ChildStats => child.totals.map value)] at htotal
    obtain ⟨child, hchild, rfl⟩ := List.mem_map.mp htotal
    exact ⟨child, hchild, hcommit, hvisited⟩

/-- No choice with visits has a mean below zero, so none without visits is preferred to it. -/
theorem Allots.exists_commit_float (h : r.Allots choices n workers) (hn : 1 ≤ n) (hchoices : choices ≠ [])
    (policy : CommitPolicy) :
    ∃ child ∈ r.children, commit policy r.children = some child.choice ∧ child.visits ≠ 0 := by
  have hsame : r.totals.map (·.map id) = r.totals := List.map_id' r.totals
  have hcommit := h.exists_commit_visited hn hchoices policy .float id (by
    intro child hchild sum
    exact decide_eq_false (not_meanValue_lt_zero (h.valueSum child hchild) child.visits))
  rwa [hsame, totals, ← commit_eq_totals] at hcommit

theorem Allots.exists_commit_exact (h : r.Allots choices n workers) (hn : 1 ≤ n) (hchoices : choices ≠ [])
    (policy : CommitPolicy) {K : Type} [Field K] [LinearOrder K] [IsStrictOrderedRing K] {value : Float → K}
    (hvalue : ∀ x, ¬ x < 0 → 0 ≤ value x) :
    ∃ child ∈ r.children,
      Totals.commit (.exact K) policy (r.totals.map (·.map value)) = some child.choice ∧ child.visits ≠ 0 := by
  apply h.exists_commit_visited hn hchoices
  intro child hchild sum
  have hsum := hvalue _ (h.valueSum child hchild)
  have hmean : 0 ≤ (Arithmetic.exact K).mean (value child.valueSum) child.visits := by
    show 0 ≤ if child.visits = 0 then 0 else value child.valueSum / (child.visits.toNat : K)
    split
    · exact le_refl 0
    · exact div_nonneg hsum (Nat.cast_nonneg _)
  exact decide_eq_false (not_lt_of_ge hmean)

theorem Allots.usesUp (h : r.Allots choices (iterationsFor choices budget) workers)
    (hcommit : commit policy r.children = some r.choice) : r.UsesUp choices policy budget workers := by
  have hchildren : r.children ≠ [] := by
    intro hnone
    rw [hnone] at hcommit
    cases hcommit
  have hchoices : choices ≠ [] := by
    rw [← h.choices_eq]
    exact List.map_eq_nil_iff.not.mpr hchildren
  have hall : choices.length ≠ 1 → r.Allots choices budget workers := by
    intro hmany
    have hn : iterationsFor choices budget = budget := if_neg hmany
    rwa [hn] at h
  constructor
  case choices_eq => exact h.choices_eq
  case commits => exact hcommit
  case forced =>
    intro hone
    have hn : iterationsFor choices budget = 0 := if_pos hone
    refine ⟨by rw [h.iterations, hn, Nat.zero_mul], ?_⟩
    obtain ⟨only, rfl⟩ := List.length_eq_one_iff.mp hone
    obtain ⟨child, hchild, hcommit'⟩ := SnakeDraft.exists_commit policy hchildren
    have hmem : child.choice ∈ [only] := h.choices_eq ▸ List.mem_map_of_mem hchild
    rw [List.mem_singleton.mp hmem] at hcommit'
    rw [Option.some.inj (hcommit.symm.trans hcommit')]
  case iterations => exact fun hmany => (hall hmany).iterations
  case visits_sum => exact fun hmany => (hall hmany).visits_sum
  case in_turn => exact fun hmany => (hall hmany).in_turn
  case visited => exact fun hmany hbudget => (hall hmany).exists_commit_float hbudget hchoices
  case visited_exact =>
    intro hmany hbudget policy K _ _ _ value hvalue
    exact (hall hmany).exists_commit_exact hbudget hchoices policy hvalue

end SearchResult

namespace Search

variable {σ : Type} {s : Search σ} {stateAt : Nat → DraftState} {k : Nat}

theorem Spent.allots (h : s.Spent stateAt k) :
    (s.result k).Allots (s.state.candidates s.rules) k 1 where
  choices_eq := h.choices_rootChildren
  iterations := (Nat.mul_one k).symm
  visits_sum := by
    show (s.rootChildren.map _).sum = _
    rw [h.visits_rootChildren, h.counted.sum_root, Nat.mul_one]
  in_turn := h.visits_in_turn
  first_visited := h.first_visited
  valueSum := h.valueSum_rootChildren

end Search

theorem sum_map_sum_comm {α β : Type} (f : α → β → Nat) (xs : List α) (ys : List β) :
    (xs.map fun x => (ys.map (f x)).sum).sum = (ys.map fun y => (xs.map fun x => f x y).sum).sum := by
  induction xs with
  | nil => simp
  | cons x xs ih =>
    simp only [List.map_cons, List.sum_cons, ih, List.sum_map_add]

theorem map_range_ite {n length : Nat} (hn : n ≤ length) (share : Nat) :
    ((List.range length).map fun i => if i < n then share else 0) =
      List.replicate n share ++ List.replicate (length - n) 0 := by
  obtain ⟨rest, rfl⟩ := Nat.exists_eq_add_of_le hn
  rw [List.range_add, List.map_append, Nat.add_sub_cancel_left]
  congr 1
  · rw [List.map_eq_replicate_iff.mpr, List.length_range]
    intro i hi
    rw [if_pos (List.mem_range.mp hi)]
  · rw [List.map_map, List.map_eq_replicate_iff.mpr, List.length_range]
    intro i _
    rw [Function.comp_apply, if_neg (by omega)]

theorem not_inOrderSum_lt_zero {sums : List Float} (hsums : ∀ sum ∈ sums, ¬ sum < 0) :
    ¬ inOrderSum sums < 0 := by
  cases sums with
  | nil => exact not_zero_lt_zero
  | cons first rest =>
    obtain ⟨hfirst, hrest⟩ := List.forall_mem_cons.mp hsums
    exact not_foldl_add_lt_zero hrest hfirst

namespace SearchResult

/-- The visits of the choice in some place. -/
def visitsAt (r : SearchResult) (i : Nat) : Nat :=
  (r.children[i]?.map (·.visits.toNat)).getD 0

theorem map_visits_eq (r : SearchResult) :
    r.children.map (·.visits.toNat) = (List.range r.children.length).map r.visitsAt := by
  apply List.ext_getElem
  · simp
  · intro i hi _
    rw [List.length_map] at hi
    simp [visitsAt, List.getElem?_eq_getElem hi]

section Merged

variable {merged : SearchResult} {results : List SearchResult} {policy : CommitPolicy}
  {choices : List Choice} {n : Nat}

theorem map_visits_of_choices {r : SearchResult} (h : r.children.map (·.choice) = choices) :
    r.children.map (·.visits.toNat) = (List.range choices.length).map r.visitsAt := by
  rw [map_visits_eq, ← h, List.length_map]

theorem Allots.visitsAt_eq {r : SearchResult} {workers : Nat} (h : r.Allots choices n workers)
    (hn : n ≤ choices.length) {i : Nat} (hi : i ∈ List.range choices.length) :
    r.visitsAt i = if i < n then workers else 0 := by
  have hturn := h.in_turn hn
  rw [map_visits_of_choices h.choices_eq, ← map_range_ite hn] at hturn
  exact List.map_inj_left.mp hturn i hi

theorem Sums.visitsAt_eq (hsums : merged.Sums results policy choices) {i : Nat}
    (hi : i ∈ List.range choices.length) :
    merged.visitsAt i = (results.map fun r => r.visitsAt i).sum := by
  rw [List.mem_range, ← hsums.choices_eq, List.length_map] at hi
  have htotal : merged.children[i]? = some merged.children[i] := List.getElem?_eq_getElem hi
  obtain ⟨parts, hparts, hsum⟩ := hsums.child i _ htotal
  have hvisits : (results.map fun r => r.visitsAt i) = parts.map (·.visits.toNat) := by
    have hsame := congrArg
      (List.map fun part : Option ChildStats => (part.map (·.visits.toNat)).getD 0) hparts
    rw [List.map_map, List.map_map] at hsame
    exact hsame
  rw [hvisits, ← hsum.visits, visitsAt, htotal]
  rfl

/-- The visits that several trees report together are those that each of them reports. -/
theorem Sums.sum_visits (hsums : merged.Sums results policy choices)
    (hresults : ∀ r ∈ results, r.children.map (·.choice) = choices) :
    (merged.children.map (·.visits.toNat)).sum =
      (results.map fun r => (r.children.map (·.visits.toNat)).sum).sum := by
  calc (merged.children.map (·.visits.toNat)).sum
    _ = ((List.range choices.length).map fun i => (results.map fun r => r.visitsAt i).sum).sum := by
      rw [map_visits_of_choices hsums.choices_eq]
      congr 1
      exact List.map_congr_left fun i hi => hsums.visitsAt_eq hi
    _ = (results.map fun r => ((List.range choices.length).map fun i => r.visitsAt i).sum).sum :=
      sum_map_sum_comm (fun i r => SearchResult.visitsAt r i) _ results
    _ = (results.map fun r => (r.children.map (·.visits.toNat)).sum).sum := by
      congr 1
      apply List.map_congr_left
      intro r hr
      rw [map_visits_of_choices (hresults r hr)]

theorem exists_of_mem_parts {i : Nat} {parts : List ChildStats}
    (hparts : results.map (·.children[i]?) = parts.map some) {part : ChildStats} (hmem : part ∈ parts) :
    ∃ r ∈ results, r.children[i]? = some part := by
  have hsome : some part ∈ results.map (·.children[i]?) := hparts ▸ List.mem_map_of_mem hmem
  exact List.mem_map.mp hsome

/-- What several trees report together, of which each was allotted as many iterations. -/
theorem Sums.allots (hsums : merged.Sums results policy choices) (hne : results ≠ [])
    (hresults : ∀ r ∈ results, r.Allots choices n 1) : merged.Allots choices n results.length := by
  constructor
  case choices_eq => exact hsums.choices_eq
  case iterations =>
    have hsame : results.map (·.stats.iterations) = results.map fun _ => n := by
      apply List.map_congr_left
      intro r hr
      rw [(hresults r hr).iterations, Nat.mul_one]
    rw [hsums.iterations, hsame]
    simp [Nat.mul_comm]
  case visits_sum =>
    have hsame : (results.map fun r => (r.children.map (·.visits.toNat)).sum) = results.map fun _ => n := by
      apply List.map_congr_left
      intro r hr
      rw [(hresults r hr).visits_sum, Nat.mul_one]
    rw [hsums.sum_visits fun r hr => (hresults r hr).choices_eq, hsame]
    simp [Nat.mul_comm]
  case in_turn =>
    intro hn
    rw [map_visits_of_choices hsums.choices_eq, ← map_range_ite hn]
    apply List.map_congr_left
    intro i hi
    rw [hsums.visitsAt_eq hi, List.map_congr_left fun r hr => (hresults r hr).visitsAt_eq hn hi]
    split <;> simp
  case first_visited =>
    intro hn total htotal hunvisited
    have hplace : merged.children[0]? = some total := by
      rwa [Option.mem_def, List.head?_eq_getElem?] at htotal
    obtain ⟨parts, hparts, hsum⟩ := hsums.child 0 total hplace
    have hvisits := hsum.visits
    rw [hunvisited] at hvisits
    -- every tree has visited its first choice
    obtain ⟨part, hmem⟩ := List.exists_mem_of_ne_nil parts (by
      rintro rfl
      exact hne (List.map_eq_nil_iff.mp hparts))
    obtain ⟨r, hr, hfirst⟩ := exists_of_mem_parts hparts hmem
    rw [← List.head?_eq_getElem?] at hfirst
    apply (hresults r hr).first_visited hn part hfirst
    have hle := List.single_le_sum (fun _ _ => Nat.zero_le _) _
      (List.mem_map_of_mem (f := (·.visits.toNat)) hmem)
    rw [← hvisits] at hle
    exact UInt32.toNat_inj.mp (Nat.le_zero.mp hle)
  case valueSum =>
    intro total htotal
    obtain ⟨i, hi⟩ := List.mem_iff_getElem?.mp htotal
    obtain ⟨parts, hparts, hsum⟩ := hsums.child i total hi
    rw [hsum.valueSum]
    apply not_inOrderSum_lt_zero
    intro sum hsum
    obtain ⟨part, hmem, rfl⟩ := List.mem_map.mp hsum
    obtain ⟨r, hr, hplace⟩ := exists_of_mem_parts hparts hmem
    exact (hresults r hr).valueSum part (List.mem_of_getElem? hplace)

end Merged

end SearchResult

section Trees

variable {σ : Type} {rules : Rules} {state : DraftState} {rows : List Row} {policy : Policy σ}
  {settings : Settings} {budget : Nat} (hboard : Board.ofRows rows = .ok rules.board)
  (hseats : state.Seats rules.schedule) (hpolicy : policy.Legal) (hopen : state.pointer < rules.schedule.size)
  (hbudget : settings.maxIterations = some budget) (hfits : budget + 1 < UInt32.size)

include hboard hseats hpolicy hopen hbudget hfits

/-- The search of a tree makes its iterations, none where there is only one choice. -/
theorem searchTree_allots (memory : σ) {timing : Timing} (hdeadline : settings.deadlineFits timing.start = true)
    (hroom : budget ≤ timing.room) :
    ∃ r, searchTree rules state settings policy memory timing = .ok r ∧
      r.Allots (state.candidates rules) (SearchResult.iterationsFor (state.candidates rules) budget) 1 ∧
      commit settings.commitPolicy r.children = some r.choice := by
  have hturn : state.onClock? rules.schedule = some rules.schedule.turns[state.pointer] :=
    Array.getElem?_eq_getElem hopen
  obtain ⟨s, -, hstart, -, hroot, rfl, rfl, -, rfl, rfl⟩ :=
    Search.start_ok (Board.indexed_of_ofRows hboard) hseats hturn settings policy memory
  obtain ⟨stateAt, hspent⟩ := Search.spent_start hboard hseats hstart
  have hiterations : s.iterations timing.room =
      SearchResult.iterationsFor (s.state.candidates s.rules) budget := by
    unfold Search.iterations Search.isForced SearchResult.iterationsFor
    rw [hspent.length_childrenOf, Settings.iterations_eq hbudget hroom]
    simp only [beq_iff_eq]
  have hwithin : s.iterations timing.room + 1 < UInt32.size := by
    rw [hiterations]
    unfold SearchResult.iterationsFor
    split <;> omega
  obtain ⟨t, stateAt', hiterate, ht, hcontinues⟩ := hspent.iterate hpolicy hwithin
  have hallots := ht.allots
  rw [hcontinues.rules, hcontinues.state, hiterations] at hallots
  refine ⟨t.result (s.iterations timing.room), ?_, hiterations ▸ hallots, ?_⟩
  · unfold searchTree
    rw [hstart]
    exact Search.run_of_iterate hdeadline hiterate
  · have hne : t.rootChildren ≠ [] := by
      unfold Search.rootChildren
      rw [hcontinues.expanded 0 hroot]
      simpa using hroot
    obtain ⟨child, -, hcommit⟩ := exists_commit s.settings.commitPolicy hne
    unfold Search.result
    rw [hcontinues.settings, hcommit, Option.getD_some]

/-- What the trees of a search report, in their order. -/
theorem exists_trees (memoryOf : UInt64 → σ) {clock : Clock} (hclock : clock.Fits settings)
    (hroom : ∀ worker < settings.workers, budget ≤ clock.roomIn worker) :
    ∃ results : List SearchResult,
      ((List.range settings.workers).map fun worker => searchTree rules state settings policy
        (memoryOf (settings.seed + worker.toUInt64)) (clock.timingIn worker)) = results.map .ok ∧
      results.length = settings.workers ∧
      ∀ r ∈ results, r.OfTree rules state budget ∧
        r.Allots (state.candidates rules) (SearchResult.iterationsFor (state.candidates rules) budget) 1 := by
  apply exists_map_range_eq_map
  intro worker hworker
  obtain ⟨r, hr, hallots, -⟩ := searchTree_allots hboard hseats hpolicy hopen hbudget hfits
    (memoryOf (settings.seed + worker.toUInt64)) (hclock.tree hworker) (hroom worker hworker)
  obtain ⟨r', hr', hofTree⟩ := searchTree_ofTree (Board.indexed_of_ofRows hboard) hseats hpolicy hopen
    hbudget (Nat.lt_sub_of_add_lt hfits) (memoryOf (settings.seed + worker.toUInt64)) (hclock.tree hworker)
  obtain rfl := Except.ok.inj (hr.symm.trans hr')
  exact ⟨r, hr, hofTree, hallots⟩

/-- A search of any number of trees makes the iterations of all of them. -/
theorem search_allots (hvisits : settings.workers * budget < UInt32.size) (memoryOf : UInt64 → σ)
    {clock : Clock} (hclock : clock.Fits settings)
    (hroom : ∀ worker < max settings.workers 1, budget ≤ clock.roomIn worker) :
    ∃ r, search rules state settings policy memoryOf clock = .ok r ∧
      r.Allots (state.candidates rules) (SearchResult.iterationsFor (state.candidates rules) budget)
        (max settings.workers 1) ∧
      commit settings.commitPolicy r.children = some r.choice := by
  unfold search
  by_cases hone : settings.workers ≤ 1
  · rw [Nat.max_eq_right hone] at hroom ⊢
    simp only [if_pos hone]
    exact searchTree_allots hboard hseats hpolicy hopen hbudget hfits _ hclock.first (hroom 0 Nat.one_pos)
  · rw [Nat.max_eq_left (by omega)] at hroom ⊢
    obtain ⟨results, hresults, hlength, htrees⟩ :=
      exists_trees hboard hseats hpolicy hopen hbudget hfits memoryOf hclock hroom
    have hne : results ≠ [] := List.ne_nil_of_length_pos (by omega)
    obtain ⟨merged, hmerge, -, hsums⟩ := SearchResult.exists_sums hne (fun r hr => (htrees r hr).1)
      (by rwa [hlength]) settings.commitPolicy
    refine ⟨merged, ?_, ?_, hsums.choice⟩
    · simp only [if_neg hone, hresults, collectResults_map_ok, hmerge]
    · rw [← hlength]
      exact hsums.allots hne fun r hr => (htrees r hr).2

end Trees

/-- Given deadlines that the clock can tell and time for all of its iterations, a search makes as many as it may
in each of its trees, or none when the team on the clock has only one choice. Every iteration is a visit of one
choice; the choices are first visited once each, one after the other; and the choice that is committed to has been
visited if there was an iteration. -/
theorem search_uses_up_iterations {rows : List Row} {board : Board} (hboard : Board.ofRows rows = .ok board)
    (schedule : Schedule) (requirements : Requirements) {state : DraftState} (hseats : state.Seats schedule)
    (hopen : state.pointer < schedule.size) {σ : Type} {policy : Policy σ} (hpolicy : policy.Legal)
    {settings : Settings} {budget : Nat} (hbudget : settings.maxIterations = some budget)
    (hfits : budget + 1 < UInt32.size) :
    let rules : Rules := ⟨board, schedule, requirements⟩
    let choices := state.candidates rules
    (∀ (memory : σ) (timing : Timing), settings.deadlineFits timing.start = true → budget ≤ timing.room →
      ∃ r, searchTree rules state settings policy memory timing = .ok r ∧
        r.UsesUp choices settings.commitPolicy budget 1) ∧
    (∀ memory : σ, ∃ s, Search.start rules state settings policy memory = .ok s ∧
      ∀ j ≤ budget, j ≤ choices.length → ∃ t, Search.iterate j s = .ok t ∧
        t.rootChildren.map (·.choice) = choices ∧
        t.rootChildren.map (·.visits.toNat) = List.replicate j 1 ++ List.replicate (choices.length - j) 0) ∧
    ∀ (memoryOf : UInt64 → σ) (clock : Clock), settings.workers * budget < UInt32.size → clock.Fits settings →
      (∀ worker < max settings.workers 1, budget ≤ clock.roomIn worker) →
      ∃ r, search rules state settings policy memoryOf clock = .ok r ∧
        r.UsesUp choices settings.commitPolicy budget (max settings.workers 1) := by
  intro rules choices
  have hboard' : Board.ofRows rows = .ok rules.board := hboard
  have hseats' : state.Seats rules.schedule := hseats
  refine ⟨?_, ?_, ?_⟩
  · intro memory timing hdeadline hroom
    obtain ⟨r, hr, hallots, hcommit⟩ :=
      searchTree_allots hboard' hseats' hpolicy hopen hbudget hfits memory hdeadline hroom
    exact ⟨r, hr, hallots.usesUp hcommit⟩
  · intro memory
    have hturn : state.onClock? rules.schedule = some schedule.turns[state.pointer] :=
      Array.getElem?_eq_getElem hopen
    obtain ⟨s, -, hstart, -, -, hrules, hstate, -, -, hsame⟩ :=
      Search.start_ok (Board.indexed_of_ofRows hboard') hseats' hturn settings policy memory
    obtain ⟨stateAt, hspent⟩ := Search.spent_start hboard' hseats' hstart
    refine ⟨s, hstart, ?_⟩
    intro j hj hlength
    obtain ⟨t, stateAt', hiterate, ht, hcontinues⟩ := hspent.iterate (hsame ▸ hpolicy) (n := j) (by omega)
    have hchoices := ht.choices_rootChildren
    have hvisits := ht.visits_in_turn (k := j)
    rw [hcontinues.rules, hcontinues.state, hrules, hstate] at hchoices hvisits
    exact ⟨t, hiterate, hchoices, hvisits hlength⟩
  · intro memoryOf clock hvisits hclock hroom
    obtain ⟨r, hr, hallots, hcommit⟩ :=
      search_allots hboard' hseats' hpolicy hopen hbudget hfits hvisits memoryOf hclock hroom
    exact ⟨r, hr, hallots.usesUp hcommit⟩

theorem search_uses_up_iterations_of_two_trees :
    ∃ board r, Board.ofRows [⟨2, "QB A", "QB", "10"⟩, ⟨3, "RB B", "RB", "8"⟩] = .ok board ∧
      (DraftState.start 2 board.size).Seats (.snake 2 3) ∧ Policy.uniform.Legal ∧
      search ⟨board, .snake 2 3, .standard⟩ (.start 2 board.size) (Settings.small.withWorkers 2) .uniform
        Random.Generator.ofSeed (500 : Nat) = .ok r ∧
      r.UsesUp ((DraftState.start 2 board.size).candidates ⟨board, .snake 2 3, .standard⟩) .meanValue 500 2 := by
  obtain ⟨board, s, hboard, hseats, -⟩ := Search.exists_start_of_two_teams
  have hopen : (DraftState.start 2 board.size).pointer < (Schedule.snake 2 3).size := by
    rw [DraftState.pointer_start, Schedule.size_snake]
    decide
  have hbudget : (Settings.small.withWorkers 2).maxIterations = some 500 := rfl
  have hfits : 500 + 1 < UInt32.size := by
    decide
  have hvisits : (Settings.small.withWorkers 2).workers * 500 < UInt32.size := by
    decide
  obtain ⟨-, -, hworkers⟩ := search_uses_up_iterations hboard (.snake 2 3) .standard hseats hopen
    Policy.uniform_legal hbudget hfits
  obtain ⟨r, hr, husesUp⟩ := hworkers Random.Generator.ofSeed (500 : Nat) hvisits
    (Clock.fits_of_iterations rfl rfl) fun _ _ => Nat.le_refl _
  exact ⟨board, r, hboard, hseats, Policy.uniform_legal, hr, husesUp⟩

end SnakeDraft
