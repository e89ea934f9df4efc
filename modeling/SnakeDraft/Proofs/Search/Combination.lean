import Mathlib.Algebra.Field.Defs
import Mathlib.Data.List.Perm.Basic
import Mathlib.Data.UInt
import Mathlib.Order.Lattice
import SnakeDraft.Proofs.Search.Highest
import SnakeDraft.Search.Workers

/-!
Combining the statistics of several searches. A choice is looked up among the totals and added there; when all
searches have the same choices in the same order, this is addition side by side (`Totals.foldl_absorb`), so each
choice gets the statistics of all searches once (`Totals.getElem?_foldl_zipWith`). The arithmetic is a parameter:
the one of searches rounds, and in one that does not the order of the searches does not matter
(`Totals.combine_exact_perm`).
-/

namespace SnakeDraft

/-- What combining rewards and committing to a choice go by. -/
structure Arithmetic (ν : Type) where
  add : ν → ν → ν
  higher : ν → ν → ν
  mean : ν → UInt32 → ν
  isAbove : ν → ν → Bool

namespace Arithmetic

/-- The arithmetic of searches. -/
def float : Arithmetic Float where
  add := (· + ·)
  higher := ChildStats.greater
  mean := meanValue
  isAbove a b := a > b

/-- Arithmetic without rounding. -/
def exact (K : Type) [Field K] [LinearOrder K] : Arithmetic K where
  add := (· + ·)
  higher := max
  mean sum visits := if visits = 0 then 0 else sum / visits.toNat
  isAbove a b := a > b

end Arithmetic

/-- The statistics of one choice, with rewards of any kind. -/
structure Totals (ν : Type) where
  choice : Choice
  visits : UInt32
  valueSum : ν
  best : ν

namespace Totals

variable {ν μ : Type}

/-- The same statistics with another reading of rewards. -/
def map (value : ν → μ) (t : Totals ν) : Totals μ :=
  ⟨t.choice, t.visits, value t.valueSum, value t.best⟩

/-- The statistics of one choice from two searches together. -/
def merge (A : Arithmetic ν) (a b : Totals ν) : Totals ν :=
  { a with
    visits := a.visits + b.visits
    valueSum := A.add a.valueSum b.valueSum
    best := A.higher a.best b.best }

/-- The statistics of all choices with those of one more. -/
def absorb (A : Arithmetic ν) : List (Totals ν) → Totals ν → List (Totals ν)
  | [], child => [child]
  | c :: cs, child => if c.choice = child.choice then c.merge A child :: cs else c :: absorb A cs child

/-- Whether a policy prefers the first of two choices to the second. -/
def isBetter (A : Arithmetic ν) (policy : CommitPolicy) (a b : Totals ν) : Bool :=
  match policy with
  | .meanValue => A.isAbove (A.mean a.valueSum a.visits) (A.mean b.valueSum b.visits)
  | .visitCount => a.visits > b.visits

/-- The choice to commit to. -/
def commit (A : Arithmetic ν) (policy : CommitPolicy) (children : List (Totals ν)) : Option Choice :=
  (leftmost (isBetter A policy) children).map (·.choice)

/-- The statistics of several searches together. -/
def ofSearches (A : Arithmetic ν) : List (List (Totals ν)) → Option (List (Totals ν))
  | [] => none
  | first :: others => some (others.foldl (fun totals children => children.foldl (absorb A) totals) first)

/-- The statistics of several searches together, and the choice that they lead to. -/
def combine (A : Arithmetic ν) (policy : CommitPolicy) (searches : List (List (Totals ν))) :
    Option (List (Totals ν) × Option Choice) :=
  (ofSearches A searches).map fun totals => (totals, commit A policy totals)

section Aligned

variable {A : Arithmetic ν}

/-- The statistics of a choice are added where the choice stands. -/
theorem absorb_append {before after : List (Totals ν)} {own child : Totals ν}
    (hbefore : ∀ c ∈ before, c.choice ≠ child.choice) (hown : own.choice = child.choice) :
    absorb A (before ++ own :: after) child = before ++ own.merge A child :: after := by
  induction before with
  | nil => exact if_pos hown
  | cons c before ih =>
    rw [List.cons_append, absorb, if_neg (hbefore c List.mem_cons_self),
      ih fun d hd => hbefore d (List.mem_cons_of_mem c hd)]
    rfl

/-- Among the same choices in the same order, statistics are added side by side. -/
theorem foldl_absorb {xs ys : List (Totals ν)} (hchoices : ys.map (·.choice) = xs.map (·.choice))
    (hnodup : (xs.map (·.choice)).Nodup) : ys.foldl (absorb A) xs = List.zipWith (merge A) xs ys := by
  -- the choices that are done stay in front and are not met again
  have hrest : ∀ (ys done xs : List (Totals ν)), ys.map (·.choice) = xs.map (·.choice) →
      ((done ++ xs).map (·.choice)).Nodup →
      ys.foldl (absorb A) (done ++ xs) = done ++ List.zipWith (merge A) xs ys := by
    intro ys
    induction ys with
    | nil =>
      intro done xs hchoices _
      rw [List.map_eq_nil_iff.mp hchoices.symm]
      rfl
    | cons y ys ih =>
      intro done xs hchoices hnodup
      obtain ⟨x, xs, rfl, hx, hxs⟩ := List.map_eq_cons_iff.mp hchoices.symm
      have hdone : ∀ c ∈ done, c.choice ≠ y.choice := by
        intro c hc heq
        rw [List.map_append, List.nodup_append] at hnodup
        exact hnodup.2.2 _ (List.mem_map_of_mem hc) _ (List.mem_map_of_mem List.mem_cons_self)
          (heq.trans hx.symm)
      have hnext := ih (done ++ [x.merge A y]) xs hxs.symm (by simpa [merge] using hnodup)
      rw [List.foldl_cons, absorb_append hdone hx]
      simpa using hnext
  exact hrest ys [] xs hchoices hnodup

theorem map_choice_zipWith {xs ys : List (Totals ν)} (hlength : xs.length ≤ ys.length) :
    (List.zipWith (merge A) xs ys).map (·.choice) = xs.map (·.choice) := by
  induction xs generalizing ys with
  | nil => rfl
  | cons x xs ih =>
    cases ys with
    | nil => simp at hlength
    | cons y ys =>
      rw [List.length_cons, List.length_cons] at hlength
      rw [List.zipWith_cons_cons, List.map_cons, ih (by omega)]
      rfl

/-- Searches of the same choices are combined side by side. -/
theorem foldl_foldl_absorb {choices : List Choice} (hnodup : choices.Nodup)
    {others : List (List (Totals ν))} (hothers : ∀ ys ∈ others, ys.map (·.choice) = choices)
    {first : List (Totals ν)} (hfirst : first.map (·.choice) = choices) :
    others.foldl (fun totals ys => ys.foldl (absorb A) totals) first =
      others.foldl (List.zipWith (merge A)) first ∧
    (others.foldl (List.zipWith (merge A)) first).map (·.choice) = choices := by
  induction others generalizing first with
  | nil => exact ⟨rfl, hfirst⟩
  | cons ys others ih =>
    have hys : ys.map (·.choice) = first.map (·.choice) := (hothers ys List.mem_cons_self).trans hfirst.symm
    have hlength : first.length ≤ ys.length := by
      have hsame := congrArg List.length hys
      rw [List.length_map, List.length_map] at hsame
      exact hsame.ge
    rw [List.foldl_cons, List.foldl_cons, foldl_absorb hys (hfirst ▸ hnodup)]
    exact ih (fun zs hzs => hothers zs (List.mem_cons_of_mem ys hzs))
      ((map_choice_zipWith hlength).trans hfirst)

/-- Every choice gets its statistics from all searches, one after the other. -/
theorem getElem?_foldl_zipWith {others : List (List (Totals ν))} {first : List (Totals ν)}
    (hlength : ∀ ys ∈ others, first.length ≤ ys.length) (i : Nat) :
    (others.foldl (List.zipWith (merge A)) first)[i]? =
      first[i]?.map fun own => (others.filterMap (·[i]?)).foldl (merge A) own := by
  induction others generalizing first with
  | nil =>
    rw [List.foldl_nil, List.filterMap_nil]
    cases first[i]? <;> rfl
  | cons ys others ih =>
    have hys := hlength ys List.mem_cons_self
    have hrest : ∀ zs ∈ others, (List.zipWith (merge A) first ys).length ≤ zs.length := by
      intro zs hzs
      have hle := hlength zs (List.mem_cons_of_mem ys hzs)
      rw [List.length_zipWith]
      omega
    rw [List.foldl_cons, ih hrest, List.getElem?_zipWith]
    cases hown : first[i]? with
    | none => rfl
    | some own =>
      have hlt : i < first.length := (List.getElem?_eq_some_iff.mp hown).1
      have hy : ys[i]? = some ys[i] := List.getElem?_eq_getElem (by omega)
      simp only [hy, List.filterMap_cons]
      rfl

theorem foldl_merge (own : Totals ν) (others : List (Totals ν)) :
    others.foldl (merge A) own =
      { choice := own.choice
        visits := (others.map (·.visits)).foldl (· + ·) own.visits
        valueSum := (others.map (·.valueSum)).foldl A.add own.valueSum
        best := (others.map (·.best)).foldl A.higher own.best } := by
  induction others generalizing own with
  | nil => rfl
  | cons child others ih =>
    rw [List.foldl_cons, ih]
    rfl

end Aligned

section Exact

variable {K : Type} [Field K] [LinearOrder K]

theorem merge_right_comm (z x y : Totals K) :
    (z.merge (.exact K) x).merge (.exact K) y = (z.merge (.exact K) y).merge (.exact K) x := by
  unfold merge Arithmetic.exact
  simp only [Totals.mk.injEq, true_and]
  exact ⟨add_right_comm _ _ _, add_right_comm _ _ _, max_right_comm _ _ _⟩

theorem merge_comm {x y : Totals K} (hchoice : x.choice = y.choice) :
    x.merge (.exact K) y = y.merge (.exact K) x := by
  unfold merge Arithmetic.exact
  simp only [Totals.mk.injEq]
  exact ⟨hchoice, add_comm _ _, add_comm _ _, max_comm _ _⟩

theorem zipWith_merge_right_comm (zs xs ys : List (Totals K)) :
    List.zipWith (merge (.exact K)) (List.zipWith (merge (.exact K)) zs xs) ys =
      List.zipWith (merge (.exact K)) (List.zipWith (merge (.exact K)) zs ys) xs := by
  induction zs generalizing xs ys with
  | nil => rfl
  | cons z zs ih =>
    cases xs with
    | nil => cases ys <;> rfl
    | cons x xs =>
      cases ys with
      | nil => rfl
      | cons y ys =>
        simp only [List.zipWith_cons_cons, merge_right_comm z x y, ih]

theorem zipWith_merge_comm {xs ys : List (Totals K)} (hchoices : xs.map (·.choice) = ys.map (·.choice)) :
    List.zipWith (merge (.exact K)) xs ys = List.zipWith (merge (.exact K)) ys xs := by
  induction xs generalizing ys with
  | nil => cases ys <;> rfl
  | cons x xs ih =>
    obtain ⟨y, ys, rfl, hy, hys⟩ := List.map_eq_cons_iff.mp hchoices.symm
    rw [List.zipWith_cons_cons, List.zipWith_cons_cons, merge_comm hy.symm, ih hys.symm]

/-- Without rounding, searches of the same choices can be put together in any order. -/
theorem ofSearches_exact_perm {choices : List Choice} (hnodup : choices.Nodup)
    {searches others : List (List (Totals K))} (hperm : searches.Perm others)
    (hchoices : ∀ xs ∈ searches, xs.map (·.choice) = choices) :
    ofSearches (.exact K) searches = ofSearches (.exact K) others := by
  have hside : ∀ (first : List (Totals K)) (rest : List (List (Totals K))),
      (∀ xs ∈ first :: rest, xs.map (·.choice) = choices) →
      ofSearches (.exact K) (first :: rest) = some (rest.foldl (List.zipWith (merge (.exact K))) first) := by
    intro first rest hall
    obtain ⟨hfirst, hrest⟩ := List.forall_mem_cons.mp hall
    exact congrArg some (foldl_foldl_absorb hnodup hrest hfirst).1
  induction hperm with
  | nil => rfl
  | @cons first rest rest' hperm _ =>
    have hchoices' : ∀ xs ∈ first :: rest', xs.map (·.choice) = choices :=
      fun xs hxs => hchoices xs ((hperm.cons first).mem_iff.mpr hxs)
    rw [hside first rest hchoices, hside first rest' hchoices']
    exact congrArg some (hperm.foldl_eq' (fun xs _ ys _ zs => zipWith_merge_right_comm zs xs ys) first)
  | swap first second rest =>
    have hchoices' : ∀ xs ∈ first :: second :: rest, xs.map (·.choice) = choices :=
      fun xs hxs => hchoices xs ((List.Perm.swap first second rest).mem_iff.mpr hxs)
    have hsame : second.map (·.choice) = first.map (·.choice) := by
      rw [hchoices second (by simp), hchoices first (by simp)]
    rw [hside second _ hchoices, hside first _ hchoices', List.foldl_cons, List.foldl_cons,
      zipWith_merge_comm hsame]
  | trans hperm _ ihfirst ihsecond =>
    rw [ihfirst hchoices, ihsecond fun xs hxs => hchoices xs (hperm.mem_iff.mpr hxs)]

theorem combine_exact_perm {choices : List Choice} (hnodup : choices.Nodup)
    {searches others : List (List (Totals K))} (hperm : searches.Perm others)
    (hchoices : ∀ xs ∈ searches, xs.map (·.choice) = choices) (policy : CommitPolicy) :
    combine (.exact K) policy searches = combine (.exact K) policy others := by
  unfold combine
  rw [ofSearches_exact_perm hnodup hperm hchoices]

end Exact

end Totals

end SnakeDraft
