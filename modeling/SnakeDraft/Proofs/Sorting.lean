import Mathlib.Data.List.Sort

/-!
Lists in order and without repetition. Sorting a list without repetition gives one that ascends strictly, and so does
sorting a table with distinct keys by its keys, which therefore comes out the same from any order of the table
(`sortByKey_perm`).
-/

namespace SnakeDraft

theorem nodup_eraseDups {α : Type} [BEq α] [LawfulBEq α] (items : List α) : items.eraseDups.Nodup := by
  cases items with
  | nil => exact List.nodup_nil
  | cons first rest =>
    rw [List.eraseDups_cons, List.nodup_cons]
    refine ⟨?_, nodup_eraseDups _⟩
    simp
termination_by items.length
decreasing_by
  have hshorter := List.length_filter_le (fun item => !item == first) rest
  rw [List.length_cons]
  omega

section Order

variable {α : Type} [LE α] [LT α] [Std.IsLinearOrder α] [Std.LawfulOrderLT α] [DecidableLE α]

theorem pairwise_lt_mergeSort {items : List α} (h : items.Nodup) : items.mergeSort.Pairwise (· < ·) := by
  have hsorted := List.pairwise_mergeSort' (· ≤ ·) items
  apply (hsorted.and (List.nodup_mergeSort.mpr h)).imp
  exact fun hboth => Std.lt_of_le_of_ne hboth.1 hboth.2

end Order

section Table

variable {α : Type} {table other : List (String × α)}

/-- The entries of a table in the order of their keys. -/
def sortByKey (table : List (String × α)) : List (String × α) :=
  table.mergeSort fun a b => !(b.1 < a.1)

theorem perm_sortByKey (table : List (String × α)) : (sortByKey table).Perm table :=
  List.mergeSort_perm ..

theorem pairwise_sortByKey (h : (table.map (·.1)).Nodup) :
    (sortByKey table).Pairwise fun a b => a.1 < b.1 := by
  have hsorted : (sortByKey table).Pairwise fun a b => (!(b.1 < a.1)) = true := by
    apply List.pairwise_mergeSort
    · intro a b c hab hbc
      simp only [Bool.not_eq_true', decide_eq_false_iff_not, String.not_lt] at hab hbc ⊢
      exact String.le_trans hab hbc
    · intro a b
      simp only [Bool.or_eq_true, Bool.not_eq_true', decide_eq_false_iff_not, String.not_lt]
      exact Std.Total.total a.1 b.1
  have hdistinct : (sortByKey table).Pairwise fun a b => a.1 ≠ b.1 := by
    rw [← List.pairwise_map (R := (· ≠ ·))]
    exact ((perm_sortByKey table).map (·.1)).nodup_iff.mpr h
  apply (hsorted.and hdistinct).imp
  intro a b hboth
  rw [Bool.not_eq_true', decide_eq_false_iff_not, String.not_lt] at hboth
  exact Std.lt_of_le_of_ne hboth.1 hboth.2

/-- Sorting a table by its keys forgets the order that it had. -/
theorem sortByKey_perm (h : (table.map (·.1)).Nodup) (hperm : other.Perm table) :
    sortByKey other = sortByKey table := by
  have hother : (other.map (·.1)).Nodup := (hperm.map (·.1)).nodup_iff.mpr h
  apply List.Perm.eq_of_pairwise _ (pairwise_sortByKey hother) (pairwise_sortByKey h)
  · exact (perm_sortByKey other).trans (hperm.trans (perm_sortByKey table).symm)
  · intro a b _ _ hab hba
    exact absurd (Std.lt_trans hab hba) (String.lt_irrefl a.1)

end Table

end SnakeDraft
