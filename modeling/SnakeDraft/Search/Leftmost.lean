/-!
The leftmost of the best. Where several elements are equally good the first one is taken: an element
gives way only to one that is strictly better.
-/

namespace SnakeDraft

/-- The element that remains when each one gives way to the next strictly better one. -/
def leftmost {α : Type} (better : α → α → Bool) : List α → Option α
  | [] => none
  | x :: xs => some (xs.foldl (fun best y => if better y best then y else best) x)

@[simp] theorem leftmost_eq_none_iff {α : Type} {better : α → α → Bool} {xs : List α} :
    leftmost better xs = none ↔ xs = [] := by
  cases xs <;> simp [leftmost]

theorem leftmost_map {α β : Type} (better : β → β → Bool) (f : α → β) (xs : List α) :
    leftmost better (xs.map f) = (leftmost (fun x y => better (f x) (f y)) xs).map f := by
  have hfold : ∀ (xs : List α) (best : α),
      (xs.map f).foldl (fun best y => if better y best then y else best) (f best) =
        f (xs.foldl (fun best y => if better (f y) (f best) then y else best) best) := by
    intro xs
    induction xs with
    | nil => exact fun _ => rfl
    | cons x xs ih =>
      intro best
      rw [List.map_cons, List.foldl_cons, List.foldl_cons, ← apply_ite f, ih]
  cases xs with
  | nil => rfl
  | cons x xs => exact congrArg some (hfold xs x)

theorem leftmost_mem {α : Type} {better : α → α → Bool} {xs : List α} {x : α}
    (h : leftmost better xs = some x) : x ∈ xs := by
  have hfold : ∀ (ys : List α) (best : α),
      ys.foldl (fun best y => if better y best then y else best) best ∈ best :: ys := by
    intro ys
    induction ys with
    | nil => simp
    | cons y ys ih =>
      intro best
      rw [List.foldl_cons]
      rcases List.mem_cons.1 (ih (if better y best then y else best)) with h | h
      · rw [h]
        split <;> simp
      · exact List.mem_cons_of_mem _ (List.mem_cons_of_mem _ h)
  cases xs with
  | nil => cases h
  | cons y ys =>
    cases h
    exact hfold ys y

end SnakeDraft
