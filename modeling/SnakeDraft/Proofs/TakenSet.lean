import Mathlib.Data.Finset.Card
import SnakeDraft.TakenSet

/-!
What a set of players holds. `TakenSet.toList` lists exactly the members, each once, so that `TakenSet.size` grows
by one with every new member. Whatever a set has room for at the start, insertions make of it the finite set of what
was inserted, and leave no other trace (`TakenSet.inserting_makes_finite_set`).
-/

namespace SnakeDraft.TakenSet

theorem mem_toList {s : TakenSet} {id : Nat} : id ∈ s.toList ↔ s.contains id = true :=
  BitWords.mem_toList

theorem nodup_toList (s : TakenSet) : s.toList.Nodup :=
  BitWords.nodup_toList _

theorem size_eq (s : TakenSet) : s.size = s.toList.length :=
  s.count_eq

theorem add_fst (s : TakenSet) (id : Nat) : (s.add id).1 = !s.contains id :=
  BitWords.set_fst ..

@[simp] theorem size_withCapacity (capacity : Nat) : (withCapacity capacity).size = 0 := rfl

/-- A new member makes a set larger by one. -/
theorem size_insert {s : TakenSet} {id : Nat} (h : s.contains id = false) :
    (s.insert id).size = s.size + 1 := by
  have hnew : (s.add id).1 = true := by rw [add_fst, h]; rfl
  show (if (s.add id).1 then s.count + 1 else s.count) = s.count + 1
  rw [if_pos hnew]

/-- The set after some players are inserted one after the other. -/
def insertAll (s : TakenSet) (ids : List Nat) : TakenSet :=
  ids.foldl insert s

theorem contains_insertAll (s : TakenSet) (ids : List Nat) (id : Nat) :
    (s.insertAll ids).contains id = true ↔ s.contains id = true ∨ id ∈ ids := by
  induction ids generalizing s with
  | nil => simp [insertAll]
  | cons first ids ih =>
    show ((s.insert first).insertAll ids).contains id = true ↔ _
    rw [ih, contains_insert, Bool.or_eq_true, beq_iff_eq, List.mem_cons, or_assoc]

theorem contains_withCapacity_insertAll (capacity : Nat) (ids : List Nat) (id : Nat) :
    ((withCapacity capacity).insertAll ids).contains id = true ↔ id ∈ ids := by
  simp [contains_insertAll]

/-- A set has as many words as its former ones and the members inserted need. -/
theorem size_words_insertAll_le_iff (s : TakenSet) (ids : List Nat) (n : Nat) :
    (s.insertAll ids).words.size ≤ n ↔ s.words.size ≤ n ∧ ∀ id ∈ ids, id / 64 < n := by
  induction ids generalizing s with
  | nil => simp [insertAll]
  | cons first ids ih =>
    show ((s.insert first).insertAll ids).words.size ≤ n ↔ _
    rw [ih, size_words_insert, Nat.max_le, List.forall_mem_cons, Nat.succ_le_iff]
    tauto

/-- The size counts the players that were inserted, each once. -/
theorem size_insertAll (capacity : Nat) (ids : List Nat) :
    ((withCapacity capacity).insertAll ids).size = ids.toFinset.card := by
  have hmembers : ((withCapacity capacity).insertAll ids).toList.toFinset = ids.toFinset := by
    ext id
    rw [List.mem_toFinset, List.mem_toFinset, mem_toList, contains_withCapacity_insertAll]
  rw [size_eq, ← hmembers, List.toFinset_card_of_nodup (nodup_toList _)]

/-- With room for whichever players at the start, insertions of players below or beyond it, in any order and any
number of times, make the finite set of the players inserted: it has these members and this size, it tells of each
player inserted next whether it is new, and it is the same set whenever the players are. -/
theorem inserting_makes_finite_set (capacity : Nat) (ids : List Nat) :
    let s : TakenSet := (withCapacity capacity).insertAll ids
    (∀ id, s.contains id = true ↔ id ∈ ids) ∧
    (∀ id, (s.add id).1 = true ↔ id ∉ ids) ∧
    s.size = ids.toFinset.card ∧
    (s.isEmpty = true ↔ ids = []) ∧
    (∀ id other, other ≠ id → (s.add id).2.contains other = s.contains other) ∧
    ∀ others, (withCapacity capacity).insertAll others = s ↔ ∀ id, id ∈ others ↔ id ∈ ids := by
  intro s
  have hmem : ∀ id, s.contains id = true ↔ id ∈ ids := contains_withCapacity_insertAll capacity ids
  refine ⟨hmem, fun id => ?_, size_insertAll capacity ids, ?_, fun id other hne => ?_, fun others => ⟨?_, fun h => ?_⟩⟩
  · rw [add_fst, Bool.not_eq_true', ← Bool.not_eq_true, hmem]
  · show (s.size == 0) = true ↔ _
    rw [beq_iff_eq, size_insertAll, Finset.card_eq_zero, List.toFinset_eq_empty_iff]
  · show (s.insert id).contains other = s.contains other
    rw [contains_insert, beq_eq_false_iff_ne.mpr hne, Bool.or_false]
  · rintro hsame id
    rw [← hmem, ← hsame, contains_withCapacity_insertAll]
  · have hwords : ∀ n, ((withCapacity capacity).insertAll others).words.size ≤ n ↔ s.words.size ≤ n := by
      intro n
      simp only [s, size_words_insertAll_le_iff, h]
    refine ext_contains (Nat.le_antisymm ((hwords _).mpr le_rfl) ((hwords _).mp le_rfl)) fun id => ?_
    rw [Bool.eq_iff_iff, contains_withCapacity_insertAll, hmem, h]

example : (withCapacity 65).insertAll [130, 2, 64, 130] = (withCapacity 65).insertAll [64, 2, 130] := by
  decide

end SnakeDraft.TakenSet
