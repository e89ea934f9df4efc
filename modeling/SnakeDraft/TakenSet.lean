import SnakeDraft.BitWords

/-!
Sets of players who are off the board, as bits in words of 64 with the number of members beside them. There are
words for all players below a capacity from the start, and more are added when a player beyond them is taken. Sets
are the same when they have as many words and the same members (`TakenSet.ext_contains`), so the order in which
players were taken leaves no trace in them.
-/

namespace SnakeDraft

/-- A set of players; player `id` is a member when bit `id` is set. -/
structure TakenSet where
  words : Array UInt64
  count : Nat
  count_eq : count = (BitWords.toList words).length
deriving DecidableEq, Repr

namespace TakenSet

theorem has_replicate (n id : Nat) : BitWords.has (Array.replicate n 0) id = false := by
  rw [BitWords.has_eq, Array.getElem?_replicate]
  split <;> simp

/-- The set without members that has room for the players below a capacity. -/
def withCapacity (capacity : Nat) : TakenSet where
  words := .replicate (BitWords.wordsFor capacity) 0
  count := 0
  count_eq := by
    have hnone : BitWords.toList (.replicate (BitWords.wordsFor capacity) 0) = [] :=
      List.filter_eq_nil_iff.mpr fun id _ => by simp [has_replicate]
    exact (congrArg List.length hnone).symm

/-- The set without members, and without room for any. -/
def empty : TakenSet :=
  withCapacity 0

def contains (s : TakenSet) (id : Nat) : Bool :=
  BitWords.has s.words id

/-- Takes a player: whether the player was no member, and the set with the player. -/
def add (s : TakenSet) (id : Nat) : Bool × TakenSet :=
  ((BitWords.set s.words id).1,
    { words := (BitWords.set s.words id).2
      count := if (BitWords.set s.words id).1 then s.count + 1 else s.count
      count_eq := by
        rw [BitWords.length_toList_set, ← s.count_eq, BitWords.set_fst]
        cases BitWords.has s.words id <;> rfl })

/-- The set with one more member. -/
def insert (s : TakenSet) (id : Nat) : TakenSet :=
  (s.add id).2

/-- The members in increasing order. -/
def toList (s : TakenSet) : List Nat :=
  BitWords.toList s.words

/-- The number of members. -/
def size (s : TakenSet) : Nat :=
  s.count

def isEmpty (s : TakenSet) : Bool :=
  s.count == 0

@[simp] theorem contains_withCapacity (capacity id : Nat) : (withCapacity capacity).contains id = false :=
  has_replicate ..

theorem contains_insert (s : TakenSet) (id other : Nat) :
    (s.insert id).contains other = (s.contains other || other == id) :=
  BitWords.has_set ..

@[simp] theorem size_words_withCapacity (capacity : Nat) :
    (withCapacity capacity).words.size = BitWords.wordsFor capacity :=
  Array.size_replicate

/-- Words are added only as far as the new member needs them. -/
theorem size_words_insert (s : TakenSet) (id : Nat) :
    (s.insert id).words.size = max (id / 64 + 1) s.words.size :=
  BitWords.size_set ..

theorem ext_contains {s t : TakenSet} (hsize : s.words.size = t.words.size)
    (h : ∀ id, s.contains id = t.contains id) : s = t := by
  have hwords : s.words = t.words := BitWords.ext_has hsize h
  have hcount : s.count = t.count := by rw [s.count_eq, t.count_eq, hwords]
  cases s
  cases t
  cases hwords
  cases hcount
  rfl

end TakenSet

end SnakeDraft
