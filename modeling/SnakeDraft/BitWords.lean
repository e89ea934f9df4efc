/-!
Bits in words of 64: bit `id` is bit `id % 64` of word `id / 64`, and beyond the words no bit is set.
`BitWords.set` sets a bit and makes room for it where there is none; it leaves every other bit as it is
(`has_set`). Words are determined by their number and their bits (`ext_has`).
-/

namespace SnakeDraft.BitWords

/-- The number of words that a number of bits fills, in part or in whole. -/
def wordsFor (bits : Nat) : Nat :=
  (bits + 63) / 64

/-- The word in which the bit of a number is the only one set. -/
def mask (id : Nat) : UInt64 :=
  1 <<< (id % 64).toUInt64

/-- Whether a bit is set. -/
def has (words : Array UInt64) (id : Nat) : Bool :=
  words[id / 64]?.any fun word => word &&& mask id != 0

/-- Sets a bit: whether it was not set before, and the words after it. -/
def set (words : Array UInt64) (id : Nat) : Bool × Array UInt64 :=
  let words := words.rightpad (id / 64 + 1) 0
  if has words id then (false, words) else (true, words.modify (id / 64) (· ||| mask id))

/-- The numbers of the bits that are set, in increasing order. -/
def toList (words : Array UInt64) : List Nat :=
  (List.range (64 * words.size)).filter (has words)

section Words

variable {words other : Array UInt64} {id : Nat}

theorem toNat_mask (id : Nat) : (mask id).toNat = 1 <<< (id % 64) := by
  have hlt : id % 64 < 64 := Nat.mod_lt _ (by decide)
  have hshift : (id % 64).toUInt64.toNat = id % 64 := by
    rw [Nat.toUInt64_eq, UInt64.toNat_ofNat']
    omega
  have hbound : 1 <<< (id % 64) < 2 ^ 64 := by
    rw [Nat.one_shiftLeft]
    exact Nat.pow_lt_pow_right (by decide) hlt
  unfold mask
  rw [UInt64.toNat_shiftLeft, hshift, Nat.mod_eq_of_lt hlt, UInt64.toNat_one, Nat.mod_eq_of_lt hbound]

theorem and_mask (word : UInt64) (id : Nat) :
    (word &&& mask id != 0) = word.toNat.testBit (id % 64) := by
  have hzero : word &&& mask id = 0 ↔ word.toNat &&& 1 <<< (id % 64) = 0 := by
    rw [← UInt64.toNat_inj, UInt64.toNat_and, toNat_mask]
    rfl
  rw [Bool.eq_iff_iff, bne_iff_ne, ne_eq, hzero]
  constructor
  · intro hne
    apply Classical.byContradiction
    intro hbit
    apply hne
    apply Nat.eq_of_testBit_eq
    intro i
    rw [Nat.testBit_and, Nat.one_shiftLeft, Nat.testBit_two_pow, Nat.zero_testBit]
    grind
  · intro hbit hzero
    have htest := congrArg (·.testBit (id % 64)) hzero
    simp [Nat.testBit_and, hbit] at htest

/-- A bit is read off its word, and is not set where there is no word. -/
theorem has_eq (words : Array UInt64) (id : Nat) :
    has words id = (words[id / 64]?.getD 0).toNat.testBit (id % 64) := by
  unfold has
  cases words[id / 64]? with
  | none => simp
  | some word => exact and_mask word id

theorem lt_of_has (h : has words id = true) : id / 64 < words.size := by
  apply Classical.byContradiction
  intro hge
  have hnone : words[id / 64]? = none := Array.getElem?_eq_none (by omega)
  simp [has, hnone] at h

theorem size_set (words : Array UInt64) (id : Nat) :
    (set words id).2.size = max (id / 64 + 1) words.size := by
  unfold set
  dsimp only
  split
  · exact Array.size_rightpad
  · rw [Array.size_modify, Array.size_rightpad]

theorem getD_rightpad (words : Array UInt64) (n i : Nat) :
    (words.rightpad n 0)[i]?.getD 0 = words[i]?.getD 0 := by
  unfold Array.rightpad
  rw [Array.getElem?_append, Array.getElem?_replicate]
  grind

theorem has_rightpad (words : Array UInt64) (n id : Nat) :
    has (words.rightpad n 0) id = has words id := by
  rw [has_eq, has_eq, getD_rightpad]

theorem set_fst (words : Array UInt64) (id : Nat) : (set words id).1 = !has words id := by
  simp only [set, has_rightpad]
  cases has words id <;> rfl

/-- Setting a bit sets this one and leaves the others as they are. -/
theorem has_set (words : Array UInt64) (id j : Nat) :
    has (set words id).2 j = (has words j || j == id) := by
  simp only [set, has_rightpad]
  split
  · next hset =>
    rw [has_rightpad]
    by_cases hj : j = id <;> simp [hj, hset]
  · rw [← has_rightpad words (id / 64 + 1) j, has_eq, has_eq, Array.getElem?_modify]
    by_cases hword : id / 64 = j / 64
    · have hsize : j / 64 < (words.rightpad (id / 64 + 1) 0).size := by
        rw [Array.size_rightpad]
        omega
      have hsame : j = id ↔ id % 64 = j % 64 := by omega
      rw [if_pos hword, Array.getElem?_eq_getElem hsize, Option.map_some, Option.getD_some, Option.getD_some,
        UInt64.toNat_or, toNat_mask, Nat.one_shiftLeft, Nat.testBit_or, Nat.testBit_two_pow, Bool.beq_eq_decide_eq,
        decide_eq_decide.mpr hsame]
    · have hne : j ≠ id := by
        rintro rfl
        exact hword rfl
      rw [if_neg hword, beq_eq_false_iff_ne.mpr hne, Bool.or_false]

/-- Words are determined by how many there are and by their bits. -/
theorem ext_has (hsize : words.size = other.size) (h : ∀ id, has words id = has other id) : words = other := by
  refine Array.ext hsize fun i hi hi' => ?_
  rw [← UInt64.toNat_inj]
  apply Nat.eq_of_testBit_eq
  intro j
  by_cases hj : j < 64
  · have hbit := h (64 * i + j)
    have hword : (64 * i + j) / 64 = i := by omega
    have hplace : (64 * i + j) % 64 = j := by omega
    rw [has_eq, has_eq, hword, hplace, Array.getElem?_eq_getElem hi, Array.getElem?_eq_getElem hi'] at hbit
    exact hbit
  · have hbeyond : ∀ word : UInt64, word.toNat.testBit j = false := fun word =>
      Nat.testBit_lt_two_pow (Nat.lt_of_lt_of_le word.toNat_lt (Nat.pow_le_pow_right (by decide) (by omega)))
    rw [hbeyond, hbeyond]

theorem mem_toList : id ∈ toList words ↔ has words id = true := by
  unfold toList
  rw [List.mem_filter, List.mem_range]
  constructor
  · exact fun h => h.2
  · intro h
    have hlt := lt_of_has h
    exact ⟨by omega, h⟩

theorem nodup_toList (words : Array UInt64) : (toList words).Nodup :=
  List.Pairwise.filter _ List.nodup_range

/-- One more bit is set after a bit that was not. -/
theorem length_toList_set (words : Array UInt64) (id : Nat) :
    (toList (set words id).2).length = (toList words).length + if has words id then 0 else 1 := by
  split
  · next hset =>
    apply List.Perm.length_eq
    rw [List.perm_ext_iff_of_nodup (nodup_toList _) (nodup_toList _)]
    intro j
    rw [mem_toList, mem_toList, has_set]
    grind
  · next hunset =>
    have hnew : id ∉ toList words := by rwa [mem_toList]
    have hperm : (toList (set words id).2).Perm (id :: toList words) := by
      rw [List.perm_ext_iff_of_nodup (nodup_toList _) (List.nodup_cons.mpr ⟨hnew, nodup_toList words⟩)]
      intro j
      rw [mem_toList, has_set, List.mem_cons, mem_toList]
      simp [or_comm]
    exact hperm.length_eq

end Words

end SnakeDraft.BitWords
