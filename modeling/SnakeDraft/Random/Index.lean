import SnakeDraft.Random.ChaCha

/-!
Random indices without bias. A random number of 64 bits is scaled to the size of the list; draws whose
remainder lies beyond the largest whole multiple are drawn again.
-/

namespace SnakeDraft.Random.Generator

/-- The greatest remainder that a draw for `size` places may leave. -/
def acceptedUpTo (size : UInt64) : UInt64 :=
  (size <<< (63 - size.toNat.log2).toUInt64) - 1

/-- How often an index is drawn before any draw is accepted. A draw is rejected less than half of the
time, so the bound is never met in practice. -/
def maxDraws : Nat := 256

/-- An index below a positive `size`, in at most this many draws. -/
def indexWithin (size : UInt64) : Nat → Generator → Nat × Generator
  | 0, g => (0, g)
  | draws + 1, g =>
    let (value, g) := g.double
    let product := value.toNat * size.toNat
    if product % UInt64.size ≤ (acceptedUpTo size).toNat then (product / UInt64.size, g)
    else indexWithin size draws g

/-- An index below a positive `size`. -/
def index (size : Nat) (g : Generator) : Nat × Generator :=
  indexWithin size.toUInt64 maxDraws g

theorem indexWithin_lt {size : UInt64} (hsize : 0 < size.toNat) (draws : Nat) (g : Generator) :
    (indexWithin size draws g).1 < size.toNat := by
  induction draws generalizing g with
  | zero => exact hsize
  | succ draws ih =>
    simp only [indexWithin]
    split
    · have hvalue : g.double.1.toNat < UInt64.size := g.double.1.toNat_lt_size
      refine Nat.div_lt_of_lt_mul ?_
      exact Nat.mul_lt_mul_of_pos_right hvalue hsize
    · exact ih _

theorem index_lt {size : Nat} (hsize : 0 < size) (g : Generator) : (index size g).1 < size := by
  have hle : size.toUInt64.toNat ≤ size := Nat.mod_le size UInt64.size
  rcases Nat.eq_zero_or_pos size.toUInt64.toNat with hzero | hpos
  · have hfirst : (index size g).1 = 0 := by
      show (indexWithin size.toUInt64 (255 + 1) g).1 = 0
      simp [indexWithin, hzero]
    omega
  · exact Nat.lt_of_lt_of_le (indexWithin_lt hpos maxDraws g) hle

end SnakeDraft.Random.Generator
