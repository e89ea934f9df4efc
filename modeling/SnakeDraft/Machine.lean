/-!
Machine words and allocations. A number of the program is a word of 64 bits, and what becomes of a product that does not
fit one depends on how the program was built (`Overflow`). The bytes of an allocation are counted in a signed word
(`allocation`), whatever the build.
-/

namespace SnakeDraft

/-- One computation after another succeeds when both do. -/
theorem bind_eq_ok_iff {ε α β : Type} {x : Except ε α} {f : α → Except ε β} {b : β} :
    (x >>= f) = .ok b ↔ ∃ a, x = .ok a ∧ f a = .ok b := by
  cases x <;> simp [bind, Except.bind]

/-- The number of values of a signed word from zero on. -/
def signedSize : Nat :=
  UInt64.size / 2

theorem signedSize_le : signedSize ≤ UInt64.size :=
  Nat.div_le_self ..

/-- Why a computation stops the program. -/
inductive MachineFault where
  /-- A product does not fit a word. -/
  | product
  /-- A list does not fit an allocation. -/
  | capacity
deriving DecidableEq, Repr

def MachineFault.message : MachineFault → String
  | product => "attempt to multiply with overflow"
  | capacity => "capacity overflow"

/-- What a build of the program does with a product that does not fit a word. -/
inductive Overflow where
  /-- It goes on with the lowest 64 bits. -/
  | wraps
  /-- It stops. -/
  | stops
deriving DecidableEq, Repr

namespace Overflow

variable {overflow : Overflow} {a b : Nat}

/-- The product of two words. -/
def product (overflow : Overflow) (a b : Nat) : Except MachineFault Nat :=
  if a * b < UInt64.size then .ok (a * b)
  else
    match overflow with
    | .wraps => .ok (a * b % UInt64.size)
    | .stops => .error .product

theorem product_of_lt (h : a * b < UInt64.size) : overflow.product a b = .ok (a * b) :=
  if_pos h

theorem product_wraps (a b : Nat) : wraps.product a b = .ok (a * b % UInt64.size) := by
  unfold product
  split
  · next h => rw [Nat.mod_eq_of_lt h]
  · rfl

/-- A product has a value unless it is out of range and the program stops there. -/
theorem exists_product_iff : (∃ c, overflow.product a b = .ok c) ↔ (overflow = .stops → a * b < UInt64.size) := by
  cases overflow with
  | wraps => simp [product_wraps]
  | stops =>
    unfold product
    split <;> simp_all

end Overflow

/-- Takes room for a number of elements of so many bytes each. -/
def allocation (count bytes : Nat) : Except MachineFault Unit :=
  if count * bytes < signedSize then .ok () else .error .capacity

theorem allocation_eq_ok_iff {count bytes : Nat} {taken : Unit} :
    allocation count bytes = .ok taken ↔ count * bytes < signedSize := by
  unfold allocation
  split <;> simp_all

end SnakeDraft
