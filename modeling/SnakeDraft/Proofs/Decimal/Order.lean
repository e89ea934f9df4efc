import Mathlib.Data.Int.Order.Basic
import Mathlib.Data.Prod.Lex

/-!
The order of floating-point numbers. NaN is neither below nor above anything. All others are ordered linearly, by
sign, exponent and mantissa (`rank`), so that among numbers one is at most another exactly when it is not above
(`not_lt_iff_le`).
-/

namespace SnakeDraft

open Float.Model (UnpackedFloat)

theorem compare_neg (a b : ℤ) : compare (-a) (-b) = (compare a b).swap := by
  rcases lt_trichotomy a b with h | rfl | h
  · rw [compare_lt_iff_lt.mpr h, compare_gt_iff_gt.mpr (Int.neg_lt_neg h)]
    rfl
  · rw [compare_eq_iff_eq.mpr rfl, compare_eq_iff_eq.mpr rfl]
    rfl
  · rw [compare_gt_iff_gt.mpr h, compare_lt_iff_lt.mpr (Int.neg_lt_neg h)]
    rfl

theorem compare_cast (m n : ℕ) : compare (m : ℤ) n = compare m n := by
  rcases lt_trichotomy m n with h | rfl | h
  · rw [compare_lt_iff_lt.mpr h, compare_lt_iff_lt.mpr (Int.ofNat_lt.mpr h)]
  · rw [compare_eq_iff_eq.mpr rfl, compare_eq_iff_eq.mpr rfl]
  · rw [compare_gt_iff_gt.mpr h, compare_gt_iff_gt.mpr (Int.ofNat_lt.mpr h)]

/-- The place of an unpacked number among all others. -/
def unpackedRank : UnpackedFloat → ℤ ×ₗ ℤ ×ₗ ℤ
  | .infinity .negative => toLex (-2, toLex (0, 0))
  | .finite .negative mantissa exponent _ => toLex (-1, toLex (-exponent, -mantissa))
  | .zero _ | .notANumber => toLex (0, toLex (0, 0))
  | .finite .positive mantissa exponent _ => toLex (1, toLex (exponent, mantissa))
  | .infinity .positive => toLex (2, toLex (0, 0))

/-- Numbers compare as their ranks do, and NaN does not compare with anything. -/
theorem compare_cases (a b : UnpackedFloat) :
    a.isNaN = false ∧ b.isNaN = false ∧ a.compare b = some (compare (unpackedRank a) (unpackedRank b)) ∨
      (a.isNaN = true ∨ b.isNaN = true) ∧ a.compare b = none := by
  -- only finite numbers of one sign are compared by exponent and mantissa, the other pairs by the first component
  rcases a with ⟨_ | _⟩ | _ | _ | ⟨_ | _, m, e, hm⟩ <;>
    rcases b with ⟨_ | _⟩ | _ | _ | ⟨_ | _, m', e', hm'⟩ <;>
    first
    | exact .inr ⟨.inl rfl, rfl⟩
    | exact .inr ⟨.inr rfl, rfl⟩
    | refine .inl ⟨rfl, rfl, ?_⟩
  case finite.negative.finite.negative =>
    show some ((compare e e').then (compare m m')).swap =
      some ((compare (-e) (-e')).then (compare (-(m : ℤ)) (-(m' : ℤ))))
    rw [compare_neg, compare_neg, compare_cast, Ordering.swap_then]
  case finite.positive.finite.positive =>
    show some ((compare e e').then (compare m m')) = some ((compare e e').then (compare (m : ℤ) m'))
    rw [compare_cast]
  all_goals rfl

/-- The place of a number among all others. -/
def rank (a : Float) : ℤ ×ₗ ℤ ×ₗ ℤ :=
  unpackedRank a.toModel.unpack

theorem lt_iff_rank {a b : Float} : a < b ↔ a.isNaN = false ∧ b.isNaN = false ∧ rank a < rank b := by
  show decide (a.toModel.unpack.lt b.toModel.unpack = true) = true ↔ a.toModel.unpack.isNaN = false ∧
    b.toModel.unpack.isNaN = false ∧ unpackedRank a.toModel.unpack < unpackedRank b.toModel.unpack
  unfold UnpackedFloat.lt
  rcases compare_cases a.toModel.unpack b.toModel.unpack with ⟨ha, hb, hcompare⟩ | ⟨hnan, hcompare⟩
  · simp [ha, hb, hcompare, compare_lt_iff_lt]
  · rcases hnan with hnan | hnan <;> simp [hnan, hcompare]

theorem le_iff_rank {a b : Float} : a ≤ b ↔ a.isNaN = false ∧ b.isNaN = false ∧ rank a ≤ rank b := by
  show decide (a.toModel.unpack.le b.toModel.unpack = true) = true ↔ a.toModel.unpack.isNaN = false ∧
    b.toModel.unpack.isNaN = false ∧ unpackedRank a.toModel.unpack ≤ unpackedRank b.toModel.unpack
  unfold UnpackedFloat.le
  rcases compare_cases a.toModel.unpack b.toModel.unpack with ⟨ha, hb, hcompare⟩ | ⟨hnan, hcompare⟩
  · simp [ha, hb, hcompare, Ordering.isLE_iff_ne_gt, compare_gt_iff_gt]
  · rcases hnan with hnan | hnan <;> simp [hnan, hcompare]

theorem le_trans_of_numbers {a b c : Float} (hab : a ≤ b) (hbc : b ≤ c) : a ≤ c := by
  obtain ⟨ha, -, hab⟩ := le_iff_rank.mp hab
  obtain ⟨-, hc, hbc⟩ := le_iff_rank.mp hbc
  exact le_iff_rank.mpr ⟨ha, hc, hab.trans hbc⟩

/-- Of two numbers, one is at most the other when it is not above. -/
theorem not_lt_iff_le {a b : Float} (ha : a.isNaN = false) (hb : b.isNaN = false) : ¬ b < a ↔ a ≤ b := by
  rw [lt_iff_rank, le_iff_rank]
  simp only [ha, hb, true_and, not_lt]

theorem isNaN_of_isFinite {a : Float} (h : a.isFinite = true) : a.isNaN = false := by
  have hunpacked : ∀ u : UnpackedFloat, u.isFinite = true → u.isNaN = false := by
    intro u hu
    cases u with
    | notANumber => cases hu
    | infinity sign => rfl
    | zero sign => rfl
    | finite sign mantissa exponent hpos => rfl
  exact hunpacked _ h

theorem not_lt_zero_iff_le {a : Float} (h : a.isFinite = true) : ¬ a < 0 ↔ 0 ≤ a :=
  not_lt_iff_le (by decide +kernel) (isNaN_of_isFinite h)

end SnakeDraft
