import Mathlib
import SnakeDraft.Duration
import SnakeDraft.Proofs.Decimal.Order

/-!
Which numbers of seconds have a duration. The exact value of a number is the one that it is unpacked into
(`Decimal.measures_ofFloat`), so its size can be told from its place in the order of numbers: a number of seconds has
a duration exactly if it is not below zero and is below two to the power of 64 (`Duration.isSome_ofSeconds?_iff`).
-/

namespace SnakeDraft

open Float.Model (UnpackedFloat)
open Float.Model.UnpackedFloat

namespace Decimal

theorem toNat_unpackMantissa (b : BitVec 64) :
    (@unpackMantissa .binary64 b).toNat = b.toNat % leadingBit := by
  unfold unpackMantissa
  rw [BitVec.toNat_cast]
  show b.toNat >>> 0 % 2 ^ 52 = _
  rfl

theorem toNat_unpackExponent (b : BitVec 64) :
    (@unpackExponent .binary64 b).toNat = b.toNat / leadingBit % 0x800 := by
  unfold unpackExponent
  rw [BitVec.toNat_cast]
  show b.toNat >>> 52 % 2 ^ 11 = _
  rw [Nat.shiftRight_eq_div_pow]
  rfl

theorem toNat_normal (v : BitVec 52) : (1#1 ++ v).toNat = v.toNat + leadingBit := by
  rw [BitVec.toNat_append, ← Nat.shiftLeft_add_eq_or_of_lt v.isLt]
  show 1 <<< 52 + v.toNat = _
  rw [Nat.shiftLeft_eq, Nat.add_comm]
  rfl

/-- The exact value of a number by the parts that it is unpacked into. -/
theorem ofFloat_eq (x : Float) :
    Magnitude.ofFloat x =
      if @unpackExponent .binary64 x.toBits.toBitVec = 0#11 then
        ⟨(@unpackMantissa .binary64 x.toBits.toBitVec).toNat, -1074⟩
      else
        ⟨(1#1 ++ @unpackMantissa .binary64 x.toBits.toBitVec).toNat,
          ((@unpackExponent .binary64 x.toBits.toBitVec).toNat : Int) - 1075⟩ := by
  have hzero : @unpackExponent .binary64 x.toBits.toBitVec = 0#11 ↔
      x.toBits.toNat / leadingBit % 0x800 = 0 := by
    rw [← BitVec.toNat_inj, toNat_unpackExponent]
    rfl
  unfold Magnitude.ofFloat
  simp only [hzero, toNat_normal, toNat_unpackMantissa, toNat_unpackExponent]
  rfl

/-- A quantity is the absolute value of an unpacked number. The mantissa has 53 bits, and its first one is set but in
the numbers with the least exponent. -/
def Measures (v : Magnitude) : UnpackedFloat → Prop
  | .finite _ mantissa exponent _ =>
    v = ⟨mantissa, exponent⟩ ∧ mantissa < 2 * leadingBit ∧ (-1074 < exponent → leadingBit ≤ mantissa)
  | .zero _ => v = ⟨0, -1074⟩
  | .infinity _ | .notANumber => True

theorem measures_ofFloat (x : Float) : Measures (.ofFloat x) x.toModel.unpack := by
  have hlt : (@unpackMantissa .binary64 x.toBits.toBitVec).toNat < leadingBit :=
    (@unpackMantissa .binary64 x.toBits.toBitVec).isLt
  rw [ofFloat_eq]
  change Measures _ (UnpackedFloat.unpack .binary64 x.toBits.toBitVec)
  unfold UnpackedFloat.unpack
  dsimp only
  by_cases hall : @unpackExponent .binary64 x.toBits.toBitVec = -1#11
  · rw [if_pos hall]
    exact iteInduction (fun _ => trivial) (fun _ => trivial)
  · rw [if_neg hall]
    by_cases hzero : @unpackExponent .binary64 x.toBits.toBitVec = 0#11
    · rw [if_pos hzero, if_pos hzero]
      split
      · next hnone =>
        rw [hnone]
        rfl
      · rw [hzero]
        exact ⟨rfl, by omega, fun hnormal => absurd hnormal (by decide)⟩
    · rw [if_neg hzero, if_neg hzero]
      refine ⟨rfl, ?_⟩
      rw [toNat_normal]
      exact ⟨by omega, fun _ => Nat.le_add_left ..⟩

end Decimal

namespace Duration

open Decimal

/-- A quantity rounds to nanoseconds of a duration when it is below two to the power of 64, which a quantity with 53
bits shows by its exponent. -/
theorem nanoseconds_lt_iff {mantissa : Nat} {exponent : Int} (hlt : mantissa < 2 * leadingBit)
    (hle : -1074 < exponent → leadingBit ≤ mantissa) :
    roundDiv ((Magnitude.mk mantissa exponent).ratio.1 * perSecond) (Magnitude.mk mantissa exponent).ratio.2 .toEven <
      UInt64.size * perSecond ↔ exponent < 12 := by
  have hbit : leadingBit = 2 ^ 52 := rfl
  have hsize : UInt64.size = 2 ^ 64 := rfl
  unfold Magnitude.ratio perSecond
  dsimp only
  rw [hsize]
  change roundDiv (mantissa * 2 ^ exponent.toNat * 1000000000) (2 ^ (-exponent).toNat) .toEven < _ ↔ _
  obtain ⟨den, hden⟩ : ∃ den, den = 2 ^ (-exponent).toNat := ⟨_, rfl⟩
  have hpos : 0 < den := hden ▸ Nat.two_pow_pos _
  rw [← hden]
  constructor
  · intro hbelow
    apply Classical.byContradiction
    intro hlarge
    have hone : den = 1 := by
      simp [hden, show (-exponent).toNat = 0 by omega]
    subst hone
    have hmantissa := hle (by omega)
    have hpow : 2 ^ 12 ≤ 2 ^ exponent.toNat := Nat.pow_le_pow_right (by decide) (by omega)
    have hvalue : 2 ^ 52 * 2 ^ 12 ≤ mantissa * 2 ^ exponent.toNat := Nat.mul_le_mul (by omega) hpow
    have hround := @le_two_mul_roundDiv (mantissa * 2 ^ exponent.toNat * 1000000000) 1 .toEven hpos
    omega
  · intro hsmall
    have hpow : 2 ^ exponent.toNat ≤ 2 ^ 11 := Nat.pow_le_pow_right (by decide) (by omega)
    have hvalue : mantissa * 2 ^ exponent.toNat ≤ (2 ^ 53 - 1) * 2 ^ 11 := Nat.mul_le_mul (by omega) hpow
    have hround := two_mul_roundDiv_le (mantissa * 2 ^ exponent.toNat * 1000000000) den .toEven
    apply Nat.lt_of_not_le
    intro hover
    have hscaled := Nat.mul_le_mul_right den hover
    omega

/-- A number of seconds has a duration when it is not below zero and is below two to the power of 64. -/
theorem isSome_ofSeconds?_iff (x : Float) :
    (ofSeconds? x).isSome = true ↔ 0 ≤ x ∧ x < 18446744073709551616 := by
  have hlimit : rank 18446744073709551616 = toLex (1, toLex (12, (leadingBit : ℤ))) := by decide +kernel
  have hzero : rank 0 = toLex (0, toLex (0, 0)) := by decide +kernel
  have hnumber : (0 : Float).isNaN = false ∧ (18446744073709551616 : Float).isNaN = false := by decide +kernel
  have hsome : (ofSeconds? x).isSome = true ↔ x.isFinite = true ∧ 0 ≤ x ∧
      roundDiv ((Magnitude.ofFloat x).ratio.1 * perSecond) (Magnitude.ofFloat x).ratio.2 .toEven <
        UInt64.size * perSecond := by
    unfold ofSeconds?
    split
    · next hguard =>
      rw [not_lt_zero_iff_le hguard.1] at hguard
      simp only [hguard, true_and]
      split
      · next hfits => exact iff_of_true rfl hfits
      · next hover => exact iff_of_false Bool.false_ne_true hover
    · next hguard =>
      refine iff_of_false Bool.false_ne_true fun h => hguard ⟨h.1, ?_⟩
      exact (not_lt_zero_iff_le h.1).mpr h.2.1
  have hmeasures := measures_ofFloat x
  have hnan : x.isNaN = x.toModel.unpack.isNaN := rfl
  have hfinite : x.isFinite = x.toModel.unpack.isFinite := rfl
  have hrank : rank x = unpackedRank x.toModel.unpack := rfl
  rw [hsome, le_iff_rank, lt_iff_rank, hnumber.1, hnumber.2, hlimit, hzero, hnan, hfinite, hrank]
  cases hunpack : x.toModel.unpack with
  | notANumber => simp [UnpackedFloat.isNaN, UnpackedFloat.isFinite]
  | infinity sign =>
    cases sign with
    | negative => simp [UnpackedFloat.isFinite, unpackedRank, Prod.Lex.toLex_le_toLex]
    | positive => simp [UnpackedFloat.isFinite, unpackedRank, Prod.Lex.toLex_lt_toLex]
  | zero sign =>
    rw [hunpack] at hmeasures
    have hfits := @nanoseconds_lt_iff 0 (-1074) (by decide) (by decide)
    rw [show Magnitude.ofFloat x = ⟨0, -1074⟩ from hmeasures, hfits]
    simp [UnpackedFloat.isFinite, UnpackedFloat.isNaN, unpackedRank, Prod.Lex.toLex_lt_toLex]
  | finite sign mantissa exponent hpos =>
    cases sign with
    | negative => simp [unpackedRank, Prod.Lex.toLex_le_toLex]
    | positive =>
      rw [hunpack] at hmeasures
      obtain ⟨hvalue, hlt, hle⟩ := hmeasures
      have hbelow : exponent < 12 ↔ exponent < 12 ∨ exponent = 12 ∧ (mantissa : ℤ) < leadingBit := by omega
      rw [hvalue, nanoseconds_lt_iff hlt hle, hbelow]
      simp [UnpackedFloat.isFinite, UnpackedFloat.isNaN, unpackedRank, Prod.Lex.toLex_le_toLex,
        Prod.Lex.toLex_lt_toLex]

end Duration

end SnakeDraft
