import SnakeDraft.Proofs.Search.Highest

/-!
Rewards are not below zero. The points of a board are not, so neither are sums of them nor means of such sums
(`not_add_lt_zero`, `not_meanValue_lt_zero`): rounding keeps the sign of what it rounds, and a count of visits
is converted to a number without a minus. Negative zero is not below zero, but a number divided by it can be,
so that being above or at zero and bearing no minus are told apart here.
-/

namespace SnakeDraft

open Float.Model (UnpackedFloat Format)
open Float.Model.UnpackedFloat

/-- Whether an unpacked number is not below zero. -/
def NotBelowZero : UnpackedFloat → Prop
  | .infinity sign | .finite sign .. => sign = .positive
  | .zero _ | .notANumber => True

/-- Whether an unpacked number bears no minus. -/
def BearsNoMinus : UnpackedFloat → Prop
  | .infinity sign | .zero sign | .finite sign .. => sign = .positive
  | .notANumber => True

theorem BearsNoMinus.notBelowZero {u : UnpackedFloat} (h : BearsNoMinus u) : NotBelowZero u := by
  cases u with
  | infinity sign => exact h
  | notANumber => trivial
  | zero sign => trivial
  | finite sign mantissa exponent hpos => exact h

theorem BearsNoMinus.dite {p : Prop} [Decidable p] {u : p → UnpackedFloat} {v : ¬ p → UnpackedFloat}
    (hu : ∀ h, BearsNoMinus (u h)) (hv : ∀ h, BearsNoMinus (v h)) : BearsNoMinus (dite p u v) := by
  split
  · exact hu _
  · exact hv _

section Rounding

variable {spec : Format}

theorem bearsNoMinus_roundWithAccuracy (mantissa : Nat) (exponent : Int) (accuracy : Accuracy) :
    BearsNoMinus (roundWithAccuracy spec .positive mantissa exponent accuracy) := by
  unfold roundWithAccuracy
  exact .dite (fun _ => rfl) (fun _ => rfl)

theorem bearsNoMinus_normalize {mantissa : Int} (h : 0 ≤ mantissa) (exponent : Int) :
    BearsNoMinus (UnpackedFloat.normalize spec mantissa exponent .positive) := by
  unfold UnpackedFloat.normalize
  split
  · next hlt => exact absurd (compare_lt_iff_lt.mp hlt) (Int.not_lt.mpr h)
  · rfl
  · exact bearsNoMinus_roundWithAccuracy _ _ _

theorem notBelowZero_add {a b : UnpackedFloat} (ha : NotBelowZero a) (hb : NotBelowZero b) :
    NotBelowZero (add spec a b) := by
  cases a <;> cases b <;> cases ha <;> cases hb
  case zero.zero sign sign' => cases sign <;> cases sign' <;> trivial
  case finite.finite m e _ m' e' _ =>
    apply BearsNoMinus.notBelowZero
    apply bearsNoMinus_normalize
    exact Int.add_nonneg (Int.natCast_nonneg _) (Int.natCast_nonneg _)
  all_goals first | rfl | trivial

theorem notBelowZero_div {a b : UnpackedFloat} (ha : NotBelowZero a) (hb : BearsNoMinus b) :
    NotBelowZero (div spec a b) := by
  cases a <;> cases b <;> cases ha <;> cases hb
  case finite.finite => exact (bearsNoMinus_roundWithAccuracy _ _ _).notBelowZero
  all_goals first | rfl | trivial

theorem ofBitVec_unpackSign (sign : Sign) (exponent : BitVec spec.exponentBits)
    (mantissa : BitVec spec.mantissaBitsWithoutImplicit) :
    Sign.ofBitVec (unpackSign (packComponents spec sign exponent mantissa)) = sign := by
  have hbits : unpackSign (packComponents spec sign exponent mantissa) = sign.toBitVec := by
    ext i hi
    obtain rfl : i = 0 := by omega
    show (BitVec.cast _ (BitVec.extractLsb _ _ (sign.toBitVec ++ exponent ++ mantissa)))[0] = _
    simp [BitVec.getLsbD_append, BitVec.getElem_append]
  rw [hbits]
  cases sign <;> rfl

theorem bearsNoMinus_unpack (exponent : BitVec spec.exponentBits)
    (mantissa : BitVec spec.mantissaBitsWithoutImplicit) :
    BearsNoMinus (unpack spec (packComponents spec .positive exponent mantissa)) := by
  have hsign := ofBitVec_unpackSign .positive exponent mantissa
  unfold unpack
  apply iteInduction
  · intro _
    exact iteInduction (fun _ => hsign) (fun _ => trivial)
  · intro _
    apply iteInduction
    · intro _
      exact .dite (fun _ => hsign) (fun _ => hsign)
    · intro _
      exact hsign

theorem bearsNoMinus_unpack_pack {u : UnpackedFloat} (h : BearsNoMinus u) :
    BearsNoMinus (unpack spec (pack spec u)) := by
  cases u with
  | notANumber => exact bearsNoMinus_unpack _ _
  | infinity sign =>
    cases h
    exact bearsNoMinus_unpack _ _
  | zero sign =>
    cases h
    exact bearsNoMinus_unpack _ _
  | finite sign mantissa exponent hpos =>
    cases h
    unfold pack
    dsimp only
    split
    · exact bearsNoMinus_unpack _ _
    · split
      · exact bearsNoMinus_unpack _ _
      · exact bearsNoMinus_unpack _ _

end Rounding

theorem notBelowZero_unpack_pack {u : UnpackedFloat} (h : NotBelowZero u) :
    NotBelowZero (unpack .binary64 (pack .binary64 u)) := by
  cases u with
  | notANumber => exact (bearsNoMinus_unpack _ _).notBelowZero
  | infinity sign => exact (bearsNoMinus_unpack_pack (u := .infinity sign) h).notBelowZero
  | zero sign => cases sign <;> trivial
  | finite sign mantissa exponent hpos =>
    exact (bearsNoMinus_unpack_pack (u := .finite sign mantissa exponent hpos) h).notBelowZero

theorem not_lt_zero_iff {a : Float} : ¬ a < 0 ↔ NotBelowZero a.toModel.unpack := by
  have hlt : a < 0 ↔ a.toModel.unpack.lt (.zero .positive) = true := by
    show decide (a.toModel.unpack.lt (0 : Float).toModel.unpack = true) = true ↔ _
    exact decide_eq_true_iff
  rw [hlt]
  cases a.toModel.unpack with
  | notANumber => exact iff_of_true Bool.false_ne_true trivial
  | zero sign => exact iff_of_true Bool.false_ne_true trivial
  | infinity sign =>
    cases sign with
    | positive => exact iff_of_true Bool.false_ne_true rfl
    | negative => exact iff_of_false (fun hnot => hnot rfl) (fun hsign => by cases hsign)
  | finite sign mantissa exponent hpos =>
    cases sign with
    | positive => exact iff_of_true Bool.false_ne_true rfl
    | negative => exact iff_of_false (fun hnot => hnot rfl) (fun hsign => by cases hsign)

theorem not_add_lt_zero {a b : Float} (ha : ¬ a < 0) (hb : ¬ b < 0) : ¬ a + b < 0 := by
  rw [not_lt_zero_iff] at ha hb ⊢
  exact notBelowZero_unpack_pack (notBelowZero_add ha hb)

/-- A mean of rewards is not below zero if their sum is not. -/
theorem not_meanValue_lt_zero {valueSum : Float} (h : ¬ valueSum < 0) (visits : UInt32) :
    ¬ meanValue valueSum visits < 0 := by
  unfold meanValue
  split
  · decide +kernel
  · rw [not_lt_zero_iff] at h ⊢
    apply notBelowZero_unpack_pack
    apply notBelowZero_div h
    apply bearsNoMinus_unpack_pack
    exact bearsNoMinus_normalize (Int.natCast_nonneg _) _

end SnakeDraft
