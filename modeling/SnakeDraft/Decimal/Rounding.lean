/-!
Division rounded to the nearest whole number. The result is never more than half a unit away
(`two_mul_roundDiv_le`, `le_two_mul_roundDiv`); what happens exactly half way is the caller's choice.
-/

namespace SnakeDraft.Decimal

/-- Where a quotient goes that lies half way between two whole numbers. -/
inductive Tie where
  | toEven
  | up
deriving DecidableEq, Repr

/-- `num / den` rounded to the nearest whole number, for a positive `den`. -/
def roundDiv (num den : Nat) (tie : Tie) : Nat :=
  let floor := num / den
  let rest := num % den
  if 2 * rest < den then floor
  else if den < 2 * rest then floor + 1
  else match tie with
    | .up => floor + 1
    | .toEven => if floor % 2 = 0 then floor else floor + 1

theorem two_mul_roundDiv_le (num den : Nat) (tie : Tie) :
    2 * (roundDiv num den tie * den) ≤ 2 * num + den := by
  have h := Nat.div_add_mod num den
  have hc : num / den * den = den * (num / den) := Nat.mul_comm ..
  have hs : (num / den + 1) * den = den * (num / den) + den := by rw [Nat.add_mul, hc, Nat.one_mul]
  unfold roundDiv
  cases tie <;> grind

theorem le_two_mul_roundDiv {num den : Nat} (tie : Tie) (hden : 0 < den) :
    2 * num ≤ 2 * (roundDiv num den tie * den) + den := by
  have h := Nat.div_add_mod num den
  have hlt := Nat.mod_lt num hden
  have hc : num / den * den = den * (num / den) := Nat.mul_comm ..
  have hs : (num / den + 1) * den = den * (num / den) + den := by rw [Nat.add_mul, hc, Nat.one_mul]
  unfold roundDiv
  cases tie <;> grind

end SnakeDraft.Decimal
