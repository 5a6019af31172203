import Mathlib.Data.Rat.Floor
import Mathlib.Tactic.Positivity

/-!
# Arithmetic on `double`

Integer code that goes through `double` uses four operations: the conversion from an
integer, sum, product and quotient, and the conversion back that drops the fraction. They
are a class, so that one program can be read with rounding (`Float`) or exactly (`ℚ`).
-/

/-- The operations on `double` between integers. -/
class DoubleArith (D : Type) extends Add D, Mul D, Div D where
  ofInt : Int → D
  /-- The integer part, which a conversion to an integer type starts from. -/
  trunc : D → Int

namespace DoubleArith

instance : DoubleArith Float where
  ofInt := Float.ofInt
  trunc x := if x < 0 then -((-x).toUInt64.toNat : Int) else x.toUInt64.toNat

instance : DoubleArith ℚ where
  ofInt n := n
  trunc q := q.num.tdiv q.den

theorem trunc_nonneg {q : ℚ} (nonneg : 0 ≤ q) : trunc q = ⌊q⌋ := by
  rw [Rat.floor_def']
  exact Int.tdiv_eq_ediv_of_nonneg (Rat.num_nonneg.mpr nonneg)

theorem trunc_div (a b : Nat) : trunc ((ofInt a : ℚ) / ofInt b) = ((a / b : Nat) : Int) := by
  have nonneg : (0 : ℚ) ≤ (a : ℚ) / b := by positivity
  show trunc (((a : Int) : ℚ) / ((b : Int) : ℚ)) = _
  rw [Int.cast_natCast, Int.cast_natCast, trunc_nonneg nonneg, Rat.floor_natCast_div_natCast]
  exact (Int.natCast_div a b).symm

end DoubleArith
