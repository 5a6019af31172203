import RtlSdr.Fm.Blocks
import RtlSdr.Fm.Settings

/-!
# The discriminators of rtl_fm

The angle of `a` times the conjugate of `b`, scaled so that half a turn is `2 ^ 14`. Every step of
the source goes through `int`, which is the type of C or the identity for unbounded integers, so
that the two can be compared.
-/
namespace RtlSdr.Fm

open Checked CArray Transducer

section Functions

variable (int : Int → Checked Int)

def multiply (ar aj br bj : Int) : Checked (Int × Int) := do
  let rr ← int (ar * br)
  let jj ← int (aj * bj)
  let cr ← int (rr - jj)
  let jr ← int (aj * br)
  let rj ← int (ar * bj)
  let cj ← int (jr + rj)
  pure (cr, cj)

/-- The change of sign of `yabs` and, at the end, of `angle`. -/
def negateIf (negative : Bool) (x : Int) : Checked Int := if negative then int (-x) else pure x

/-- `start - pi4 * difference / sum`. -/
def octant (start difference sum : Int) : Checked Int := do
  let scaled ← int (2 ^ 12 * difference)
  let quotient ← divide scaled sum
  int (start - quotient)

/-- The angle of a point that is not below the axis. -/
def upperAngle (yabs x : Int) : Checked Int :=
  if x ≥ 0 then do octant int (2 ^ 12) (← int (x - yabs)) (← int (x + yabs))
  else do octant int (3 * 2 ^ 12) (← int (x + yabs)) (← int (yabs - x))

/-- Pre scaled for int16. -/
def fastAtan2 (y x : Int) : Checked Int :=
  if x = 0 ∧ y = 0 then pure 0
  else do
    let yabs ← negateIf int (y < 0) y
    let angle ← upperAngle int yabs x
    negateIf int (y < 0) angle

def polarDiscFast (ar aj br bj : Int) : Checked Int := do
  let c ← multiply int ar aj br (← int (-bj))
  fastAtan2 int c.2 c.1

def atanLutSize : Int := 131072

/-- The end of `polar_disc_lut`, where the quotient is inside of the table. -/
def lutQuadrant (entry : Int → Checked Int) (cj x : Int) : Checked Int :=
  if x > 0 then do
    let angle ← entry x
    if cj > 0 then pure angle else int (angle - 2 ^ 14)
  else do
    let angle ← entry (-x)
    if cj > 0 then int (2 ^ 14 - angle) else int (-angle)

/-- `polar_disc_lut` after its special cases. -/
def lutAngle (entry : Int → Checked Int) (cr cj : Int) : Checked Int := do
  let shifted ← int (cj * 2 ^ 8)
  let x ← divide shifted cr
  let xAbs ← negateIf int (x < 0) x
  if xAbs ≥ atanLutSize then pure (if cj > 0 then 2 ^ 13 else -2 ^ 13)
  else lutQuadrant int entry cj x

/-- The special cases of `polar_disc_lut`. -/
def lutCases (entry : Int → Checked Int) (cr cj : Int) : Checked Int :=
  if cr = 0 ∧ cj = 0 then pure 0
  else if cr = 0 ∧ cj > 0 then pure (2 ^ 13)
  else if cr = 0 ∧ cj < 0 then pure (-2 ^ 13)
  else if cj = 0 ∧ cr > 0 then pure 0
  else if cj = 0 ∧ cr < 0 then pure (2 ^ 14)
  else lutAngle int entry cr cj

/-- `entry` reads an element of `atan_lut`. -/
def polarDiscLut (entry : Int → Checked Int) (ar aj br bj : Int) : Checked Int := do
  let c ← multiply int ar aj br (← int (-bj))
  lutCases int entry c.1 c.2

end Functions

/-- The real part of `a` times the conjugate of `b`. -/
def realPart (ar aj br bj : Int) : Int := ar * br + aj * bj

/-- The imaginary part of `a` times the conjugate of `b`. -/
def imaginaryPart (ar aj br bj : Int) : Int := aj * br - ar * bj

/-- The angle of a point that is not below the axis, in unbounded integers. -/
def exactUpper (yabs x : Int) : Int :=
  if x ≥ 0 then 2 ^ 12 - (2 ^ 12 * (x - yabs)).tdiv (x + yabs)
  else 3 * 2 ^ 12 - (2 ^ 12 * (x + yabs)).tdiv (yabs - x)

/-- The formula of `fast_atan2` in unbounded integers. -/
def exactAngle (y x : Int) : Int :=
  if x = 0 ∧ y = 0 then 0 else if y < 0 then -exactUpper |y| x else exactUpper |y| x

theorem multiply_pure (ar aj br bj : Int) :
    (multiply pure ar aj br (-bj)).value =
      (realPart ar aj br bj, imaginaryPart ar aj br bj) := by
  change (ar * br - aj * -bj, aj * br + ar * -bj) = _
  rw [realPart, imaginaryPart, Int.mul_neg, Int.mul_neg, Int.sub_neg, Int.sub_eq_add_neg]

theorem negateIf_pure (negative : Bool) (x : Int) :
    negateIf pure negative x = pure (if negative then -x else x) :=
  (apply_ite pure (negative = true) (-x) x).symm

theorem negateIf_abs (y : Int) : negateIf pure (y < 0) y = pure |y| := by
  rw [negateIf_pure]
  by_cases negative : y < 0
  · rw [decide_eq_true negative, if_pos rfl, abs_of_neg negative]
  · rw [decide_eq_false negative, if_neg Bool.false_ne_true, abs_of_nonneg (by omega)]

theorem upperAngle_pure (yabs x : Int) : (upperAngle pure yabs x).value = exactUpper yabs x := by
  rw [upperAngle, exactUpper, apply_ite Checked.value]
  rfl

theorem fastAtan2_pure (y x : Int) : (fastAtan2 pure y x).value = exactAngle y x := by
  rw [fastAtan2, exactAngle, apply_ite Checked.value, negateIf_abs, pure_bind, value_bind,
    upperAngle_pure, negateIf_pure]
  by_cases negative : y < 0
  · rw [decide_eq_true negative, if_pos negative]
    rfl
  · rw [decide_eq_false negative, if_neg negative]
    rfl

theorem polarDiscFast_pure (ar aj br bj : Int) :
    (polarDiscFast pure ar aj br bj).value =
      exactAngle (imaginaryPart ar aj br bj) (realPart ar aj br bj) := by
  change (fastAtan2 pure (multiply pure ar aj br (-bj)).value.2
    (multiply pure ar aj br (-bj)).value.1).value = _
  rw [multiply_pure, fastAtan2_pure]

/-! ### The angle in unbounded integers -/

variable {s d x yabs cj cr : Int} {α : Type}

theorem scaled_tdiv (low : -s ≤ d) (high : d ≤ s) :
    -2 ^ 12 ≤ (2 ^ 12 * d).tdiv s ∧ (2 ^ 12 * d).tdiv s ≤ 2 ^ 12 := by
  have size : ((2 ^ 12 * d).tdiv s).natAbs ≤ 2 ^ 12 := by
    rw [Int.natAbs_tdiv]
    apply Nat.div_le_of_le_mul
    omega
  omega

theorem exactUpper_right (above : 0 ≤ yabs) (right : 0 ≤ x) :
    0 ≤ exactUpper yabs x ∧ exactUpper yabs x ≤ 2 ^ 13 := by
  have quotient := scaled_tdiv (d := x - yabs) (s := x + yabs) (by omega) (by omega)
  rw [exactUpper, if_pos right]
  omega

theorem exactUpper_left (above : 0 ≤ yabs) (left : x < 0) :
    2 ^ 13 ≤ exactUpper yabs x ∧ exactUpper yabs x ≤ 2 ^ 14 := by
  have quotient := scaled_tdiv (d := x + yabs) (s := yabs - x) (by omega) (by omega)
  rw [exactUpper, if_neg (by omega)]
  omega

theorem exactAngle_range (y x : Int) : -2 ^ 14 ≤ exactAngle y x ∧ exactAngle y x ≤ 2 ^ 14 := by
  have upper : 0 ≤ exactUpper |y| x ∧ exactUpper |y| x ≤ 2 ^ 14 := by
    by_cases right : 0 ≤ x
    · have bounds := exactUpper_right (abs_nonneg y) right
      omega
    · have bounds := exactUpper_left (abs_nonneg y) (by omega : x < 0)
      omega
  rw [exactAngle]
  split_ifs <;> omega

/-- An angle in the quadrant of the point. -/
structure Quadrant (cr cj angle : Int) : Prop where
  above : 0 < cj → 0 ≤ angle
  below : cj < 0 → angle ≤ 0
  right : 0 < cr → |angle| ≤ 2 ^ 13
  left : cr < 0 → 2 ^ 13 ≤ |angle|

theorem exactAngle_quadrant (cr cj : Int) : Quadrant cr cj (exactAngle cj cr) := by
  by_cases zero : cr = 0 ∧ cj = 0
  · rw [exactAngle, if_pos zero]
    exact ⟨by omega, by omega, by omega, by omega⟩
  · have lower : |exactAngle cj cr| = |exactUpper |cj| cr| := by
      rw [exactAngle, if_neg zero]
      split_ifs
      · exact abs_neg _
      · rfl
    by_cases right : 0 ≤ cr
    · have bounds := exactUpper_right (abs_nonneg cj) right
      refine ⟨?_, ?_, ?_, by omega⟩
      · intro above
        rw [exactAngle, if_neg zero, if_neg (by omega)]
        exact bounds.1
      · intro below
        rw [exactAngle, if_neg zero, if_pos below]
        omega
      · intro _
        rw [lower, abs_of_nonneg bounds.1]
        exact bounds.2
    · have bounds := exactUpper_left (abs_nonneg cj) (by omega : cr < 0)
      refine ⟨?_, ?_, by omega, ?_⟩
      · intro above
        rw [exactAngle, if_neg zero, if_neg (by omega)]
        omega
      · intro below
        rw [exactAngle, if_neg zero, if_pos below]
        omega
      · intro _
        rw [lower, abs_of_nonneg (by omega)]
        exact bounds.1

/-! ### The product in an `int` -/

def FitsInt (x : Int) : Prop := -2147483648 ≤ x ∧ x < 2147483648

instance (x : Int) : Decidable (FitsInt x) := inferInstanceAs (Decidable (_ ∧ _))

/-- Every intermediate of `multiply` fits an `int`. -/
structure MultiplyFits (ar aj br bj : Int) : Prop where
  conjugate : FitsInt (-bj)
  rr : FitsInt (ar * br)
  jj : FitsInt (aj * -bj)
  real : FitsInt (realPart ar aj br bj)
  jr : FitsInt (aj * br)
  rj : FitsInt (ar * -bj)
  imaginary : FitsInt (imaginaryPart ar aj br bj)

theorem wrapping_bind_exact {f : Int → Checked α} :
    (wrapping 32 x >>= f).exact = true ↔ FitsInt x ∧ (f x).exact = true := by
  by_cases fits : FitsInt x
  · rw [wrapping_eq fits.1 fits.2, pure_bind]
    exact ⟨fun later => ⟨fits, later⟩, And.right⟩
  · rw [exact_bind, Bool.and_eq_true, wrapping_exact]
    exact ⟨fun both => absurd both.1 fits, fun both => absurd both.1 fits⟩

theorem multiply_bind (ar aj br bj : Int) (f : Int × Int → Checked α) :
    ((do multiply (wrapping 32) ar aj br (← wrapping 32 (-bj))) >>= f).exact = true ↔
      MultiplyFits ar aj br bj ∧
        (f (realPart ar aj br bj, imaginaryPart ar aj br bj)).exact = true := by
  have real : ar * br - aj * -bj = realPart ar aj br bj := by
    rw [realPart, Int.mul_neg, Int.sub_neg]
  have imaginary : aj * br + ar * -bj = imaginaryPart ar aj br bj := by
    rw [imaginaryPart, Int.mul_neg, Int.sub_eq_add_neg]
  simp only [multiply, bind_assoc, wrapping_bind_exact, pure_bind, real, imaginary]
  constructor
  · rintro ⟨conjugate, rr, jj, re, jr, rj, im, later⟩
    exact ⟨⟨conjugate, rr, jj, re, jr, rj, im⟩, later⟩
  · rintro ⟨⟨conjugate, rr, jj, re, jr, rj, im⟩, later⟩
    exact ⟨conjugate, rr, jj, re, jr, rj, im, later⟩

theorem multiply_value {ar aj br bj : Int} (fits : MultiplyFits ar aj br bj) :
    (do multiply (wrapping 32) ar aj br (← wrapping 32 (-bj))) =
      pure (realPart ar aj br bj, imaginaryPart ar aj br bj) := by
  have real : ar * br - aj * -bj = realPart ar aj br bj := by
    rw [realPart, Int.mul_neg, Int.sub_neg]
  have imaginary : aj * br + ar * -bj = imaginaryPart ar aj br bj := by
    rw [imaginaryPart, Int.mul_neg, Int.sub_eq_add_neg]
  obtain ⟨conjugate, rr, jj, re, jr, rj, im⟩ := fits
  rw [wrapping_eq conjugate.1 conjugate.2, pure_bind, multiply, wrapping_eq rr.1 rr.2, pure_bind,
    wrapping_eq jj.1 jj.2, pure_bind, real, wrapping_eq re.1 re.2, pure_bind,
    wrapping_eq jr.1 jr.2, pure_bind, wrapping_eq rj.1 rj.2, pure_bind, imaginary,
    wrapping_eq im.1 im.2, pure_bind]

/-! ### Overflow of the fast discriminator -/

theorem octant_fits {start : Int} (origin : 0 ≤ start ∧ start ≤ 3 * 2 ^ 12) (nonzero : s ≠ 0)
    (low : -s ≤ d) (high : d ≤ s) (fits : -2 ^ 19 ≤ d ∧ d < 2 ^ 19) :
    octant (wrapping 32) start d s = pure (start - (2 ^ 12 * d).tdiv s) := by
  have quotient := scaled_tdiv low high
  rw [octant, wrapping_eq (by omega) (by omega), pure_bind, divide_eq nonzero, pure_bind,
    wrapping_eq (by omega) (by omega)]

theorem octant_overflows {start : Int} (large : ¬(-2 ^ 19 ≤ d ∧ d < 2 ^ 19)) :
    (octant (wrapping 32) start d s).exact = false := by
  have overflow : (wrapping 32 (2 ^ 12 * d)).exact = false := by
    rw [← Bool.not_eq_true, wrapping_exact]
    omega
  rw [octant, exact_bind, overflow, Bool.false_and]

/-- What is multiplied with the scale. -/
def difference (yabs x : Int) : Int := if x ≥ 0 then x - yabs else x + yabs

theorem upperAngle_iff (above : 0 ≤ yabs) (nonzero : ¬(x = 0 ∧ yabs = 0)) (small : yabs < 2 ^ 30)
    (left : -2 ^ 30 < x) (right : x < 2 ^ 30) :
    (-2 ^ 19 ≤ difference yabs x ∧ difference yabs x < 2 ^ 19 →
      upperAngle (wrapping 32) yabs x = pure (exactUpper yabs x)) ∧
    (¬(-2 ^ 19 ≤ difference yabs x ∧ difference yabs x < 2 ^ 19) →
      (upperAngle (wrapping 32) yabs x).exact = false) := by
  rw [upperAngle, exactUpper, difference]
  by_cases side : x ≥ 0
  · rw [if_pos side, if_pos side, if_pos side, wrapping_eq (by omega) (by omega), pure_bind,
      wrapping_eq (by omega) (by omega), pure_bind]
    exact ⟨fun fits => octant_fits (by decide) (by omega) (by omega) (by omega) fits,
      octant_overflows⟩
  · rw [if_neg side, if_neg side, if_neg side, wrapping_eq (by omega) (by omega), pure_bind,
      wrapping_eq (by omega) (by omega), pure_bind]
    exact ⟨fun fits => octant_fits (by decide) (by omega) (by omega) (by omega) fits,
      octant_overflows⟩

theorem negateIf_fits {negative : Bool} (low : -2147483647 ≤ x) (high : x < 2147483648) :
    negateIf (wrapping 32) negative x = pure (if negative then -x else x) := by
  rw [negateIf, wrapping_eq (by omega) (by omega)]
  exact (apply_ite pure (negative = true) (-x) x).symm

theorem fastAtan2_iff {y : Int} (low : -2 ^ 30 < y) (high : y < 2 ^ 30) (left : -2 ^ 30 < x)
    (right : x < 2 ^ 30) :
    (-2 ^ 19 ≤ difference |y| x ∧ difference |y| x < 2 ^ 19 →
      fastAtan2 (wrapping 32) y x = pure (exactAngle y x)) ∧
    (¬(-2 ^ 19 ≤ difference |y| x ∧ difference |y| x < 2 ^ 19) →
      (fastAtan2 (wrapping 32) y x).exact = false) := by
  by_cases zero : x = 0 ∧ y = 0
  · obtain ⟨rfl, rfl⟩ := zero
    exact ⟨fun _ => rfl, fun large => absurd (by decide) large⟩
  · have magnitude : negateIf (wrapping 32) (y < 0) y = pure |y| := by
      rw [negateIf_fits (by omega) (by omega), ← negateIf_pure]
      exact negateIf_abs y
    have size : |y| < 2 ^ 30 := abs_lt.mpr ⟨low, high⟩
    have nonzero : ¬(x = 0 ∧ |y| = 0) := by
      rwa [abs_eq_zero]
    obtain ⟨fits, overflows⟩ := upperAngle_iff (abs_nonneg y) nonzero size left right
    rw [fastAtan2, if_neg zero, magnitude, pure_bind, exactAngle, if_neg zero]
    constructor
    · intro inside
      have upper : 0 ≤ exactUpper |y| x ∧ exactUpper |y| x ≤ 2 ^ 14 := by
        by_cases side : 0 ≤ x
        · have bounds := exactUpper_right (abs_nonneg y) side
          omega
        · have bounds := exactUpper_left (abs_nonneg y) (by omega : x < 0)
          omega
      rw [fits inside, pure_bind, negateIf_fits (by omega) (by omega)]
      by_cases negative : y < 0
      · rw [decide_eq_true negative, if_pos rfl, if_pos negative]
      · rw [decide_eq_false negative, if_neg Bool.false_ne_true, if_neg negative]
    · intro large
      rw [exact_bind, overflows large, Bool.false_and]

/-- The signal is weak enough, or far enough from the axes, for the scaled difference of `cr` and
`cj` to fit an `int`. -/
def Weak (ar aj br bj : Int) : Prop :=
  if realPart ar aj br bj ≥ 0 then
    -2 ^ 19 ≤ realPart ar aj br bj - |imaginaryPart ar aj br bj| ∧
      realPart ar aj br bj - |imaginaryPart ar aj br bj| < 2 ^ 19
  else
    -2 ^ 19 ≤ realPart ar aj br bj + |imaginaryPart ar aj br bj| ∧
      realPart ar aj br bj + |imaginaryPart ar aj br bj| < 2 ^ 19

instance (ar aj br bj : Int) : Decidable (Weak ar aj br bj) :=
  inferInstanceAs (Decidable (ite _ _ _))

theorem weak_iff (ar aj br bj : Int) :
    Weak ar aj br bj ↔
      -2 ^ 19 ≤ difference |imaginaryPart ar aj br bj| (realPart ar aj br bj) ∧
        difference |imaginaryPart ar aj br bj| (realPart ar aj br bj) < 2 ^ 19 := by
  rw [Weak, difference]
  split_ifs <;> rfl

theorem product_range {a b : Int} (first : |a| ≤ 768) (second : |b| ≤ 768) :
    -589824 ≤ a * b ∧ a * b ≤ 589824 := by
  have size : |a * b| ≤ 768 * 768 := by
    rw [abs_mul]
    exact mul_le_mul first second (abs_nonneg b) (by decide)
  have bounds := abs_le.mp size
  omega

/-- For components of at most 768 the discriminator is exact for weak signals and for no others. -/
theorem polarDiscFast_weak {ar aj br bj : Int} (har : |ar| ≤ 768) (haj : |aj| ≤ 768)
    (hbr : |br| ≤ 768) (hbj : |bj| ≤ 768) :
    (Weak ar aj br bj → polarDiscFast (wrapping 32) ar aj br bj =
      pure (exactAngle (imaginaryPart ar aj br bj) (realPart ar aj br bj))) ∧
    (¬Weak ar aj br bj → (polarDiscFast (wrapping 32) ar aj br bj).exact = false) := by
  have rr := product_range har hbr
  have jj := product_range haj hbj
  have jr := product_range haj hbr
  have rj := product_range har hbj
  have part := abs_le.mp hbj
  have fits : MultiplyFits ar aj br bj := by
    refine ⟨⟨by omega, by omega⟩, ⟨by omega, by omega⟩, ?_, ?_, ⟨by omega, by omega⟩, ?_, ?_⟩
    · rw [Int.mul_neg]
      exact ⟨by omega, by omega⟩
    · rw [realPart]
      exact ⟨by omega, by omega⟩
    · rw [Int.mul_neg]
      exact ⟨by omega, by omega⟩
    · rw [imaginaryPart]
      exact ⟨by omega, by omega⟩
  have split : polarDiscFast (wrapping 32) ar aj br bj =
      (do multiply (wrapping 32) ar aj br (← wrapping 32 (-bj))) >>=
        fun c => fastAtan2 (wrapping 32) c.2 c.1 := (bind_assoc _ _ _).symm
  rw [split, multiply_value fits, pure_bind, weak_iff]
  apply fastAtan2_iff
  · rw [imaginaryPart]
    omega
  · rw [imaginaryPart]
    omega
  · rw [realPart]
    omega
  · rw [realPart]
    omega

/-- A byte as `rtlsdr_callback` stores it. -/
def byteSample (byte : UInt8) : Int := byte.toNat - 127

theorem byteSample_range (byte : UInt8) : -127 ≤ byteSample byte ∧ byteSample byte ≤ 128 := by
  have small := byte.toNat_lt
  rw [byteSample]
  omega

def complexSample (bytes : UInt8 × UInt8) : Int × Int := (byteSample bytes.1, byteSample bytes.2)

theorem sum_range (xs : List Int) (low high : Int) (each : ∀ x ∈ xs, low ≤ x ∧ x ≤ high) :
    low * xs.length ≤ xs.sum ∧ xs.sum ≤ high * xs.length := by
  induction xs with
  | nil => simp
  | cons x xs ih =>
    have here := each x List.mem_cons_self
    have rest := ih fun y member => each y (List.mem_cons_of_mem x member)
    rw [List.sum_cons, List.length_cons, Int.natCast_succ, Int.mul_add, Int.mul_add, Int.mul_one,
      Int.mul_one]
    omega

/-- The sums of small values that `low_pass` gives, as long as they fit an `int16_t`. -/
theorem windowSum_small (xs : List (Int × Int)) (few : xs.length ≤ 255)
    (each : ∀ x ∈ xs, (-127 ≤ x.1 ∧ x.1 ≤ 128) ∧ -127 ≤ x.2 ∧ x.2 ≤ 128) :
    windowSum machine xs = windowSum unbounded xs ∧
    (-127 * xs.length ≤ (windowSum unbounded xs).1 ∧
      (windowSum unbounded xs).1 ≤ 128 * xs.length) ∧
    (-127 * xs.length ≤ (windowSum unbounded xs).2 ∧
      (windowSum unbounded xs).2 ≤ 128 * xs.length) := by
  have component (part : Int × Int → Int) (small : ∀ x ∈ xs, -127 ≤ part x ∧ part x ≤ 128) :
      -127 * (xs.length : Int) ≤ (xs.map part).sum ∧ (xs.map part).sum ≤ 128 * xs.length := by
    have bounds := sum_range (xs.map part) (-127) 128
      (by
        intro x member
        rw [List.mem_map] at member
        obtain ⟨y, inside, rfl⟩ := member
        exact small y inside)
    rwa [List.length_map] at bounds
  have real := component Prod.fst fun x member => (each x member).1
  have imaginary := component Prod.snd fun x member => (each x member).2
  refine ⟨?_, real, imaginary⟩
  rw [windowSum, windowSum, int16_eq ⟨by omega, by omega⟩, int16_eq ⟨by omega, by omega⟩]
  rfl

/-- The oversampling for the preset `wbfm`. -/
def wbfmDownsample : Int := (chooseDownsample 170000 0).value.1

theorem wbfmDownsample_eq : wbfmDownsample = (6 : Nat) := by decide +kernel

/-- The pairs that `low_pass` gives for the preset `wbfm`. -/
def wbfmPairs (bytes : List (UInt8 × UInt8)) : List (Int × Int) :=
  (lowPassBlock machine wbfmDownsample .empty (bytes.map complexSample)).2

theorem wbfmPairs_range {bytes : List (UInt8 × UInt8)} {k : Nat} {c : Int × Int}
    (given : (wbfmPairs bytes)[k]? = some c) : |c.1| ≤ 768 ∧ |c.2| ≤ 768 := by
  rw [wbfmPairs, wbfmDownsample_eq, lowPassBlock_eq,
    boxcar_stream machine_lawful 6 (by decide), List.getElem?_map] at given
  obtain ⟨j, _, rfl⟩ := Option.map_eq_some_iff.mp given
  have few : (((bytes.map complexSample).drop (6 * j)).take 6).length ≤ 6 :=
    List.length_take_le _ _
  have exactly := windowSum_small (((bytes.map complexSample).drop (6 * j)).take 6) (by omega)
    (by
      intro x member
      obtain ⟨y, _, rfl⟩ := List.mem_map.mp (List.mem_of_mem_drop (List.mem_of_mem_take member))
      exact ⟨byteSample_range y.1, byteSample_range y.2⟩)
  rw [exactly.1]
  exact ⟨abs_le.mpr ⟨by omega, by omega⟩, abs_le.mpr ⟨by omega, by omega⟩⟩

/-- For consecutive pairs of the preset `wbfm` the discriminator is exact, and its result the angle
in unbounded integers, for weak signals and for no others. -/
theorem polarDiscFast_wbfm_iff (bytes : List (UInt8 × UInt8)) (k : Nat) (a b : Int × Int)
    (previous : (wbfmPairs bytes)[k]? = some b) (current : (wbfmPairs bytes)[k + 1]? = some a) :
    ((polarDiscFast (wrapping 32) a.1 a.2 b.1 b.2).exact = true ∧
      (polarDiscFast (wrapping 32) a.1 a.2 b.1 b.2).value =
        (polarDiscFast pure a.1 a.2 b.1 b.2).value ∧
      -2 ^ 14 ≤ (polarDiscFast pure a.1 a.2 b.1 b.2).value ∧
      (polarDiscFast pure a.1 a.2 b.1 b.2).value ≤ 2 ^ 14) ↔
      Weak a.1 a.2 b.1 b.2 := by
  obtain ⟨har, haj⟩ := wbfmPairs_range current
  obtain ⟨hbr, hbj⟩ := wbfmPairs_range previous
  obtain ⟨fits, overflows⟩ := polarDiscFast_weak har haj hbr hbj
  have range := exactAngle_range (imaginaryPart a.1 a.2 b.1 b.2) (realPart a.1 a.2 b.1 b.2)
  rw [polarDiscFast_pure]
  constructor
  · rintro ⟨exactly, _⟩
    by_contra strong
    rw [overflows strong] at exactly
    cases exactly
  · intro weak
    rw [fits weak]
    exact ⟨rfl, rfl, range⟩

theorem polarDiscFast_wbfm_quiet :
    Weak 6 0 0 6 ∧ (polarDiscFast (wrapping 32) 6 0 0 6).exact = true :=
  ⟨by decide, ((polarDiscFast_wbfm_iff
    (List.replicate 6 (127, 128) ++ List.replicate 6 (128, 127)) 0 (6, 0) (0, 6)
    (by decide +kernel) (by decide +kernel)).mpr (by decide)).1⟩

/-- A full-scale carrier at the tuned frequency: an angle of 0 comes out as 7281. -/
theorem polarDiscFast_wbfm_strong :
    wbfmPairs (List.replicate 12 (255, 127)) = [(768, 0), (768, 0)] ∧
      polarDiscFast (wrapping 32) 768 0 768 0 = ⟨7281, false⟩ ∧
      (polarDiscFast pure 768 0 768 0).value = 0 := by
  decide +kernel

/-! ### The quadrant of the table discriminator -/

/-- The quotient is not zero in the quadrants where it counts. -/
def Steep (cr cj : Int) : Prop :=
  ¬(0 < cr ∧ 0 < cj ∧ cj * 2 ^ 8 < cr) ∧ ¬(cr < 0 ∧ cj < 0 ∧ cr < cj * 2 ^ 8)

instance (cr cj : Int) : Decidable (Steep cr cj) := inferInstanceAs (Decidable (_ ∧ _))

/-- The quotient that is looked up. -/
def slope (cr cj : Int) : Int := (cj * 2 ^ 8).tdiv cr

theorem tdiv_positive {a c : Int} (above : 0 < a) (right : 0 < c) :
    0 ≤ a.tdiv c ∧ (a.tdiv c = 0 ↔ a < c) := by
  rw [Int.tdiv_eq_ediv_of_nonneg (by omega)]
  refine ⟨Int.ediv_nonneg (by omega) (by omega), ?_⟩
  constructor
  · intro zero
    by_contra more
    have one : 1 ≤ a / c := (Int.le_ediv_iff_mul_le right).mpr (by omega)
    omega
  · intro less
    exact Int.ediv_eq_zero_of_lt (by omega) less

/-- The sign of the quotient, and where it is cut to zero. -/
theorem slope_sign (real : cr ≠ 0) (imaginary : cj ≠ 0) :
    (0 < slope cr cj → (0 < cr ∧ 0 < cj) ∨ (cr < 0 ∧ cj < 0)) ∧
    (slope cr cj < 0 → (0 < cr ∧ cj < 0) ∨ (cr < 0 ∧ 0 < cj)) ∧
    (slope cr cj = 0 → ((0 < cr ∧ 0 < cj) ∨ (cr < 0 ∧ cj < 0)) → ¬Steep cr cj) ∧
    (slope cr cj ≠ 0 → Steep cr cj) := by
  rw [slope, Steep]
  rcases Int.lt_or_lt_of_ne real with left | right
  · rcases Int.lt_or_lt_of_ne imaginary with below | above
    · have quotient := tdiv_positive (a := -(cj * 2 ^ 8)) (c := -cr) (by omega) (by omega)
      rw [Int.neg_tdiv, Int.tdiv_neg, Int.neg_neg] at quotient
      omega
    · have quotient := tdiv_positive (a := cj * 2 ^ 8) (c := -cr) (by omega) (by omega)
      rw [Int.tdiv_neg] at quotient
      omega
  · rcases Int.lt_or_lt_of_ne imaginary with below | above
    · have quotient := tdiv_positive (a := -(cj * 2 ^ 8)) (c := cr) (by omega) right
      rw [Int.neg_tdiv] at quotient
      omega
    · have quotient := tdiv_positive (a := cj * 2 ^ 8) (c := cr) (by omega) right
      omega

variable {atanLut : Int → Int}

/-- The result behind the special cases. -/
def slopeAngle (atanLut : Int → Int) (cj x : Int) : Int :=
  if |x| ≥ atanLutSize then (if cj > 0 then 2 ^ 13 else -2 ^ 13)
  else if x > 0 then (if cj > 0 then atanLut x else atanLut x - 2 ^ 14)
  else if cj > 0 then 2 ^ 14 - atanLut (-x) else -atanLut (-x)

theorem lutQuadrant_eq (table : ∀ i, 0 ≤ i → i < atanLutSize → 0 ≤ atanLut i ∧ atanLut i ≤ 2 ^ 13)
    (inside : |x| < atanLutSize) :
    lutQuadrant (wrapping 32) (load atanLutSize atanLut) cj x = pure (slopeAngle atanLut cj x) := by
  have bounds := abs_lt.mp inside
  rw [lutQuadrant, slopeAngle, if_neg (not_le.mpr inside)]
  by_cases positive : x > 0
  · have entry := table x (by omega) bounds.2
    rw [if_pos positive, if_pos positive, load_eq (by omega) bounds.2, pure_bind,
      wrapping_eq (by omega) (by omega)]
    exact (apply_ite pure (cj > 0) _ _).symm
  · have entry := table (-x) (by omega) (by omega)
    rw [if_neg positive, if_neg positive, load_eq (by omega) (by omega), pure_bind,
      wrapping_eq (by omega) (by omega), wrapping_eq (by omega) (by omega)]
    exact (apply_ite pure (cj > 0) _ _).symm

theorem lutAngle_eq (table : ∀ i, 0 ≤ i → i < atanLutSize → 0 ≤ atanLut i ∧ atanLut i ≤ 2 ^ 13)
    (real : cr ≠ 0) (small : |cj| < 2 ^ 23) :
    lutAngle (wrapping 32) (load atanLutSize atanLut) cr cj =
      pure (slopeAngle atanLut cj (slope cr cj)) := by
  have bounds := abs_lt.mp small
  have size : |slope cr cj| ≤ |cj * 2 ^ 8| := by
    rw [slope, Int.abs_eq_natAbs, Int.abs_eq_natAbs, Int.natAbs_tdiv]
    exact_mod_cast Nat.div_le_self _ _
  have scaled : |cj * 2 ^ 8| ≤ 2147483392 := abs_le.mpr ⟨by omega, by omega⟩
  have quotient := abs_le.mp (le_trans size scaled)
  have magnitude : negateIf (wrapping 32) (slope cr cj < 0) (slope cr cj) =
      pure |slope cr cj| := by
    rw [negateIf_fits (by omega) (by omega), ← negateIf_pure]
    exact negateIf_abs _
  rw [lutAngle, wrapping_eq (by omega) (by omega), pure_bind, divide_eq real, pure_bind, ← slope,
    magnitude, pure_bind]
  by_cases steep : |slope cr cj| ≥ atanLutSize
  · rw [if_pos steep, slopeAngle, if_pos steep]
  · rw [if_neg steep, lutQuadrant_eq table (by omega)]

theorem quadrant_iff (cr cj angle : Int) :
    Quadrant cr cj angle ↔ (0 < cj → 0 ≤ angle) ∧ (cj < 0 → angle ≤ 0) ∧
      (0 < cr → -2 ^ 13 ≤ angle ∧ angle ≤ 2 ^ 13) ∧
      (cr < 0 → 2 ^ 13 ≤ angle ∨ 2 ^ 13 ≤ -angle) := by
  constructor
  · rintro ⟨above, below, right, left⟩
    exact ⟨above, below, fun side => abs_le.mp (right side), fun side => le_abs.mp (left side)⟩
  · rintro ⟨above, below, right, left⟩
    exact ⟨above, below, fun side => abs_le.mpr (right side), fun side => le_abs.mpr (left side)⟩

/-- The angle is in the quadrant of the point, unless the quotient is cut to zero between the
positive axes or between the negative ones. -/
theorem slopeAngle_quadrant
    (table : ∀ i, 0 ≤ i → i < atanLutSize → 0 ≤ atanLut i ∧ atanLut i ≤ 2 ^ 13) (real : cr ≠ 0)
    (imaginary : cj ≠ 0) :
    Quadrant cr cj (slopeAngle atanLut cj (slope cr cj)) ↔
      Steep cr cj ∨ atanLut 0 = 2 ^ 13 := by
  obtain ⟨same, opposite, cut, steep⟩ := slope_sign real imaginary
  rw [quadrant_iff, slopeAngle]
  generalize slope cr cj = x at *
  by_cases large : |x| ≥ atanLutSize
  · have nonzero : x ≠ 0 := by
      rintro rfl
      exact absurd large (by decide)
    have holds := steep nonzero
    rw [if_pos large]
    refine iff_of_true ?_ (.inl holds)
    split_ifs <;> omega
  · have inside := abs_lt.mp (not_le.mp large)
    rw [if_neg large]
    rcases Int.lt_trichotomy x 0 with negative | rfl | positive
    · have entry := table (-x) (by omega) (by omega)
      have holds := steep (by omega)
      have signs := opposite negative
      rw [if_neg (by omega)]
      refine iff_of_true ?_ (.inl holds)
      split_ifs <;> omega
    · -- cut to zero: the angle is counted from the negative axis, on either side
      have entry := table 0 (by decide) (by decide)
      rw [Steep] at cut ⊢
      rw [if_neg (by omega), Int.neg_zero]
      split_ifs <;> omega
    · have entry := table x (by omega) (by omega)
      have holds := steep (by omega)
      have signs := same positive
      rw [if_pos positive]
      refine iff_of_true ?_ (.inl holds)
      split_ifs <;> omega

/-- On the axes the table is not used. -/
theorem lutCases_quadrant
    (table : ∀ i, 0 ≤ i → i < atanLutSize → 0 ≤ atanLut i ∧ atanLut i ≤ 2 ^ 13)
    (nonzero : ¬(cr = 0 ∧ cj = 0)) (small : |cj| < 2 ^ 23) :
    (lutCases (wrapping 32) (load atanLutSize atanLut) cr cj).exact = true ∧
      (Quadrant cr cj (lutCases (wrapping 32) (load atanLutSize atanLut) cr cj).value ↔
        Steep cr cj ∨ atanLut 0 = 2 ^ 13) := by
  by_cases off : cr ≠ 0 ∧ cj ≠ 0
  · obtain ⟨real, imaginary⟩ := off
    have general : lutCases (wrapping 32) (load atanLutSize atanLut) cr cj =
        pure (slopeAngle atanLut cj (slope cr cj)) := by
      rw [lutCases, if_neg (by omega), if_neg (by omega), if_neg (by omega), if_neg (by omega),
        if_neg (by omega), lutAngle_eq table real small]
    rw [general]
    exact ⟨rfl, slopeAngle_quadrant table real imaginary⟩
  · have steep : Steep cr cj := by
      rw [Steep]
      omega
    rw [quadrant_iff, lutCases, if_neg nonzero]
    refine ⟨?_, iff_of_true ?_ (.inl steep)⟩
    · split_ifs
      · rfl
      · rfl
      · rfl
      · rfl
      · omega
    · split_ifs
      all_goals try rw [value_pure]
      all_goals omega

/-- The table discriminator stays in the quadrant of the product if the product fits an `int` and
the quotient is not cut to zero; the formula of the fast one always does. -/
theorem polarDiscLut_quadrant_iff (atanLut : Int → Int)
    (table : ∀ i, 0 ≤ i → i < atanLutSize → 0 ≤ atanLut i ∧ atanLut i ≤ 2 ^ 13)
    (ar aj br bj : Int) (small : |imaginaryPart ar aj br bj| < 2 ^ 23)
    (nonzero : ¬(realPart ar aj br bj = 0 ∧ imaginaryPart ar aj br bj = 0)) :
    ((polarDiscLut (wrapping 32) (load atanLutSize atanLut) ar aj br bj).exact = true ∧
      Quadrant (realPart ar aj br bj) (imaginaryPart ar aj br bj)
        (polarDiscLut (wrapping 32) (load atanLutSize atanLut) ar aj br bj).value ↔
      MultiplyFits ar aj br bj ∧
        (Steep (realPart ar aj br bj) (imaginaryPart ar aj br bj) ∨ atanLut 0 = 2 ^ 13)) ∧
    Quadrant (realPart ar aj br bj) (imaginaryPart ar aj br bj)
      (polarDiscFast pure ar aj br bj).value := by
  have split : polarDiscLut (wrapping 32) (load atanLutSize atanLut) ar aj br bj =
      (do multiply (wrapping 32) ar aj br (← wrapping 32 (-bj))) >>=
        fun c => lutCases (wrapping 32) (load atanLutSize atanLut) c.1 c.2 :=
    (bind_assoc _ _ _).symm
  obtain ⟨exactly, quadrant⟩ := lutCases_quadrant table nonzero small
  constructor
  · rw [split, multiply_bind]
    constructor
    · rintro ⟨⟨fits, _⟩, side⟩
      rw [multiply_value fits, pure_bind] at side
      exact ⟨fits, quadrant.mp side⟩
    · rintro ⟨fits, steep⟩
      rw [multiply_value fits, pure_bind]
      exact ⟨⟨fits, exactly⟩, quadrant.mpr steep⟩
  · rw [polarDiscFast_pure]
    exact exactAngle_quadrant _ _

/-- A table of the kind `atan_lut_init` fills in. -/
def stairs (i : Int) : Int := if i < 256 then 8 * i else 2 ^ 13

theorem stairs_table (i : Int) (low : 0 ≤ i) : 0 ≤ stairs i ∧ stairs i ≤ 2 ^ 13 := by
  rw [stairs]
  split_ifs <;> omega

theorem polarDiscLut_steep :
    Quadrant 3 4 (polarDiscLut (wrapping 32) (load atanLutSize stairs) 3 4 1 0).value :=
  ((polarDiscLut_quadrant_iff stairs (fun i low _ => stairs_table i low) 3 4 1 0 (by decide)
    (by decide)).1.mpr
    ⟨⟨by decide, by decide, by decide, by decide, by decide, by decide, by decide⟩,
      .inl (by decide)⟩).2

/-- A point just above the positive axis is given half a turn. -/
theorem polarDiscLut_flat :
    realPart 512 1 1 0 = 512 ∧ imaginaryPart 512 1 1 0 = 1 ∧
      polarDiscLut (wrapping 32) (load atanLutSize stairs) 512 1 1 0 = ⟨16384, true⟩ ∧
      (polarDiscFast pure 512 1 1 0).value = 16 := by
  decide +kernel

end RtlSdr.Fm
