import RtlSdr.Power.FixFftRange
import RtlSdr.Power.Plan
import RtlSdr.Fft.CpuDft

/-!
# The fixed point transform and the Fourier transform

The data after pass `r` are near the transforms of blocks of `2 ^ r` elements, divided by `2 ^ r`.
One pass adds less than 5 by rounding; the errors of a pair are halved and so add up to no more than
before. A table for two elements has no quarter of a wave, and the sine of zero stands for the
cosine: its transform is without the second element.
-/
namespace RtlSdr.Power

open Checked BitReversal CooleyTukey FftCpu

/-! ### One pass -/

/-- Each block of `2 ^ r` elements is within `bound` of its transform, to scale. -/
def Near (w : ℂ) (d r : Nat) (x : Nat → ℂ) (bound : ℝ) (a : Iq) : Prop :=
  ∀ b < 2 ^ d, ∀ j < 2 ^ r,
    ‖toComplex (a (2 ^ r * b + j)) - stage w d r x b j / (2 ^ r : Nat)‖ ≤ bound

/-- The rotation of a pass is a power of the root. -/
theorem exp_angle (m j d : Nat) :
    Complex.exp ((-angle m (j * 2 ^ d) : ℝ) * Complex.I) = root (2 ^ m) ^ (j * 2 ^ d) := by
  rw [root, ← Complex.exp_nat_mul, angle]
  congr 1
  push_cast
  ring

/-- The factor of a butterfly is off by what is rounded in it and by the scale of the table. -/
theorem rotation_half {m : Nat} (large : 2 ≤ m) (j d : Nat) :
    ‖toComplex (rotation (sineTable m) j d) / 32768 - root (2 ^ m) ^ (j * 2 ^ d) / 2‖ ≤
      2 / 32768 := by
  have near := rotation_near large j d
  have unit : ‖root (2 ^ m) ^ (j * 2 ^ d)‖ = 1 := by
    rw [← exp_angle, Complex.norm_exp_ofReal_mul_I]
  rw [exp_angle] at near
  generalize toComplex (rotation (sineTable m) j d) = z at near ⊢
  generalize root (2 ^ m) ^ (j * 2 ^ d) = w at near unit ⊢
  have split : z / 32768 - w / 2 = (z - 32767 / 2 * w - w / 2) / 32768 := by ring
  have half : ‖w / 2‖ = 1 / 2 := by
    rw [norm_div, unit, Complex.norm_ofNat]
  have parts := norm_sub_le (z - 32767 / 2 * w) (w / 2)
  rw [split, norm_div, Complex.norm_ofNat]
  gcongr
  linarith

theorem fly_deviation {w x y : Int × Int} {W A B : ℂ} {bound : ℝ} (unit : ‖W‖ = 1)
    (factor : ‖toComplex w / 32768 - W / 2‖ ≤ 2 / 32768) (first : ‖toComplex x - A‖ ≤ bound)
    (second : ‖toComplex y - B‖ ≤ bound) (small : ‖toComplex y‖ ≤ 32768) :
    ‖toComplex (fly w x y).1 - (A + W * B) / 2‖ ≤ bound + 5 ∧
      ‖toComplex (fly w x y).2 - (A - W * B) / 2‖ ≤ bound + 5 := by
  obtain ⟨upper, lower⟩ := fly_near w x y
  have turn : ‖toComplex w * toComplex y / 32768 - W * B / 2‖ ≤ bound / 2 + 2 := by
    -- the error of the factor at the size of the element, and half the error of the element
    have split : toComplex w * toComplex y / 32768 - W * B / 2 =
        (toComplex w / 32768 - W / 2) * toComplex y + W * (toComplex y - B) / 2 := by ring
    have product : ‖toComplex w / 32768 - W / 2‖ * ‖toComplex y‖ ≤ 2 / 32768 * 32768 :=
      mul_le_mul factor small (norm_nonneg _) (by norm_num)
    have parts := norm_add_le ((toComplex w / 32768 - W / 2) * toComplex y)
      (W * (toComplex y - B) / 2)
    rw [norm_mul, norm_div, norm_mul, unit, Complex.norm_ofNat, one_mul] at parts
    rw [split]
    linarith
  have half : ‖toComplex x / 2 - A / 2‖ ≤ bound / 2 := by
    rw [← sub_div, norm_div, Complex.norm_ofNat]
    linarith
  constructor
  · have split : toComplex (fly w x y).1 - (A + W * B) / 2 =
        toComplex (fly w x y).1 - (toComplex x / 2 + toComplex w * toComplex y / 32768) +
          ((toComplex x / 2 - A / 2) + (toComplex w * toComplex y / 32768 - W * B / 2)) := by ring
    have sum := norm_add_le (toComplex (fly w x y).1 -
      (toComplex x / 2 + toComplex w * toComplex y / 32768))
      ((toComplex x / 2 - A / 2) + (toComplex w * toComplex y / 32768 - W * B / 2))
    have parts := norm_add_le (toComplex x / 2 - A / 2)
      (toComplex w * toComplex y / 32768 - W * B / 2)
    rw [split]
    linarith
  · have split : toComplex (fly w x y).2 - (A - W * B) / 2 =
        toComplex (fly w x y).2 - (toComplex x / 2 - toComplex w * toComplex y / 32768) +
          ((toComplex x / 2 - A / 2) - (toComplex w * toComplex y / 32768 - W * B / 2)) := by ring
    have sum := norm_add_le (toComplex (fly w x y).2 -
      (toComplex x / 2 - toComplex w * toComplex y / 32768))
      ((toComplex x / 2 - A / 2) - (toComplex w * toComplex y / 32768 - W * B / 2))
    have parts := norm_sub_le (toComplex x / 2 - A / 2)
      (toComplex w * toComplex y / 32768 - W * B / 2)
    rw [split]
    linarith

section

variable {d r : Nat} {x : Nat → ℂ} {bound : ℝ} {a b : Iq}

/-- One pair of a block, in a pass of `2 ^ (d + r + 1)` elements. -/
theorem Near.pair (near : Near (root (2 ^ (d + r + 1))) (d + 1) r x bound a) (large : 2 ≤ d + r + 1)
    (bounded : Bounded (2 ^ (d + r + 1)) 32768 a)
    (values : ∀ k < 2 ^ (d + r + 1), b k = flown (sineTable (d + r + 1)) r a k) {c j : Nat}
    (block : c < 2 ^ d) (place : j < 2 ^ r) :
    ‖toComplex (b (2 ^ r * (2 * c) + j)) -
        stage (root (2 ^ (d + r + 1))) d (r + 1) x c j / (2 ^ (r + 1) : Nat)‖ ≤ bound + 5 ∧
      ‖toComplex (b (2 ^ r * (2 * c + 1) + j)) -
        stage (root (2 ^ (d + r + 1))) d (r + 1) x c (j + 2 ^ r) / (2 ^ (r + 1) : Nat)‖ ≤
          bound + 5 := by
  have room : 2 ^ r * (2 * (c + 1)) ≤ 2 ^ r * (2 * 2 ^ d) :=
    Nat.mul_le_mul_left _ (Nat.mul_le_mul_left _ block)
  have size : 2 ^ r * (2 * 2 ^ d) = 2 ^ (d + r + 1) := by
    rw [Nat.pow_succ, Nat.pow_add]
    ring
  have second : 2 ^ r * (2 * c + 1) + j < 2 ^ (d + r + 1) := by
    have next : 2 ^ r * (2 * (c + 1)) = 2 ^ r * (2 * c + 1) + 2 ^ r := by ring
    omega
  have first : 2 ^ r * (2 * c) + j < 2 ^ (d + r + 1) := by
    rw [Nat.mul_add] at second
    omega
  have shift : (sineTable (d + r + 1)).log2NWave - 1 - r = d := Nat.add_sub_cancel d r
  have unit : ‖root (2 ^ (d + r + 1)) ^ (j * 2 ^ d)‖ = 1 := by
    rw [← exp_angle, Complex.norm_exp_ofReal_mul_I]
  have scale (z : ℂ) : z / (2 ^ (r + 1) : Nat) = z / (2 ^ r : Nat) / 2 := by
    rw [Nat.pow_succ, Nat.cast_mul, Nat.cast_ofNat, div_div]
  -- the two elements come from the two blocks that this one joins
  have both := fly_deviation unit (rotation_half large j d) (near (2 * c) (by omega) j place)
    (near (2 * c + 1) (by omega) j place) (bounded _ second)
  rw [values _ first, values _ second, flown_lower _ _ _ place, flown_upper _ _ _ place, shift,
    stage_succ, stage_succ_upper _ _ _ _ _ _ (root_half (d + r)), scale, scale, add_div, sub_div,
    mul_div_assoc]
  exact both

theorem Near.next (near : Near (root (2 ^ (d + r + 1))) (d + 1) r x bound a) (large : 2 ≤ d + r + 1)
    (bounded : Bounded (2 ^ (d + r + 1)) 32768 a)
    (values : ∀ k < 2 ^ (d + r + 1), b k = flown (sineTable (d + r + 1)) r a k) :
    Near (root (2 ^ (d + r + 1))) d (r + 1) x (bound + 5) b := by
  intro c block j inside
  rcases Nat.lt_or_ge j (2 ^ r) with lower | upper
  · have here : 2 ^ (r + 1) * c + j = 2 ^ r * (2 * c) + j := by ring
    rw [here]
    exact (near.pair large bounded values block lower).1
  · obtain ⟨i, rfl⟩ : ∃ i, j = i + 2 ^ r := ⟨j - 2 ^ r, (Nat.sub_add_cancel upper).symm⟩
    have here : 2 ^ (r + 1) * c + (i + 2 ^ r) = 2 ^ r * (2 * c + 1) + i := by ring
    have place : i < 2 ^ r := by
      rw [Nat.pow_succ] at inside
      omega
    rw [here]
    exact (near.pair large bounded values block place).2

end

/-! ### The result -/

/-- The transform of the input divided by the number of elements. -/
noncomputable def scaledDft (e : Nat) (iq : Iq) (k : Nat) : ℂ :=
  dft (root (2 ^ e)) (2 ^ e) (fun j => toComplex (iq j)) k / (2 ^ e : Nat)

/-- Both components are within `bound`. -/
def Close (bound : ℝ) (y : Int × Int) (z : ℂ) : Prop := |y.1 - z.re| ≤ bound ∧ |y.2 - z.im| ≤ bound

theorem close_of_norm {bound : ℝ} {y : Int × Int} {z : ℂ} (near : ‖toComplex y - z‖ ≤ bound) :
    Close bound y z :=
  ⟨(Complex.abs_re_le_norm (toComplex y - z)).trans near,
    (Complex.abs_im_le_norm (toComplex y - z)).trans near⟩

/-- With a table of at least four entries in a wave. -/
theorem fixFft_near (e : Nat) (large : 2 ≤ e) (few : e ≤ 21) (iq : Iq)
    (small : ∀ k < 2 ^ e, Within 16383 (iq k)) (k : Nat) (inside : k < 2 ^ e) :
    ‖toComplex ((fixFft (sineTable e) e iq).value.1 k) - scaledDft e iq k‖ ≤ 5 * e := by
  have run := fixFft_gives (Nat.le_refl e) few iq small
    (fun r a => Near (root (2 ^ e)) (e - r) r (fun j => toComplex (iq j)) (5 * r) a) ?_ ?_
  · obtain ⟨_, near, _⟩ := run
    rw [Nat.sub_self] at near
    have block := near 0 Nat.one_pos k inside
    rw [Nat.mul_zero, Nat.zero_add, stage_last] at block
    exact block
  · intro a order b block j place
    rw [Nat.pow_zero, Nat.lt_one_iff] at place
    rw [place, stage_zero, Nat.pow_zero, Nat.one_mul, Nat.add_zero, order b block, Nat.sub_zero]
    simp
  · intro r later a b bounded near values
    obtain ⟨d, rfl⟩ : ∃ d, e = d + r + 1 := ⟨e - (r + 1), by omega⟩
    have before : d + r + 1 - r = d + 1 := by omega
    have after : d + r + 1 - (r + 1) = d := by omega
    rw [before] at near
    rw [after]
    have more : 5 * (r : ℝ) + 5 = 5 * (r + 1 : Nat) := by
      push_cast
      ring
    rw [← more]
    -- the bound on the magnitude is the one that keeps the butterflies exact
    refine near.next large (fun x inside => ?_) values
    have magnitude := magnitude_small (by omega : r ≤ 21)
    have element := bounded x inside
    linarith

/-! ### A table of two entries -/

theorem fly_zero (x y : Int × Int) :
    fly (0, 0) x y = ((halved x.1, halved x.2), (halved x.1, halved x.2)) := by
  simp [fly, turned, scaled, halved_eq]

theorem fixFft_two (iq : Iq) (small : ∀ k < 2 ^ 1, Within 16383 (iq k)) (k : Nat)
    (inside : k < 2 ^ 1) :
    (fixFft (sineTable 1) 1 iq).value.1 k = (halved (iq 0).1, halved (iq 0).2) := by
  have run := fixFft_gives (Nat.le_refl 1) (by decide : 1 ≤ 21) iq small
    (fun r a => r = 0 ∧ a 0 = iq 0 ∨
      r = 1 ∧ ∀ k < 2 ^ 1, a k = (halved (iq 0).1, halved (iq 0).2)) ?_ ?_
  · obtain ⟨_, ⟨none, _⟩ | ⟨_, done⟩, _⟩ := run
    · exact absurd none (by decide)
    · exact done k inside
  · intro a order
    exact .inl ⟨rfl, order 0 (by decide)⟩
  · rintro r later a b _ (⟨rfl, first⟩ | ⟨rfl, _⟩) values
    · refine .inr ⟨rfl, fun k inside => ?_⟩
      have lower := flown_lower (sineTable 1) a 0 (by decide : 0 < 2 ^ 0)
      have upper := flown_upper (sineTable 1) a 0 (by decide : 0 < 2 ^ 0)
      have table : rotation (sineTable 1) 0 ((sineTable 1).log2NWave - 1 - 0) = (0, 0) :=
        rotation_two
      rw [table, fly_zero] at lower upper
      rw [values k inside, ← first]
      obtain rfl | rfl : k = 0 ∨ k = 1 := by omega
      · exact lower
      · exact upper
    · exact absurd later (Nat.lt_irrefl 1)

theorem scaledDft_two (iq : Iq) :
    scaledDft 1 iq 0 = (toComplex (iq 0) + toComplex (iq 1)) / 2 ∧
      scaledDft 1 iq 1 = (toComplex (iq 0) - toComplex (iq 1)) / 2 := by
  have half := root_half 0
  rw [Nat.pow_zero, pow_one] at half
  constructor
  · simp [scaledDft, dft, Finset.sum_range_succ]
  · rw [scaledDft, dft, half]
    simp [Finset.sum_range_succ, sub_eq_add_neg]

/-- The second of two elements is so small that it makes no difference. -/
def Negligible (x y : Int × Int) : Prop := |y.1| + x.1 % 2 ≤ 16 ∧ |y.2| + x.2 % 2 ≤ 16

theorem halves_close (x y : Int) :
    (|(halved x : ℝ) - (x + y) / 2| ≤ 8 ∧ |(halved x : ℝ) - (x - y) / 2| ≤ 8) ↔
      |y| + x % 2 ≤ 16 := by
  have twice : 2 * halved x = x - x % 2 := by
    rw [halved_eq]
    omega
  have twice : (2 : ℝ) * halved x = x - Int.cast (x % 2) := by exact_mod_cast twice
  have whole (n : Int) : |-(n : ℝ) / 2| ≤ 8 ↔ -16 ≤ n ∧ n ≤ 16 := by
    have cast : |(n : ℝ)| ≤ 16 ↔ |n| ≤ 16 := by exact_mod_cast Iff.rfl
    rw [abs_div, abs_neg, Nat.abs_ofNat, div_le_iff₀ two_pos, ← abs_le, ← cast]
    norm_num
  have sum : (halved x : ℝ) - (x + y) / 2 = -(Int.cast (x % 2 + y) : ℝ) / 2 := by
    push_cast
    linarith
  have difference : (halved x : ℝ) - (x - y) / 2 = -(Int.cast (x % 2 - y) : ℝ) / 2 := by
    push_cast
    linarith
  rw [sum, difference, whole, whole]
  rcases abs_cases y with ⟨value, _⟩ | ⟨value, _⟩
  · rw [value]
    omega
  · rw [value]
    omega

theorem fixFft_dft_two (iq : Iq) (small : ∀ k < 2 ^ 1, Within 16383 (iq k)) :
    (∀ k < 2 ^ 1, Close 8 ((fixFft (sineTable 1) 1 iq).value.1 k) (scaledDft 1 iq k)) ↔
      Negligible (iq 0) (iq 1) := by
  obtain ⟨sum, difference⟩ := scaledDft_two iq
  have components : (∀ k < 2 ^ 1, Close 8 ((fixFft (sineTable 1) 1 iq).value.1 k)
      (scaledDft 1 iq k)) ↔ Close 8 (halved (iq 0).1, halved (iq 0).2) (scaledDft 1 iq 0) ∧
        Close 8 (halved (iq 0).1, halved (iq 0).2) (scaledDft 1 iq 1) := by
    constructor
    · intro every
      have first := every 0 (by decide)
      have second := every 1 (by decide)
      rw [fixFft_two iq small _ (by decide)] at first second
      exact ⟨first, second⟩
    · rintro ⟨first, second⟩ k inside
      rw [fixFft_two iq small k inside]
      obtain rfl | rfl : k = 0 ∨ k = 1 := by omega
      · exact first
      · exact second
  have re (z w : Int × Int) : ((toComplex z + toComplex w) / 2).re = ((z.1 : ℝ) + w.1) / 2 ∧
      ((toComplex z - toComplex w) / 2).re = ((z.1 : ℝ) - w.1) / 2 := by
    simp [toComplex]
  have im (z w : Int × Int) : ((toComplex z + toComplex w) / 2).im = ((z.2 : ℝ) + w.2) / 2 ∧
      ((toComplex z - toComplex w) / 2).im = ((z.2 : ℝ) - w.2) / 2 := by
    simp [toComplex]
  rw [components, sum, difference, Negligible, ← halves_close, ← halves_close, Close, Close,
    (re _ _).1, (re _ _).2, (im _ _).1, (im _ _).2]
  exact and_and_and_comm

/-- A transform is near the exact one for a table of four entries or more. One of two elements is,
where the second element is negligible. -/
theorem fixFft_dft_iff (e : Nat) (some : 1 ≤ e) (few : e ≤ 21) (iq : Iq)
    (small : ∀ k < 2 ^ e, Within 16383 (iq k)) :
    (∀ k < 2 ^ e, Close (8 * e) ((fixFft (sineTable e) e iq).value.1 k) (scaledDft e iq k)) ↔
      2 ≤ e ∨ Negligible (iq 0) (iq 1) := by
  rcases Nat.lt_or_ge e 2 with one | large
  · obtain rfl : e = 1 := by omega
    rw [Nat.cast_one, mul_one, fixFft_dft_two iq small]
    exact ⟨.inr, fun either => either.resolve_left (by decide)⟩
  · refine ⟨fun _ => .inl large, fun _ k inside => close_of_norm ?_⟩
    have near := fixFft_near e large few iq small k inside
    linarith

/-- The transform of the largest samples, of four elements. -/
theorem fixFft_dft_four :
    Close (8 * (2 : Nat)) ((fixFft (sineTable 2) 2 fun _ => (16383, -16383)).value.1 0)
      (scaledDft 2 (fun _ => (16383, -16383)) 0) :=
  (fixFft_dft_iff 2 (by decide) (by decide) _ fun _ _ => within_largest).mpr (.inl (by decide)) 0
    (by decide)

/-- A range of 1.5 MHz with bins of up to 800 kHz has two bins. The first bin is the sum of the two
samples and should be at 16383; it is at half of it. -/
theorem fixFft_two_bins :
    (frequencyRange true (0 : ℚ) 100000000 101500000 800000).exact = true ∧
      (frequencyRange true (0 : ℚ) 100000000 101500000 800000).value.map (·.tune.binE) = some 1 ∧
      ((fixFft (sineTable 1) 1 fun _ => (16383, 0)).value.1 0).1 = 8191 ∧
      (scaledDft 1 (fun _ => (16383, 0)) 0).re = 16383 ∧
      ¬Close (8 * (1 : Nat)) ((fixFft (sineTable 1) 1 fun _ => (16383, 0)).value.1 0)
        (scaledDft 1 (fun _ => (16383, 0)) 0) := by
  have small : ∀ k < 2 ^ 1, Within 16383 (16383, 0) := by
    intro k _
    refine ⟨⟨?_, ?_⟩, ?_, ?_⟩ <;> decide
  have value := fixFft_two (fun _ => (16383, 0)) small 0 (by decide)
  have result : ((fixFft (sineTable 1) 1 fun _ => (16383, 0)).value.1 0).1 = 8191 := by
    rw [value]
    rfl
  have sum : (scaledDft 1 (fun _ => (16383, 0)) 0).re = 16383 := by
    rw [(scaledDft_two _).1]
    simp [toComplex]
  refine ⟨by decide +kernel, by decide +kernel, result, sum, ?_⟩
  rintro ⟨re, _⟩
  rw [result, sum] at re
  norm_num at re

end RtlSdr.Power
