import RtlSdr.Power.FixFft

/-!
# The range of the fixed point transform

A single component may grow in a pass where the other one shrinks, so what has to be bounded is the
magnitude of the complex elements: a pass takes half of one element plus half of another one that is
rotated, and so does not increase the magnitude but for the rounding, which is less than 4.
-/
namespace RtlSdr.Power

open Checked BitReversal Butterflies

/-! ### A butterfly as a rotation of complex numbers -/

noncomputable def toComplex (x : Int × Int) : ℂ := ⟨x.1, x.2⟩

variable {bound : ℝ} {x : Int × Int} {size r m : Nat} {iq : Iq}

theorem norm_le_of_parts {z : ℂ} (re : |z.re| ≤ bound) (im : |z.im| ≤ bound) : ‖z‖ ≤ 2 * bound := by
  have parts := Complex.norm_le_abs_re_add_abs_im z
  linarith

theorem scaled_real (a b : Int) : |(scaled a b : ℝ) - a * b / 32768| ≤ 1 / 2 := by
  obtain ⟨low, high⟩ := scaled_near a b
  have low : (-16384 : ℝ) ≤ 32768 * scaled a b - a * b := by exact_mod_cast low
  have high : (32768 * scaled a b - a * b : ℝ) ≤ 16384 := by exact_mod_cast high
  rw [abs_le]
  constructor <;> linarith

theorem halved_real (x : Int) : -(1 / 2) ≤ (halved x : ℝ) - x / 2 ∧ (halved x : ℝ) - x / 2 ≤ 0 := by
  rw [halved_eq]
  have low : x - 1 ≤ 2 * (x / 2) := by omega
  have high : 2 * (x / 2) ≤ x := by omega
  have low : (x : ℝ) - 1 ≤ 2 * Int.cast (x / 2) := by exact_mod_cast low
  have high : 2 * (Int.cast (x / 2) : ℝ) ≤ x := by exact_mod_cast high
  constructor <;> linarith

theorem turned_near (w x : Int × Int) :
    |(((turned w x).1 : Int) : ℝ) - (toComplex w * toComplex x / 32768).re| ≤ 1 ∧
      |(((turned w x).2 : Int) : ℝ) - (toComplex w * toComplex x / 32768).im| ≤ 1 := by
  have rr := abs_le.mp (scaled_real w.1 x.1)
  have ii := abs_le.mp (scaled_real w.2 x.2)
  have ri := abs_le.mp (scaled_real w.1 x.2)
  have ir := abs_le.mp (scaled_real w.2 x.1)
  have re : (toComplex w * toComplex x / 32768).re =
      (w.1 : ℝ) * x.1 / 32768 - w.2 * x.2 / 32768 := by
    simp [toComplex, sub_div]
  have im : (toComplex w * toComplex x / 32768).im =
      (w.1 : ℝ) * x.2 / 32768 + w.2 * x.1 / 32768 := by
    simp [toComplex, add_div]
  rw [re, im, abs_le, abs_le, turned, Int.cast_sub, Int.cast_add]
  refine ⟨⟨?_, ?_⟩, ?_, ?_⟩
  · linarith only [rr.1, ii.2]
  · linarith only [rr.2, ii.1]
  · linarith only [ri.1, ir.1]
  · linarith only [ri.2, ir.2]

theorem fly_near (w x y : Int × Int) :
    ‖toComplex (fly w x y).1 - (toComplex x / 2 + toComplex w * toComplex y / 32768)‖ ≤ 3 ∧
      ‖toComplex (fly w x y).2 - (toComplex x / 2 - toComplex w * toComplex y / 32768)‖ ≤ 3 := by
  obtain ⟨turnedRe, turnedIm⟩ := turned_near w y
  have re := halved_real x.1
  have im := halved_real x.2
  have halfRe : (toComplex x / 2).re = (x.1 : ℝ) / 2 := by simp [toComplex]
  have halfIm : (toComplex x / 2).im = (x.2 : ℝ) / 2 := by simp [toComplex]
  have bound : (3 : ℝ) = 2 * (3 / 2) := by norm_num
  rw [abs_le] at turnedRe turnedIm
  rw [bound]
  constructor
  · apply norm_le_of_parts
    · rw [Complex.sub_re, Complex.add_re, halfRe, abs_le]
      simp only [toComplex, fly, Int.cast_add] at turnedRe ⊢
      exact ⟨by linarith only [turnedRe.1, re.1], by linarith only [turnedRe.2, re.2]⟩
    · rw [Complex.sub_im, Complex.add_im, halfIm, abs_le]
      simp only [toComplex, fly, Int.cast_add] at turnedIm ⊢
      exact ⟨by linarith only [turnedIm.1, im.1], by linarith only [turnedIm.2, im.2]⟩
  · apply norm_le_of_parts
    · rw [Complex.sub_re, Complex.sub_re, halfRe, abs_le]
      simp only [toComplex, fly, Int.cast_sub] at turnedRe ⊢
      exact ⟨by linarith only [turnedRe.2, re.1], by linarith only [turnedRe.1, re.2]⟩
    · rw [Complex.sub_im, Complex.sub_im, halfIm, abs_le]
      simp only [toComplex, fly, Int.cast_sub] at turnedIm ⊢
      exact ⟨by linarith only [turnedIm.2, im.1], by linarith only [turnedIm.1, im.2]⟩

theorem fly_norm {w y : Int × Int} (factor : ‖toComplex w‖ ≤ 16385)
    (first : ‖toComplex x‖ ≤ bound) (second : ‖toComplex y‖ ≤ bound) (small : bound ≤ 32768) :
    ‖toComplex (fly w x y).1‖ ≤ bound + 4 ∧ ‖toComplex (fly w x y).2‖ ≤ bound + 4 := by
  obtain ⟨upper, lower⟩ := fly_near w x y
  have half : ‖toComplex x / 2‖ ≤ bound / 2 := by
    rw [norm_div, Complex.norm_ofNat]
    linarith
  have turn : ‖toComplex w * toComplex y / 32768‖ ≤ bound / 2 + 1 := by
    have product : ‖toComplex w‖ * ‖toComplex y‖ ≤ 16385 * bound :=
      mul_le_mul factor second (norm_nonneg _) (by norm_num)
    rw [norm_div, norm_mul, Complex.norm_ofNat]
    linarith
  have sum := norm_add_le (toComplex x / 2) (toComplex w * toComplex y / 32768)
  have difference := norm_sub_le (toComplex x / 2) (toComplex w * toComplex y / 32768)
  constructor
  · have reached := norm_le_insert' (toComplex (fly w x y).1)
      (toComplex x / 2 + toComplex w * toComplex y / 32768)
    linarith
  · have reached := norm_le_insert' (toComplex (fly w x y).2)
      (toComplex x / 2 - toComplex w * toComplex y / 32768)
    linarith

theorem within_of_norm (bound : Nat) (small : ‖toComplex x‖ ≤ bound) : Within bound x := by
  have re : |(x.1 : ℝ)| ≤ bound := (Complex.abs_re_le_norm (toComplex x)).trans small
  have im : |(x.2 : ℝ)| ≤ bound := (Complex.abs_im_le_norm (toComplex x)).trans small
  refine ⟨abs_le.mp ?_, abs_le.mp ?_⟩
  · exact_mod_cast re
  · exact_mod_cast im

/-! ### The rotations of the table -/

theorem cRound_near (x : ℝ) : |(cRound x : ℝ) - x| ≤ 1 / 2 := by
  rw [cRound]
  split_ifs with negative
  · have swap : -(round (-x) : ℝ) - x = -x - round (-x) := by ring
    rw [Int.cast_neg, swap]
    exact abs_sub_round (-x)
  · rw [abs_sub_comm]
    exact abs_sub_round x

theorem sineTable_entry (size i : Nat) :
    (sineTable size).sinewave i = cRound (32767 * Real.sin (angle size i)) := by
  change cRound ((32767 : Nat) * _) = _
  rw [Nat.cast_ofNat]

/-- `wr` and `wi`, when they are in range. -/
def rotation (s : Wave) (m k : Nat) : Int × Int :=
  (halved (s.sinewave (m * 2 ^ k + s.nWave / 4)), halved (-s.sinewave (m * 2 ^ k)))

theorem sineTable_within (size i : Nat) :
    -32767 ≤ (sineTable size).sinewave i ∧ (sineTable size).sinewave i ≤ 32767 := by
  have near := abs_le.mp (cRound_near (32767 * Real.sin (angle size i)))
  have low := Real.neg_one_le_sin (angle size i)
  have high := Real.sin_le_one (angle size i)
  rw [← sineTable_entry] at near
  have above : (-32768 : ℝ) < (sineTable size).sinewave i := by linarith
  have below : ((sineTable size).sinewave i : ℝ) < 32768 := by linarith
  have above : -32768 < (sineTable size).sinewave i := by exact_mod_cast above
  have below : (sineTable size).sinewave i < 32768 := by exact_mod_cast below
  omega

theorem load_gives {s : Wave} {i : Nat} (inside : i < s.nWave * 3 / 4) :
    (s.load i).Gives (· = s.sinewave i) := ⟨decide_eq_true inside, rfl⟩

theorem twiddle_gives (later : r < size) (inside : m < 2 ^ r) :
    (twiddle (sineTable size) m (size - 1 - r)).Gives
      (· = rotation (sineTable size) m (size - 1 - r)) := by
  have whole : 2 ^ r * 2 ^ (size - 1 - r) * 2 = 2 ^ size := by
    rw [← Nat.pow_add, ← Nat.pow_succ]
    congr 1
    omega
  have below : m * 2 ^ (size - 1 - r) < 2 ^ r * 2 ^ (size - 1 - r) :=
    Nat.mul_lt_mul_of_pos_right inside (Nat.two_pow_pos _)
  have room : m * 2 ^ (size - 1 - r) + (sineTable size).nWave / 4 <
      (sineTable size).nWave * 3 / 4 := by
    change m * 2 ^ (size - 1 - r) + 2 ^ size / 4 < 2 ^ size * 3 / 4
    rcases Nat.lt_or_ge size 2 with small | large
    · obtain rfl : size = 1 := by omega
      omega
    · have quarter : 2 ^ size = 4 * 2 ^ (size - 2) := by
        rw [← Nat.sub_add_cancel large, Nat.pow_add, Nat.add_sub_cancel]
        omega
      omega
  obtain ⟨low, high⟩ := sineTable_within size (m * 2 ^ (size - 1 - r))
  rw [twiddle, Nat.shiftLeft_eq]
  refine (load_gives room).pass ?_
  refine (load_gives (by omega)).pass ?_
  refine (wrapping16_gives (by omega) (by omega)).pass ?_
  exact gives_pure rfl

theorem half_near (x : ℝ) : |(halved (cRound x) : ℝ) - x / 2| ≤ 3 / 4 ∧
    |(halved (-cRound x) : ℝ) + x / 2| ≤ 3 / 4 := by
  have near := abs_le.mp (cRound_near x)
  have half := halved_real (cRound x)
  have other := halved_real (-cRound x)
  rw [Int.cast_neg] at other
  rw [abs_le, abs_le]
  refine ⟨⟨?_, ?_⟩, ?_, ?_⟩
  · linarith only [near.1, half.1]
  · linarith only [near.2, half.2]
  · linarith only [near.2, other.1]
  · linarith only [near.1, other.2]

theorem rotation_near (large : 2 ≤ size) (m k : Nat) :
    ‖toComplex (rotation (sineTable size) m k) -
        32767 / 2 * Complex.exp ((-angle size (m * 2 ^ k) : ℝ) * Complex.I)‖ ≤ 3 / 2 := by
  have quarter : (sineTable size).sinewave (m * 2 ^ k + (sineTable size).nWave / 4) =
      cRound (32767 * Real.cos (angle size (m * 2 ^ k))) := by
    have four : (sineTable size).nWave / 4 = 2 ^ (size - 2) := by
      change 2 ^ size / 4 = _
      rw [← Nat.sub_add_cancel large, Nat.pow_add, Nat.add_sub_cancel]
      exact Nat.mul_div_cancel _ (by decide)
    have split : (2 : ℝ) ^ size = 2 ^ (size - 2) * 4 := by
      rw [← Nat.sub_add_cancel large, pow_add, Nat.add_sub_cancel]
      norm_num
    -- a quarter of the wave later the sine is the cosine
    have later : angle size (m * 2 ^ k + (sineTable size).nWave / 4) =
        angle size (m * 2 ^ k) + Real.pi / 2 := by
      rw [four, angle, angle]
      push_cast
      rw [split]
      field_simp
      ring
    rw [sineTable_entry, later, Real.sin_add_pi_div_two]
  have re := (half_near (32767 * Real.cos (angle size (m * 2 ^ k)))).1
  have im := (half_near (32767 * Real.sin (angle size (m * 2 ^ k)))).2
  have bound : (3 / 2 : ℝ) = 2 * (3 / 4) := by norm_num
  have scale : (32767 / 2 : ℂ) = (32767 / 2 : ℝ) := by norm_num
  have exactRe : (32767 / 2 * Complex.exp ((-angle size (m * 2 ^ k) : ℝ) * Complex.I)).re =
      32767 * Real.cos (angle size (m * 2 ^ k)) / 2 := by
    rw [scale, Complex.re_ofReal_mul, Complex.exp_ofReal_mul_I_re, Real.cos_neg]
    ring
  have exactIm : (32767 / 2 * Complex.exp ((-angle size (m * 2 ^ k) : ℝ) * Complex.I)).im =
      -(32767 * Real.sin (angle size (m * 2 ^ k)) / 2) := by
    rw [scale, Complex.im_ofReal_mul, Complex.exp_ofReal_mul_I_im, Real.sin_neg]
    ring
  rw [bound]
  apply norm_le_of_parts
  · rw [Complex.sub_re, exactRe, toComplex, rotation, quarter]
    exact re
  · rw [Complex.sub_im, exactIm, sub_neg_eq_add, toComplex, rotation,
      sineTable_entry size (m * 2 ^ k)]
    exact im

/-- A table of one entry has the sine of zero in the place of the cosine. -/
theorem rotation_two : rotation (sineTable 1) 0 0 = (0, 0) := by
  have zero : (sineTable 1).sinewave 0 = 0 := by
    rw [sineTable_entry, angle]
    simp [cRound]
  change (halved ((sineTable 1).sinewave 0), halved (-(sineTable 1).sinewave 0)) = (0, 0)
  rw [zero]
  rfl

theorem rotation_norm (later : r < size) (inside : m < 2 ^ r) :
    ‖toComplex (rotation (sineTable size) m (size - 1 - r))‖ ≤ 16385 := by
  rcases Nat.lt_or_ge size 2 with small | large
  · obtain rfl : size = 1 := by omega
    obtain rfl : r = 0 := by omega
    obtain rfl : m = 0 := by omega
    have none : toComplex (0, 0) = 0 := by simp [toComplex, Complex.ext_iff]
    rw [rotation_two, none, norm_zero]
    norm_num
  · have near := rotation_near large m (size - 1 - r)
    have reached := norm_le_insert' (toComplex (rotation (sineTable size) m (size - 1 - r)))
      (32767 / 2 * Complex.exp ((-angle size (m * 2 ^ (size - 1 - r)) : ℝ) * Complex.I))
    rw [norm_mul, Complex.norm_exp_ofReal_mul_I, norm_div, Complex.norm_ofNat,
      Complex.norm_ofNat] at reached
    linarith

/-! ### The passes -/

/-- The array after the pass with blocks of `2 * 2 ^ r` elements. -/
def flown (s : Wave) (r : Nat) (iq : Iq) : Nat → Int × Int :=
  passed (2 ^ r) (fun j => fly (rotation s j (s.log2NWave - 1 - r))) iq

theorem flown_lower (s : Wave) {j : Nat} (iq : Iq) (b : Nat) (place : j < 2 ^ r) :
    flown s r iq (2 ^ r * (2 * b) + j) =
      (fly (rotation s j (s.log2NWave - 1 - r)) (iq (2 ^ r * (2 * b) + j))
        (iq (2 ^ r * (2 * b + 1) + j))).1 := by
  obtain ⟨⟨_, lower, _⟩, _⟩ := pair_place place b
  have here : 2 * 2 ^ r * b + j = 2 ^ r * (2 * b) + j := by ring
  have other : 2 ^ r * (2 * b) + j + 2 ^ r = 2 ^ r * (2 * b + 1) + j := by ring
  rw [here] at lower
  rw [flown, passed, lower, if_pos place, other]

theorem flown_upper (s : Wave) {j : Nat} (iq : Iq) (b : Nat) (place : j < 2 ^ r) :
    flown s r iq (2 ^ r * (2 * b + 1) + j) =
      (fly (rotation s j (s.log2NWave - 1 - r)) (iq (2 ^ r * (2 * b) + j))
        (iq (2 ^ r * (2 * b + 1) + j))).2 := by
  obtain ⟨_, _, upper, _⟩ := pair_place place b
  have here : 2 * 2 ^ r * b + j + 2 ^ r = 2 ^ r * (2 * b + 1) + j := by ring
  have other : 2 ^ r * (2 * b + 1) + j - 2 ^ r = 2 ^ r * (2 * b) + j := by
    rw [← here, Nat.add_sub_cancel]
    ring
  rw [here] at upper
  rw [flown, passed, upper, if_neg (by omega), Nat.add_sub_cancel, other]

theorem exists_pair {x : Nat} (later : r < m) (inside : x < 2 ^ m) :
    ∃ b j, j < 2 ^ r ∧ (x = 2 ^ r * (2 * b) + j ∨ x = 2 ^ r * (2 * b + 1) + j) ∧
      2 ^ r * (2 * b) + j < 2 ^ m ∧ 2 ^ r * (2 * b + 1) + j < 2 ^ m := by
  have positive := Nat.two_pow_pos r
  have blocks : 2 ^ m = 2 * 2 ^ r * 2 ^ (m - (r + 1)) := by
    rw [← Nat.pow_succ', ← Nat.pow_add, Nat.add_sub_of_le later]
  have block : x / (2 * 2 ^ r) < 2 ^ (m - (r + 1)) := by
    rw [Nat.div_lt_iff_lt_mul (by omega), Nat.mul_comm, ← blocks]
    exact inside
  have room : 2 * 2 ^ r * (x / (2 * 2 ^ r) + 1) ≤ 2 ^ m := by
    rw [blocks]
    exact Nat.mul_le_mul_left _ block
  have whole := Nat.div_add_mod x (2 * 2 ^ r)
  have small := Nat.mod_lt x (by omega : 0 < 2 * 2 ^ r)
  have first : 2 ^ r * (2 * (x / (2 * 2 ^ r))) = 2 * 2 ^ r * (x / (2 * 2 ^ r)) := by ring
  have second : 2 ^ r * (2 * (x / (2 * 2 ^ r)) + 1) = 2 * 2 ^ r * (x / (2 * 2 ^ r)) + 2 ^ r := by
    ring
  rw [Nat.mul_add] at room
  by_cases lower : x % (2 * 2 ^ r) < 2 ^ r
  · exact ⟨x / (2 * 2 ^ r), x % (2 * 2 ^ r), lower, .inl (by omega), by omega, by omega⟩
  · exact ⟨x / (2 * 2 ^ r), x % (2 * 2 ^ r) - 2 ^ r, by omega, .inr (by omega), by omega, by omega⟩

/-- The elements have the magnitude of at most `bound`. -/
def Bounded (n : Nat) (bound : ℝ) (iq : Iq) : Prop := ∀ x < n, ‖toComplex (iq x)‖ ≤ bound

theorem Bounded.flown (bounded : Bounded (2 ^ m) bound iq) (later : r < m) (table : m ≤ size)
    (small : bound ≤ 32768) : Bounded (2 ^ m) (bound + 4) (flown (sineTable size) r iq) := by
  intro x inside
  obtain ⟨b, j, place, here, first, second⟩ := exists_pair later inside
  have factor := rotation_norm (later.trans_le table) place
  obtain ⟨upper, lower⟩ := fly_norm factor (bounded _ first) (bounded _ second) small
  rcases here with rfl | rfl
  · rw [flown_lower _ _ _ place]
    exact upper
  · rw [flown_upper _ _ _ place]
    exact lower

theorem forStep_blocks {σ : Type} {half count j : Nat} (place : j < half)
    (body : Nat → σ → Checked σ) (s : σ) :
    forStep j (2 * half * count) (half <<< 1) body s =
      forRange (fun block => body (2 * half * block + j)) count s := by
  have rounds : (2 * half * count - j + 2 * half - 1) / (2 * half) = count := by
    rcases Nat.eq_zero_or_pos count with rfl | some
    · rw [Nat.mul_zero, Nat.zero_sub, Nat.zero_add]
      exact Nat.div_eq_of_lt (by omega)
    · have room : 2 * half ≤ 2 * half * count := Nat.le_mul_of_pos_right _ some
      have split : 2 * half * count - j + 2 * half - 1 = 2 * half * count + (2 * half - 1 - j) := by
        omega
      rw [split, Nat.mul_add_div (by omega), Nat.div_eq_of_lt (by omega), Nat.add_zero]
  have twice : half <<< 1 = 2 * half := by
    rw [Nat.shiftLeft_eq, Nat.pow_one, Nat.mul_comm]
  rw [forStep, twice, rounds]
  congr 1
  funext block
  rw [Nat.add_comm]

theorem pass_flown (bounded : Bounded (2 ^ m) bound iq) (later : r < m) (table : m ≤ size)
    (small : bound ≤ 31000) :
    (pass (sineTable size) (2 ^ m) (2 ^ r) (size - 1 - r) iq).Gives
      fun b => ∀ x < 2 ^ m, b x = flown (sineTable size) r iq x := by
  have blocks : 2 ^ m = 2 * 2 ^ r * 2 ^ (m - (r + 1)) := by
    rw [← Nat.pow_succ', ← Nat.pow_add, Nat.add_sub_of_le later]
  -- with the rotation of each place known, the loops are those of `pass_gives`
  have same : pass (sineTable size) (2 ^ m) (2 ^ r) (size - 1 - r) iq =
      forRange (fun j => forRange (fun block =>
        flyRound (2 ^ m) (2 ^ r) (rotation (sineTable size) j (size - 1 - r))
          (2 * 2 ^ r * block + j)) (2 ^ (m - (r + 1)))) (2 ^ r) iq := by
    apply forRange_congr
    intro j place s
    rw [(twiddle_gives (later.trans_le table) place).eq_pure, pure_bind]
    nth_rewrite 1 [blocks]
    exact forStep_blocks place _ s
  have loops : (forRange (fun j => forRange (fun block =>
      flyRound (2 ^ m) (2 ^ r) (rotation (sineTable size) j (size - 1 - r))
        (2 * 2 ^ r * block + j)) (2 ^ (m - (r + 1)))) (2 ^ r) iq).Gives
      fun b => ∀ x < 2 * 2 ^ r * 2 ^ (m - (r + 1)),
        b x = passed (2 ^ r) (fun j => fly (rotation (sineTable size) j (size - 1 - r))) iq x := by
    refine pass_gives (Nat.two_pow_pos r)
      (fun j => flyRound (2 ^ m) (2 ^ r) (rotation (sineTable size) j (size - 1 - r))) ?_
    intro j place block inside s first second
    have room : 2 * 2 ^ r * (block + 1) ≤ 2 ^ m := by
      rw [blocks]
      exact Nat.mul_le_mul_left _ inside
    rw [Nat.mul_add] at room
    have before := bounded (2 * 2 ^ r * block + j) (by omega)
    have after := bounded (2 * 2 ^ r * block + j + 2 ^ r) (by omega)
    have factor := rotation_norm (later.trans_le table) place
    rw [← first] at before
    rw [← second] at after
    obtain ⟨upper, lower⟩ := fly_norm factor before after (by linarith)
    exact flyRound_gives (by omega) (Nat.two_pow_pos r)
      (within_of_norm 16385 (by exact_mod_cast factor))
      (within_of_norm 32000 (by push_cast; linarith))
      (within_of_norm 32000 (by push_cast; linarith))
      (within_of_norm 32000 (by push_cast; linarith))
  rw [same]
  refine loops.mono fun b values x inside => ?_
  rw [blocks] at inside
  exact values x inside

/-- The magnitude of the elements before pass `r`. -/
noncomputable def magnitude (r : Nat) : ℝ := 23170 + 4 * r

theorem magnitude_small (few : r ≤ 21) : magnitude r ≤ 31000 := by
  have cast : (r : ℝ) ≤ 21 := by exact_mod_cast few
  rw [magnitude]
  linarith

theorem magnitude_start (small : Within 16383 x) : ‖toComplex x‖ ≤ magnitude 0 := by
  obtain ⟨re, im⟩ := small
  have re : x.1 * x.1 ≤ 16383 * 16383 := by nlinarith
  have im : x.2 * x.2 ≤ 16383 * 16383 := by nlinarith
  have squared : ‖toComplex x‖ ^ 2 ≤ 23170 ^ 2 := by
    rw [toComplex, Complex.sq_norm, Complex.normSq_mk]
    have re : (x.1 * x.1 : ℝ) ≤ 16383 * 16383 := by exact_mod_cast re
    have im : (x.2 * x.2 : ℝ) ≤ 16383 * 16383 := by exact_mod_cast im
    linarith
  rw [magnitude, Nat.cast_zero, mul_zero, add_zero]
  exact le_of_sq_le_sq squared (by norm_num)

/-- The variables before pass `r`. -/
structure BeforePass (size m : Nat) (P : Nat → Iq → Prop) (r : Nat) (p : Pass) : Prop where
  width : p.l = 2 ^ r
  shift : p.k = size - 1 - r
  bounded : Bounded (2 ^ m) (magnitude r) p.iq
  kept : P r p.iq

theorem BeforePass.next {P : Nat → Iq → Prop} {p : Pass} (before : BeforePass size m P r p)
    (table : m ≤ size) (few : size ≤ 21)
    (step : ∀ r < m, ∀ a b, Bounded (2 ^ m) (magnitude r) a → P r a →
      (∀ x < 2 ^ m, b x = flown (sineTable size) r a x) → P (r + 1) b) (later : r < m) :
    (passRound (sineTable size) (2 ^ m) p).Gives (BeforePass size m P (r + 1)) := by
  obtain ⟨l, k, a⟩ := p
  obtain ⟨rfl, rfl, bounded, kept⟩ := before
  have small := magnitude_small (by omega : r ≤ 21)
  refine (pass_flown bounded later table small).bind fun b values => gives_pure ⟨?_, ?_, ?_, ?_⟩
  · rw [Nat.shiftLeft_eq, Nat.pow_one, Nat.pow_succ]
  · exact Nat.sub_sub _ r 1
  · intro x inside
    change ‖toComplex (b x)‖ ≤ _
    have grown := bounded.flown later table (by linarith) x inside
    have more : magnitude r + 4 = magnitude (r + 1) := by
      rw [magnitude, magnitude]
      push_cast
      ring
    rw [values x inside, ← more]
    exact grown
  · exact step r later a b bounded kept values

/-- Whatever every pass keeps holds of the result, and every step is exact. -/
theorem fixFft_gives (table : m ≤ size) (few : size ≤ 21) (iq : Iq)
    (small : ∀ k < 2 ^ m, Within 16383 (iq k)) (P : Nat → Iq → Prop)
    (start : ∀ a, (∀ k < 2 ^ m, a k = iq (rev m k)) → P 0 a)
    (step : ∀ r < m, ∀ a b, Bounded (2 ^ m) (magnitude r) a → P r a →
      (∀ x < 2 ^ m, b x = flown (sineTable size) r a x) → P (r + 1) b) :
    (fixFft (sineTable size) m iq).Gives fun result => P m result.1 ∧ result.2 = 0 := by
  have fits : ¬1 <<< m > (sineTable size).nWave := by
    rw [Nat.one_shiftLeft]
    exact Nat.not_lt.mpr (Nat.pow_le_pow_right (by decide) table)
  rw [fixFft, if_neg fits, Nat.one_shiftLeft]
  refine (reorder_gives m iq).bind fun ordered order => ?_
  have passes : (whileLoop (fun p : Pass => p.l < 2 ^ m) (passRound (sineTable size) (2 ^ m))
      (2 ^ m) ⟨1, size - 1, ordered.iq⟩).Gives (BeforePass size m P m) := by
    refine whileLoop_gives (BeforePass size m P) m ?_ ?_ (2 ^ m) 0 ?_ (Nat.zero_le m) _
      ⟨rfl, rfl, ?_, start _ order⟩
    · intro r later p before
      obtain ⟨l, k, a⟩ := p
      exact ⟨decide_eq_true (before.width ▸ Nat.pow_lt_pow_right (by decide) later),
        before.next table few step later⟩
    · intro p after
      exact decide_eq_false (by rw [after.width]; exact Nat.lt_irrefl _)
    · rw [Nat.zero_add]
      exact Nat.lt_two_pow_self.le
    · intro x inside
      change ‖toComplex (ordered.iq x)‖ ≤ _
      rw [order x inside]
      exact magnitude_start (small _ (rev_lt m x))
  exact passes.bind fun done after => gives_pure ⟨after.kept, rfl⟩

/-- Every value that is stored fits into 16 bits, every other one into an `int`, and every index is
inside its array. -/
theorem fixFft_exact (size m : Nat) (table : m ≤ size) (few : size ≤ 21) (iq : Iq)
    (small : ∀ k < 2 ^ m, Within 16383 (iq k)) : (fixFft (sineTable size) m iq).exact = true :=
  (fixFft_gives table few iq small (fun _ _ => True) (fun _ _ => trivial)
    fun _ _ _ _ _ _ _ => trivial).1

theorem within_largest : Within 16383 (16383, -16383) := by
  refine ⟨⟨?_, ?_⟩, ?_, ?_⟩ <;> decide

/-- The longest transform, of the largest samples. -/
theorem fixFft_exact_largest : (fixFft (sineTable 21) 21 fun _ => (16383, -16383)).exact = true :=
  fixFft_exact 21 21 (Nat.le_refl 21) (Nat.le_refl 21) _ fun _ _ => within_largest

end RtlSdr.Power
