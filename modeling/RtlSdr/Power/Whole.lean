import RtlSdr.Power.Scanner

/-!
# Whole windows

A capture is at least `DEFAULT_BUF_LENGTH` long, which need not be a number of windows of groups.
-/
namespace RtlSdr.Power

open Checked

variable {x ds : Nat} {c : Scan} {ts : TuningState}

/-! ### The sizes of a scan -/

/-- The sizes of a plan as natural numbers: the factor, the number of samples of a capture, and the
number of values after the downsampling. -/
structure Sizes (ts : TuningState) (d n q : Nat) : Prop where
  factor : ts.downsample = d
  samples : ts.elements = n
  length : ts.bufLen.tdiv ts.downsample = q
  positive : 1 ≤ d
  capture : 2 * n = max (2 * 2 ^ ts.binE * d) 16384
  quotient : q = 2 * n / d

theorem exists_sizes (length : ts.bufLen = max (2 * 2 ^ ts.binE * ts.downsample) defaultBufLength)
    (some : 0 < ts.downsample) : ∃ d n q, Sizes ts d n q := by
  obtain ⟨d, factor⟩ := Int.eq_ofNat_of_zero_le some.le
  have capture : ts.bufLen = (2 * max (2 ^ ts.binE * d) 8192 : Nat) := by
    rw [length, factor, defaultBufLength, mul_assoc]
    push_cast
    generalize (2 : Int) ^ ts.binE * d = window
    omega
  refine ⟨d, max (2 ^ ts.binE * d) 8192, 2 * max (2 ^ ts.binE * d) 8192 / d, factor, ?_, ?_, ?_, ?_,
    rfl⟩
  · rw [TuningState.elements, capture]
    omega
  · rw [capture, factor, Int.ofNat_tdiv]
  · omega
  · rw [Nat.mul_assoc]
    generalize 2 ^ ts.binE * d = window
    omega

section

variable {ts : TuningState} {d n q : Nat} (sizes : Sizes ts d n q)
include sizes

theorem Sizes.product : d * q ≤ 2 * n ∧ 2 * n < d * q + d := by
  have positive := sizes.positive
  rw [sizes.quotient]
  exact ⟨Nat.mul_div_le _ _, by rw [← Nat.mul_succ]; exact Nat.lt_mul_div_succ _ positive⟩

theorem Sizes.window_le : 2 * 2 ^ ts.binE ≤ q := by
  rw [sizes.quotient, Nat.le_div_iff_mul_le sizes.positive, sizes.capture]
  exact le_max_left _ _

theorem Sizes.visited {w : Nat} (inside : w < ts.windows) : 2 * 2 ^ ts.binE * w < q := by
  have unit : 0 < 2 * 2 ^ ts.binE := Nat.mul_pos Nat.two_pos (Nat.two_pow_pos _)
  rw [TuningState.windows, sizes.length, Int.toNat_natCast] at inside
  have rounds := (Nat.le_div_iff_mul_le unit).mp inside
  rw [Nat.succ_mul, Nat.mul_comm] at rounds
  omega

theorem Sizes.covered_iff : 2 * 2 ^ ts.binE * ts.windows = q ↔
    16384 ≤ 2 * 2 ^ ts.binE * d ∨ 16384 % (2 * 2 ^ ts.binE * d) < d := by
  have positive := sizes.positive
  have unit : 0 < 2 * 2 ^ ts.binE := Nat.mul_pos Nat.two_pos (Nat.two_pow_pos _)
  have quotient := sizes.quotient
  have capture := sizes.capture
  rw [TuningState.windows, sizes.length, Int.toNat_natCast]
  generalize 2 * 2 ^ ts.binE = window at unit capture
  have divides : window * ((q + window - 1) / window) = q ↔ window ∣ q := by
    refine ⟨fun whole => ⟨_, whole.symm⟩, ?_⟩
    rintro ⟨windows, rfl⟩
    rw [Nat.add_sub_assoc unit, Nat.mul_add_div unit, Nat.div_eq_of_lt (by omega), Nat.add_zero]
  rw [divides]
  rcases le_or_gt 16384 (window * d) with long | short
  · rw [max_eq_left long] at capture
    rw [quotient, capture, Nat.mul_div_cancel _ positive]
    exact iff_of_true (Nat.dvd_refl window) (.inl long)
  · rw [max_eq_right short.le] at capture
    rw [quotient, capture, Nat.dvd_iff_mod_eq_zero, Nat.mul_comm window, Nat.mod_mul]
    have rest := Nat.mod_lt 16384 positive
    refine ⟨fun whole => .inr (by rw [whole]; omega), fun either => ?_⟩
    by_contra some
    have group := Nat.le_mul_of_pos_right d (Nat.pos_of_ne_zero some)
    rw [Nat.mul_comm] at short
    omega

theorem Sizes.window_inside (covered : 2 * 2 ^ ts.binE * ts.windows = q) {w j : Nat}
    (visited : w < ts.windows) (place : j < 2 ^ ts.binE) : d * (2 ^ ts.binE * w + j + 1) ≤ n := by
  have later : 2 ^ ts.binE * (w + 1) ≤ 2 ^ ts.binE * ts.windows := Nat.mul_le_mul_left _ visited
  have groups : d * (2 * (2 ^ ts.binE * w + j + 1)) ≤ d * q := by
    apply Nat.mul_le_mul_left
    rw [← covered, Nat.mul_assoc]
    rw [Nat.mul_succ] at later
    omega
  obtain ⟨below, _⟩ := sizes.product
  rw [Nat.mul_left_comm] at groups
  omega

end

theorem windows_eq_zero (length : 0 ≤ ts.bufLen) (none : ts.downsample ≤ 0) : ts.windows = 0 := by
  have short : ts.bufLen.tdiv ts.downsample ≤ 0 := Int.tdiv_nonpos_of_nonneg_of_nonpos length none
  have bins := Nat.two_pow_pos ts.binE
  rw [TuningState.windows, Int.toNat_of_nonpos short]
  exact Nat.div_eq_of_lt (by omega)

/-! ### The elements of a window -/

/-- The sum of the samples of group `x` of a capture. -/
def captureSum (buf8 : Nat → UInt8 × UInt8) (ds x : Nat) : Int × Int :=
  ∑ t ∈ Finset.range ds, captured buf8 (ds * x + t)

/-- The rounds of the scan cover the downsampled capture exactly. What a round takes for an element
of its window is, up to the average, the sum of `downsample` samples of the capture, as `stored`
keeps it. -/
structure Whole (stored : Int × Int → Int × Int) (ts : TuningState) : Prop where
  some : 0 < ts.windows
  rounds : ∀ c buf8, (scanTune c ts buf8).value = (beforeWindow c ts buf8 ts.windows).1
  covered : (2 * 2 ^ ts.binE * ts.windows : Nat) = ts.bufLen.tdiv ts.downsample
  inside : ∀ w < ts.windows, ∀ j < 2 ^ ts.binE,
    ts.downsample * (2 ^ ts.binE * w + j + 1 : Nat) ≤ ts.elements
  taken : ∀ c buf8, ∀ w < ts.windows, ∀ j < 2 ^ ts.binE,
    beforeProduct c ts buf8 w j (2 ^ ts.binE * w + j) = prepared c ts buf8 (2 ^ ts.binE * w + j)
  sum : ∀ c : Scan, c.boxcar = true → ∀ buf8, ∀ w < ts.windows, ∀ j < 2 ^ ts.binE,
    (downsampled c ts buf8).value (2 ^ ts.binE * w + j) =
      stored (captureSum buf8 ts.downsample.toNat (2 ^ ts.binE * w + j))

theorem captureSum_word (buf8 : Nat → UInt8 × UInt8) (few : ds ≤ 255) (x : Nat) :
    word (captureSum buf8 ds x) = captureSum buf8 ds x := by
  have bounds (m : Nat) : (-127 * (m : Int) ≤ (∑ t ∈ Finset.range m, captured buf8 (ds * x + t)).1 ∧
      (∑ t ∈ Finset.range m, captured buf8 (ds * x + t)).1 ≤ 128 * m) ∧
      -127 * (m : Int) ≤ (∑ t ∈ Finset.range m, captured buf8 (ds * x + t)).2 ∧
      (∑ t ∈ Finset.range m, captured buf8 (ds * x + t)).2 ≤ 128 * m := by
    induction m with
    | zero => exact ⟨⟨le_refl _, le_refl _⟩, le_refl _, le_refl _⟩
    | succ m ih =>
      obtain ⟨re, im⟩ := captured_within buf8 (ds * x + m)
      rw [Finset.sum_range_succ, Prod.fst_add, Prod.snd_add]
      push_cast
      omega
  obtain ⟨re, im⟩ := bounds ds
  exact word_of_within (by unfold captureSum; omega) (by unfold captureSum; omega)

theorem captureSum_loud (many : 256 ≤ ds) :
    word (captureSum (fun _ => (255, 255)) ds x) ≠ captureSum (fun _ => (255, 255)) ds x := by
  have sum : (captureSum (fun _ => (255, 255)) ds x).1 = 128 * ds := by
    have sample (k : Nat) : captured (fun _ => (255, 255)) k = (128, 128) := by simp [captured]
    simp [captureSum, sample, mul_comm]
  intro same
  have below : (word (captureSum (fun _ => (255, 255)) ds x)).1 < 32768 := Int.bmod_lt (by decide)
  rw [same, sum] at below
  omega

theorem Sizes.downsampled_sum {d n q : Nat} (sizes : Sizes ts d n q) (boxcar : c.boxcar = true)
    (passes : ts.downsamplePasses = 0) (buf8 : Nat → UInt8 × UInt8) (inside : d * (x + 1) ≤ n) :
    (downsampled c ts buf8).value x = word (captureSum buf8 ts.downsample.toNat x) := by
  have own := Nat.le_mul_of_pos_left (x + 1) sizes.positive
  rw [downsampled_word boxcar passes sizes.factor sizes.positive buf8
    (by rw [sizes.samples]; omega), sizes.samples, groupSum_whole _ sizes.positive inside,
    sizes.factor]
  rfl

/-- The default options, with a window function and a table that do not matter. -/
def defaultScan : Scan := ⟨true, 0, false, fun _ => 256, ⟨1, fun _ => 0⟩⟩

section

variable {ts : TuningState} (passes : ts.downsamplePasses = 0)
  (length : ts.bufLen = max (2 * 2 ^ ts.binE * ts.downsample) defaultBufLength)
include length

theorem Whole.fits {stored : Int × Int → Int × Int} (whole : Whole stored ts) :
    0 < ts.downsample ∧ (16384 ≤ 2 * 2 ^ ts.binE * ts.downsample ∨
      16384 % (2 * 2 ^ ts.binE * ts.downsample) < ts.downsample) := by
  have some : 0 < ts.downsample := by
    by_contra none
    have positive : 0 ≤ ts.bufLen := by
      rw [length]
      exact le_max_of_le_right (by decide)
    exact whole.some.ne' (windows_eq_zero positive (not_lt.mp none))
  obtain ⟨d, n, q, sizes⟩ := exists_sizes length some
  have covered := whole.covered
  rw [sizes.length] at covered
  have fits := sizes.covered_iff.mp (by exact_mod_cast covered)
  rw [sizes.factor] at some ⊢
  exact ⟨some, by exact_mod_cast fits⟩

include passes

theorem whole_word_iff : Whole word ts ↔ 0 < ts.downsample ∧
    (16384 ≤ 2 * 2 ^ ts.binE * ts.downsample ∨
      16384 % (2 * 2 ^ ts.binE * ts.downsample) < ts.downsample) := by
  refine ⟨fun whole => whole.fits length, ?_⟩
  rintro ⟨some, fits⟩
  obtain ⟨d, n, q, sizes⟩ := exists_sizes length some
  rw [sizes.factor] at fits
  have covered := sizes.covered_iff.mpr (by exact_mod_cast fits)
  have windows : 0 < ts.windows := by
    by_contra none
    have bins := Nat.two_pow_pos ts.binE
    have window := sizes.window_le
    rw [Nat.eq_zero_of_not_pos none] at covered
    omega
  refine ⟨windows, fun c buf8 => scanTune_value c ts buf8, by rw [sizes.length, covered],
    fun w visited j place => ?_, fun c buf8 w _ j _ => beforeProduct_here c ts buf8 w j,
    fun c boxcar buf8 w visited j place => sizes.downsampled_sum boxcar passes buf8
      (sizes.window_inside covered visited place)⟩
  rw [sizes.factor, sizes.samples]
  exact_mod_cast sizes.window_inside covered visited place

theorem whole_id_iff : Whole id ts ↔ Whole word ts ∧ ts.downsample ≤ 255 := by
  constructor
  · intro whole
    have words := (whole_word_iff passes length).mpr (whole.fits length)
    refine ⟨words, ?_⟩
    by_contra large
    -- the loudest capture, in the first element of the first window
    have exactly := whole.sum defaultScan rfl (fun _ => (255, 255)) 0 whole.some 0
      (Nat.two_pow_pos _)
    rw [words.sum defaultScan rfl _ 0 words.some 0 (Nat.two_pow_pos _)] at exactly
    exact captureSum_loud (by omega) exactly
  · rintro ⟨⟨windows, rounds, covered, inside, taken, sum⟩, few⟩
    refine ⟨windows, rounds, covered, inside, taken, fun c boxcar buf8 w visited j place => ?_⟩
    rw [sum c boxcar buf8 w visited j place, captureSum_word buf8 (by omega)]
    rfl

end

/-! ### The ranges -/

/-- The bandwidth is not downsampled, or the capture is one window, or the default length is a
number of windows and less than a group. -/
def Suited (bw : Int) (e : Nat) : Prop :=
  1000000 ≤ bw ∨ 0 < bw ∧ (16384 ≤ 2 * 2 ^ e * (2800000 / bw) ∨
    16384 % (2 * 2 ^ e * (2800000 / bw)) < 2800000 / bw)

theorem factor_narrow {bw : Int} (narrow : bw < 1000000) : factor bw = 2800000 / bw := by
  rw [factor, minimumRate, if_pos narrow, maximumRate, Int.tdiv_eq_ediv_of_nonneg (by decide)]

theorem factor_pos_iff {bw : Int} (narrow : bw < 1000000) : 0 < factor bw ↔ 0 < bw := by
  rcases lt_or_ge 0 bw with positive | none
  · have least : 1 ≤ 2800000 / bw := (Int.le_ediv_iff_mul_le positive).mpr (by omega)
    rw [factor_narrow narrow]
    exact iff_of_true least positive
  · rw [factor, minimumRate, if_pos narrow]
    exact iff_of_false (not_lt.mpr (Int.tdiv_nonpos_of_nonneg_of_nonpos (by decide) none))
      (not_lt.mpr none)

theorem suited_iff (bw : Int) (e : Nat) : Suited bw e ↔ 0 < factor bw ∧
    (16384 ≤ 2 * 2 ^ e * factor bw ∨ 16384 % (2 * 2 ^ e * factor bw) < factor bw) := by
  rcases lt_or_ge bw 1000000 with narrow | wide
  · rw [Suited, factor_pos_iff narrow, factor_narrow narrow]
    simp only [not_le.mpr narrow, false_or]
  · rw [factor, minimumRate, if_neg (not_lt.mpr wide), mul_one]
    refine iff_of_true (.inl wide) ⟨by decide, ?_⟩
    rcases Nat.le_total 13 e with many | few
    · left
      have window : (2 : Int) ^ 13 ≤ 2 ^ e := pow_le_pow_right₀ (by decide) many
      omega
    · right
      have divides : (2 : Int) * 2 ^ e ∣ 16384 := mul_dvd_mul_left 2 (pow_dvd_pow 2 few)
      rw [Int.emod_eq_zero_of_dvd divides]
      decide

theorem factor_le_iff {bw : Int} (some : 0 < factor bw) : factor bw ≤ 255 ↔ 10938 ≤ bw := by
  rcases lt_or_ge bw 1000000 with narrow | wide
  · have positive := (factor_pos_iff narrow).mp some
    rw [factor_narrow narrow, ← Int.lt_add_one_iff, Int.ediv_lt_iff_lt_mul positive]
    omega
  · rw [factor, minimumRate, if_neg (not_lt.mpr wide)]
    omega

/-- A plan of the default mode has whole windows where the pieces of the range are suited to their
bins, and windows with the exact sums where they have 10938 Hz besides. -/
theorem windows_whole_iff {D : Type} [DoubleArith D] [Sub D] (crop : D) (lower upper maxSize : Int)
    (plan : Plan) (built : (frequencyRange true crop lower upper maxSize).value = some plan)
    (bins : 1 ≤ plan.tune.binE) :
    (Whole word plan.tune ↔
        ∃ bw e, IsWidth crop (upper - lower) bw ∧ IsBins maxSize bw e ∧ Suited bw e) ∧
      (Whole id plan.tune ↔ ∃ bw e, IsWidth crop (upper - lower) bw ∧ IsBins maxSize bw e ∧
        Suited bw e ∧ 10938 ≤ bw) := by
  have length := frequencyRange_bufLen built
  have passes := frequencyRange_passes built
  obtain ⟨bw, width, ds, found⟩ := frequencyRange_pieces built bins
  have words : Whole word plan.tune ↔ Suited bw plan.tune.binE := by
    rw [whole_word_iff passes length, suited_iff, ds]
  have pieces (P : Int → Prop) : Suited bw plan.tune.binE ∧ P bw ↔ ∃ bw e,
      IsWidth crop (upper - lower) bw ∧ IsBins maxSize bw e ∧ Suited bw e ∧ P bw := by
    constructor
    · rintro ⟨suited, holds⟩
      exact ⟨bw, _, width, found ((suited_iff _ _).mp suited).1, suited, holds⟩
    · rintro ⟨bw', e, width', exponent, suited, holds⟩
      obtain rfl := width.unique width'
      obtain rfl := (found ((suited_iff _ _).mp suited).1).unique exponent
      exact ⟨suited, holds⟩
  constructor
  · simpa only [words, and_true] using pieces fun _ => True
  · rw [whole_id_iff passes length, words, ds, ← pieces fun bw => 10938 ≤ bw]
    exact and_congr_right fun suited => factor_le_iff ((suited_iff _ _).mp suited).1

/-- What the windows of a plan depend on. -/
def Plan.shape (plan : Plan) : Nat × Int × Int :=
  (plan.tune.binE, plan.tune.downsample, plan.tune.bufLen)

theorem exists_shape {built : Option Plan} {binE : Nat} {downsample bufLen : Int}
    (shape : built.map Plan.shape = some (binE, downsample, bufLen)) :
    ∃ plan, built = some plan ∧ plan.tune.binE = binE ∧ plan.tune.downsample = downsample ∧
      plan.tune.bufLen = bufLen := by
  obtain ⟨plan, built, same⟩ := Option.map_eq_some_iff.mp shape
  cases same
  exact ⟨plan, built, rfl, rfl, rfl⟩

/-- A range of 700 kHz is downsampled by four, and has sixteen windows of 128 bins. -/
theorem windows_whole_four :
    ∃ plan, (frequencyRange true (0 : ℚ) 100000000 100700000 10000).value = some plan ∧
      plan.tune.downsample = 4 ∧ Whole id plan.tune := by
  have shape : (frequencyRange true (0 : ℚ) 100000000 100700000 10000).value.map Plan.shape =
      some (7, 4, 16384) := by decide +kernel
  obtain ⟨plan, built, binE, factor, _⟩ := exists_shape shape
  have width : IsWidth (0 : ℚ) (100700000 - 100000000) 700000 :=
    ⟨1, ⟨⟨le_rfl, .inl (by decide +kernel)⟩, fun _ later => later.1⟩, by decide +kernel⟩
  have bins : IsBins 10000 700000 7 := by
    refine ⟨⟨by decide, .inl (by decide)⟩, ?_⟩
    rintro e ⟨first, fits⟩
    by_contra early
    have fails : ∀ e < 7, ¬((700000 : Int) ≤ 10000 * 2 ^ e ∨ e = 21) := by decide
    exact fails e (not_le.mp early) fits
  exact ⟨plan, built, factor, (windows_whole_iff (0 : ℚ) 100000000 100700000 10000 plan built
    (by rw [binE]; decide)).2.mpr ⟨700000, 7, width, bins, by unfold Suited; decide, by decide⟩⟩

/-- A range of 900 kHz with bins of 10 kHz is downsampled by three, to 5461 numbers, which is not a
multiple of the 256 of a window. Element 2731 is in the last of the 22 windows, and is zero whatever
is captured. -/
theorem windows_zeroed :
    (frequencyRange true (0 : ℚ) 100000000 100900000 10000).exact = true ∧
    ∃ plan, (frequencyRange true (0 : ℚ) 100000000 100900000 10000).value = some plan ∧
      plan.tune.binE = 7 ∧ plan.tune.downsample = 3 ∧ plan.tune.bufLen = 16384 ∧
      ¬2 * 2 ^ 7 ∣ Int.tdiv 16384 3 ∧
      (∀ buf8, (scanTune defaultScan plan.tune buf8).value =
          (beforeWindow defaultScan plan.tune buf8 22).1 ∧
        (downsampled defaultScan plan.tune buf8).value (2 ^ 7 * 21 + 43) = (0, 0)) ∧
      ¬Whole word plan.tune := by
  refine ⟨by decide +kernel, ?_⟩
  have shape : (frequencyRange true (0 : ℚ) 100000000 100900000 10000).value.map Plan.shape =
      some (7, 3, 16384) := by decide +kernel
  obtain ⟨plan, built, binE, factor, length⟩ := exists_shape shape
  have windows : plan.tune.windows = 22 := by
    rw [TuningState.windows, binE, factor, length]
    decide
  refine ⟨plan, built, binE, factor, length, by decide, fun buf8 => ⟨?_, ?_⟩, ?_⟩
  · rw [scanTune_value, windows]
  · have elements : plan.tune.elements = 8192 := by
      rw [TuningState.elements, length]
      rfl
    rw [downsampled_word rfl (frequencyRange_passes built) (by rw [factor]; rfl) (by decide : 0 < 3)
      buf8 (by rw [elements]; decide), elements, groupSum_none _ (by decide)]
    rfl
  · intro whole
    have covered := whole.covered
    rw [windows, binE, factor, length] at covered
    exact absurd covered (by decide)

end RtlSdr.Power
