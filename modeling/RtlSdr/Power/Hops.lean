import RtlSdr.Librtlsdr.Resampler
import RtlSdr.Power.Plan

/-!
# The hops of a range

`frequency_range` looks for the fewest pieces that one capture can take. The first bandwidth it
tries is that of the whole range, and `(int)` of a `double` that does not fit is undefined. On x86
the result is `INT_MIN`: the search ends with one piece, and the factor and the rate are zero. Where
the first bandwidth fits, all later ones do.
-/
namespace RtlSdr.Power

open Checked DoubleArith

/-! ### Conversions -/

/-- Exact numbers with the conversion to `int` of x86. -/
structure Sse where
  value : ℚ

/-- What does not fit into an `int` becomes `INT_MIN`. -/
instance : DoubleArith Sse where
  add x y := ⟨x.value + y.value⟩
  mul x y := ⟨x.value * y.value⟩
  div x y := ⟨x.value / y.value⟩
  ofInt n := ⟨n⟩
  trunc x :=
    if -2147483648 ≤ trunc x.value ∧ trunc x.value < 2147483648 then trunc x.value
    else -2147483648

instance : Sub Sse := ⟨fun x y => ⟨x.value - y.value⟩⟩

def used (crop : ℚ) (bw : Int) : Int := ⌊bw / (1 - crop)⌋

/-- A number that is not negative, as an `int`. -/
def converted (x : Int) : Int := if x < 2147483648 then x else -2147483648

section

variable {crop : ℚ} (least : 0 ≤ crop) (most : crop ≤ 1 / 2)

include most in
theorem cropped_sse {bw : Int} (nonneg : 0 ≤ bw) :
    cropped (⟨crop⟩ : Sse) bw = pure (converted (used crop bw)) := by
  have quotient : (0 : ℚ) ≤ bw / (1 - crop) :=
    div_nonneg (by exact_mod_cast nonneg) (by linarith)
  have floor : trunc (ofInt bw / (ofInt 1 - (⟨crop⟩ : Sse))).value = used crop bw := by
    change trunc ((bw : ℚ) / (((1 : Int) : ℚ) - crop)) = _
    rw [Int.cast_one, trunc_nonneg quotient, used]
  have positive : 0 ≤ used crop bw := Int.floor_nonneg.mpr quotient
  change signed 32 (if _ ∧ _ then _ else _) = _
  rw [floor, converted]
  split_ifs
  · exact signed_eq (by omega) (by omega)
  · omega
  · omega
  · exact signed_eq (by decide) (by decide)

include least most in
theorem le_used {bw : Int} (nonneg : 0 ≤ bw) : bw ≤ used crop bw := by
  have real : (0 : ℚ) ≤ bw := by exact_mod_cast nonneg
  rw [used, Int.le_floor, le_div_iff₀ (by linarith)]
  nlinarith

include most in
theorem used_mono {bw wide : Int} (narrow : bw ≤ wide) : used crop bw ≤ used crop wide := by
  have real : (bw : ℚ) ≤ wide := by exact_mod_cast narrow
  exact Int.floor_le_floor (div_le_div_of_nonneg_right real (by linarith))

include most in
/-- Half of a bandwidth has half of the margins, up to the rounding. -/
theorem used_half {bw wide : Int} (half : wide ≤ 2 * bw + 1) :
    used crop wide ≤ 2 * used crop bw + 3 := by
  have positive : 0 < 1 - crop := by linarith
  have below : (bw : ℚ) / (1 - crop) < used crop bw + 1 := Int.lt_floor_add_one _
  have real : (wide : ℚ) ≤ 2 * bw + 1 := by exact_mod_cast half
  have single : 1 / (1 - crop) ≤ 2 := by
    rw [div_le_iff₀ positive]
    linarith
  refine Int.lt_add_one_iff.mp (Int.floor_lt.mpr ?_)
  push_cast
  calc (wide : ℚ) / (1 - crop) ≤ (2 * bw + 1) / (1 - crop) :=
        div_le_div_of_nonneg_right real positive.le
    _ = 2 * (bw / (1 - crop)) + 1 / (1 - crop) := by ring
    _ < 2 * used crop bw + 3 + 1 := by linarith

end

/-! ### The search -/

variable {D : Type} [DoubleArith D] [Sub D]

theorem evenRanges_exact {crop : D} {span : Int}
    (conversion : ∀ i : Nat, (cropped crop (span.tdiv i)).exact = true) (left i : Nat) :
    (evenRanges crop span left i).exact = true := by
  induction left generalizing i with
  | zero => rw [evenRanges, exact_bind, conversion, exact_pure, Bool.true_and]
  | succ left ih =>
    rw [evenRanges, exact_bind, conversion, Bool.true_and]
    split_ifs
    · exact ih (i + 1)
    · rfl

theorem evenRanges_eq {crop : D} {span : Int} {bw : Nat → Int}
    (conversion : ∀ i : Nat, cropped crop (span.tdiv i) = pure (bw i)) (left i : Nat) :
    ∃ k, i ≤ k ∧ k ≤ i + left ∧ (∀ j, i ≤ j → j < k → maximumRate < bw j) ∧
      evenRanges crop span left i =
        pure ⟨if bw k > maximumRate then 0 else k, span.tdiv k, bw k, 1, 0, 0⟩ := by
  have width : pieceWidth crop span = bw := by
    funext i
    rw [pieceWidth, conversion, value_pure]
  obtain ⟨k, least, value⟩ := evenRanges_least crop span left i
  rw [width] at least value
  refine ⟨k, least.1.1, least.2 ⟨Nat.le_add_right i left, .inr rfl⟩, fun j start before => ?_,
    Checked.ext value (evenRanges_exact (fun i => by rw [conversion, exact_pure]) left i)⟩
  by_contra narrow
  exact absurd (least.2 ⟨start, .inl (not_lt.mp narrow)⟩) (not_le.mpr before)

/-- A number of pieces that the rest of `frequency_range` can go on with. -/
structure Chosen (crop : ℚ) (span : Int) (k : Nat) : Prop where
  first : 1 ≤ k
  last : k ≤ 1499
  positive : 1 ≤ span / k
  fits : used crop (span / k) ≤ maximumRate
  single : used crop (span / k) < minimumRate → k = 1

theorem chosen_of_first {crop : ℚ} (most : crop ≤ 1 / 2) {span : Int} (some : 1 ≤ span) {k : Nat}
    (first : 1 ≤ k) (last : k ≤ 1499) (fits : used crop (span / k) ≤ maximumRate)
    (before : ∀ j : Nat, 1 ≤ j → j < k → maximumRate < used crop (span / j)) :
    Chosen crop span k := by
  obtain rfl | more := Nat.eq_or_lt_of_le first
  · refine ⟨le_rfl, last, ?_, fits, fun _ => rfl⟩
    rw [Nat.cast_one, Int.ediv_one]
    exact some
  · have wide := before (k - 1) (by omega) (by omega)
    have half : span / (k - 1 : Nat) ≤ 2 * (span / k) + 1 := by
      have below : (k - 1 : Nat) * (span / (k - 1 : Nat)) ≤ span := Int.mul_ediv_self_le (by omega)
      have above : span < k * (span / k) + k := Int.lt_mul_ediv_self_add (by omega)
      have nonneg : 0 ≤ span / k := Int.ediv_nonneg (by omega) (by omega)
      have double : (k : Int) * (span / k + 1) ≤ 2 * (k - 1 : Nat) * (span / k + 1) :=
        mul_le_mul_of_nonneg_right (by omega) (by omega)
      have strict : ((k - 1 : Nat) : Int) * (span / (k - 1 : Nat)) <
          (k - 1 : Nat) * (2 * (span / k + 1)) := by linarith
      have := lt_of_mul_lt_mul_left strict (by omega)
      omega
    have large := used_half most half
    rw [maximumRate] at wide
    have positive : 1 ≤ span / k := by
      by_contra none
      have zero : used crop 0 = 0 := by simp [used]
      have nothing := used_mono most (not_lt.mp none : span / k ≤ 0)
      omega
    exact ⟨first, last, positive, fits, fun narrow => by rw [minimumRate] at narrow; omega⟩

/-! ### The rest of the plan -/

/-- The bandwidth that is captured is between the limits. -/
theorem smallBandwidth_eq {k : Nat} (bw : Int) {used : Int} (positive : 1 ≤ used)
    (fits : used ≤ maximumRate) (single : used < minimumRate → k = 1) :
    ∃ rate downsample,
      smallBandwidth ⟨k, bw, used, 1, 0, 0⟩ = pure ⟨k, bw, rate, downsample, 0, 0⟩ ∧
      (minimumRate ≤ rate ∧ rate ≤ maximumRate) ∧ 1 ≤ downsample ∧ downsample ≤ maximumRate := by
  unfold smallBandwidth
  split_ifs with narrow
  · have quotient := Int.mul_ediv_self_le (x := maximumRate) (k := used) (by omega)
    have next := Int.lt_mul_ediv_self_add (x := maximumRate) (k := used) (by omega)
    have factor : 1 ≤ maximumRate / used := (Int.le_ediv_iff_mul_le (by omega)).mpr (by omega)
    have less : maximumRate / used ≤ maximumRate := Int.ediv_le_self _ (by decide)
    dsimp only at narrow
    rw [minimumRate] at narrow
    rw [maximumRate] at quotient next
    refine ⟨used * (maximumRate / used), maximumRate / used, ?_, ?_, factor, less⟩
    · have narrower : maximumRate = 2800000 := rfl
      rw [divide_eq (by dsimp only; omega), pure_bind, Int.tdiv_eq_ediv_of_nonneg (by decide),
        narrower, signed_eq (by dsimp only; omega) (by dsimp only; omega), pure_bind, single narrow]
      rfl
    · rw [minimumRate, maximumRate]
      omega
  · exact ⟨used, 1, rfl, ⟨not_lt.mp narrow, fits⟩, le_rfl, by decide⟩

theorem binLoop_eq {bw downsample maxSize : Int} (some : 1 ≤ downsample) (fits : bw ≤ maximumRate)
    (size : 1 ≤ maxSize) (left i : Nat) (few : 2 ^ i * downsample ≤ 2 * maximumRate) :
    ∃ binE, binLoop bw downsample maxSize left i = pure binE ∧
      2 ^ binE * downsample ≤ 2 * maximumRate := by
  have positive (i : Nat) : 0 < 2 ^ i * downsample := by positivity
  rw [maximumRate] at fits
  induction left generalizing i with
  | zero =>
    refine ⟨i, ?_, few⟩
    have := positive i
    rw [maximumRate] at few
    rw [binLoop, signed_eq (by omega) (by omega), pure_bind]
  | succ left ih =>
    have count := positive i
    have bound := few
    rw [maximumRate] at bound
    rw [binLoop, signed_eq (by omega) (by omega), pure_bind]
    split_ifs with within
    · exact ⟨i, rfl, few⟩
    · apply ih
      rw [binSizeWithin, if_neg (by omega), if_pos count, decide_eq_true_eq, not_le] at within
      have least : 2 ^ i * downsample ≤ maxSize * (2 ^ i * downsample) :=
        le_mul_of_one_le_left count.le size
      rw [pow_succ, maximumRate]
      linarith

/-- The stages before the entries are built. -/
def draft (boxcar : Bool) (crop : D) (lower upper maxSize : Int) : Checked Draft := do
  let span ← signed 32 (upper - lower)
  let ranges ← evenRanges crop span 1498 1
  let small ← smallBandwidth ranges
  let filtered ← recursiveFilter boxcar crop small
  let bins ← powerOfTwoBins maxSize filtered
  pure (giantBins span maxSize bins)

theorem frequencyRange_eq (boxcar : Bool) (crop : D) (lower upper maxSize : Int) :
    frequencyRange boxcar crop lower upper maxSize =
      draft boxcar crop lower upper maxSize >>= build lower := by
  simp only [frequencyRange, draft, bind_assoc, pure_bind]

theorem draft_boxcar {crop : D} {lower upper maxSize : Int}
    (nonneg : 0 ≤ lower) (order : lower < upper) (range : upper < 2 ^ 31)
    (few : maxSize < minimumRate) {ranges : Draft}
    (found : evenRanges crop (upper - lower) 1498 1 = pure ranges) :
    draft true crop lower upper maxSize = smallBandwidth ranges >>= powerOfTwoBins maxSize := by
  have giant (d : Draft) : giantBins (upper - lower) maxSize d = d := if_neg (not_le.mpr few)
  have plain (d : Draft) : recursiveFilter true crop d = pure d := rfl
  rw [draft, signed_eq (by omega) (by omega), pure_bind, found, pure_bind]
  simp only [plain, giant, pure_bind, bind_pure]

theorem plan_eq_draft {boxcar : Bool} {crop : D} {lower upper maxSize : Int} {plan : Plan}
    (built : (frequencyRange boxcar crop lower upper maxSize).value = some plan) :
    plan.tuneCount = (draft boxcar crop lower upper maxSize).value.tuneCount ∧
      plan.tune.rate = (draft boxcar crop lower upper maxSize).value.bwUsed ∧
      plan.tune.downsample = (draft boxcar crop lower upper maxSize).value.downsample ∧
      plan.freqs = (List.range plan.tuneCount.toNat).map fun i =>
        (tunedFreq lower (draft boxcar crop lower upper maxSize).value.bwSeen i).value := by
  rw [frequencyRange_eq, value_bind] at built
  rw [build_some built]
  exact ⟨rfl, rfl, rfl, rfl⟩

/-- A plan that can be carried out, and whose bands of `bw_seen` each cover the range from its lower
end on. -/
structure Covers (crop : Sse) (lower upper maxSize : Int) (plan : Plan) (bwSeen : Int) : Prop where
  exact : (frequencyRange true crop lower upper maxSize).exact = true
  divisor : plan.tune.downsample ≠ 0
  count : 1 ≤ plan.tuneCount ∧ plan.tuneCount ≤ maxTunes
  rate : minimumRate ≤ plan.tune.rate ∧ plan.tune.rate ≤ maximumRate
  accepted : ∀ dev, (Librtlsdr.rtlsdrSetSampleRate ℚ dev (UInt32.ofInt plan.tune.rate)).1 = 0
  tuned : ∀ i : Nat, i < plan.tuneCount → ∃ freq, plan.freqs[i]? = some freq ∧
    |2 * freq - (lower + i * bwSeen + (lower + (i + 1) * bwSeen))| ≤ 2
  contiguous : ∀ x, lower ≤ x → x < lower + plan.tuneCount * bwSeen →
    ∃! i : Nat, i < plan.tuneCount ∧ lower + i * bwSeen ≤ x ∧ x < lower + (i + 1) * bwSeen
  uncovered : lower + plan.tuneCount * bwSeen ≤ upper ∧
    upper - (lower + plan.tuneCount * bwSeen) < plan.tuneCount

theorem rate_accepted {rate : Int} (low : minimumRate ≤ rate) (high : rate ≤ maximumRate)
    (dev : Librtlsdr.Device) :
    (Librtlsdr.rtlsdrSetSampleRate ℚ dev (UInt32.ofInt rate)).1 = 0 := by
  rw [minimumRate] at low
  rw [maximumRate] at high
  have kept := toNat_ofInt (x := rate) (by omega) (by omega)
  have supported : Librtlsdr.rateSupported (UInt32.ofInt rate) = true :=
    (Librtlsdr.rateSupported_iff _).mpr (.inr (by omega))
  rw [Librtlsdr.rtlsdrSetSampleRate, if_pos supported]

theorem tunedFreq_near {lower upper bw : Int} (nonneg : 0 ≤ lower) (range : upper < 2 ^ 31)
    (positive : 1 ≤ bw) {i : Nat} (inside : lower + (i + 1) * bw ≤ upper) :
    (tunedFreq lower bw i).exact = true ∧
      |2 * (tunedFreq lower bw i).value - (lower + i * bw + (lower + (i + 1) * bw))| ≤ 2 := by
  have offset : 0 ≤ (i : Int) * bw := mul_nonneg (by omega) (by omega)
  rw [add_mul, one_mul] at inside ⊢
  have half : bw.tdiv 2 = bw / 2 := Int.tdiv_eq_ediv_of_nonneg (by omega)
  rw [tunedFreq, half, signed_eq (by omega) (by omega), pure_bind, signed_eq (by omega) (by omega),
    pure_bind, signed_eq (by omega) (by omega)]
  refine ⟨rfl, ?_⟩
  rw [value_pure, abs_le]
  omega

theorem band_unique {lower bw : Int} (positive : 1 ≤ bw) {count x : Int} (above : lower ≤ x)
    (below : x < lower + count * bw) :
    ∃! i : Nat, i < count ∧ lower + i * bw ≤ x ∧ x < lower + (i + 1) * bw := by
  obtain ⟨i, quotient⟩ := Int.eq_ofNat_of_zero_le
    (Int.ediv_nonneg (by omega : 0 ≤ x - lower) (by omega : 0 ≤ bw))
  have within (j : Nat) : lower + j * bw ≤ x ∧ x < lower + (j + 1) * bw ↔ i = j := by
    have same := Int.ediv_eq_iff_of_pos (x := x - lower) (k := bw) (y := j) (by omega)
    rw [quotient] at same
    rw [← Int.ofNat_inj, same, add_mul, one_mul]
    omega
  have last : (i : Int) < count := by
    rw [← quotient]
    exact Int.ediv_lt_of_lt_mul (by omega) (by omega)
  exact ⟨i, ⟨last, (within i).mpr rfl⟩, fun j here => ((within j).mp here.2).symm⟩

section

variable {crop : ℚ} (least : 0 ≤ crop) (most : crop ≤ 1 / 2) {lower upper maxSize : Int}
  (nonneg : 0 ≤ lower) (order : lower < upper) (range : upper < 2 ^ 31) (size : 1 ≤ maxSize)
  (few : maxSize < minimumRate)
include most nonneg order range few

/-- A bandwidth that does not fit ends the search with nothing to capture. -/
theorem draft_overflow (wide : 2147483648 ≤ used crop (upper - lower)) :
    (draft true (⟨crop⟩ : Sse) lower upper maxSize).value.bwUsed = 0 := by
  obtain ⟨k, first, _, before, found⟩ := evenRanges_eq (fun i : Nat => cropped_sse most
    (Int.tdiv_nonneg (by omega : 0 ≤ upper - lower) (by omega : 0 ≤ (i : Int)))) 1498 1
  have start : converted (used crop ((upper - lower).tdiv (1 : Nat))) = -2147483648 := by
    rw [Nat.cast_one, Int.tdiv_one, converted, if_neg (by omega)]
  obtain rfl | more := Nat.eq_or_lt_of_le first
  · rw [draft_boxcar nonneg order range few found, start]
    rfl
  · have limit := before 1 le_rfl more
    rw [start] at limit
    exact absurd limit (by decide)

include least size in
theorem draft_chosen (fits : used crop (upper - lower) < 2147483648) {plan : Plan}
    (built : (frequencyRange true (⟨crop⟩ : Sse) lower upper maxSize).value = some plan)
    (found : 0 < plan.tuneCount) :
    ∃ k rate downsample binE, Chosen crop (upper - lower) k ∧
      draft true (⟨crop⟩ : Sse) lower upper maxSize =
        pure ⟨k, (upper - lower) / k, rate, downsample, 0, binE⟩ ∧
      (minimumRate ≤ rate ∧ rate ≤ maximumRate) ∧ 1 ≤ downsample ∧
      2 ^ binE * downsample ≤ 2 * maximumRate := by
  obtain ⟨k, first, last, before, ranges⟩ := evenRanges_eq (fun i : Nat => cropped_sse most
    (Int.tdiv_nonneg (by omega : 0 ≤ upper - lower) (by omega : 0 ≤ (i : Int)))) 1498 1
  have small (i : Nat) : converted (used crop ((upper - lower).tdiv i)) =
      used crop ((upper - lower) / i) := by
    have narrow := used_mono most (Int.ediv_le_self (i : Int) (by omega : 0 ≤ upper - lower))
    rw [Int.tdiv_eq_ediv_of_nonneg (by omega), converted, if_pos (by omega)]
  simp only [small] at before ranges
  rw [Int.tdiv_eq_ediv_of_nonneg (by omega)] at ranges
  have drafted := draft_boxcar nonneg order range few ranges
  have ends : ¬used crop ((upper - lower) / k) > maximumRate := by
    intro wide
    have above : ¬used crop ((upper - lower) / k) < minimumRate :=
      not_lt.mpr (le_trans (by decide) wide.le)
    rw [(plan_eq_draft built).1, drafted, if_pos wide, smallBandwidth, if_neg above] at found
    exact lt_irrefl (0 : Int) found
  have chosen := chosen_of_first most (by omega) first last (not_lt.mp ends) before
  have positive := chosen.positive
  obtain ⟨rate, downsample, captured, rates, factor, limit⟩ := smallBandwidth_eq
    ((upper - lower) / k) (positive.trans (le_used least most (by omega))) chosen.fits chosen.single
  obtain ⟨binE, loop, bins⟩ := binLoop_eq factor rates.2 size 20 1 (by rw [pow_one]; omega)
  refine ⟨k, rate, downsample, binE, chosen, ?_, rates, factor, bins⟩
  rw [drafted, if_neg ends, captured, pure_bind, powerOfTwoBins, loop]
  rfl

end

/-- Where a plan is found, it can be carried out and covers the range exactly if the whole range,
with its margins, is a bandwidth that fits into an `int`. -/
theorem hopPlan_covers_iff (lower upper maxSize : Int) (crop : ℚ) (nonneg : 0 ≤ lower)
    (order : lower < upper) (range : upper < 2 ^ 31) (least : 0 ≤ crop) (most : crop ≤ 1 / 2)
    (size : 1 ≤ maxSize) (few : maxSize < 1000000) (plan : Plan)
    (built : (frequencyRange true (⟨crop⟩ : Sse) lower upper maxSize).value = some plan)
    (found : 0 < plan.tuneCount) :
    Covers ⟨crop⟩ lower upper maxSize plan
        (draft true (⟨crop⟩ : Sse) lower upper maxSize).value.bwSeen ↔
      ((upper - lower : Int) : ℚ) / (1 - crop) < 2 ^ 31 := by
  obtain ⟨count, rate, factor, freqs⟩ := plan_eq_draft built
  have limit : ((upper - lower : Int) : ℚ) / (1 - crop) < 2 ^ 31 ↔
      used crop (upper - lower) < 2147483648 := by
    rw [used, Int.floor_lt]
    norm_num
  rw [limit]
  constructor
  · intro covers
    by_contra wide
    have none := covers.rate.1
    rw [rate, draft_overflow most nonneg order range few (not_lt.mp wide)] at none
    exact absurd none (by decide)
  · intro fits
    obtain ⟨k, rate', downsample, binE, chosen, drafted, rates, some, bins⟩ :=
      draft_chosen least most nonneg order range size few fits built found
    have first := chosen.first
    have last := chosen.last
    have positive := chosen.positive
    have below := Int.mul_ediv_self_le (x := upper - lower) (k := k) (by omega)
    have above := Int.lt_mul_ediv_self_add (x := upper - lower) (k := k) (by omega)
    rw [drafted, value_pure] at count rate factor freqs
    rw [drafted, value_pure]
    have earlier (i : Nat) (inside : (i : Int) < k) :
        ((i : Int) + 1) * ((upper - lower) / k) ≤ k * ((upper - lower) / k) :=
      mul_le_mul_of_nonneg_right (by omega) (by omega)
    have near (i : Nat) (inside : (i : Int) < k) :=
      tunedFreq_near nonneg range positive (i := i) (by have := earlier i inside; omega)
    refine ⟨?_, ?_, ?_, ?_, ?_, ?_, ?_, ?_⟩
    · have length : 0 < 2 ^ binE * downsample := by positivity
      rw [maximumRate] at bins
      rw [frequencyRange_eq, drafted, pure_bind, build,
        if_neg (by rw [maxTunes]; dsimp only; omega),
        signed_eq (by dsimp only; rw [mul_assoc]; omega) (by dsimp only; rw [mul_assoc]; omega),
        pure_bind, mapM_eq, exact_bind, exact_pure, Bool.and_true, List.all_eq_true]
      intro i member
      exact (near i (by have := List.mem_range.mp member; dsimp only at this; omega)).1
    · rw [factor]
      exact ne_of_gt some
    · rw [count, maxTunes]
      dsimp only
      omega
    · rw [rate]
      exact rates
    · rw [rate]
      exact rate_accepted rates.1 rates.2
    · rw [freqs, count]
      dsimp only
      intro i inside
      refine ⟨_, ?_, (near i inside).2⟩
      rw [List.getElem?_map, List.getElem?_range (by omega)]
      rfl
    · rw [count]
      exact fun x => band_unique positive
    · rw [count]
      dsimp only
      omega

/-- The FM band with a fifth cropped. -/
theorem hopPlan_covers_fm :
    ∃ plan, (frequencyRange true (⟨1 / 5⟩ : Sse) 88000000 108000000 10000).value = some plan ∧
      plan.tuneCount = 9 ∧ Covers ⟨1 / 5⟩ 88000000 108000000 10000 plan 2222222 := by
  have nine : (frequencyRange true (⟨1 / 5⟩ : Sse) 88000000 108000000 10000).value.map
      Plan.tuneCount = some 9 := by decide +kernel
  have seen : (draft true (⟨1 / 5⟩ : Sse) 88000000 108000000 10000).value.bwSeen = 2222222 := by
    decide +kernel
  obtain ⟨plan, built, count⟩ := Option.map_eq_some_iff.mp nine
  have covers := hopPlan_covers_iff 88000000 108000000 10000 (1 / 5) (by decide) (by decide)
    (by decide) (by norm_num) (by norm_num) (by decide) (by decide) plan built
    (by rw [count]; decide)
  rw [seen] at covers
  exact ⟨plan, built, count, covers.mpr (by norm_num)⟩

/-- The range of most tuners, with the largest crop that is recommended. -/
theorem hopPlan_overflow :
    ∃ plan, (frequencyRange true (⟨1 / 2⟩ : Sse) 24000000 1700000000 125000).value = some plan ∧
      plan.tuneCount = 1 ∧ plan.tune.rate = 0 ∧ plan.tune.downsample = 0 ∧
      ∀ bwSeen, ¬Covers ⟨1 / 2⟩ 24000000 1700000000 125000 plan bwSeen := by
  have entries : (frequencyRange true (⟨1 / 2⟩ : Sse) 24000000 1700000000 125000).value.map
      (fun plan => (plan.tuneCount, plan.tune.rate, plan.tune.downsample)) = some (1, 0, 0) := by
    decide +kernel
  obtain ⟨plan, built, same⟩ := Option.map_eq_some_iff.mp entries
  rw [Prod.mk.injEq, Prod.mk.injEq] at same
  obtain ⟨count, rate, factor⟩ := same
  exact ⟨plan, built, count, rate, factor, fun bwSeen covers => covers.divisor factor⟩

end RtlSdr.Power
