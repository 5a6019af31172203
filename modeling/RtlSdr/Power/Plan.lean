import RtlSdr.Lib.Double
import RtlSdr.Lib.Loops

/-!
# The plan of rtl_power

All entries of `tunes` are the same but for their frequency, so one of them stands for the rest of
all. The comparison of the bin size is exact: its operands are integers of
31 bits, and a quotient is never so close to an integer that rounding it to a `double` matters.
-/
namespace RtlSdr.Power

open Checked DoubleArith

def maximumRate : Int := 2800000
def minimumRate : Int := 1000000
def maxTunes : Int := 3000
def defaultBufLength : Int := 16384

/-- The fields of `struct tuning_state` that the scan of a piece uses. -/
structure TuningState where
  rate : Int
  binE : Nat
  avg : Nat → Int
  samples : Int
  downsample : Int
  downsamplePasses : Nat
  bufLen : Int

structure Draft where
  tuneCount : Int
  bwSeen : Int
  bwUsed : Int
  downsample : Int
  downsamplePasses : Nat
  binE : Nat

/-- The first `tune_count` entries of `tunes`. -/
structure Plan where
  tuneCount : Int
  freqs : List Int
  tune : TuningState

section

variable {D : Type} [DoubleArith D] [Sub D]

/-- `(int)((double)(bw) / (1.0 - crop))`. -/
def cropped (crop : D) (bw : Int) : Checked Int := signed 32 (trunc (ofInt bw / (ofInt 1 - crop)))

/-- Evenly sized ranges, as close to `MAXIMUM_RATE` as possible: the loop from `i` on, with `left`
rounds to follow. -/
def evenRanges (crop : D) (span : Int) : Nat → Nat → Checked Draft
  | 0, i => do
    let bwUsed ← cropped crop (span.tdiv i)
    pure ⟨if bwUsed > maximumRate then 0 else i, span.tdiv i, bwUsed, 1, 0, 0⟩
  | left + 1, i => do
    let bwUsed ← cropped crop (span.tdiv i)
    if bwUsed > maximumRate then evenRanges crop span left (i + 1)
    else pure ⟨i, span.tdiv i, bwUsed, 1, 0, 0⟩

/-- Unless small bandwidth. -/
def smallBandwidth (d : Draft) : Checked Draft :=
  if d.bwUsed < minimumRate then do
    let downsample ← divide maximumRate d.bwUsed
    let bwUsed ← signed 32 (d.bwUsed * downsample)
    pure { d with tuneCount := 1, downsample := downsample, bwUsed := bwUsed }
  else pure d

/-- The recursive filter takes powers of two. -/
def recursiveFilter (boxcar : Bool) (crop : D) (d : Draft) : Checked Draft :=
  if !boxcar && d.downsample > 1 then do
    let passes := d.downsample.toNat.log2
    let scaled ← signed 32 (d.bwSeen * 2 ^ passes)
    let bwUsed ← cropped crop scaled
    pure { d with downsamplePasses := passes, downsample := 2 ^ passes, bwUsed := bwUsed }
  else pure d

end

/-- `(double)bw / (double)count <= (double)max_size`; the quotient by zero is infinite or not a
number. -/
def binSizeWithin (bw count maxSize : Int) : Bool :=
  if count = 0 then bw < 0
  else if 0 < count then bw ≤ maxSize * count
  else maxSize * count ≤ bw

/-- The number of bins is a power of two, the bin size is under the limit: the loop from `i` on. -/
def binLoop (bw downsample maxSize : Int) : Nat → Nat → Checked Nat
  | 0, i => do
    let _ ← signed 32 (2 ^ i * downsample)
    pure i
  | left + 1, i => do
    let count ← signed 32 (2 ^ i * downsample)
    if binSizeWithin bw count maxSize then pure i else binLoop bw downsample maxSize left (i + 1)

def powerOfTwoBins (maxSize : Int) (d : Draft) : Checked Draft := do
  let binE ← binLoop d.bwUsed d.downsample maxSize 20 1
  pure { d with binE := binE }

/-- Unless giant bins. -/
def giantBins (span maxSize : Int) (d : Draft) : Draft :=
  if maxSize ≥ minimumRate then
    { d with bwSeen := maxSize, bwUsed := maxSize, tuneCount := span.tdiv maxSize, binE := 0 }
  else d

/-- `ts->freq` of entry `i`. -/
def tunedFreq (lower bwSeen : Int) (i : Nat) : Checked Int := do
  let offset ← signed 32 (i * bwSeen)
  let start ← signed 32 (lower + offset)
  signed 32 (start + bwSeen.tdiv 2)

/-- The length of a capture, and the entries. -/
def build (lower : Int) (d : Draft) : Checked (Option Plan) :=
  if d.tuneCount > maxTunes then pure none
  else do
    let bufLen ← signed 32 (2 * 2 ^ d.binE * d.downsample)
    let freqs ← (List.range d.tuneCount.toNat).mapM (tunedFreq lower d.bwSeen)
    pure (some ⟨d.tuneCount, freqs, ⟨d.bwUsed, d.binE, fun _ => 0, 0, d.downsample, d.downsamplePasses,
      if bufLen < defaultBufLength then defaultBufLength else bufLen⟩⟩)

/-- Flesh out the `tunes[]` for scanning. Nothing is returned where the program exits. -/
def frequencyRange {D : Type} [DoubleArith D] [Sub D] (boxcar : Bool) (crop : D)
    (lower upper maxSize : Int) : Checked (Option Plan) := do
  let span ← signed 32 (upper - lower)
  let ranges ← evenRanges crop span 1498 1
  let small ← smallBandwidth ranges
  let filtered ← recursiveFilter boxcar crop small
  let bins ← powerOfTwoBins maxSize filtered
  build lower (giantBins span maxSize bins)

/-! ### What is built -/

theorem build_some {lower : Int} {d : Draft} {plan : Plan}
    (built : (build lower d).value = some plan) :
    plan = ⟨d.tuneCount,
      (List.range d.tuneCount.toNat).map fun i => (tunedFreq lower d.bwSeen i).value,
      ⟨d.bwUsed, d.binE, fun _ => 0, 0, d.downsample, d.downsamplePasses,
        max (2 * 2 ^ d.binE * d.downsample) defaultBufLength⟩⟩ := by
  have raised (x : Int) : (if x < defaultBufLength then defaultBufLength else x) =
      max x defaultBufLength := by
    split_ifs with short
    · exact (max_eq_right short.le).symm
    · exact (max_eq_left (not_lt.mp short)).symm
  unfold build at built
  split_ifs at built with many
  rw [mapM_eq] at built
  cases built
  rw [← raised]
  rfl

/-! ### The searches -/

section

variable {test : Nat → Prop} {left i k : Nat}

theorem isLeast_here (ends : test i ∨ i = i + left) :
    IsLeast {j | i ≤ j ∧ (test j ∨ j = i + left)} i :=
  ⟨⟨le_rfl, ends⟩, fun _ later => later.1⟩

theorem isLeast_next (goesOn : ¬test i)
    (least : IsLeast {j | i + 1 ≤ j ∧ (test j ∨ j = i + 1 + left)} k) :
    IsLeast {j | i ≤ j ∧ (test j ∨ j = i + (left + 1))} k := by
  have same : i + 1 + left = i + (left + 1) := by omega
  rw [same] at least
  refine ⟨⟨Nat.le_of_lt least.1.1, least.1.2⟩, ?_⟩
  rintro j ⟨start, ends⟩
  refine least.2 ⟨Nat.lt_of_le_of_ne start ?_, ends⟩
  rintro rfl
  rcases ends with holds | last
  · exact goesOn holds
  · omega

end

section

variable {D : Type} [DoubleArith D] [Sub D] {crop : D} {lower upper maxSize : Int} {plan : Plan}

/-- `bw_used` where the range is divided into `i` pieces. -/
def pieceWidth (crop : D) (span : Int) (i : Nat) : Int := (cropped crop (span.tdiv i)).value

/-- The search ends with the first number of pieces that is not too wide, or with the last one. -/
theorem evenRanges_least (crop : D) (span : Int) (left i : Nat) :
    ∃ k, IsLeast {j | i ≤ j ∧ (pieceWidth crop span j ≤ maximumRate ∨ j = i + left)} k ∧
      (evenRanges crop span left i).value =
        ⟨if pieceWidth crop span k > maximumRate then 0 else k, span.tdiv k,
          pieceWidth crop span k, 1, 0, 0⟩ := by
  induction left generalizing i with
  | zero => exact ⟨i, isLeast_here (.inr rfl), rfl⟩
  | succ left ih =>
    rw [evenRanges, value_bind, ← pieceWidth]
    split_ifs with wide
    · obtain ⟨k, least, same⟩ := ih (i + 1)
      exact ⟨k, isLeast_next (not_le.mpr wide) least, same⟩
    · exact ⟨i, isLeast_here (.inl (not_lt.mp wide)), by rw [if_neg wide]; rfl⟩

/-- The search ends with the first number of bins that are not too large, or with the last one. -/
theorem binLoop_least (bw maxSize : Int) {downsample : Int} (some : 0 < downsample) (left i : Nat) :
    IsLeast {e | i ≤ e ∧ (bw ≤ maxSize * (2 ^ e * downsample) ∨ e = i + left)}
      (binLoop bw downsample maxSize left i).value := by
  induction left generalizing i with
  | zero => exact isLeast_here (.inr rfl)
  | succ left ih =>
    have positive : 0 < 2 ^ i * downsample := by positivity
    have test : binSizeWithin bw (2 ^ i * downsample) maxSize = true ↔
        bw ≤ maxSize * (2 ^ i * downsample) := by
      rw [binSizeWithin, if_neg positive.ne', if_pos positive, decide_eq_true_eq]
    change IsLeast _ (if binSizeWithin bw (2 ^ i * downsample) maxSize = true then pure i
      else binLoop bw downsample maxSize left (i + 1)).value
    simp only [test]
    split_ifs with within
    · exact isLeast_here (.inl within)
    · exact isLeast_next within (ih (i + 1))

theorem frequencyRange_bufLen {boxcar : Bool}
    (built : (frequencyRange boxcar crop lower upper maxSize).value = some plan) :
    plan.tune.bufLen = max (2 * 2 ^ plan.tune.binE * plan.tune.downsample) defaultBufLength := by
  rw [build_some built]

theorem frequencyRange_passes
    (built : (frequencyRange true crop lower upper maxSize).value = some plan) :
    plan.tune.downsamplePasses = 0 := by
  have small (d : Draft) : (smallBandwidth d).value.downsamplePasses = d.downsamplePasses := by
    unfold smallBandwidth
    split_ifs <;> rfl
  have giant (span : Int) (d : Draft) :
      (giantBins span maxSize d).downsamplePasses = d.downsamplePasses := by
    unfold giantBins
    split_ifs <;> rfl
  obtain ⟨k, _, ranges⟩ := evenRanges_least crop (upper - lower) 1498 1
  rw [build_some built]
  exact (giant _ _).trans ((small _).trans (by rw [signed, ranges]))

/-- The factor that `smallBandwidth` chooses. -/
def factor (bw : Int) : Int := if bw < minimumRate then maximumRate.tdiv bw else 1

theorem smallBandwidth_factor (count : Int) (seen bw : Int) :
    (smallBandwidth ⟨count, seen, bw, 1, 0, 0⟩).value.downsample = factor bw ∧
      (smallBandwidth ⟨count, seen, bw, 1, 0, 0⟩).value.bwUsed = bw * factor bw := by
  unfold smallBandwidth factor
  split_ifs
  · exact ⟨rfl, rfl⟩
  · exact ⟨rfl, (mul_one bw).symm⟩

/-- The bandwidth of the pieces that a range is divided into, margins included. -/
def IsWidth (crop : D) (span bw : Int) : Prop :=
  ∃ k, IsLeast {i | 1 ≤ i ∧ (pieceWidth crop span i ≤ maximumRate ∨ i = 1499)} k ∧
    bw = pieceWidth crop span k

/-- The exponent of the number of bins for this bandwidth. -/
def IsBins (maxSize bw : Int) (e : Nat) : Prop :=
  IsLeast {e | 1 ≤ e ∧ (bw ≤ maxSize * 2 ^ e ∨ e = 21)} e

theorem IsWidth.unique {span bw bw' : Int} (width : IsWidth crop span bw)
    (width' : IsWidth crop span bw') : bw = bw' := by
  obtain ⟨k, least, rfl⟩ := width
  obtain ⟨k', least', rfl⟩ := width'
  rw [least.unique least']

/-- The factor of a plan is that of the bandwidth, and so is the number of bins. -/
theorem frequencyRange_pieces
    (built : (frequencyRange true crop lower upper maxSize).value = some plan)
    (bins : 1 ≤ plan.tune.binE) :
    ∃ bw, IsWidth crop (upper - lower) bw ∧ plan.tune.downsample = factor bw ∧
      (0 < factor bw → IsBins maxSize bw plan.tune.binE) := by
  obtain ⟨k, least, ranges⟩ := evenRanges_least crop (upper - lower) 1498 1
  have entries := build_some built
  have few : ¬maxSize ≥ minimumRate := by
    intro giant
    rw [entries, giantBins, if_pos giant] at bins
    exact Nat.not_lt_zero 0 bins
  rw [giantBins, if_neg few] at entries
  generalize width : pieceWidth crop (upper - lower) k = bw at ranges
  obtain ⟨ds, used⟩ := smallBandwidth_factor (if bw > maximumRate then 0 else k)
    ((upper - lower).tdiv k) bw
  rw [← ranges] at ds used
  have binE : plan.tune.binE = (binLoop (bw * factor bw) (factor bw) maxSize 20 1).value := by
    rw [entries, ← used, ← ds]
    rfl
  refine ⟨bw, ⟨k, least, width.symm⟩, by rw [entries]; exact ds, fun some => ?_⟩
  have searched := binLoop_least (bw * factor bw) maxSize some 20 1
  simp only [← mul_assoc, mul_le_mul_iff_left₀ some] at searched
  rwa [← binE] at searched

end

end RtlSdr.Power
