import RtlSdr.Fm.Filters
import RtlSdr.Librtlsdr.Settings

/-!
# The settings of rtl_fm

`optimal_settings` picks the oversampling of the capture for the rate the demodulator wants: at
least a million samples a second, as a multiple of that rate or, for the filters that halve, as a
power of two times it.
-/
namespace RtlSdr.Fm

open Checked

/-- `(int)log2(n)`, which has no value unless `n` is positive. -/
def floorLog2 (n : Int) : Checked Int := ⟨n.toNat.log2, 0 < n⟩

/-- What `optimal_settings` sets in `demod` and `dongle`. -/
structure Settings where
  downsample : Int
  downsamplePasses : Int
  outputScale : Int
  freq : UInt32
  rate : UInt32

/-- `downsample` and `downsample_passes`; the second is 0 unless `-F` was given. -/
def chooseDownsample (rateIn passes : Int) : Checked (Int × Int) := do
  let downsample := (← divide 1000000 rateIn) + 1
  if passes = 0 then
    pure (downsample, passes)
  else do
    let passes := (← floorLog2 downsample) + 1
    pure (2 ^ passes.toNat, passes)

/-- `optimal_settings`, a giant ball of hacks. -/
def optimalSettings (freq rateIn passes edge : Int) (offsetTuning fm : Bool) :
    Checked Settings := do
  let chosen ← chooseDownsample rateIn passes
  let captureRate := machine.int32 (chosen.1 * rateIn)
  let captureFreq :=
    if offsetTuning then freq else machine.int32 (freq + captureRate.tdiv 4)
  let captureFreq := machine.int32 (captureFreq + (edge * rateIn).tdiv 2)
  let outputScale ← divide (2 ^ 15) (128 * chosen.1)
  let outputScale := if outputScale < 1 then 1 else outputScale
  let outputScale := if fm then 1 else outputScale
  pure ⟨chosen.1, chosen.2, outputScale, UInt32.ofInt captureFreq, UInt32.ofInt captureRate⟩

/-- The number of samples that are added up for one of rate `r`. -/
def boxcarSize (r : Nat) : Nat := 1000000 / r + 1

/-- The number of passes that halve the rate. -/
def passCount (r : Nat) : Nat := (boxcarSize r).log2 + 1

variable {r : Nat} (positive : 1 ≤ r)

include positive

theorem chooseDownsample_boxcar : chooseDownsample r 0 = pure ((boxcarSize r : Int), 0) := by
  have quotient : (1000000 : Int).tdiv r = (1000000 / r : Nat) := by
    rw [Int.tdiv_eq_ediv_of_nonneg (by decide)]
    exact (Int.natCast_div 1000000 r).symm
  rw [chooseDownsample, divide_eq (by omega), pure_bind, quotient, if_pos rfl]
  rfl

theorem chooseDownsample_passes {passes : Int} (given : passes ≠ 0) :
    chooseDownsample r passes = pure ((2 : Int) ^ passCount r, (passCount r : Int)) := by
  have quotient : (1000000 : Int).tdiv r = (1000000 / r : Nat) := by
    rw [Int.tdiv_eq_ediv_of_nonneg (by decide)]
    exact (Int.natCast_div 1000000 r).symm
  have log : floorLog2 ((1000000 / r : Nat) + 1) = pure ((boxcarSize r).log2 : Int) := by
    rw [floorLog2, decide_eq_true (Int.lt_add_one_of_le (Int.natCast_nonneg _))]
    rfl
  rw [chooseDownsample, divide_eq (by omega), pure_bind, quotient, if_neg given, log, pure_bind]
  rfl

theorem optimalSettings_exact (freq passes edge : Int) (offsetTuning fm : Bool) :
    (optimalSettings freq r passes edge offsetTuning fm).exact = true ∧
      (optimalSettings freq r passes edge offsetTuning fm).value.downsample =
        (chooseDownsample r passes).value.1 ∧
      (optimalSettings freq r passes edge offsetTuning fm).value.downsamplePasses =
        (chooseDownsample r passes).value.2 := by
  refine ⟨?_, rfl, rfl⟩
  by_cases none : passes = 0
  · have size : 0 < boxcarSize r := Nat.succ_pos _
    have scale : (128 * (boxcarSize r : Int)) ≠ 0 := by omega
    rw [none, optimalSettings, chooseDownsample_boxcar positive, pure_bind]
    dsimp only
    rw [divide_eq scale]
    rfl
  · have power : (0 : Int) < 2 ^ passCount r := Int.pow_pos (by decide)
    have scale : (128 * (2 : Int) ^ passCount r) ≠ 0 := by omega
    rw [optimalSettings, chooseDownsample_passes positive none, pure_bind]
    dsimp only
    rw [divide_eq scale]
    rfl

end RtlSdr.Fm
