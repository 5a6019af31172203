import RtlSdr.Lib.BigEndian
import RtlSdr.Lib.Checked
import RtlSdr.Librtlsdr.Settings
import Mathlib.Data.Nat.Bitwise

/-!
# The ratio of the resampler

The chip has no bit 28 of the ratio and repeats bit 27 in its place. The driver does the
same to find the real rate. That is the ratio that was asked for only where bits 27 and 28
agree, and there the stored rate is the rate that was asked for.
-/
namespace RtlSdr.Librtlsdr

open DoubleArith

/-! ### Bits -/

theorem and_ratioMask (n : Nat) : n &&& 0x0ffffffc = n % 2 ^ 28 / 4 * 4 := by
  have shifted : n % 2 ^ 28 / 4 * 4 = ((n >>> 2) &&& (2 ^ 26 - 1)) <<< 2 := by
    rw [Nat.and_two_pow_sub_one_eq_mod, Nat.shiftRight_eq_div_pow, Nat.shiftLeft_eq]
    omega
  -- bit by bit: the mask is 26 ones, moved up by two
  rw [shifted]
  apply Nat.eq_of_testBit_eq
  intro i
  rw [Nat.testBit_and, Nat.testBit_shiftLeft, Nat.testBit_and, Nat.testBit_shiftRight,
    show 0x0ffffffc = (2 ^ 26 - 1) <<< 2 from rfl, Nat.testBit_shiftLeft]
  by_cases high : 2 ≤ i
  · simp [high]
  · simp [high]

theorem or_bit27 (m : Nat) (small : m < 2 ^ 28) :
    m ||| ((m &&& 0x08000000) <<< 1) = m + m / 2 ^ 27 % 2 * 2 ^ 28 := by
  rw [show 0x08000000 = 2 ^ 27 from rfl, Nat.and_two_pow, Nat.testBit_eq_decide_div_mod_eq,
    Nat.shiftLeft_eq]
  rcases Nat.mod_two_eq_zero_or_one (m / 2 ^ 27) with zero | one
  · rw [zero]
    exact Nat.or_zero m
  · rw [one]
    have joined := Nat.two_pow_add_eq_or_of_lt small 1
    show m ||| 2 ^ 28 * 1 = _
    rw [Nat.or_comm, ← joined]
    omega

theorem realRsampRatio_toNat (ratio : UInt32) (small : ratio.toNat < 2 ^ 28) :
    (realRsampRatio ratio).toNat = ratio.toNat + ratio.toNat / 2 ^ 27 % 2 * 2 ^ 28 := by
  have bit := Nat.and_le_left (n := ratio.toNat) (m := 0x08000000)
  have fits : (ratio.toNat &&& 0x08000000) <<< 1 % 2 ^ 32 = (ratio.toNat &&& 0x08000000) <<< 1 := by
    rw [Nat.shiftLeft_eq]
    omega
  rw [realRsampRatio, UInt32.toNat_or, UInt32.toNat_shiftLeft, UInt32.toNat_and,
    show (0x08000000 : UInt32).toNat = 0x08000000 from rfl,
    show (1 : UInt32).toNat % 32 = 1 from rfl, fits, or_bit27 _ small]

/-! ### Exact quotients -/

theorem quotient_toNat (rtlXtal divisor : UInt32)
    (small : rtlXtal.toNat * 2 ^ 22 / divisor.toNat < 2 ^ 32) :
    (UInt32.ofInt (trunc (ofUInt32 ℚ rtlXtal * twoPow ℚ 22 / ofUInt32 ℚ divisor))).toNat =
      rtlXtal.toNat * 2 ^ 22 / divisor.toNat := by
  -- over the rationals the product is that of the integers, and `trunc` is their division
  have product : ofUInt32 ℚ rtlXtal * twoPow ℚ 22 =
      ofInt ((rtlXtal.toNat * 2 ^ 22 : Nat) : Int) := by
    show ((rtlXtal.toNat : Int) : ℚ) * ((2 ^ 22 : Int) : ℚ) =
      (((rtlXtal.toNat * 2 ^ 22 : Nat) : Int) : ℚ)
    push_cast
    rfl
  rw [product, ofUInt32, trunc_div]
  exact Checked.toNat_ofInt_natCast small

section

variable {x r : Nat}

/-- The ratio that the driver takes for the real one, against the one that was asked for. -/
theorem ratio_iff (low : 28799000 ≤ x) (high : x ≤ 28801000)
    (band : (225000 < r ∧ r ≤ 300000) ∨ (900000 < r ∧ r ≤ 3200000)) (q : Nat)
    (quotient : q = x * 2 ^ 22 / r) :
    q % 2 ^ 28 / 4 * 4 + q % 2 ^ 28 / 4 * 4 / 2 ^ 27 % 2 * 2 ^ 28 = q / 4 * 4 ↔
      (r ≤ 300000 → 96 * r ≤ x ∧ x < 128 * r) ∧ (900000 < r → x < 32 * r) := by
  have positive : 0 < r := by omega
  -- the bounds of `q` that matter, as bounds of `x`
  have below (k : Nat) : q < k * 2 ^ 22 ↔ x < k * r := by
    rw [quotient, Nat.div_lt_iff_lt_mul positive]
    constructor
    · intro less
      have : x * 2 ^ 22 < k * r * 2 ^ 22 := by rwa [Nat.mul_right_comm] at less
      exact Nat.lt_of_mul_lt_mul_right this
    · intro less
      rw [Nat.mul_right_comm]
      exact Nat.mul_lt_mul_of_pos_right less (by decide)
  have b32 := below 32
  have b64 := below 64
  have b96 := below 96
  have b128 := below 128
  have b160 := below 160
  omega

theorem rate_back (low : 28799000 ≤ x) (upper : r ≤ 3200000) (positive : 0 < r) :
    x * 2 ^ 22 / (x * 2 ^ 22 / r / 4 * 4) = r := by
  -- clearing the two low bits moves the ratio by at most 3, and the ratio is larger than
  -- `4 * r`: the rate it stands for moves by less than one
  have quotient := Nat.div_mul_le_self (x * 2 ^ 22) r
  have next := Nat.lt_div_mul_add (a := x * 2 ^ 22) positive
  have large : 4 * r + 3 ≤ x * 2 ^ 22 / r := by
    rw [Nat.le_div_iff_mul_le positive]
    calc (4 * r + 3) * r ≤ (4 * 3200000 + 3) * 3200000 := Nat.mul_le_mul (by omega) upper
      _ ≤ 28799000 * 2 ^ 22 := by decide
      _ ≤ x * 2 ^ 22 := Nat.mul_le_mul_right _ low
  generalize x * 2 ^ 22 / r = q at quotient next large ⊢
  have near : q / 4 * 4 ≤ q ∧ q ≤ q / 4 * 4 + 3 := by omega
  generalize q / 4 * 4 = real at near ⊢
  apply Nat.div_eq_of_lt_le
  · calc r * real ≤ r * q := Nat.mul_le_mul_left r near.1
      _ = q * r := Nat.mul_comm r q
      _ ≤ x * 2 ^ 22 := quotient
  · calc x * 2 ^ 22 < q * r + r := next
      _ ≤ (real + 3) * r + r := by
        have := Nat.mul_le_mul_right r near.2
        omega
      _ = r * real + 4 * r := by ring
      _ ≤ r * real + real := by omega
      _ = (r + 1) * real := by ring

end

/-! ### Setting the rate -/

theorem rateSupported_iff (sampRate : UInt32) :
    rateSupported sampRate = true ↔
      (225000 < sampRate.toNat ∧ sampRate.toNat ≤ 300000) ∨
        (900000 < sampRate.toNat ∧ sampRate.toNat ≤ 3200000) := by
  simp only [rateSupported, decide_eq_true_eq, UInt32.le_iff_toNat_le, gt_iff_lt,
    UInt32.lt_iff_toNat_lt]
  show ¬(sampRate.toNat ≤ 225000 ∨ 3200000 < sampRate.toNat ∨
    300000 < sampRate.toNat ∧ sampRate.toNat ≤ 900000) ↔ _
  omega

/-- The ratio that the chip holds, in registers 0x9f to 0xa2 of page 1. -/
def Device.chipRatio (dev : Device) : UInt32 :=
  UInt32.ofNat (BigEndian.ofBytes (dev.page1.load 0x9f 4))

theorem chipRatio_setSampleRate (dev : Device) {sampRate : UInt32}
    (supported : rateSupported sampRate = true) :
    (rtlsdrSetSampleRate ℚ dev sampRate).2.chipRatio = rsampRatio ℚ dev.rtlXtal sampRate := by
  rw [rtlsdrSetSampleRate, if_pos supported]
  generalize rsampRatio ℚ dev.rtlXtal sampRate = ratio
  -- what is written after the ratio goes to lower registers
  have written (dev : Device) : (writeRatio ℚ dev ratio).page1.load 0x9f 4 =
      [(ratio >>> 24).toUInt8, (ratio >>> 16).toUInt8, (ratio >>> 8).toUInt8, ratio.toUInt8] := rfl
  have image : [(ratio >>> 24).toUInt8, (ratio >>> 16).toUInt8, (ratio >>> 8).toUInt8,
      ratio.toUInt8] = BigEndian.toBytes 4 ratio.toNat := by
    rw [BigEndian.toBytes_four, ← Nat.shiftRight_eq_div_pow, ← Nat.shiftRight_eq_div_pow,
      ← Nat.shiftRight_eq_div_pow]
    rfl
  rw [Device.chipRatio, written, image, BigEndian.ofBytes_toBytes,
    Nat.mod_eq_of_lt (show _ < 256 ^ 4 from ratio.toNat_lt), UInt32.ofNat_toNat]

/-- The real ratio, as the driver reads it off the value in the chip, is the one that was asked for,
and so is the rate that is stored. -/
def Programs (dev : Device) (sampRate : UInt32) : Prop :=
  (realRsampRatio (rtlsdrSetSampleRate ℚ dev sampRate).2.chipRatio).toNat =
      dev.rtlXtal.toNat * 2 ^ 22 / sampRate.toNat / 4 * 4 ∧
    (rtlsdrSetSampleRate ℚ dev sampRate).2.rate = sampRate

/-- It is so if and only if the ratio is in a range in which bit 28 repeats bit 27. -/
theorem resampler_iff (dev : Device) (sampRate : UInt32)
    (low : minRtlXtalFreq ≤ dev.rtlXtal) (high : dev.rtlXtal ≤ maxRtlXtalFreq)
    (supported : rateSupported sampRate = true) :
    Programs dev sampRate ↔
      (sampRate.toNat ≤ 300000 →
        96 * sampRate.toNat ≤ dev.rtlXtal.toNat ∧ dev.rtlXtal.toNat < 128 * sampRate.toNat) ∧
      (900000 < sampRate.toNat → dev.rtlXtal.toNat < 32 * sampRate.toNat) := by
  have band := (rateSupported_iff sampRate).mp supported
  have low' : 28799000 ≤ dev.rtlXtal.toNat := UInt32.le_iff_toNat_le.mp low
  have high' : dev.rtlXtal.toNat ≤ 28801000 := UInt32.le_iff_toNat_le.mp high
  have stored : (rtlsdrSetSampleRate ℚ dev sampRate).2.rate = UInt32.ofInt (trunc
      (realRate ℚ dev.rtlXtal (realRsampRatio (rsampRatio ℚ dev.rtlXtal sampRate)))) := by
    rw [rtlsdrSetSampleRate, if_pos supported]
    rfl
  -- the quotient fits into 30 bits
  have small : dev.rtlXtal.toNat * 2 ^ 22 / sampRate.toNat < 2 ^ 32 := by
    rw [Nat.div_lt_iff_lt_mul (by omega)]
    omega
  have ratio : (rsampRatio ℚ dev.rtlXtal sampRate).toNat =
      dev.rtlXtal.toNat * 2 ^ 22 / sampRate.toNat % 2 ^ 28 / 4 * 4 := by
    rw [rsampRatio, UInt32.toNat_and, quotient_toNat _ _ small,
      show (0x0ffffffc : UInt32).toNat = 0x0ffffffc from rfl, and_ratioMask]
  have real := realRsampRatio_toNat (rsampRatio ℚ dev.rtlXtal sampRate) (by rw [ratio]; omega)
  rw [ratio] at real
  -- the rate follows from the ratio, so the ratio alone decides
  rw [Programs, chipRatio_setSampleRate dev supported, ← ratio_iff low' high' band _ rfl, ← real]
  constructor
  · exact fun both => both.1
  · intro right
    refine ⟨right, ?_⟩
    have back := rate_back low' (r := sampRate.toNat) (by omega) (by omega)
    rw [← right] at back
    apply UInt32.toNat_inj.mp
    rw [stored, realRate, quotient_toNat _ _ (by rw [back]; exact sampRate.toNat_lt), back]

/-- A device with a crystal, and nothing set yet. -/
def withXtal (rtlXtal : UInt32) : Device := { opened Float (fun _ => 0) rtlXtal with rtlXtal }

theorem resampler_two_megahertz : Programs (withXtal 28800000) 2048000 :=
  (resampler_iff (withXtal 28800000) 2048000 (by decide) (by decide) (by decide)).mpr (by decide)

/-- Neither the ratio nor the rate is right. -/
def Misses (rtlXtal sampRate : UInt32) : Prop :=
  let dev := (rtlsdrSetSampleRate ℚ (withXtal rtlXtal) sampRate).2
  (realRsampRatio dev.chipRatio).toNat ≠ rtlXtal.toNat * 2 ^ 22 / sampRate.toNat / 4 * 4 ∧
    dev.rate ≠ sampRate

/-- At the edges of the bands the bits differ. -/
theorem resampler_edges :
    Misses 28801000 225001 ∧ Misses 28799000 300000 ∧ Misses 28801000 900001 := by
  unfold Misses
  decide +kernel

end RtlSdr.Librtlsdr
