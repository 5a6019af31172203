import Mathlib.Tactic.IntervalCases
import RtlSdr.Lib.Checked
import RtlSdr.Librtlsdr.Settings
import RtlSdr.Librtlsdr.Tuners.Fc001x

/-!
# The dividers of the FC0012 and the FC0013

The divider rounds at half of half the clock in Hz and the fraction changes its sign at half of it
in kHz. Where they fall on different sides, the registers are one step off. Two other frequencies
pass the check: a ratio of 0 or 1 borrows from nothing, and a product that wraps is taken for a
smaller one.
-/
namespace RtlSdr.Tuners.Fc001x

open Prog

/-! ### The words as numbers -/

/-- The ratio of a VCO frequency to half the clock, rounded. -/
def rounded (half f : Nat) : Nat := f / half + if half / 2 ≤ f % half then 1 else 0

/-- The fraction in 32768ths, before its sign changes. -/
def fraction (half f : Nat) : Nat := f % half / 1000 * 32768 / (half / 1000)

def Passes (n : Nat) : Prop := n ≤ 1 ∨ (90 ≤ n ∧ n ≤ 263)

/-- What `8 * reg[2] + reg[1]` is for a ratio that passes. -/
def divided (n : Nat) : Nat := if n ≤ 1 then n + 256 else n

def signedFraction (half f : Nat) : Int :=
  if half / 1000 ≤ 2 * (f % half / 1000) then fraction half f - 32768 else fraction half f

variable {half n v freq : Nat} {ppm : Int}

theorem fraction_le (f : Nat) (positive : 0 < half) : fraction half f ≤ 32768 := by
  have below := Nat.le_of_lt (Nat.mod_lt f positive)
  apply Nat.div_le_of_le_mul
  exact Nat.mul_le_mul_right 32768 (Nat.div_le_div_right below)

section

variable {f : UInt64} {half : UInt32} (small : f.toNat < 2 ^ 32)
  (low : 14385000 ≤ half.toNat) (high : half.toNat ≤ 14415000)

include small low high

omit high in
theorem quotient_le : f.toNat / half.toNat ≤ 298 := by
  apply Nat.le_of_lt_succ
  rw [Nat.div_lt_iff_lt_mul (by omega)]
  omega

omit high in
theorem xdiv_toNat : (xdiv f half).toNat = rounded half.toNat f.toNat := by
  have quotient := quotient_le small low
  have split := Nat.div_add_mod f.toNat half.toNat
  have q : (f / half.toUInt64).toUInt16.toNat = f.toNat / half.toNat := by
    rw [UInt64.toNat_toUInt16, UInt64.toNat_div, UInt32.toNat_toUInt64]
    exact Nat.mod_eq_of_lt (Nat.lt_of_le_of_lt quotient (by decide))
  have product : ((f / half.toUInt64).toUInt16.toUInt32 * half).toUInt64.toNat =
      half.toNat * (f.toNat / half.toNat) := by
    rw [UInt32.toNat_toUInt64, UInt32.toNat_mul, UInt16.toNat_toUInt32, q, Nat.mul_comm]
    exact Nat.mod_eq_of_lt (by omega)
  have rest : (f - ((f / half.toUInt64).toUInt16.toUInt32 * half).toUInt64).toNat =
      f.toNat % half.toNat := by
    rw [UInt64.toNat_sub, product]
    omega
  have middle : (half / 2).toUInt64.toNat = half.toNat / 2 := by
    rw [UInt32.toNat_toUInt64, UInt32.toNat_div]
    rfl
  unfold xdiv rounded
  dsimp only
  by_cases up : half.toNat / 2 ≤ f.toNat % half.toNat
  · rw [if_pos (UInt64.le_iff_toNat_le.mpr (by rw [middle, rest]; exact up)), if_pos up,
      UInt16.toNat_add, q]
    simp only [UInt16.reduceToNat]
    omega
  · rw [if_neg, if_neg up, q, Nat.add_zero]
    intro above
    apply up
    rw [← middle, ← rest]
    exact UInt64.le_iff_toNat_le.mp above

omit high in
theorem rounded_le : rounded half.toNat f.toNat ≤ 299 := by
  have quotient := quotient_le small low
  unfold rounded
  split <;> omega

omit small in
theorem xin_toNat : (xin f half).toNat =
    if 16384 ≤ fraction half.toNat f.toNat then (fraction half.toNat f.toNat + 32768) % 65536
    else fraction half.toNat f.toNat := by
  have positive : 0 < half.toNat := by omega
  have split := Nat.div_add_mod f.toNat half.toNat
  have below := Nat.mod_lt f.toNat positive
  have bound := fraction_le f.toNat positive
  have rest : (f - f / half.toUInt64 * half.toUInt64).toNat = f.toNat % half.toNat := by
    rw [UInt64.toNat_sub, UInt64.toNat_mul, UInt64.toNat_div, UInt32.toNat_toUInt64,
      Nat.mul_comm (f.toNat / half.toNat)]
    omega
  have khz : ((f - f / half.toUInt64 * half.toUInt64) / 1000).toUInt16.toNat =
      f.toNat % half.toNat / 1000 := by
    rw [UInt64.toNat_toUInt16, UInt64.toNat_div, rest]
    simp only [UInt64.reduceToNat]
    omega
  have shifted : f.toNat % half.toNat / 1000 * 32768 % 4294967296 =
      f.toNat % half.toNat / 1000 * 32768 := by omega
  have raw : ((((f - f / half.toUInt64 * half.toUInt64) / 1000).toUInt16.toUInt32 <<< 15) /
      (half / 1000)).toUInt16.toNat = fraction half.toNat f.toNat := by
    rw [UInt32.toNat_toUInt16, UInt32.toNat_div, UInt32.toNat_shiftLeft, UInt16.toNat_toUInt32,
      khz, UInt32.toNat_div]
    simp only [UInt32.reduceToNat, Nat.reduceMod, Nat.shiftLeft_eq, Nat.reducePow]
    rw [shifted]
    change fraction half.toNat f.toNat % 65536 = fraction half.toNat f.toNat
    omega
  unfold xin
  dsimp only
  by_cases wraps : 16384 ≤ fraction half.toNat f.toNat
  · rw [if_pos (UInt16.le_iff_toNat_le.mpr (by rw [raw]; exact wraps)), if_pos wraps,
      UInt16.toNat_add, raw]
    rfl
  · rw [if_neg, if_neg wraps, raw]
    intro above
    apply wraps
    rw [← raw]
    exact UInt16.le_iff_toNat_le.mp above

omit small in
theorem xin_signed : Int.bmod (xin f half).toNat 65536 = signedFraction half.toNat f.toNat := by
  have bound := fraction_le f.toNat (by omega : 0 < half.toNat)
  have khz : 0 < half.toNat / 1000 := by omega
  have wraps : 16384 ≤ fraction half.toNat f.toNat ↔
      half.toNat / 1000 ≤ 2 * (f.toNat % half.toNat / 1000) := by
    rw [fraction, Nat.le_div_iff_mul_le khz]
    omega
  rw [xin_toNat low high, signedFraction]
  by_cases wrapped : 16384 ≤ fraction half.toNat f.toNat
  · rw [if_pos wrapped, if_pos (wraps.mp wrapped), Int.bmod_def]
    split <;> omega
  · rw [if_neg wrapped, if_neg (fun above => wrapped (wraps.mpr above)), Int.bmod_def]
    split <;> omega

end

/-- `am` and `pm` after the borrow; from 0 and 1 it wraps. -/
theorem borrow_toNat {a p : UInt8} (am : a.toNat = n % 8) (pm : p.toNat = n / 8) (small : n ≤ 299) :
    (2 ≤ (if a < 2 then a + 8 else a).toNat ∧ (if a < 2 then a + 8 else a).toNat ≤ 9) ∧
      8 * (if a < 2 then p - 1 else p).toNat + (if a < 2 then a + 8 else a).toNat =
        if n ≤ 1 then n + 2048 else n := by
  by_cases borrow : a < 2
  · have less : a.toNat < 2 := UInt8.lt_iff_toNat_lt.mp borrow
    rw [if_pos borrow, if_pos borrow, UInt8.toNat_add, UInt8.toNat_sub, am, pm]
    simp only [UInt8.reduceToNat]
    split <;> omega
  · have enough : 2 ≤ a.toNat := UInt8.le_iff_toNat_le.mp (UInt8.not_lt.mp borrow)
    rw [if_neg borrow, if_neg borrow, am, pm]
    split <;> omega

theorem dividerRegs_toNat {x : UInt16} (same : x.toNat = n) (small : n ≤ 299) :
    8 * (dividerRegs x).2.toNat + (dividerRegs x).1.toNat = divided n ∧
      (dividerRegs x).2.toNat ≤ 31 ∧
      (((dividerRegs x).1 > 15 ∨ (dividerRegs x).2 < 0x0b) ↔ ¬Passes n) := by
  have pm : (x / 8).toUInt8.toNat = n / 8 := by
    rw [UInt16.toNat_toUInt8, UInt16.toNat_div, same]
    simp only [UInt16.reduceToNat]
    omega
  have am : (x - 8 * (x / 8).toUInt8.toUInt16).toUInt8.toNat = n % 8 := by
    rw [UInt16.toNat_toUInt8, UInt16.toNat_sub, UInt16.toNat_mul, UInt8.toNat_toUInt16, pm, same]
    simp only [UInt16.reduceToNat]
    omega
  obtain ⟨range, sum⟩ := borrow_toNat am pm small
  unfold dividerRegs divided Passes
  dsimp only
  generalize (if (x - 8 * (x / 8).toUInt8.toUInt16).toUInt8 < 2 then (_ : UInt8) else _) = a
    at range sum ⊢
  generalize (if (x - 8 * (x / 8).toUInt8.toUInt16).toUInt8 < 2 then (_ : UInt8) else _) = p
    at sum ⊢
  -- what `reg[2]` cannot hold is moved to `reg[1]`
  by_cases above : p > 31
  · have large : 31 < p.toNat := UInt8.lt_iff_toNat_lt.mp above
    have byte := p.toNat_lt
    rw [if_pos above]
    have moved : (a + 8 * (p - 31)).toNat = (a.toNat + 8 * (p.toNat - 31)) % 256 := by
      rw [UInt8.toNat_add, UInt8.toNat_mul, UInt8.toNat_sub]
      simp only [UInt8.reduceToNat]
      omega
    simp only [gt_iff_lt, UInt8.lt_iff_toNat_lt, UInt8.reduceToNat, moved]
    by_cases wrapped : n ≤ 1
    · rw [if_pos wrapped] at sum ⊢
      omega
    · rw [if_neg wrapped] at sum ⊢
      omega
  · have inside : p.toNat ≤ 31 := UInt8.le_iff_toNat_le.mp (UInt8.not_lt.mp above)
    rw [if_neg above]
    simp only [gt_iff_lt, UInt8.lt_iff_toNat_lt, UInt8.reduceToNat]
    by_cases wrapped : n ≤ 1
    · rw [if_pos wrapped] at sum ⊢
      omega
    · rw [if_neg wrapped] at sum ⊢
      omega

/-! ### The value of the registers -/

/-- What the registers of the PLL stand for. -/
def programmed (regs : RegFile) : ℚ :=
  8 * (regs 2).toNat + (regs 1).toNat +
    (Int.bmod ((regs 3).toNat * 256 + (regs 4).toNat) 65536 : Int) / 32768

/-- The registers are within a thousandth of the ratio of the VCO frequency, computed without a
bound, to half the clock. -/
def Accurate (clock freq : UInt32) (multi : UInt8) (regs : RegFile) : Prop :=
  |programmed regs - (freq.toNat * multi.toNat : Nat) / ((clock.toNat : ℚ) / 2)| ≤ 1 / 1000

theorem bytes_toNat (x : UInt16) :
    (x >>> 8).toUInt8.toNat * 256 + (x &&& 0xff).toUInt8.toNat = x.toNat := by
  have word := x.toNat_lt
  have mask : x.toNat &&& 255 = x.toNat % 256 := Nat.and_two_pow_sub_one_eq_mod x.toNat 8
  rw [UInt16.toNat_toUInt8, UInt16.toNat_toUInt8, UInt16.toNat_shiftRight, UInt16.toNat_and]
  simp only [UInt16.reduceToNat, Nat.reduceMod, Nat.shiftRight_eq_div_pow, mask]
  omega

theorem fVco_toNat (freq : UInt32) (multi : UInt8) :
    (fVco freq multi).toNat = freq.toNat * multi.toNat % 2 ^ 32 := by
  rw [fVco, UInt32.toNat_toUInt64, UInt32.toNat_mul, UInt8.toNat_toUInt32]

section

variable (divider : Divider) {clock : UInt32} (freq bandwidth : UInt32)
  (low : 28771199 ≤ clock.toNat) (high : clock.toNat ≤ 28828801)

include low high

theorem half_range : 14385000 ≤ (clock / 2).toNat ∧ (clock / 2).toNat ≤ 14415000 := by
  rw [UInt32.toNat_div]
  simp only [UInt32.reduceToNat]
  omega

theorem words_cases :
    let half := clock.toNat / 2
    let f := freq.toNat * divider.multi.toNat % 2 ^ 32
    (¬Passes (rounded half f) ∧ words divider clock freq bandwidth = none) ∨
      ∃ w, Passes (rounded half f) ∧ words divider clock freq bandwidth = some w ∧
        ∀ chip, Holds w chip → programmed chip.regs =
          divided (rounded half f) + signedFraction half f / 32768 := by
  intro half f
  obtain ⟨halfLow, halfHigh⟩ := half_range low high
  have halfEq : (clock / 2).toNat = half := by
    rw [UInt32.toNat_div]
    rfl
  have fEq : (fVco freq divider.multi).toNat = f := fVco_toNat freq divider.multi
  have small : (fVco freq divider.multi).toNat < 2 ^ 32 := by
    rw [fEq]
    exact Nat.mod_lt _ (by decide)
  have ratio := xdiv_toNat small halfLow
  have bound := rounded_le small halfLow
  have signed := xin_signed (f := fVco freq divider.multi) halfLow halfHigh
  rw [halfEq, fEq] at ratio bound signed
  obtain ⟨sum, _, refused⟩ := dividerRegs_toNat ratio bound
  unfold words
  dsimp only
  by_cases passes : Passes (rounded half f)
  · right
    rw [if_neg (fun refuses => refused.mp refuses passes)]
    refine ⟨_, passes, rfl, ?_⟩
    rintro chip ⟨one, two, three, four⟩
    dsimp only at one two three four
    have joined : ((chip.regs 3).toNat * 256 + (chip.regs 4).toNat : Int) =
        (xin (fVco freq divider.multi) (clock / 2)).toNat := by
      rw [three, four]
      exact_mod_cast bytes_toNat (xin (fVco freq divider.multi) (clock / 2))
    have whole : (8 * (chip.regs 2).toNat + (chip.regs 1).toNat : ℚ) =
        divided (rounded half f) := by
      rw [one, two]
      exact_mod_cast sum
    rw [programmed, joined, signed, whole]
  · left
    exact ⟨passes, if_pos (refused.mpr passes)⟩

end

/-! ### The error -/

section

variable {clock half v : Nat} (low : 28771199 ≤ clock) (high : clock ≤ 28828801)
  (halved : half = clock / 2)

/-- The fraction against the remainder: both are rounded to kHz, and the quotient down. -/
theorem fraction_near (large : 14385000 ≤ half) :
    |(fraction half v : ℚ) / 32768 - (v % half : Nat) / half| ≤ 1 / 5000 := by
  have positive : 0 < half := by omega
  have below := Nat.mod_lt v positive
  generalize rest : v % half = rem at below
  obtain ⟨k, kEq⟩ : ∃ k, rem / 1000 = k := ⟨_, rfl⟩
  obtain ⟨K, KEq⟩ : ∃ K, half / 1000 = K := ⟨_, rfl⟩
  have kRange : k * 1000 ≤ rem ∧ rem < k * 1000 + 1000 :=
    kEq ▸ ⟨Nat.div_mul_le_self rem 1000, Nat.lt_div_mul_add (by decide)⟩
  have KRange : K * 1000 ≤ half ∧ half < K * 1000 + 1000 :=
    KEq ▸ ⟨Nat.div_mul_le_self half 1000, Nat.lt_div_mul_add (by decide)⟩
  have KLarge : 14385 ≤ K := by omega
  have KPositive : 0 < K := by omega
  have fractionEq : fraction half v = k * 32768 / K := by
    rw [fraction, rest, kEq, KEq]
  have down := Nat.div_mul_le_self (k * 32768) K
  have next := Nat.lt_div_mul_add (a := k * 32768) KPositive
  rw [← fractionEq] at down next
  -- the quotient in kHz against that in Hz, multiplied out
  have above : k * half ≤ rem * K + half := by
    calc k * half ≤ k * (K * 1000 + 1000) := Nat.mul_le_mul_left k (Nat.le_of_lt KRange.2)
      _ = k * 1000 * K + k * 1000 := by ring
      _ ≤ rem * K + half :=
        Nat.add_le_add (Nat.mul_le_mul_right K kRange.1) (kRange.1.trans (Nat.le_of_lt below))
  have under : rem * K ≤ (k + 1) * half := by
    calc rem * K ≤ (k * 1000 + 1000) * K := Nat.mul_le_mul_right K (Nat.le_of_lt kRange.2)
      _ = (k + 1) * (K * 1000) := by ring
      _ ≤ (k + 1) * half := Nat.mul_le_mul_left _ KRange.1
  have halfQ : (0 : ℚ) < half := by exact_mod_cast positive
  have KQ : (0 : ℚ) < K := by exact_mod_cast KPositive
  have inverse : (1 : ℚ) / K ≤ 1 / 14385 := by
    apply one_div_le_one_div_of_le (by norm_num)
    exact_mod_cast KLarge
  have one : (fraction half v : ℚ) / 32768 ≤ k / K := by
    rw [div_le_div_iff₀ (by norm_num) KQ]
    exact_mod_cast down
  have two : (k : ℚ) / K ≤ (fraction half v + 1) / 32768 := by
    rw [div_le_div_iff₀ KQ (by norm_num)]
    have : k * 32768 ≤ (fraction half v + 1) * K := by linarith only [next]
    exact_mod_cast this
  have three : (k : ℚ) / K - 1 / K ≤ rem / half := by
    rw [← sub_div, div_le_div_iff₀ KQ halfQ]
    have : (k * half : ℚ) ≤ rem * K + half := by exact_mod_cast above
    linarith only [this]
  have four : (rem : ℚ) / half ≤ k / K + 1 / K := by
    rw [← add_div, div_le_div_iff₀ halfQ KQ]
    exact_mod_cast under
  rw [abs_le]
  constructor
  · have : (fraction half v + 1 : ℚ) / 32768 = fraction half v / 32768 + 1 / 32768 := by ring
    linarith only [this, two, four, inverse]
  · linarith only [one, three, inverse]

include low halved

/-- Half of an odd clock is half a Hz more than the integer the driver uses. -/
theorem ratio_near (small : v < 2 ^ 32) : |(v : ℚ) / half - v / ((clock : ℚ) / 2)| ≤ 1 / 50000 := by
  have positive : 0 < half := by omega
  have halfQ : (0 : ℚ) < half := by exact_mod_cast positive
  have clockQ : (0 : ℚ) < clock := by exact_mod_cast (by omega : 0 < clock)
  have twice : (v : ℚ) / ((clock : ℚ) / 2) = 2 * v / clock := by
    field_simp
  rw [twice, abs_le]
  have product : 2 ^ 32 * 50000 ≤ clock * half := by
    calc 2 ^ 32 * 50000 ≤ 28771199 * 14385599 := by decide
      _ ≤ clock * half := Nat.mul_le_mul low (by omega)
  constructor
  · have : (2 * v : ℚ) / clock ≤ v / half := by
      rw [div_le_div_iff₀ clockQ halfQ]
      have : 2 * v * half ≤ v * clock := by
        calc 2 * v * half = v * (2 * half) := by ring
          _ ≤ v * clock := Nat.mul_le_mul_left v (by omega)
      exact_mod_cast this
    linarith only [this]
  · have : (v : ℚ) / half ≤ (2 * v + clock / 50000) / clock := by
      rw [div_le_div_iff₀ halfQ clockQ]
      have odd : v * clock ≤ v * (2 * half) + v := by
        calc v * clock ≤ v * (2 * half + 1) := Nat.mul_le_mul_left v (by omega)
          _ = v * (2 * half) + v := by ring
      have scaled : v * clock * 50000 ≤ v * (2 * half) * 50000 + clock * half := by
        calc v * clock * 50000 ≤ (v * (2 * half) + v) * 50000 := Nat.mul_le_mul_right _ odd
          _ = v * (2 * half) * 50000 + v * 50000 := by ring
          _ ≤ v * (2 * half) * 50000 + clock * half :=
            Nat.add_le_add_left ((Nat.mul_le_mul_right _ (Nat.le_of_lt small)).trans product) _
      have : (v * clock * 50000 : ℚ) ≤ (v * (2 * half)) * 50000 + clock * half := by
        exact_mod_cast scaled
      linarith only [this]
    have split : (2 * v + (clock : ℚ) / 50000) / clock = 2 * v / clock + 1 / 50000 := by
      field_simp
    linarith only [this, split]

/-- Without rounding up and without a sign the quotient would be near the ratio. -/
theorem quotient_near (small : v < 2 ^ 32) :
    |((v / half : Nat) + (fraction half v : ℚ) / 32768) - v / ((clock : ℚ) / 2)| ≤ 1 / 4000 := by
  have large : 14385000 ≤ half := by omega
  have halfQ : (half : ℚ) ≠ 0 := by
    have : half ≠ 0 := by omega
    exact_mod_cast this
  have split : (v : ℚ) / half = (v / half : Nat) + (v % half : Nat) / half := by
    have whole : (v : ℚ) = half * (v / half : Nat) + (v % half : Nat) := by
      exact_mod_cast (Nat.div_add_mod v half).symm
    field_simp
    linarith
  have near := fraction_near (v := v) large
  have ratio := ratio_near low halved small
  rw [abs_le] at near ratio ⊢
  constructor
  · linarith only [near.1, ratio.1, split]
  · linarith only [near.2, ratio.2, split]

end

/-- The ratio rounds up where the fraction changes its sign. -/
def SameSide (half v : Nat) : Prop :=
  half / 2 ≤ v % half ↔ half / 1000 ≤ 2 * (v % half / 1000)

instance (half v : Nat) : Decidable (SameSide half v) := inferInstanceAs (Decidable (_ ↔ _))

theorem rounded_le_one_iff (positive : 0 < half) : rounded half v ≤ 1 ↔ v < half + half / 2 := by
  have split := Nat.div_add_mod v half
  have below := Nat.mod_lt v positive
  unfold rounded
  generalize v % half = rem at split below ⊢
  rcases Nat.lt_or_ge (v / half) 2 with few | many
  · interval_cases v / half
    · split <;> omega
    · split <;> omega
  · have twice : half * 2 ≤ half * (v / half) := Nat.mul_le_mul_left half many
    constructor
    · intro less
      omega
    · intro less
      omega

/-- The registers for a ratio of 0 or 1 stand for 256 more. -/
theorem borrowed_far {clock : Nat} (low : 28771199 ≤ clock) (halved : half = clock / 2)
    (tiny : rounded half v ≤ 1) :
    ¬|((divided (rounded half v) : ℚ) + (signedFraction half v : ℚ) / 32768) -
        v / ((clock : ℚ) / 2)| ≤ 1 / 1000 := by
  have less := (rounded_le_one_iff (by omega)).mp tiny
  have clockQ : (0 : ℚ) < clock := by exact_mod_cast (by omega : 0 < clock)
  have ratio : (v : ℚ) / ((clock : ℚ) / 2) ≤ 2 := by
    rw [div_le_iff₀ (by linarith)]
    have : v ≤ clock := by omega
    have : (v : ℚ) ≤ clock := by exact_mod_cast this
    linarith
  have whole : (256 : ℚ) ≤ divided (rounded half v) := by
    have : 256 ≤ divided (rounded half v) := by
      rw [divided, if_pos tiny]
      omega
    exact_mod_cast this
  have sign : (-32768 : ℚ) ≤ signedFraction half v := by
    have : -32768 ≤ signedFraction half v := by
      unfold signedFraction
      split <;> omega
    exact_mod_cast this
  intro near
  have := (abs_le.mp near).2
  linarith

/-- Without a wrap the words are right where the ratio is not 0 or 1 and both parts fall on the
same side, and nowhere else. -/
theorem value_near_iff {clock : Nat} (low : 28771199 ≤ clock) (halved : half = clock / 2)
    (small : v < 2 ^ 32) :
    |((divided (rounded half v) : ℚ) + (signedFraction half v : ℚ) / 32768) -
        v / ((clock : ℚ) / 2)| ≤ 1 / 1000 ↔
      half + half / 2 ≤ v ∧ SameSide half v := by
  by_cases tiny : rounded half v ≤ 1
  · have less := (rounded_le_one_iff (by omega)).mp tiny
    constructor
    · exact fun near => absurd near (borrowed_far low halved tiny)
    · rintro ⟨least, _⟩
      omega
  · have least : half + half / 2 ≤ v := by
      by_contra less
      exact tiny ((rounded_le_one_iff (by omega)).mpr (Nat.not_le.mp less))
    obtain ⟨above, below⟩ := abs_le.mp (quotient_near low halved small)
    rw [divided, if_neg tiny, rounded, signedFraction, SameSide]
    -- rounded up or not, and with a sign or not
    by_cases up : half / 2 ≤ v % half
    · by_cases sign : half / 1000 ≤ 2 * (v % half / 1000)
      · rw [if_pos up, if_pos sign]
        refine iff_of_true ?_ ⟨least, iff_of_true up sign⟩
        rw [abs_le]
        push_cast
        constructor <;> linarith only [above, below]
      · rw [if_pos up, if_neg sign]
        refine iff_of_false ?_ fun both => sign (both.2.mp up)
        intro near
        have := (abs_le.mp near).2
        push_cast at this
        linarith only [this, above, below]
    · by_cases sign : half / 1000 ≤ 2 * (v % half / 1000)
      · rw [if_neg up, if_pos sign]
        refine iff_of_false ?_ fun both => up (both.2.mpr sign)
        intro near
        have := (abs_le.mp near).1
        push_cast at this
        linarith only [this, above, below]
      · rw [if_neg up, if_neg sign]
        refine iff_of_true ?_ ⟨least, iff_of_false up sign⟩
        rw [abs_le]
        push_cast
        constructor <;> linarith only [above, below]

/-! ### Corrected clocks -/

/-- 28.8 MHz corrected by `ppm`, converted to an integer. -/
def CorrectedClock (clock : UInt32) (ppm : Int) : Prop :=
  |(clock.toNat : ℚ) - 28800000 * (1 + ppm / 1000000)| ≤ 1

variable {divider : Divider}

/-- `rtlsdr_get_tuner_clock` returns such a clock. -/
theorem applyPpmCorr_corrected (least : -1000 ≤ ppm) (most : ppm ≤ 1000) :
    CorrectedClock (Librtlsdr.applyPpmCorr ℚ 28800000 ppm) ppm := by
  have leastQ : (-1000 : ℚ) ≤ ppm := by exact_mod_cast least
  have mostQ : (ppm : ℚ) ≤ 1000 := by exact_mod_cast most
  have product : Librtlsdr.ofUInt32 ℚ 28800000 *
      (DoubleArith.ofInt 1 + DoubleArith.ofInt ppm / DoubleArith.ofInt 1000000) =
        28800000 * (1 + ppm / 1000000) := by
    change (((28800000 : UInt32).toNat : Int) : ℚ) * (((1 : Int) : ℚ) + (ppm : ℚ) /
      ((1000000 : Int) : ℚ)) = _
    simp only [UInt32.reduceToNat]
    push_cast
    rfl
  have low := Int.floor_le ((28800000 : ℚ) * (1 + ppm / 1000000))
  have high := Int.lt_floor_add_one ((28800000 : ℚ) * (1 + ppm / 1000000))
  have nonneg : 0 ≤ ⌊(28800000 : ℚ) * (1 + ppm / 1000000)⌋ := Int.floor_nonneg.mpr (by linarith)
  have word : ⌊(28800000 : ℚ) * (1 + ppm / 1000000)⌋ < 2 ^ 32 := by
    rw [Int.floor_lt]
    norm_num
    linarith
  rw [CorrectedClock, Librtlsdr.applyPpmCorr, product, DoubleArith.trunc_nonneg (by linarith),
    ← Int.cast_natCast, Checked.toNat_ofInt nonneg word, abs_le]
  constructor <;> linarith

theorem corrected_range {clock : UInt32} (least : -1000 ≤ ppm) (most : ppm ≤ 1000)
    (corrected : CorrectedClock clock ppm) : 28771199 ≤ clock.toNat ∧ clock.toNat ≤ 28828801 := by
  obtain ⟨below, above⟩ := abs_le.mp corrected
  have leastQ : (-1000 : ℚ) ≤ ppm := by exact_mod_cast least
  have mostQ : (ppm : ℚ) ≤ 1000 := by exact_mod_cast most
  have low : (28771199 : ℚ) ≤ clock.toNat := by linarith
  have high : (clock.toNat : ℚ) ≤ 28828801 := by linarith
  exact ⟨by exact_mod_cast low, by exact_mod_cast high⟩

/-- A VCO frequency whose words are right, for half the clock. -/
def Tunable (half v : Nat) : Prop := half + half / 2 ≤ v ∧ SameSide half v

instance (half v : Nat) : Decidable (Tunable half v) := inferInstanceAs (Decidable (_ ∧ _))

theorem outcome_accurate_iff {clock freq bandwidth : UInt32} {chip : Chip}
    (low : 28771199 ≤ clock.toNat) (high : clock.toNat ≤ 28828801)
    (outcome : Outcome (words divider clock freq bandwidth) (.ok (), chip))
    (small : freq.toNat * divider.multi.toNat < 2 ^ 32) :
    Accurate clock freq divider.multi chip.regs ↔
      Tunable (clock.toNat / 2) (freq.toNat * divider.multi.toNat) := by
  rcases words_cases divider freq bandwidth low high with
    ⟨_, none⟩ | ⟨w, _, some, value⟩
  · rw [none] at outcome
    cases outcome
  · rw [some] at outcome
    cases outcome with
    | written holds =>
    have programmed := value chip holds
    rw [Nat.mod_eq_of_lt small] at programmed
    rw [Accurate, programmed]
    exact value_near_iff low rfl small

/-- With a clock that is 28.8 MHz corrected by up to 1000 ppm, and a product that does not wrap,
what a successful call leaves in the chip is right exactly for the frequencies that are
`Tunable`. -/
theorem corrected_accurate_iff {bus : Bus} (working : bus.Working) {clock : UInt32} {ppm : Int}
    (least : -1000 ≤ ppm) (most : ppm ≤ 1000) (corrected : CorrectedClock clock ppm)
    (freq bandwidth : UInt32) (chip chip' : Chip) :
    (fc0012SetParams bus clock freq bandwidth chip = (.ok (), chip') →
      freq.toNat * (fc0012Divider freq).multi.toNat < 2 ^ 32 →
      (Accurate clock freq (fc0012Divider freq).multi chip'.regs ↔
        Tunable (clock.toNat / 2) (freq.toNat * (fc0012Divider freq).multi.toNat))) ∧
    (fc0013SetParams bus clock freq bandwidth chip = (.ok (), chip') →
      freq.toNat * (fc0013Divider freq).multi.toNat < 2 ^ 32 →
      (Accurate clock freq (fc0013Divider freq).multi chip'.regs ↔
        Tunable (clock.toNat / 2) (freq.toNat * (fc0013Divider freq).multi.toNat))) := by
  obtain ⟨low, high⟩ := corrected_range least most corrected
  constructor
  · intro run small
    have outcome := fc0012SetParams_outcome working clock freq bandwidth chip
    rw [run] at outcome
    exact outcome_accurate_iff low high outcome small
  · intro run small
    have outcome := fc0013SetParams_outcome working clock freq bandwidth chip
    rw [run] at outcome
    exact outcome_accurate_iff low high outcome small

/-- A bus that works, on which every read returns the same. -/
def quietBus : Bus := ⟨fun _ => false, fun _ => 0x20⟩

theorem quietBus_working : quietBus.Working := fun _ => rfl

def resetChip : Chip := ⟨fun _ => 0, 0⟩

/-- 100 MHz with a clock that is 20 ppm too fast. -/
theorem corrected_accurate_fm :
    Accurate 28800576 100000000 32
      (fc0012SetParams quietBus 28800576 100000000 6000000 resetChip).2.regs := by
  have corrected : CorrectedClock 28800576 20 := by
    rw [CorrectedClock, abs_le]
    simp only [UInt32.reduceToNat]
    norm_num
  refine ((corrected_accurate_iff quietBus_working (by decide) (by decide)
    corrected 100000000 6000000 resetChip _).1 ?_ (by decide)).mpr (by decide)
  exact run_eq_ok (by decide +kernel)

/-- With a correction of 1 ppm, 90.675088 MHz passes the check, and the registers are one step
off: the ratio is 201.5 and they stand for 200.5. -/
theorem corrected_off_by_one :
    CorrectedClock 28800028 1 ∧
      (fc0012SetParams quietBus 28800028 90675088 6000000 resetChip).1 = .ok () ∧
      ¬Accurate 28800028 90675088 32
        (fc0012SetParams quietBus 28800028 90675088 6000000 resetChip).2.regs := by
  refine ⟨?_, by decide +kernel, ?_⟩
  · rw [CorrectedClock, abs_le]
    simp only [UInt32.reduceToNat]
    norm_num
  · have one : (fc0012SetParams quietBus 28800028 90675088 6000000 resetChip).2.regs 1 = 9 := by
      decide +kernel
    have two : (fc0012SetParams quietBus 28800028 90675088 6000000 resetChip).2.regs 2 = 24 := by
      decide +kernel
    have three : (fc0012SetParams quietBus 28800028 90675088 6000000 resetChip).2.regs 3 = 192 := by
      decide +kernel
    have four : (fc0012SetParams quietBus 28800028 90675088 6000000 resetChip).2.regs 4 = 0 := by
      decide +kernel
    rw [Accurate, programmed, one, two, three, four, abs_le]
    simp only [UInt8.reduceToNat, UInt32.reduceToNat]
    norm_num [Int.bmod]

/-! ### The nominal clock -/

/-- The VCO frequencies, as they are computed, that pass the check. -/
theorem passes_nominal_iff (f : Nat) :
    Passes (rounded 14400000 f) ↔
      f < 21600000 ∨ (1288800000 ≤ f ∧ f < 3794400000) := by
  unfold Passes rounded
  split <;> omega

theorem sameSide_nominal (v : Nat) : SameSide 14400000 v := by
  unfold SameSide
  omega

/-- The registers cannot stand for a product that does not fit into 32 bits. -/
theorem wrapped_far {fraction : Int} (wraps : 2 ^ 32 ≤ v) (passes : Passes n)
    (bound : fraction ≤ 32768) :
    ¬|((divided n : ℚ) + (fraction : ℚ) / 32768) - v / ((28800000 : ℚ) / 2)| ≤ 1 / 1000 := by
  have whole : (divided n : ℚ) ≤ 263 := by
    have : divided n ≤ 263 := by
      unfold divided
      rcases passes with tiny | ⟨_, most⟩
      · rw [if_pos tiny]
        omega
      · split <;> omega
    exact_mod_cast this
  have part : (fraction : ℚ) / 32768 ≤ 1 := by
    rw [div_le_one (by norm_num)]
    exact_mod_cast bound
  have ratio : (298 : ℚ) ≤ v / (28800000 / 2) := by
    rw [le_div_iff₀ (by norm_num)]
    have : (2 ^ 32 : ℚ) ≤ v := by exact_mod_cast wraps
    linarith
  intro near
  have := (abs_le.mp near).1
  linarith

/-- A VCO frequency that is refused, or whose product neither wraps nor is too small. -/
def VcoSound (v : Nat) : Prop :=
  (v % 2 ^ 32 < 21600000 ∨ (1288800000 ≤ v % 2 ^ 32 ∧ v % 2 ^ 32 < 3794400000)) →
    21600000 ≤ v ∧ v < 2 ^ 32

/-- A call with the nominal clock: refused, or right where the product neither wraps nor is too
small. -/
theorem nominal_accurate_iff {freq bandwidth : UInt32} {result : Except Int Unit × Chip}
    (outcome : Outcome (words divider 28800000 freq bandwidth) result) :
    (∀ chip, result = (.ok (), chip) → Accurate 28800000 freq divider.multi chip.regs) ↔
      VcoSound (freq.toNat * divider.multi.toNat) := by
  have clock : (28800000 : UInt32).toNat = 28800000 := rfl
  have cases := words_cases divider freq bandwidth
    (by decide : 28771199 ≤ (28800000 : UInt32).toNat) (by decide)
  rw [clock] at cases
  rw [VcoSound, ← passes_nominal_iff]
  generalize vEq : freq.toNat * divider.multi.toNat = v at cases ⊢
  rcases cases with ⟨refused, none⟩ | ⟨w, passes, some, value⟩
  · -- refused: there is nothing to show on either side
    rw [none] at outcome
    refine iff_of_true ?_ fun passes => absurd passes refused
    rintro chip rfl
    cases outcome
  · rw [some] at outcome
    obtain ⟨_⟩ | @⟨_, chip, holds⟩ := outcome
    have programmed := value chip holds
    have accurate : (∀ chip', ((.ok (), chip) : Except Int Unit × Chip) = (.ok (), chip') →
        Accurate 28800000 freq divider.multi chip'.regs) ↔
        Accurate 28800000 freq divider.multi chip.regs := by
      constructor
      · intro all
        exact all chip rfl
      · rintro here chip' ⟨⟩
        exact here
    rw [accurate, Accurate, programmed, clock, vEq]
    by_cases wraps : v < 2 ^ 32
    · have same : v % 2 ^ 32 = v := Nat.mod_eq_of_lt wraps
      rw [same, value_near_iff (by decide) rfl wraps]
      constructor
      · rintro ⟨least, _⟩ _
        exact ⟨least, wraps⟩
      · intro needed
        exact ⟨(needed (same ▸ passes)).1, sameSide_nominal v⟩
    · have bound : signedFraction 14400000 (v % 2 ^ 32) ≤ 32768 := by
        have := fraction_le (v % 2 ^ 32) (by decide : 0 < 14400000)
        unfold signedFraction
        split <;> omega
      refine iff_of_false ?_ fun needed => wraps (needed passes).2
      exact wrapped_far (Nat.not_lt.mp wraps) passes bound

/-- The frequencies for which `fc0012_set_params` keeps its word: those that are not below
225 kHz, and of those above 1073.7 MHz the ones whose product is refused after it has wrapped. -/
def Fc0012Sound (freq : Nat) : Prop :=
  225000 ≤ freq ∧
    (2 ^ 30 ≤ freq →
      (5400000 ≤ freq % 2 ^ 30 ∧ freq % 2 ^ 30 < 322200000) ∨ 948600000 ≤ freq % 2 ^ 30)

/-- The same for `fc0013_set_params`, above 2147.4 MHz. -/
def Fc0013Sound (freq : Nat) : Prop :=
  225000 ≤ freq ∧
    (2 ^ 31 ≤ freq →
      (10800000 ≤ freq % 2 ^ 31 ∧ freq % 2 ^ 31 < 644400000) ∨ 1897200000 ≤ freq % 2 ^ 31)

instance (freq : Nat) : Decidable (Fc0012Sound freq) := inferInstanceAs (Decidable (_ ∧ _))

instance (freq : Nat) : Decidable (Fc0013Sound freq) := inferInstanceAs (Decidable (_ ∧ _))

theorem vcoSound_small (small : v < 2 ^ 32) : VcoSound v ↔ 21600000 ≤ v := by
  rw [VcoSound, Nat.mod_eq_of_lt small]
  omega

/-- The rows between the first and the last one: the product neither wraps nor is too small. -/
theorem vcoSound_inside {multi limit : Nat} (low : 37084000 ≤ freq) (below : freq < limit)
    (two : 2 ≤ multi) (fits : limit * multi ≤ 2 ^ 32) : VcoSound (freq * multi) := by
  have positive : 0 < multi := by omega
  have small := Nat.lt_of_lt_of_le (Nat.mul_lt_mul_of_pos_right below positive) fits
  have large : 37084000 * 2 ≤ freq * multi := Nat.mul_le_mul low two
  rw [vcoSound_small small]
  omega

theorem vcoSound_first (below : freq < 37084000) : VcoSound (freq * 96) ↔ 225000 ≤ freq := by
  rw [vcoSound_small (by omega)]
  omega

theorem fc0012_last (low : 593334000 ≤ freq) (word : freq < 2 ^ 32) :
    VcoSound (freq * 4) ↔ Fc0012Sound freq := by
  have wrapped : freq * 4 % 2 ^ 32 = freq % 2 ^ 30 * 4 := Nat.mul_mod_mul_right 4 freq (2 ^ 30)
  rw [VcoSound, wrapped, Fc0012Sound]
  omega

theorem fc0013_last (low : 950000000 ≤ freq) (word : freq < 2 ^ 32) :
    VcoSound (freq * 2) ↔ Fc0013Sound freq := by
  have wrapped : freq * 2 % 2 ^ 32 = freq % 2 ^ 31 * 2 := Nat.mul_mod_mul_right 2 freq (2 ^ 31)
  rw [VcoSound, wrapped, Fc0013Sound]
  omega

theorem fc0012Sound_small (small : freq < 593334000) : Fc0012Sound freq ↔ 225000 ≤ freq := by
  rw [Fc0012Sound]
  omega

theorem fc0013Sound_small (small : freq < 950000000) : Fc0013Sound freq ↔ 225000 ≤ freq := by
  rw [Fc0013Sound]
  omega

section

variable {Sound : Nat → Prop} {top freq : Nat}
  (small : ∀ {freq : Nat}, freq < top → (Sound freq ↔ 225000 ≤ freq))

include small

theorem table_row {multi limit : Nat} (low : ¬freq < 37084000) (below : freq < limit)
    (inside : limit ≤ top) (two : 2 ≤ multi) (fits : limit * multi ≤ 2 ^ 32) :
    VcoSound (freq * multi) ↔ Sound freq := by
  have large : 37084000 ≤ freq := Nat.not_lt.mp low
  have sound : Sound freq := (small (Nat.lt_of_lt_of_le below inside)).mpr (by omega)
  exact iff_of_true (vcoSound_inside large below two fits) sound

theorem table_first (below : freq < 37084000) (inside : 37084000 ≤ top) :
    VcoSound (freq * 96) ↔ Sound freq := by
  rw [small (Nat.lt_of_lt_of_le below inside)]
  exact vcoSound_first below

end

theorem fc0012Sound_iff (freq : UInt32) :
    VcoSound (freq.toNat * (fc0012Divider freq).multi.toNat) ↔ Fc0012Sound freq.toNat := by
  have word := freq.toNat_lt
  unfold fc0012Divider
  simp only [UInt32.lt_iff_toNat_lt, UInt32.reduceToNat]
  generalize freq.toNat = n at word ⊢
  -- row by row, as the driver goes through the table
  refine iteInduction (motive := fun divider : Divider =>
    VcoSound (n * divider.multi.toNat) ↔ Fc0012Sound n) (fun below => ?_) (fun low => ?_)
  · exact table_first fc0012Sound_small below (by decide)
  · iterate 8
      refine iteInduction (motive := fun divider : Divider =>
        VcoSound (n * divider.multi.toNat) ↔ Fc0012Sound n) (fun below => ?_) (fun last => ?_)
      · exact table_row fc0012Sound_small low below (by decide) (by decide) (by decide)
    exact fc0012_last (Nat.not_lt.mp last) word

theorem fc0013Sound_iff (freq : UInt32) :
    VcoSound (freq.toNat * (fc0013Divider freq).multi.toNat) ↔ Fc0013Sound freq.toNat := by
  have word := freq.toNat_lt
  unfold fc0013Divider
  simp only [UInt32.lt_iff_toNat_lt, UInt32.reduceToNat]
  generalize freq.toNat = n at word ⊢
  refine iteInduction (motive := fun divider : Divider =>
    VcoSound (n * divider.multi.toNat) ↔ Fc0013Sound n) (fun below => ?_) (fun low => ?_)
  · exact table_first fc0013Sound_small below (by decide)
  · iterate 9
      refine iteInduction (motive := fun divider : Divider =>
        VcoSound (n * divider.multi.toNat) ↔ Fc0013Sound n) (fun below => ?_) (fun last => ?_)
      · exact table_row fc0013Sound_small low below (by decide) (by decide) (by decide)
    exact fc0013_last (Nat.not_lt.mp last) word

/-- With the nominal clock and a bus that works, for every frequency: a call that passes the
check leaves the right words in the chip exactly for the frequencies above. -/
theorem nominal_accurate {bus : Bus} (working : bus.Working) (freq bandwidth : UInt32)
    (chip : Chip) :
    ((∀ chip', fc0012SetParams bus 28800000 freq bandwidth chip = (.ok (), chip') →
        Accurate 28800000 freq (fc0012Divider freq).multi chip'.regs) ↔
      Fc0012Sound freq.toNat) ∧
    ((∀ chip', fc0013SetParams bus 28800000 freq bandwidth chip = (.ok (), chip') →
        Accurate 28800000 freq (fc0013Divider freq).multi chip'.regs) ↔
      Fc0013Sound freq.toNat) := by
  have first := fc0012SetParams_outcome working 28800000 freq bandwidth chip
  have second := fc0013SetParams_outcome working 28800000 freq bandwidth chip
  exact ⟨(nominal_accurate_iff first).trans (fc0012Sound_iff freq),
    (nominal_accurate_iff second).trans (fc0013Sound_iff freq)⟩

/-- 100 MHz is among them, for both. -/
theorem nominal_accurate_fm :
    Accurate 28800000 100000000 32
        (fc0012SetParams quietBus 28800000 100000000 6000000 resetChip).2.regs ∧
      Accurate 28800000 100000000 32
        (fc0013SetParams quietBus 28800000 100000000 6000000 resetChip).2.regs := by
  have both := nominal_accurate quietBus_working 100000000 6000000 resetChip
  constructor
  · exact both.1.mpr (by decide +kernel) _ (run_eq_ok (by decide +kernel))
  · exact both.2.mpr (by decide +kernel) _ (run_eq_ok (by decide +kernel))

/-- For 1.5 GHz the product wraps to 1.705 GHz, which passes the check of the FC0012: the ratio
is 416.7 and the registers stand for 118.4. -/
theorem nominal_wrapped :
    (fc0012SetParams quietBus 28800000 1500000000 6000000 resetChip).1 = .ok () ∧
      ¬Accurate 28800000 1500000000 4
        (fc0012SetParams quietBus 28800000 1500000000 6000000 resetChip).2.regs := by
  refine ⟨by decide +kernel, ?_⟩
  have one : (fc0012SetParams quietBus 28800000 1500000000 6000000 resetChip).2.regs 1 = 6 := by
    decide +kernel
  have two : (fc0012SetParams quietBus 28800000 1500000000 6000000 resetChip).2.regs 2 = 14 := by
    decide +kernel
  have three : (fc0012SetParams quietBus 28800000 1500000000 6000000 resetChip).2.regs 3 = 51 := by
    decide +kernel
  have four : (fc0012SetParams quietBus 28800000 1500000000 6000000 resetChip).2.regs 4 = 215 := by
    decide +kernel
  rw [Accurate, programmed, one, two, three, four, abs_le]
  simp only [UInt8.reduceToNat, UInt32.reduceToNat]
  norm_num [Int.bmod]

end RtlSdr.Tuners.Fc001x
