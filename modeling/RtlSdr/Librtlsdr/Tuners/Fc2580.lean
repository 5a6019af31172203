import Mathlib.Algebra.Order.Field.Basic
import Mathlib.Tactic.FieldSimp
import Mathlib.Tactic.Linarith
import Mathlib.Tactic.Ring
import RtlSdr.Lib.Checked
import RtlSdr.Librtlsdr.Tuners.Bus

/-!
# The FC2580

`fc2580_set_freq` splits the frequency of the VCO into the divider of the crystal, an integer
part and a fraction of 20 bits, in 32-bit integers. The crystal of 16384 kHz is a power of two
in kHz, so the fraction is exact and the rounding behind it never takes place.
-/
namespace RtlSdr.Tuners.Fc2580

open Checked

def crystalFreq : UInt32 := 16384000
def borderFreq : Nat := 2600000
def crystalFreqKhz : UInt32 := (crystalFreq + 500) / 1000

/-! ### The registers -/

/-- A part of the driver, and whether all of it succeeded. -/
abbrev Part := Chip → Bool × Chip

/-- `result &= ...`: the second part runs whatever became of the first. -/
def Part.and (first second : Part) : Part := fun chip =>
  let done := first chip
  let next := second done.2
  (done.1 && next.1, next.2)

section

variable (bus : Bus)

/-- Calls of `fc2580_i2c_write` in a row. -/
def writeAll : List (Nat × UInt8) → Part
  | [] => fun chip => (true, chip)
  | write :: writes => Part.and (i2cWrite bus write.1 write.2) (writeAll writes)

/-- What `fc2580_set_filter` writes for a bandwidth. -/
def filterWrites (filterBw : UInt8) (freqXtal : UInt32) : List (Nat × UInt8) :=
  if filterBw = 1 then
    [(0x36, 0x1c), (0x37, (4151 * freqXtal / 1000000).toUInt8), (0x39, 0x00), (0x2e, 0x09)]
  else if filterBw = 6 then
    [(0x36, 0x18), (0x37, (4400 * freqXtal / 1000000).toUInt8), (0x39, 0x00), (0x2e, 0x09)]
  else if filterBw = 7 then
    [(0x36, 0x18), (0x37, (3910 * freqXtal / 1000000).toUInt8), (0x39, 0x80), (0x2e, 0x09)]
  else if filterBw = 8 then
    [(0x36, 0x18), (0x37, (3300 * freqXtal / 1000000).toUInt8), (0x39, 0x80), (0x2e, 0x09)]
  else []

/-- The calibration loop of `fc2580_set_filter`. -/
def calibrate : Nat → UInt8 → Part
  | 0, _ => fun chip => (true, chip)
  | passes + 1, calMon => fun chip =>
    let read := i2cRead bus chip
    -- a read that fails leaves `cal_mon` as it was
    let calMon := read.1.getD calMon
    let rest : Bool × Chip :=
      if calMon &&& 0xc0 ≠ 0xc0 then
        Part.and (writeAll bus [(0x2e, 0x01), (0x2e, 0x09)]) (calibrate passes calMon) read.2
      else (true, read.2)
    (read.1.isSome && rest.1, rest.2)

def fc2580SetFilter (filterBw : UInt8) (freqXtal : UInt32) : Part :=
  Part.and (Part.and (writeAll bus (filterWrites filterBw freqXtal)) (calibrate bus 5 0))
    (writeAll bus [(0x2e, 0x01)])

/-- `fc2580_SetBandwidthMode`, which returns 1 for an error. -/
def fc2580SetBandwidthMode (bandwidthMode : UInt8) (chip : Chip) : Int × Chip :=
  let set := fc2580SetFilter bus bandwidthMode crystalFreqKhz chip
  (if set.1 then 0 else 1, set.2)

end

/-! ### The frequency -/

/-- `fc2580_band_type`. -/
inductive Band
  | uhf
  | l
  | vhf
deriving DecidableEq, Repr

def bandOf (fLo : Nat) : Band := if fLo > 1000000 then .l else if fLo > 400000 then .uhf else .vhf

/-- How often the VCO frequency is divided for the mixer. -/
def Band.divider : Band → Nat
  | .uhf => 4
  | .l => 2
  | .vhf => 12

def rVal (fVco freqXtal : Nat) : Checked Nat := do
  let high ← unsigned 32 (2 * 76 * freqXtal)
  if fVco ≥ high then pure 1
  else
    let low ← unsigned 32 (76 * freqXtal)
    pure (if fVco ≥ low then 2 else 4)

/-- `k_val`, from the part of the VCO frequency that the integer divider leaves. -/
def kVal (fDiff fComp : Nat) : Checked Nat := do
  -- shifted by 16 of the 20 bits, and the divisor by the other 4 the other way
  let fDiffShifted ← unsigned 32 (fDiff * 2 ^ 16)
  let twice ← unsigned 32 (2 * fComp)
  let divisor : Nat := twice / 2 ^ 4
  let k ← quotient fDiffShifted divisor
  let product ← unsigned 32 (k * divisor)
  let rest ← unsigned 32 (fDiffShifted - product)
  if rest ≥ fComp / 2 ^ 4 then unsigned 32 (k + 1) else pure k

/-- What is computed before anything is written. -/
structure Pll where
  fVco : Nat
  r : Nat
  n : Nat
  k : Nat
deriving DecidableEq, Repr

def pll (fLo freqXtal : Nat) : Checked Pll := do
  let fVco ← unsigned 32 (fLo * (bandOf fLo).divider)
  let r ← rVal fVco freqXtal
  let fComp ← quotient freqXtal r
  let n ← quotient (fVco / 2) fComp
  let twice ← unsigned 32 (2 * fComp)
  let whole ← unsigned 32 (twice * n)
  let fDiff ← unsigned 32 (fVco - whole)
  let k ← kVal fDiff fComp
  pure ⟨fVco, r, n, k⟩

/-- The writes for the UHF band that depend on the frequency. -/
def uhfWrites (fLo : Nat) : List (Nat × UInt8) :=
  (0x5f, if fLo < 538000 then 0x13 else 0x15) ::
    if fLo < 538000 then
      [(0x61, 0x07), (0x62, 0x06), (0x67, 0x06), (0x68, 0x08), (0x69, 0x10), (0x6a, 0x12)]
    else if fLo < 794000 then
      [(0x61, 0x03), (0x62, 0x03), (0x67, 0x03), (0x68, 0x05), (0x69, 0x0c), (0x6a, 0x0e)]
    else [(0x61, 0x07), (0x62, 0x06), (0x67, 0x07), (0x68, 0x09), (0x69, 0x10), (0x6a, 0x12)]

def bandWrites (fLo : Nat) : Band → List (Nat × UInt8)
  | .uhf =>
    [(0x25, 0xf0), (0x27, 0x77), (0x28, 0x53), (0x29, 0x60), (0x30, 0x09), (0x50, 0x8c),
      (0x53, 0x50)] ++ uhfWrites fLo ++
      [(0x63, 0x15), (0x6b, 0x0b), (0x6c, 0x0c), (0x6d, 0x78), (0x6e, 0x32), (0x6f, 0x14)]
  | .vhf =>
    [(0x27, 0x77), (0x28, 0x33), (0x29, 0x40), (0x30, 0x09), (0x50, 0x8c), (0x53, 0x50),
      (0x5f, 0x0f), (0x61, 0x07), (0x62, 0x00), (0x63, 0x15), (0x67, 0x03), (0x68, 0x05),
      (0x69, 0x10), (0x6a, 0x12), (0x6b, 0x08), (0x6c, 0x0a), (0x6d, 0x78), (0x6e, 0x32),
      (0x6f, 0x54)]
  | .l =>
    [(0x2b, 0x70), (0x2c, 0x37), (0x2d, 0xe7), (0x30, 0x09), (0x44, 0x20), (0x50, 0x8c),
      (0x53, 0x50), (0x5f, 0x0f), (0x61, 0x0f), (0x62, 0x00), (0x63, 0x13), (0x67, 0x00),
      (0x68, 0x02), (0x69, 0x0c), (0x6a, 0x0e), (0x6b, 0x08), (0x6c, 0x0a), (0x6d, 0xa0),
      (0x6e, 0x50), (0x6f, 0x14)]

/-- The bandwidth of the filter for a band. -/
def Band.filterBw : Band → UInt8
  | .uhf => 8
  | .vhf => 7
  | .l => 1

/-- The bits 6 and 7 of register 0x02. -/
def Band.bits : Band → UInt8
  | .uhf => 0x00
  | .vhf => 0x80
  | .l => 0x40

/-- `data_0x02`. The clock is the internal one. -/
def data02 (fVco : Nat) (band : Band) : UInt8 :=
  let vco : UInt8 := if fVco ≥ borderFreq then 0x0e ||| 0x08 else 0x0e &&& 0xf7
  (vco &&& 0x3f) ||| band.bits

/-- `data_0x18`: `r` and the high bits of `k`. -/
def data18 (r k : Nat) : UInt8 :=
  (if r = 1 then 0x00 else if r = 2 then 0x10 else 0x20) + (k / 2 ^ 16).toUInt8

def pllWrites (fLo : Nat) (p : Pll) : List (Nat × UInt8) :=
  [(0x02, data02 p.fVco (bandOf fLo)), (0x18, data18 p.r p.k), (0x1a, (p.k / 2 ^ 8).toUInt8),
    (0x1b, p.k.toUInt8), (0x1c, p.n.toUInt8)] ++
    -- the load of the UHF LNA
    if bandOf fLo = .uhf then [(0x2d, if fLo ≤ 794000 then 0x9f else 0x8f)] else []

section

variable (bus : Bus)

def fc2580SetFreq (fLo freqXtal : UInt32) : Part :=
  let fLo := fLo.toNat
  let p := (pll fLo freqXtal.toNat).value
  Part.and
    (Part.and (writeAll bus (bandWrites fLo (bandOf fLo)))
      (fc2580SetFilter bus (bandOf fLo).filterBw freqXtal))
    (Part.and (writeAll bus (if freqXtal ≥ 28000 then [(0x4b, 0x22)] else []))
      (writeAll bus (pllWrites fLo p)))

/-- The frequency in kHz; the sum is an `unsigned long`. -/
def rfFreqKhz (rfFreqHz : UInt64) : UInt32 := ((rfFreqHz + 500) / 1000).toUInt32

/-- `fc2580_SetRfFreqHz`, which returns 1 for an error. -/
def fc2580SetRfFreqHz (rfFreqHz : UInt64) (chip : Chip) : Int × Chip :=
  let set := fc2580SetFreq bus (rfFreqKhz rfFreqHz) crystalFreqKhz chip
  (if set.1 then 0 else 1, set.2)

end

/-! ### Success and what it leaves in the chip -/

section

variable {bus : Bus}

theorem and_success {first second : Part} {chip : Chip}
    (success : (Part.and first second chip).1 = true) :
    (first chip).1 = true ∧ (second (first chip).2).1 = true :=
  Bool.and_eq_true_iff.mp success

theorem writeAll_regs (writes : List (Nat × UInt8)) (chip : Chip)
    (success : (writeAll bus writes chip).1 = true) :
    (writeAll bus writes chip).2.regs = chip.regs.storeAll writes := by
  induction writes generalizing chip with
  | nil => rfl
  | cons write writes ih =>
    obtain ⟨here, rest⟩ := and_success success
    have written : (i2cWrite bus write.1 write.2 chip).2.regs =
        chip.regs.store write.1 [write.2] := by
      unfold i2cWrite at here ⊢
      dsimp only at here ⊢
      split
      · next failed =>
        rw [if_pos failed] at here
        cases here
      · rfl
    refine (ih _ rest).trans ?_
    rw [written, RegFile.storeAll, RegFile.storeAll, List.foldl_cons]

/-- A part that succeeds whatever the chip holds. -/
def Part.Succeeds (part : Part) : Prop := ∀ chip, (part chip).1 = true

theorem Part.Succeeds.and {first second : Part} (one : first.Succeeds) (two : second.Succeeds) :
    (Part.and first second).Succeeds :=
  fun chip => Bool.and_eq_true_iff.mpr ⟨one chip, two _⟩

variable (working : bus.Working)

include working

theorem writeAll_succeeds (writes : List (Nat × UInt8)) : (writeAll bus writes).Succeeds := by
  induction writes with
  | nil => exact fun _ => rfl
  | cons write writes ih =>
    have here : Part.Succeeds (i2cWrite bus write.1 write.2) := by
      intro chip
      rw [i2cWrite_working working]
    exact here.and ih

theorem calibrate_succeeds (passes : Nat) (calMon : UInt8) :
    (calibrate bus passes calMon).Succeeds := by
  induction passes generalizing calMon with
  | zero => exact fun _ => rfl
  | succ passes ih =>
    intro chip
    rw [calibrate]
    dsimp only
    rw [i2cRead_working working]
    split
    · exact (writeAll_succeeds working _).and (ih _) _
    · rfl

theorem setFilter_succeeds (filterBw : UInt8) (freqXtal : UInt32) :
    (fc2580SetFilter bus filterBw freqXtal).Succeeds :=
  ((writeAll_succeeds working _).and (calibrate_succeeds working 5 0)).and
    (writeAll_succeeds working _)

theorem setFreq_succeeds (fLo freqXtal : UInt32) : (fc2580SetFreq bus fLo freqXtal).Succeeds :=
  ((writeAll_succeeds working _).and (setFilter_succeeds working _ _)).and
    ((writeAll_succeeds working _).and (writeAll_succeeds working _))

end

/-! ### The arithmetic -/

theorem crystalFreqKhz_toNat : crystalFreqKhz.toNat = 16384 := by decide

/-- The divider of the crystal by the VCO frequency. -/
def crystalDivider (fVco : Nat) : Nat :=
  if fVco ≥ 2490368 then 1 else if fVco ≥ 1245184 then 2 else 4

theorem rVal_eq (fVco : Nat) : rVal fVco 16384 = pure (crystalDivider fVco) := by
  have high : unsigned 32 (2 * 76 * (16384 : Nat)) = pure 2490368 :=
    unsigned_eq rfl (by decide)
  have low : unsigned 32 (76 * (16384 : Nat)) = pure 1245184 := unsigned_eq rfl (by decide)
  rw [rVal, high, pure_bind, crystalDivider]
  split
  · rfl
  · rw [low, pure_bind]

theorem kVal_eq {fDiff fComp k : Nat} (unit : Nat) (below : fDiff < 2 * fComp) (large : 16 ≤ fComp)
    (small : fComp ≤ 16384) (twice : 2 * fComp = 16 * unit)
    (exact : fDiff * 2 ^ 16 = k * unit) : kVal fDiff fComp = pure k := by
  have positive : 0 < unit := by omega
  have shifted : fDiff * 2 ^ 16 < 2 ^ 32 := by omega
  have divisor : 2 * fComp / 2 ^ 4 = unit := by omega
  have quotient : fDiff * 2 ^ 16 / unit = k := by
    rw [exact, Nat.mul_div_cancel k positive]
  have nothing : (0 : Nat) < fComp / 2 ^ 4 := by omega
  have shift : unsigned 32 (fDiff * 2 ^ 16) = pure (fDiff * 2 ^ 16) :=
    unsigned_eq (by push_cast; rfl) shifted
  have double : unsigned 32 (2 * fComp) = pure (2 * fComp) :=
    unsigned_eq (by push_cast; rfl) (by omega)
  have product : unsigned 32 (k * unit) = pure (k * unit) :=
    unsigned_eq (by push_cast; rfl) (by rw [← exact]; exact shifted)
  have rest : unsigned 32 ((fDiff * 2 ^ 16 : Nat) - (k * unit : Nat)) = pure 0 :=
    unsigned_eq (by rw [exact]; simp) (by decide)
  rw [kVal, shift, pure_bind, double, pure_bind]
  dsimp only
  rw [divisor, quotient_eq (Nat.pos_iff_ne_zero.mp positive), pure_bind, quotient, product,
    pure_bind, rest, pure_bind, if_neg (Nat.not_le.mpr nothing)]

theorem bandOf_divider (fLo : Nat) (upper : fLo ≤ 4000000) :
    fLo * (bandOf fLo).divider ≤ 8000000 := by
  unfold bandOf
  split
  · exact Nat.mul_le_mul upper (Nat.le_refl 2)
  · split
    · next low _ =>
      have : fLo * 4 ≤ 8000000 := by omega
      exact this
    · next low =>
      have : fLo * 12 ≤ 8000000 := by omega
      exact this

/-- The words of the PLL stand for the VCO frequency without a remainder. -/
structure Pll.Exact (p : Pll) (vco : Nat) : Prop where
  fVco : p.fVco = vco
  r : p.r = 1 ∨ p.r = 2 ∨ p.r = 4
  n : p.n < 256
  k : p.k < 2 ^ 20
  whole : p.r * (vco * 2 ^ 20) = 2 * 16384 * (p.n * 2 ^ 20 + p.k)

/-- What follows the choice of the divider, where the comparison frequency is `8 * unit`. -/
theorem pll_step {fLo : Nat} (r unit : Nat) (upper : fLo ≤ 4000000)
    (chosen : crystalDivider (fLo * (bandOf fLo).divider) = r)
    (crystal : 16384 = r * (8 * unit)) (power : r * 2 ^ 5 * unit = 2 ^ 16)
    (one : r = 1 ∨ r = 2 ∨ r = 4) (range : fLo * (bandOf fLo).divider < 256 * (16 * unit)) :
    ∃ p : Pll, pll fLo 16384 = pure p ∧ p.Exact (fLo * (bandOf fLo).divider) := by
  have bound := bandOf_divider fLo upper
  have vcoFits : unsigned 32 (fLo * (bandOf fLo).divider) =
      pure (fLo * (bandOf fLo).divider) := unsigned_eq (by push_cast; rfl) (by omega)
  rw [pll, vcoFits, pure_bind, rVal_eq, pure_bind, chosen]
  generalize fLo * (bandOf fLo).divider = vco at bound range ⊢
  have positive : 0 < r := by omega
  have comparison : 16384 / r = 8 * unit := by
    rw [crystal]
    exact Nat.mul_div_cancel_left _ positive
  have unitLarge : 512 ≤ unit := by
    rcases one with rfl | rfl | rfl <;> omega
  have unitSmall : 8 * unit ≤ 16384 := by
    rw [crystal]
    exact Nat.le_mul_of_pos_left _ positive
  -- the integer part and what it leaves
  obtain ⟨n, fDiff, nVal, split, below⟩ : ∃ n fDiff, vco / 2 / (8 * unit) = n ∧
      vco = 16 * unit * n + fDiff ∧ fDiff < 16 * unit := by
    refine ⟨vco / (16 * unit), vco % (16 * unit), ?_, ?_, ?_⟩
    · rw [Nat.div_div_eq_div_mul]
      congr 1
      omega
    · exact (Nat.div_add_mod vco (16 * unit)).symm
    · exact Nat.mod_lt _ (by omega)
  have twice : unsigned 32 (2 * (8 * unit : Nat)) = pure (16 * unit) :=
    unsigned_eq (by push_cast; omega) (by omega)
  have whole : unsigned 32 ((16 * unit : Nat) * n) = pure (16 * unit * n) :=
    unsigned_eq (by push_cast; rfl) (by omega)
  have rest : unsigned 32 ((vco : Int) - (16 * unit * n : Nat)) = pure fDiff :=
    unsigned_eq (by omega) (by omega)
  have fraction : kVal fDiff (8 * unit) = pure (fDiff * (r * 2 ^ 5)) := by
    apply kVal_eq unit
    · omega
    · omega
    · exact unitSmall
    · omega
    · rw [← power]
      ring
  rw [quotient_eq (Nat.pos_iff_ne_zero.mp positive), pure_bind, comparison,
    quotient_eq (by omega), pure_bind, nVal, twice, pure_bind, whole, pure_bind, rest, pure_bind,
    fraction, pure_bind]
  refine ⟨_, rfl, rfl, one, ?_, ?_, ?_⟩
  · -- the range of the divider
    have less : 16 * unit * n < 16 * unit * 256 := by omega
    exact Nat.lt_of_mul_lt_mul_left less
  · calc fDiff * (r * 2 ^ 5) < 16 * unit * (r * 2 ^ 5) :=
          Nat.mul_lt_mul_of_pos_right below (by omega)
      _ = 16 * (r * 2 ^ 5 * unit) := by ring
      _ = 2 ^ 20 := by rw [power]; rfl
  · dsimp only
    calc r * (vco * 2 ^ 20) = r * (16 * unit) * (n * 2 ^ 20) + 16 * (r * fDiff) * 2 ^ 16 := by
          rw [split]
          ring
      _ = r * (16 * unit) * (n * 2 ^ 20) + 16 * (r * fDiff) * (r * 2 ^ 5 * unit) := by rw [power]
      _ = 2 * (r * (8 * unit)) * (n * 2 ^ 20 + fDiff * (r * 2 ^ 5)) := by ring
      _ = 2 * 16384 * (n * 2 ^ 20 + fDiff * (r * 2 ^ 5)) := by rw [← crystal]

theorem pll_exact (fLo : Nat) (upper : fLo ≤ 4000000) :
    ∃ p : Pll, pll fLo 16384 = pure p ∧ p.Exact (fLo * (bandOf fLo).divider) := by
  have bound := bandOf_divider fLo upper
  by_cases high : fLo * (bandOf fLo).divider ≥ 2490368
  · apply pll_step 1 2048 upper _ rfl rfl (.inl rfl) (by omega)
    rw [crystalDivider, if_pos high]
  · by_cases low : fLo * (bandOf fLo).divider ≥ 1245184
    · apply pll_step 2 1024 upper _ rfl rfl (.inr (.inl rfl)) (by omega)
      rw [crystalDivider, if_neg high, if_pos low]
    · apply pll_step 4 512 upper _ rfl rfl (.inr (.inr rfl)) (by omega)
      rw [crystalDivider, if_neg high, if_neg low]

/-! ### The registers of the PLL -/

/-- `r` from bits 5 and 4 of register 0x18. -/
def decodeR (regs : RegFile) : Nat := 2 ^ ((regs 0x18 >>> 4) &&& 3).toNat

/-- `k` from registers 0x18, 0x1a and 0x1b. -/
def decodeK (regs : RegFile) : Nat :=
  (regs 0x18 &&& 0x0f).toNat * 65536 + (regs 0x1a).toNat * 256 + (regs 0x1b).toNat

/-- `n` from register 0x1c. -/
def decodeN (regs : RegFile) : Nat := (regs 0x1c).toNat

theorem data18_toNat (r k : Nat) (small : k < 2 ^ 20) :
    (data18 r k).toNat = (if r = 1 then 0 else if r = 2 then 16 else 32) + k / 2 ^ 16 := by
  have high : k / 2 ^ 16 < 16 := by omega
  have byte : (k / 2 ^ 16).toUInt8.toNat = k / 2 ^ 16 := by
    rw [Nat.toUInt8_eq, UInt8.toNat_ofNat']
    omega
  rw [data18, UInt8.toNat_add, byte]
  split
  · simp only [UInt8.reduceToNat]
    omega
  · split
    · simp only [UInt8.reduceToNat]
      omega
    · simp only [UInt8.reduceToNat]
      omega

theorem pllWrites_regs (fLo : Nat) (p : Pll) (regs : RegFile) :
    let written := regs.storeAll (pllWrites fLo p)
    written 0x18 = data18 p.r p.k ∧ written 0x1a = (p.k / 2 ^ 8).toUInt8 ∧
      written 0x1b = p.k.toUInt8 ∧ written 0x1c = p.n.toUInt8 := by
  unfold pllWrites
  -- the load of the LNA is in a register of its own
  split
  · exact ⟨rfl, rfl, rfl, rfl⟩
  · exact ⟨rfl, rfl, rfl, rfl⟩

theorem decode_pllWrites (fLo : Nat) {vco : Nat} {p : Pll} (exact : p.Exact vco) (regs : RegFile) :
    let written := regs.storeAll (pllWrites fLo p)
    decodeR written = p.r ∧ decodeK written = p.k ∧ decodeN written = p.n := by
  obtain ⟨high, middle, low, whole⟩ := pllWrites_regs fLo p regs
  have small := exact.k
  have word := data18_toNat p.r p.k small
  dsimp only at high middle low whole ⊢
  have mask4 (n : Nat) : n &&& 15 = n % 16 := Nat.and_two_pow_sub_one_eq_mod n 4
  have mask2 (n : Nat) : n &&& 3 = n % 4 := Nat.and_two_pow_sub_one_eq_mod n 2
  refine ⟨?_, ?_, ?_⟩
  · -- `r` is in the bits above those of `k`
    have bits : ((data18 p.r p.k >>> 4) &&& 3).toNat = (data18 p.r p.k).toNat / 2 ^ 4 % 4 := by
      rw [UInt8.toNat_and, UInt8.toNat_shiftRight]
      simp only [UInt8.reduceToNat, Nat.reduceMod, mask2, Nat.shiftRight_eq_div_pow]
    rw [decodeR, high, bits, word]
    rcases exact.r with one | two | four
    · have zero : (0 + p.k / 2 ^ 16) / 2 ^ 4 % 4 = 0 := by omega
      rw [one, if_pos rfl, zero, Nat.pow_zero]
    · have first : (16 + p.k / 2 ^ 16) / 2 ^ 4 % 4 = 1 := by omega
      rw [two, if_neg (by decide), if_pos rfl, first, Nat.pow_one]
    · have second : (32 + p.k / 2 ^ 16) / 2 ^ 4 % 4 = 2 := by omega
      rw [four, if_neg (by decide), if_neg (by decide), second]
      rfl
  · have top : (data18 p.r p.k &&& 0x0f).toNat = p.k / 2 ^ 16 := by
      rw [UInt8.toNat_and, word]
      simp only [UInt8.reduceToNat, mask4]
      split
      · omega
      · split
        · omega
        · omega
    rw [decodeK, high, middle, low, top, Nat.toUInt8_eq, Nat.toUInt8_eq, UInt8.toNat_ofNat',
      UInt8.toNat_ofNat']
    omega
  · have fits := exact.n
    rw [decodeN, whole, Nat.toUInt8_eq, UInt8.toNat_ofNat']
    omega

theorem rfFreqKhz_le (rfFreqHz : UInt64) (upper : rfFreqHz ≤ 4000000000) :
    (rfFreqKhz rfFreqHz).toNat ≤ 4000000 := by
  have bound : rfFreqHz.toNat ≤ 4000000000 := UInt64.le_iff_toNat_le.mp upper
  rw [rfFreqKhz, UInt64.toNat_toUInt32, UInt64.toNat_div, UInt64.toNat_add]
  simp only [UInt64.reduceToNat]
  omega

/-- The PLL words of `fc2580_SetRfFreqHz` are exact for every frequency up to 4 GHz: no step
overflows, the fraction stays out of the bits of `r`, and what a call that succeeds leaves in the
chip stands for the VCO frequency itself. -/
theorem fc2580SetRfFreqHz_exact (bus : Bus) (chip : Chip) (rfFreqHz : UInt64)
    (upper : rfFreqHz ≤ 4000000000) :
    let fLo := (rfFreqKhz rfFreqHz).toNat
    let p := (pll fLo crystalFreqKhz.toNat).value
    let set := fc2580SetRfFreqHz bus rfFreqHz chip
    (pll fLo crystalFreqKhz.toNat).exact = true ∧ p.k < 2 ^ 20 ∧ p.n < 256 ∧
      (bus.Working → set.1 = 0) ∧
      (set.1 = 0 →
        (decodeR set.2.regs = p.r ∧ decodeK set.2.regs = p.k ∧ decodeN set.2.regs = p.n) ∧
        2 * ((16384 : ℚ) / decodeR set.2.regs) *
            (decodeN set.2.regs + decodeK set.2.regs / 2 ^ 20) =
          fLo * (bandOf fLo).divider) := by
  intro fLo p set
  obtain ⟨words, computed, exact⟩ := pll_exact fLo (rfFreqKhz_le rfFreqHz upper)
  have same : p = words := by
    change (pll fLo crystalFreqKhz.toNat).value = words
    rw [crystalFreqKhz_toNat, computed]
    rfl
  refine ⟨?_, same ▸ exact.k, same ▸ exact.n, ?_, ?_⟩
  · rw [crystalFreqKhz_toNat, computed]
    rfl
  · intro working
    change (if (fc2580SetFreq bus _ _ chip).1 then (0 : Int) else 1) = 0
    rw [setFreq_succeeds working, if_pos rfl]
  · intro success
    have all : (fc2580SetFreq bus (rfFreqKhz rfFreqHz) crystalFreqKhz chip).1 = true := by
      by_contra failed
      have : set.1 = 1 := if_neg failed
      rw [this] at success
      cases success
    -- the words are written last
    obtain ⟨_, last⟩ := and_success (and_success all).2
    have written : set.2.regs = RegFile.storeAll _ (pllWrites fLo p) := writeAll_regs _ _ last
    rw [written, same]
    obtain ⟨r, k, n⟩ := decode_pllWrites fLo exact _
    refine ⟨⟨r, k, n⟩, ?_⟩
    rw [r, k, n]
    have nonzero : (words.r : ℚ) ≠ 0 := by
      rcases exact.r with one | two | four
      · rw [one]
        norm_num
      · rw [two]
        norm_num
      · rw [four]
        norm_num
    have whole : (words.r : ℚ) * ((fLo * (bandOf fLo).divider) * 2 ^ 20) =
        2 * 16384 * (words.n * 2 ^ 20 + words.k) := by exact_mod_cast exact.whole
    field_simp
    linarith

/-- 1.2 GHz, in the L band, on a bus that works. -/
theorem fc2580SetRfFreqHz_exact_lBand :
    let set := fc2580SetRfFreqHz ⟨fun _ => false, fun _ => 0xc0⟩ 1200000000 ⟨fun _ => 0, 0⟩
    set.1 = 0 ∧
      2 * ((16384 : ℚ) / decodeR set.2.regs) *
        (decodeN set.2.regs + decodeK set.2.regs / 2 ^ 20) = 2400000 := by
  intro set
  obtain ⟨_, _, _, works, exact⟩ := fc2580SetRfFreqHz_exact ⟨fun _ => false, fun _ => 0xc0⟩
    ⟨fun _ => 0, 0⟩ 1200000000 (by decide)
  have success := works fun _ => rfl
  refine ⟨success, (exact success).2.trans ?_⟩
  have khz : (rfFreqKhz 1200000000).toNat = 1200000 := by decide
  have band : (bandOf 1200000).divider = 2 := by decide
  rw [khz, band]
  norm_num

end RtlSdr.Tuners.Fc2580
