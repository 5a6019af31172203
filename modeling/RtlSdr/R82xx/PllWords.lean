import Mathlib.Algebra.Order.Field.Basic
import Mathlib.Tactic.FieldSimp
import Mathlib.Tactic.Linarith
import Mathlib.Tactic.Ring
import RtlSdr.Lib.Checked
import RtlSdr.R82xx.Pll

/-!
# The accuracy of `r82xx_set_pll`

In its range the function finds the one divider for the frequency, and the registers that it writes
make the PLL run within half a step of it. One step of its arithmetic is not exact: `div_num` is
counted down from 0 when the divider is 2 and the chip reports a fine tuning above the reference.
-/
namespace RtlSdr.R82xx

open Prog Checked

/-! ### The arithmetic -/

/-- `while (div_buf > 2)`. -/
def halveWords : Nat → Nat → Nat → Checked Nat
  | 0, _, divNum => pure divNum
  | passes + 1, divBuf, divNum =>
    if divBuf > 2 then do
      let divNum ← unsigned 8 (divNum + 1 : Nat)
      halveWords passes (divBuf / 2) divNum
    else pure divNum

/-- `while (mix_div <= 64)`: `mix_div` and `div_num`. -/
def dividerWords (freqKhz : Nat) : Nat → Nat → Checked (Nat × Nat)
  | 0, mixDiv => pure (mixDiv, 0)
  | passes + 1, mixDiv =>
    if mixDiv ≤ 64 then do
      let vco ← unsigned 32 (freqKhz * mixDiv : Nat)
      if 1770000 ≤ vco ∧ vco < 3540000 then do
        let divNum ← halveWords mixDiv mixDiv 0
        pure (mixDiv, divNum)
      else do
        let mixDiv ← unsigned 8 (2 * mixDiv : Nat)
        dividerWords freqKhz passes mixDiv
    else pure (mixDiv, 0)

/-- The correction of `div_num`. -/
def correctWords (powerRef fineTune divNum : Nat) : Checked Nat :=
  if fineTune > powerRef then unsigned 8 (divNum - 1)
  else if fineTune < powerRef then unsigned 8 (divNum + 1)
  else pure divNum

/-- `nint` and `sdm`. -/
def fractionWords (xtal vcoFreq : Nat) : Checked (Nat × Nat) := do
  let scaled ← unsigned 64 (65536 * vcoFreq : Nat)
  let dividend ← unsigned 64 (xtal + scaled : Nat)
  let divisor ← unsigned 32 (2 * xtal : Nat)
  let vcoDiv ← quotient dividend divisor
  let whole ← unsigned 32 (vcoDiv / 65536 : Nat)
  let nint ← unsigned 8 whole
  let sdm ← unsigned 32 (vcoDiv % 65536 : Nat)
  pure (nint, sdm)

/-- The values that go into the registers: the field for `div_num`, and registers 0x14 to
0x16. -/
structure PllValues where
  mixDiv : Nat
  divField : Nat
  nint : Nat
  sdm : Nat
  reg14 : Nat
  reg15 : Nat
  reg16 : Nat
deriving DecidableEq

/-- The split of `nint` and `sdm` over the registers. -/
def packWords (mixDiv divField nint sdm : Nat) : Checked PllValues := do
  let above ← signed 32 (nint - 13)
  let ni ← unsigned 8 (above.tdiv 4)
  let si ← unsigned 8 (nint - 4 * ni - 13)
  let reg14 ← unsigned 8 (ni + si * 64 : Nat)
  let reg15 ← unsigned 8 (sdm % 256 : Nat)
  let reg16 ← unsigned 8 (sdm / 256 : Nat)
  pure ⟨mixDiv, divField, nint, sdm, reg14, reg15, reg16⟩

/-- The integer steps of `r82xx_set_pll`; `none` where it finds no valid values. -/
def setPllWords (powerRef xtal freq fineTune : Nat) : Checked (Option PllValues) := do
  let rounded ← unsigned 32 (freq + 500 : Nat)
  let divider ← dividerWords (rounded / 1000) 7 2
  let divNum ← correctWords powerRef fineTune divider.2
  let divField ← unsigned 8 (divNum * 32 : Nat)
  let vcoFreq ← unsigned 64 (freq * divider.1 : Nat)
  let fraction ← fractionWords xtal vcoFreq
  if fraction.1 > 128 / powerRef - 1 then pure none
  else do
    let values ← packWords divider.1 divField fraction.1 fraction.2
    pure (some values)

/-! ### The steps in the range -/

theorem halveWords_eq (m : UInt8) (member : m ∈ mixDividers) :
    halveWords m.toNat m.toNat 0 = pure (divNum m).toNat := by
  revert m
  decide +kernel

theorem dividerWords_step (khz passes m : Nat) (low : khz < 4294968) (small : m ≤ 64) :
    dividerWords khz (passes + 1) m =
      if Reaches khz m then do
        let divNum ← halveWords m m 0
        pure (m, divNum)
      else dividerWords khz passes (2 * m) := by
  have product : khz * m < 2 ^ 32 := by
    calc khz * m ≤ 4294967 * 64 := Nat.mul_le_mul (by omega) small
      _ < 2 ^ 32 := by decide
  rw [dividerWords, if_pos small, unsigned_natCast product, pure_bind,
    unsigned_natCast (show 2 * m < 2 ^ 8 by omega), pure_bind]
  rfl

theorem dividerWords_eq (freq : UInt32) (small : freq.toNat + 500 < 2 ^ 32) :
    dividerWords (kHz freq) 7 2 =
      pure ((dividerFor freq).1.toNat, (dividerFor freq).2.toNat) := by
  have low : kHz freq < 4294968 := by
    unfold kHz
    omega
  unfold dividerFor mixDividers
  -- the two loops make the same tests, in the same order
  have step (m : UInt8) (more : List UInt8) (passes : Nat) (member : m ∈ mixDividers)
      (rest : dividerWords (kHz freq) passes (2 * m.toNat) =
        pure ((calcDivider ((freq + 500) / 1000) more).1.toNat,
          (calcDivider ((freq + 500) / 1000) more).2.toNat)) :
      dividerWords (kHz freq) (passes + 1) m.toNat =
        pure ((calcDivider ((freq + 500) / 1000) (m :: more)).1.toNat,
          (calcDivider ((freq + 500) / 1000) (m :: more)).2.toNat) := by
    obtain ⟨two, most⟩ := mixDividers_range m member
    rw [calcDivider_cons freq m more two most, dividerWords_step _ _ _ low most,
      halveWords_eq m member, pure_bind]
    by_cases reaches : Reaches (kHz freq) m.toNat
    · rw [if_pos reaches, if_pos reaches]
    · rw [if_neg reaches, if_neg reaches, rest]
  refine step 2 _ 6 (by decide) (step 4 _ 5 (by decide) (step 8 _ 4 (by decide)
    (step 16 _ 3 (by decide) (step 32 _ 2 (by decide) (step 64 _ 1 (by decide) ?_)))))
  rfl

/-- The reference `ref`, corrected by at most 1000 ppm and cut to a whole number of Hz. -/
def Corrected (ref xtal : Nat) : Prop := ref * 999 ≤ 1000 * (xtal + 1) ∧ 1000 * xtal ≤ ref * 1001

/-- The clocks of the two kinds of chip. -/
def Clocked (cfg : Config) : Prop :=
  cfg.rafaelChip ≠ .r828d ∧ Corrected 28800000 cfg.xtal.toNat ∨
    cfg.rafaelChip = .r828d ∧
      (Corrected 16000000 cfg.xtal.toNat ∨ Corrected 28800000 cfg.xtal.toNat)

theorem dividerFor_inside (freq : UInt32) (low : 27657 ≤ kHz freq) (high : kHz freq ≤ 1769999) :
    (dividerFor freq).1 ∈ mixDividers ∧ Reaches (kHz freq) (dividerFor freq).1.toNat ∧
      (dividerFor freq).2 = divNum (dividerFor freq).1 := by
  rcases dividerFor_cases freq with ⟨m, member, reaches, found⟩ | ⟨none, _⟩
  · rw [found]
    exact ⟨member, reaches, rfl⟩
  · have covered : Reaches (kHz freq) 2 ∨ Reaches (kHz freq) 4 ∨ Reaches (kHz freq) 8 ∨
        Reaches (kHz freq) 16 ∨ Reaches (kHz freq) 32 ∨ Reaches (kHz freq) 64 := by
      unfold Reaches
      omega
    rcases covered with reaches | reaches | reaches | reaches | reaches | reaches
    · exact (none 2 (by decide) reaches).elim
    · exact (none 4 (by decide) reaches).elim
    · exact (none 8 (by decide) reaches).elim
    · exact (none 16 (by decide) reaches).elim
    · exact (none 32 (by decide) reaches).elim
    · exact (none 64 (by decide) reaches).elim

/-- Two dividers differ by a factor of two at least, and so does the VCO. -/
theorem reaches_unique {khz m n : Nat} (first : m ∈ [2, 4, 8, 16, 32, 64])
    (second : n ∈ [2, 4, 8, 16, 32, 64]) (reaches : Reaches khz m) (again : Reaches khz n) :
    m = n := by
  have apart : ∀ m ∈ [2, 4, 8, 16, 32, 64], ∀ n ∈ [2, 4, 8, 16, 32, 64],
      m < n → 2 * m ≤ n := by decide
  obtain ⟨low, high⟩ := reaches
  obtain ⟨low', high'⟩ := again
  rcases Nat.lt_trichotomy m n with less | same | more
  · have twice := Nat.mul_le_mul_left khz (apart m first n second less)
    rw [Nat.mul_left_comm] at twice
    omega
  · exact same
  · have twice := Nat.mul_le_mul_left khz (apart n second m first more)
    rw [Nat.mul_left_comm] at twice
    omega

theorem vco_bounds (freq : UInt32) {m : Nat} (small : m ≤ 64) (reaches : Reaches (kHz freq) m) :
    1769968000 ≤ freq.toNat * m ∧ freq.toNat * m < 3540032000 := by
  obtain ⟨low, high⟩ := reaches
  have below : 1000 * kHz freq ≤ freq.toNat + 500 := Nat.mul_div_le _ _
  have above : freq.toNat ≤ 1000 * kHz freq + 499 := by
    unfold kHz
    omega
  have below' := Nat.mul_le_mul_right m below
  have above' := Nat.mul_le_mul_right m above
  rw [Nat.mul_assoc, Nat.add_mul] at below'
  rw [Nat.add_mul, Nat.mul_assoc] at above'
  omega

theorem ratio_between (xtal vco least most : Nat) (positive : 0 < xtal)
    (low : least * (131072 * xtal) ≤ xtal + 65536 * vco)
    (high : xtal + 65536 * vco < (most + 1) * (131072 * xtal)) :
    least ≤ vcoRatio xtal vco / 65536 ∧ vcoRatio xtal vco / 65536 ≤ most := by
  have step : 0 < 131072 * xtal := Nat.mul_pos (by decide) positive
  rw [vcoRatio, Nat.div_div_eq_div_mul, show 2 * xtal * 65536 = 131072 * xtal by omega]
  exact ⟨(Nat.le_div_iff_mul_le step).mpr low,
    Nat.le_of_lt_succ ((Nat.div_lt_iff_lt_mul step).mpr high)⟩

/-- What the clocks have in common. -/
structure InRange (cfg : Config) (vco : Nat) : Prop where
  positive : 0 < cfg.xtal.toNat
  slow : cfg.xtal.toNat < 2 ^ 31
  offset : 13 ≤ vcoRatio cfg.xtal.toNat vco / 65536
  limit : vcoRatio cfg.xtal.toNat vco / 65536 ≤ 128 / (vcoPowerRef cfg.rafaelChip).toNat - 1
  byte : vcoRatio cfg.xtal.toNat vco / 65536 ≤ 127

/-- The integer part passes the check, and lies above the offset of 13. -/
theorem inRange_of_clocked (cfg : Config) (clocked : Clocked cfg) (vco : Nat)
    (low : 1769968000 ≤ vco) (high : vco < 3540032000) : InRange cfg vco := by
  unfold Clocked Corrected at clocked
  have clock : 15983999 ≤ cfg.xtal.toNat ∧ cfg.xtal.toNat ≤ 28828800 := by omega
  have wide := ratio_between cfg.xtal.toNat vco 13 127 (by omega) (by omega) (by omega)
  -- the limit of the R828D is the one for every clock, the other chips have the fast one
  have check : vcoRatio cfg.xtal.toNat vco / 65536 ≤
      128 / (vcoPowerRef cfg.rafaelChip).toNat - 1 := by
    rcases clocked with ⟨other, fast⟩ | ⟨r828d, _⟩
    · rw [vcoPowerRef, if_neg other]
      exact (ratio_between cfg.xtal.toNat vco 13 63 (by omega) (by omega) (by omega)).2
    · rw [vcoPowerRef, if_pos r828d]
      exact wide.2
  exact ⟨by omega, by omega, wide.1, check, wide.2⟩

/-! ### The program in the range -/

theorem fractionWords_eq (cfg : Config) (vco : Nat) (inRange : InRange cfg vco)
    (small : vco < 2 ^ 47) :
    fractionWords cfg.xtal.toNat vco =
      pure (vcoRatio cfg.xtal.toNat vco / 65536, vcoRatio cfg.xtal.toNat vco % 65536) := by
  have slow := inRange.slow
  have byte := inRange.byte
  have positive := inRange.positive
  rw [fractionWords, unsigned_natCast (show 65536 * vco < 2 ^ 64 by omega), pure_bind,
    unsigned_natCast (show cfg.xtal.toNat + 65536 * vco < 2 ^ 64 by omega), pure_bind,
    unsigned_natCast (show 2 * cfg.xtal.toNat < 2 ^ 32 by omega), pure_bind,
    quotient_eq (by omega), pure_bind]
  change (unsigned 32 (vcoRatio cfg.xtal.toNat vco / 65536 : Nat) >>= _) = _
  rw [unsigned_natCast (by omega), pure_bind, unsigned_natCast (by omega), pure_bind]
  change (unsigned 32 (vcoRatio cfg.xtal.toNat vco % 65536 : Nat) >>= _) = _
  rw [unsigned_natCast (by omega), pure_bind]

/-- Register 0x14: `ni` in the low six bits, `si` above them. -/
def packed (nint : Nat) : Nat := (nint - 13) / 4 + (nint - 13) % 4 * 64

theorem packWords_eq (mixDiv divField nint sdm : Nat) (offset : 13 ≤ nint) (byte : nint ≤ 127)
    (small : sdm < 65536) :
    packWords mixDiv divField nint sdm =
      pure ⟨mixDiv, divField, nint, sdm, packed nint, sdm % 256, sdm / 256⟩ := by
  have above : (nint : Int) - 13 = (nint - 13 : Nat) := by omega
  have ni : ((nint - 13 : Nat) : Int).tdiv 4 = ((nint - 13) / 4 : Nat) := rfl
  have si : (nint : Int) - 4 * ((nint - 13) / 4 : Nat) - 13 = ((nint - 13) % 4 : Nat) := by omega
  have reg14 : packed nint < 2 ^ 8 := by
    unfold packed
    omega
  rw [packWords, signed_eq (by omega) (by omega), pure_bind, above, ni,
    unsigned_natCast (by omega), pure_bind, si, unsigned_natCast (by omega), pure_bind]
  change (unsigned 8 (packed nint : Nat) >>= _) = _
  rw [unsigned_natCast reg14, pure_bind, unsigned_natCast (by omega), pure_bind,
    unsigned_natCast (by omega), pure_bind]

/-- The VCO frequency for the divider found. -/
def vcoFor (freq : UInt32) : Nat := freq.toNat * (dividerFor freq).1.toNat

section

variable (cfg : Config) (clocked : Clocked cfg) (freq : UInt32) (low : 27657 ≤ kHz freq)
  (high : kHz freq ≤ 1769999)

include low high in
theorem vcoFor_bounds : 1769968000 ≤ vcoFor freq ∧ vcoFor freq < 3540032000 := by
  obtain ⟨member, reaches, _⟩ := dividerFor_inside freq low high
  exact vco_bounds freq (mixDividers_range _ member).2 reaches

include clocked low high

theorem inRange_vcoFor : InRange cfg (vcoFor freq) := by
  obtain ⟨least, less⟩ := vcoFor_bounds freq low high
  exact inRange_of_clocked cfg clocked _ least less

/-- In the range, every step but the two on `div_num` is exact. -/
theorem setPllWords_eq (fineTune : Nat) :
    setPllWords (vcoPowerRef cfg.rafaelChip).toNat cfg.xtal.toNat freq.toNat fineTune = (do
      let divNum ← correctWords (vcoPowerRef cfg.rafaelChip).toNat fineTune
        (dividerFor freq).2.toNat
      let divField ← unsigned 8 (divNum * 32 : Nat)
      let ratio := vcoRatio cfg.xtal.toNat (vcoFor freq)
      pure (some ⟨(dividerFor freq).1.toNat, divField, ratio / 65536, ratio % 65536,
        packed (ratio / 65536), ratio % 65536 % 256, ratio % 65536 / 256⟩)) := by
  have inRange := inRange_vcoFor cfg clocked freq low high
  have bounds := vcoFor_bounds freq low high
  have whole : freq.toNat + 500 < 2 ^ 32 := by
    unfold kHz at high
    omega
  rw [setPllWords, unsigned_natCast whole, pure_bind]
  change (dividerWords (kHz freq) 7 2 >>= _) = _
  rw [dividerWords_eq freq whole, pure_bind]
  -- the two steps on `div_num` stay as they are
  congr 1
  funext divNum
  congr 1
  funext divField
  change (unsigned 64 (vcoFor freq : Nat) >>= _) = _
  rw [unsigned_natCast (by omega), pure_bind, fractionWords_eq cfg _ inRange (by omega),
    pure_bind, if_neg (Nat.not_lt.mpr inRange.limit),
    packWords_eq _ _ _ _ inRange.offset inRange.byte (Nat.mod_lt _ (by decide)), pure_bind]

end

/-! ### The steps on `div_num` -/

theorem vcoFineTune_mem (data : List UInt8) : vcoFineTune data ∈ [0, 1, 2, 3] := by
  have all : ∀ n < 256, (UInt8.ofNat n &&& 0x30) >>> 4 ∈ ([0, 1, 2, 3] : List UInt8) := by
    decide +kernel
  have here := all (data.getD 4 0).toNat (data.getD 4 0).toNat_lt
  rwa [UInt8.ofNat_toNat] at here

/-- The field for `div_num` is the one the driver computes. It is wrong for one divider. -/
theorem divField_eq : ∀ m ∈ mixDividers, ∀ powerRef ∈ ([1, 2] : List UInt8),
    ∀ fineTune ∈ ([0, 1, 2, 3] : List UInt8),
    (do
      let divNum ← correctWords powerRef.toNat fineTune.toNat (divNum m).toNat
      unsigned 8 (divNum * 32 : Nat)) =
    ⟨(correctDivNum powerRef fineTune (divNum m) <<< 5).toNat,
      decide ¬(m = 2 ∧ powerRef < fineTune)⟩ := by
  decide +kernel

theorem dividerFor_two (freq : UInt32) (low : 27657 ≤ kHz freq) (high : kHz freq ≤ 1769999) :
    (dividerFor freq).1 = 2 ↔ 885000 ≤ kHz freq := by
  obtain ⟨member, reaches, _⟩ := dividerFor_inside freq low high
  constructor
  · intro two
    rw [two] at reaches
    have := reaches.1
    change 1770000 ≤ kHz freq * 2 at this
    omega
  · intro upper
    have two : Reaches (kHz freq) 2 := by
      unfold Reaches
      omega
    have listed : (dividerFor freq).1.toNat ∈ [2, 4, 8, 16, 32, 64] :=
      List.mem_map_of_mem (f := UInt8.toNat) member
    exact UInt8.toNat_inj.mp (reaches_unique listed (by decide) reaches two)

/-! ### The values of the driver -/

theorem fractionFor_toNat (cfg : Config) (clocked : Clocked cfg) (freq : UInt32)
    (low : 27657 ≤ kHz freq) (high : kHz freq ≤ 1769999) :
    (fractionFor cfg.xtal freq).1.toNat = vcoRatio cfg.xtal.toNat (vcoFor freq) / 65536 ∧
      (fractionFor cfg.xtal freq).2.toNat = vcoRatio cfg.xtal.toNat (vcoFor freq) % 65536 := by
  have inRange := inRange_vcoFor cfg clocked freq low high
  have bounds := vcoFor_bounds freq low high
  have product : (freq.toUInt64 * (dividerFor freq).1.toUInt64).toNat = vcoFor freq := by
    rw [UInt64.toNat_mul, UInt32.toNat_toUInt64, UInt8.toNat_toUInt64]
    exact Nat.mod_eq_of_lt (show vcoFor freq < 2 ^ 64 by omega)
  obtain ⟨nint, sdm⟩ := pllFraction_toNat cfg.xtal
    (freq.toUInt64 * (dividerFor freq).1.toUInt64) inRange.slow (by omega)
  rw [product] at nint sdm
  have byte := inRange.byte
  exact ⟨nint.trans (Nat.mod_eq_of_lt (by omega)), sdm⟩

theorem pllRegs_toNat (regs : List UInt8) (divNum nint : UInt8) (sdm : UInt32)
    (offset : 13 ≤ nint.toNat) (byte : nint.toNat ≤ 127) (small : sdm.toNat < 65536) :
    ((pllRegs regs divNum nint sdm).getD 4 0).toNat = packed nint.toNat ∧
      ((pllRegs regs divNum nint sdm).getD 5 0).toNat = sdm.toNat % 256 ∧
      ((pllRegs regs divNum nint sdm).getD 6 0).toNat = sdm.toNat / 256 := by
  refine ⟨?_, ?_, ?_⟩
  · have all : ∀ n < 128, 13 ≤ n →
        ((pllRegs [] 0 (UInt8.ofNat n) 0).getD 4 0).toNat = packed n := by decide +kernel
    have here := all nint.toNat (by omega) offset
    rwa [UInt8.ofNat_toNat] at here
  · change (sdm &&& 0xff).toUInt8.toNat = _
    rw [UInt32.toNat_toUInt8, UInt32.toNat_and]
    change (sdm.toNat &&& 2 ^ 8 - 1) % 2 ^ 8 = _
    rw [Nat.and_two_pow_sub_one_eq_mod, Nat.mod_mod]
  · change (sdm >>> 8).toUInt8.toNat = _
    rw [UInt32.toNat_toUInt8, UInt32.toNat_shiftRight]
    change sdm.toNat >>> 8 % 256 = _
    rw [Nat.shiftRight_eq_div_pow]
    omega

/-- The arithmetic of the driver, and when all of it is exact. -/
theorem setPllWords_spec (cfg : Config) (clocked : Clocked cfg) (freq : UInt32)
    (low : 27657 ≤ kHz freq) (high : kHz freq ≤ 1769999) (regs data : List UInt8) :
    let powerRef := vcoPowerRef cfg.rafaelChip
    let divNum := correctDivNum powerRef (vcoFineTune data) (dividerFor freq).2
    let fraction := fractionFor cfg.xtal freq
    let written := pllRegs regs divNum fraction.1 fraction.2
    setPllWords powerRef.toNat cfg.xtal.toNat freq.toNat (vcoFineTune data).toNat =
      ⟨some ⟨(dividerFor freq).1.toNat, (divNum <<< 5).toNat, fraction.1.toNat, fraction.2.toNat,
          (written.getD 4 0).toNat, (written.getD 5 0).toNat, (written.getD 6 0).toNat⟩,
        decide ¬(885000 ≤ kHz freq ∧ powerRef < vcoFineTune data)⟩ := by
  intro powerRef divNum fraction written
  have inRange := inRange_vcoFor cfg clocked freq low high
  obtain ⟨member, _, num⟩ := dividerFor_inside freq low high
  obtain ⟨nint, sdm⟩ := fractionFor_toNat cfg clocked freq low high
  obtain ⟨reg14, reg15, reg16⟩ := pllRegs_toNat regs divNum fraction.1 fraction.2
    (nint ▸ inRange.offset) (nint ▸ inRange.byte) (sdm ▸ Nat.mod_lt _ (by decide))
  have power : powerRef ∈ ([1, 2] : List UInt8) := by
    unfold powerRef vcoPowerRef
    split <;> decide
  have field := divField_eq _ member powerRef power _ (vcoFineTune_mem data)
  have wrong : (decide ¬((dividerFor freq).1 = 2 ∧ powerRef < vcoFineTune data)) =
      (decide ¬(885000 ≤ kHz freq ∧ powerRef < vcoFineTune data)) :=
    decide_eq_decide.mpr (not_congr (and_congr_left' (dividerFor_two freq low high)))
  rw [setPllWords_eq cfg clocked freq low high, ← bind_assoc, num, field, wrong, reg14, reg15,
    reg16, nint, sdm, ← num]
  exact Checked.ext rfl (Bool.and_true _)

/-! ### The frequency -/

/-- The rounded ratio is off by half a unit at most. -/
theorem synthesised_close (xtal freq m : Nat) (positive : 0 < xtal) (divides : 0 < m) :
    |2 * (xtal : ℚ) * ((vcoRatio xtal (freq * m) / 65536 : Nat) +
        ((vcoRatio xtal (freq * m) % 65536 : Nat) : ℚ) / 65536) / m - freq| ≤
      xtal / (65536 * m) := by
  have below : vcoRatio xtal (freq * m) * (2 * xtal) ≤ xtal + 65536 * (freq * m) :=
    Nat.div_mul_le_self _ _
  have above : xtal + 65536 * (freq * m) < (vcoRatio xtal (freq * m) + 1) * (2 * xtal) :=
    (Nat.div_lt_iff_lt_mul (by omega)).mp (Nat.lt_succ_self _)
  have parts := Nat.div_add_mod (vcoRatio xtal (freq * m)) 65536
  generalize vcoRatio xtal (freq * m) = ratio at below above parts ⊢
  have whole : ((ratio / 65536 : Nat) : ℚ) + ((ratio % 65536 : Nat) : ℚ) / 65536 =
      ratio / 65536 := by
    have parts' : 65536 * ((ratio / 65536 : Nat) : ℚ) + ((ratio % 65536 : Nat) : ℚ) = ratio := by
      exact_mod_cast parts
    rw [← parts']
    ring
  have below' : (ratio : ℚ) * (2 * xtal) ≤ xtal + 65536 * (freq * m) := by exact_mod_cast below
  have above' : (xtal : ℚ) + 65536 * (freq * m) < (ratio + 1) * (2 * xtal) := by
    exact_mod_cast above
  have error : 2 * (xtal : ℚ) * (ratio / 65536) / m - freq =
      (ratio * (2 * xtal) - 65536 * (freq * m)) / (65536 * m) := by
    field_simp
  rw [whole, error, abs_div, abs_of_pos (show (0 : ℚ) < 65536 * m by positivity)]
  apply div_le_div_of_nonneg_right _ (by positivity)
  rw [abs_le]
  constructor
  · linarith
  · linarith

/-! ### The registers after a run -/

section

variable (env : Env)

theorem keeps_copy (k reg : Nat) (inside : regShadowStart ≤ reg)
    (other : k ≠ reg - regShadowStart) (val byte : UInt8) :
    Keeps (fun world => world.priv.regs k = byte) (fun world => world.priv.regs k = byte)
      (r82xxWrite env reg [val]) := by
  intro world holds
  cases equal : shadowEqual world.priv.regs reg [val] with
  | true =>
    rw [r82xxWrite_skipped env reg [val] world equal]
    exact holds
  | false =>
    have kept : shadowStore world.priv.regs reg [val] k = byte := by
      unfold shadowStore
      rw [RegFile.store_outside, holds]
      rw [List.length_take, List.length_drop, List.length_singleton]
      omega
    rcases r82xxWrite_sent env reg [val] world equal with
      ⟨transfers, run⟩ | ⟨rc, transfers, chip, run, _⟩
    · rw [run]
      exact kept
    · rw [run]
      exact kept

theorem copy_of_write (reg : Nat) (val : List UInt8) (world world' : World)
    (inside : regShadowStart ≤ reg) (fits : reg - regShadowStart + val.length ≤ numRegs)
    (run : r82xxWrite env reg val world = (.ok (), world')) (i : Nat) (byte : UInt8)
    (here : val[i]? = some byte) : world'.priv.regs (reg - regShadowStart + i) = byte := by
  cases equal : shadowEqual world.priv.regs reg val with
  | true =>
    rw [r82xxWrite_skipped env reg val world equal] at run
    cases run
    simp only [shadowEqual, Bool.and_eq_true, decide_eq_true_eq] at equal
    obtain ⟨within, rfl⟩ := List.getElem?_eq_some_iff.mp here
    exact (RegFile.load_eq_iff _ _ _).mp equal.2 i within
  | false =>
    rcases r82xxWrite_sent env reg val world equal with
      ⟨transfers, sent⟩ | ⟨rc, transfers, chip, sent, _⟩
    · rw [sent] at run
      cases run
      apply RegFile.store_inside
      rw [Nat.sub_eq_zero_of_le inside, List.drop_zero, List.take_of_length_le (by omega)]
      exact here
    · rw [sent] at run
      cases run

/-- What follows the write of the registers leaves the copies of 0x14 to 0x16 alone. -/
theorem keeps_copy_checkLock {k : Nat} (behind : 0x14 - regShadowStart ≤ k)
    (before : k ≤ 0x16 - regShadowStart) (byte : UInt8) :
    Keeps (fun world => world.priv.regs k = byte) (fun world => world.priv.regs k = byte)
      (checkLock env) := by
  unfold regShadowStart at behind before
  have read := keeps_read_of env (I := fun world => world.priv.regs k = byte)
    (fun _ _ holds => holds) 3
  apply keeps_bind read
  intro data
  apply keeps_ite _ (keeps_pure _)
  have aside : k ≠ 0x12 - regShadowStart := by
    unfold regShadowStart
    omega
  apply keeps_bind
    (keeps_mask env (fun val => keeps_copy env k 0x12 (by decide) aside val byte) _ _)
  intro _
  exact keeps_bind read fun _ => keeps_pure _

theorem copy_of_programPll (freq : UInt32) (regs data : List UInt8) (world world' : World)
    (run : programPll env freq regs data world = (.ok (), world')) (i : Nat) (inside : i < 3) :
    world'.priv.regs (0x14 - regShadowStart + i) =
      (pllRegs regs (correctDivNum (vcoPowerRef env.cfg.rafaelChip) (vcoFineTune data)
        (dividerFor freq).2) (fractionFor env.cfg.xtal freq).1
        (fractionFor env.cfg.xtal freq).2).getD (4 + i) 0 := by
  rw [programPll] at run
  split at run
  · cases run
  · obtain ⟨_, written, write, run⟩ := bind_eq_ok run
    obtain ⟨lock, waited, wait, run⟩ := bind_eq_ok run
    obtain ⟨_, noted, note, run⟩ := bind_eq_ok run
    have here : ∀ val : List UInt8, val.length = 7 → val[4 + i]? = some (val.getD (4 + i) 0) := by
      intro val length
      rw [List.getD_eq_getElem?_getD, List.getElem?_eq_getElem (by omega)]
      rfl
    have place : 0x14 - regShadowStart + i = 0x10 - regShadowStart + (4 + i) := by
      unfold regShadowStart
      omega
    -- written, and then kept by what follows
    have fits : 0x10 - regShadowStart + 7 ≤ numRegs := by decide
    have stored := copy_of_write env 0x10 (pllRegs _ _ _ _) world written (by decide) fits write
      (4 + i) _ (here _ rfl)
    rw [← place] at stored
    have kept := (keeps_copy_checkLock env (by omega) (by unfold regShadowStart; omega) _).ok
      stored wait
    have same : noted.priv.regs = waited.priv.regs := by
      cases note
      rfl
    rw [← same] at kept
    cases lock with
    | true =>
      rw [if_pos rfl] at run
      have aside : 0x14 - regShadowStart + i ≠ 0x1a - regShadowStart := by
        unfold regShadowStart
        omega
      exact (keeps_mask env (fun val => keeps_copy env _ 0x1a (by decide) aside val _) _ _).ok kept
        run
    | false =>
      cases run
      exact kept

theorem copy_of_setPll (freq : UInt32) (world world' : World)
    (run : r82xxSetPll env freq world = (.ok (), world')) :
    ∃ regs divNum, ∀ i < 3, world'.priv.regs (0x14 - regShadowStart + i) =
      (pllRegs regs divNum (fractionFor env.cfg.xtal freq).1
        (fractionFor env.cfg.xtal freq).2).getD (4 + i) 0 := by
  rw [r82xxSetPll_eq] at run
  obtain ⟨_, _, _, run⟩ := bind_eq_ok run
  obtain ⟨priv, _, _, run⟩ := bind_eq_ok run
  obtain ⟨data, start, _, run⟩ := bind_eq_ok run
  exact ⟨_, _, copy_of_programPll env freq _ data start world' run⟩

end

/-! ### The result -/

/-- Registers 0x14 to 0x16 hold `nint` and `sdm`. -/
def Decodes (nint sdm : Nat) (reg : Nat → UInt8) : Prop :=
  (∃ ni si, ni < 64 ∧ si < 4 ∧ (reg 0).toNat = ni + 64 * si ∧ nint = 4 * ni + si + 13) ∧
    sdm = (reg 2).toNat * 256 + (reg 1).toNat

/-- The tuning of a frequency, apart from the arithmetic on the way. -/
structure Tuned (cfg : Config) (freq : UInt32) : Prop where
  unique : ∃! m, m ∈ [2, 4, 8, 16, 32, 64] ∧ Reaches (kHz freq) m
  found : (dividerFor freq).1.toNat ∈ [2, 4, 8, 16, 32, 64] ∧
    Reaches (kHz freq) (dividerFor freq).1.toNat
  /-- On a bus without failures the function returns 0. The copies of the registers hold the
  values, and so does the chip if the copies were right before. -/
  written : ∀ (bus : Nat → Transfer) (world : World), (∀ n, (bus n).failed = none) →
    ∃ world', r82xxSetPll ⟨cfg, bus⟩ freq world = (.ok (), world') ∧
      Decodes (fractionFor cfg.xtal freq).1.toNat (fractionFor cfg.xtal freq).2.toNat
        (fun i => world'.priv.regs (0x14 - regShadowStart + i)) ∧
      (Inv world →
        Decodes (fractionFor cfg.xtal freq).1.toNat (fractionFor cfg.xtal freq).2.toNat
          fun i => world'.chip (0x14 + i))
  offset : 13 ≤ (fractionFor cfg.xtal freq).1.toNat
  close : |2 * (cfg.xtal.toNat : ℚ) * ((fractionFor cfg.xtal freq).1.toNat +
      ((fractionFor cfg.xtal freq).2.toNat : ℚ) / 65536) / (dividerFor freq).1.toNat -
        freq.toNat| ≤
    cfg.xtal.toNat / (65536 * (dividerFor freq).1.toNat)

section

variable (cfg : Config) (clocked : Clocked cfg) (freq : UInt32) (low : 27657 ≤ kHz freq)
  (high : kHz freq ≤ 1769999)

include clocked low high

theorem decodes_pllRegs (regs : List UInt8) (divNum : UInt8) (reg : Nat → UInt8)
    (computed : ∀ i < 3, reg i = (pllRegs regs divNum (fractionFor cfg.xtal freq).1
      (fractionFor cfg.xtal freq).2).getD (4 + i) 0) :
    Decodes (fractionFor cfg.xtal freq).1.toNat (fractionFor cfg.xtal freq).2.toNat reg := by
  have inRange := inRange_vcoFor cfg clocked freq low high
  obtain ⟨nint, sdm⟩ := fractionFor_toNat cfg clocked freq low high
  have offset : 13 ≤ (fractionFor cfg.xtal freq).1.toNat := nint ▸ inRange.offset
  have byte : (fractionFor cfg.xtal freq).1.toNat ≤ 127 := nint ▸ inRange.byte
  obtain ⟨reg14, reg15, reg16⟩ := pllRegs_toNat regs divNum (fractionFor cfg.xtal freq).1
    (fractionFor cfg.xtal freq).2 offset byte (sdm ▸ Nat.mod_lt _ (by decide))
  generalize (fractionFor cfg.xtal freq).1.toNat = n at offset byte reg14 ⊢
  unfold Decodes
  rw [computed 0 (by decide), computed 1 (by decide), computed 2 (by decide), reg14, reg15, reg16]
  refine ⟨⟨(n - 13) / 4, (n - 13) % 4, ?_⟩, by omega⟩
  unfold packed
  omega

theorem tuned : Tuned cfg freq := by
  have inRange := inRange_vcoFor cfg clocked freq low high
  obtain ⟨member, reaches, _⟩ := dividerFor_inside freq low high
  obtain ⟨nint, sdm⟩ := fractionFor_toNat cfg clocked freq low high
  have listed : (dividerFor freq).1.toNat ∈ [2, 4, 8, 16, 32, 64] :=
    List.mem_map_of_mem (f := UInt8.toNat) member
  have positive : ∀ m ∈ [2, 4, 8, 16, 32, 64], 0 < m := by decide
  refine ⟨⟨_, ⟨listed, reaches⟩, ?_⟩, ⟨listed, reaches⟩, ?_, nint ▸ inRange.offset, ?_⟩
  · rintro other ⟨second, again⟩
    exact reaches_unique second listed again reaches
  · intro bus world working
    have none : ∀ n rc, (Env.bus ⟨cfg, bus⟩ n).failed = some rc → False := by
      intro n rc failed
      rw [working n] at failed
      cases failed
    obtain ⟨_, world', run⟩ := (errors_setPll none freq fun large =>
      Nat.not_le.mpr large (nint ▸ inRange.limit)).ends world
    obtain ⟨regs, divNum, copies⟩ := copy_of_setPll ⟨cfg, bus⟩ freq world world' run
    refine ⟨world', run, decodes_pllRegs cfg clocked freq low high regs divNum _ copies, ?_⟩
    intro inv
    -- the chip holds what the copy holds, before and after
    have coherent := ((keeps_setPll (coherenceRules ⟨cfg, bus⟩) freq).ok inv run).1
    apply decodes_pllRegs cfg clocked freq low high regs divNum
    intro i inside
    rw [← copies i inside, ← coherent _ (by unfold numRegs regShadowStart; omega)]
    congr 1
    unfold regShadowStart
    omega
  · rw [nint, sdm]
    exact synthesised_close _ _ _ inRange.positive (positive _ listed)

/-- In the range the tuning is right, and every integer step is exact if and only if it is not
the case that the divider is 2 and the chip reports a fine tuning above the reference. -/
theorem pll_accurate_iff (data : List UInt8) :
    (Tuned cfg freq ∧ (setPllWords (vcoPowerRef cfg.rafaelChip).toNat cfg.xtal.toNat freq.toNat
          (vcoFineTune data).toNat).exact = true ↔
        ¬(885000 ≤ kHz freq ∧ vcoPowerRef cfg.rafaelChip < vcoFineTune data)) ∧
      Tuned cfg freq := by
  have right := tuned cfg clocked freq low high
  refine ⟨?_, right⟩
  rw [setPllWords_spec cfg clocked freq low high [] data, and_iff_right right]
  exact decide_eq_true_iff

end

/-- An R820T at 100 MHz and an intermediate frequency of 3.57 MHz. -/
theorem pll_accurate_fm :
    |2 * (28800000 : ℚ) * (57 + 35317 / 65536) / 32 - 103570000| ≤ 28800000 / (65536 * 32) := by
  have close := (pll_accurate_iff r820tConfig (.inl ⟨by decide, by decide, by decide⟩) 103570000
    (by decide) (by decide) []).2.close
  have fraction : fractionFor r820tConfig.xtal 103570000 = (57, 35317) := by decide +kernel
  have divider : (dividerFor 103570000).1 = 32 := by decide +kernel
  rw [fraction, divider] at close
  exact close

/-- At 900 MHz the divider is 2. If the chip reports the highest fine tuning, `div_num` goes from
0 to 255 and the field for it to 7. -/
theorem pll_divider_wraps :
    setPllWords (vcoPowerRef r820tConfig.rafaelChip).toNat r820tConfig.xtal.toNat 900000000
        (vcoFineTune [0, 0, 0, 0, 0x30]).toNat =
      ⟨some ⟨2, 0xe0, 31, 16384, 4 + 64 * 2, 0, 64⟩, false⟩ := by
  decide +kernel

end RtlSdr.R82xx
