import Mathlib.Algebra.Group.Int.Defs
import Mathlib.Algebra.Group.Nat.Defs
import RtlSdr.R82xx.Coherence

/-!
# When `r82xx_set_pll` refuses a frequency

The divider search leaves `mix_div` at 128 when no divider brings the VCO into its range, and
the function goes on with it. Only the integer part of the VCO ratio is looked at, and only
its low eight bits: whether an unreachable frequency is refused depends on that remainder.
-/
namespace RtlSdr.R82xx

open Prog

/-! ### The parts of the function -/

/-- The values `mix_div` takes in the loop. -/
def mixDividers : List UInt8 := [2, 4, 8, 16, 32, 64]

def vcoPowerRef (chip : Chip) : UInt8 := if chip = .r828d then 1 else 2

/-- `vco_fine_tune`, from what the chip reports. -/
def vcoFineTune (data : List UInt8) : UInt8 := (data.getD 4 0 &&& 0x30) >>> 4

def correctDivNum (powerRef fineTune divNum : UInt8) : UInt8 :=
  if fineTune > powerRef then divNum - 1
  else if fineTune < powerRef then divNum + 1
  else divNum

/-- `mix_div` and `div_num` for a frequency, before the correction. -/
def dividerFor (freq : UInt32) : UInt8 × UInt8 := calcDivider ((freq + 500) / 1000) mixDividers

/-- `nint` and `sdm` for a frequency. -/
def fractionFor (xtal freq : UInt32) : UInt8 × UInt32 :=
  pllFraction xtal (freq.toUInt64 * (dividerFor freq).1.toUInt64)

section

variable (env : Env) (freq : UInt32)

/-- What `r82xx_set_pll` does once the chip has reported its state. -/
def programPll (regs data : List UInt8) : Driver Unit :=
  let powerRef := vcoPowerRef env.cfg.rafaelChip
  let fraction := fractionFor env.cfg.xtal freq
  if fraction.1.toNat > 128 / powerRef.toNat - 1 then Prog.throw (-1)
  else do
    r82xxWrite env 0x10 (pllRegs regs
      (correctDivNum powerRef (vcoFineTune data) (dividerFor freq).2) fraction.1 fraction.2)
    let lock ← checkLock env
    modifyPriv fun priv => { priv with hasLock := lock }
    writeAll env (if lock then [.mask 0x1a 0x08 0x08] else [])

theorem r82xxSetPll_eq : r82xxSetPll env freq = (do
    writeAll env [.mask 0x1a 0x00 0x0c]
    let priv ← getPriv
    let data ← r82xxRead env 5
    programPll env freq (priv.regs.load (0x10 - regShadowStart) 7) data) := rfl

/-! ### How it ends -/

/-- A register write that stays inside the copy. -/
def RegWrite.Shadowed : RegWrite → Prop
  | .reg _ _ => True
  | .mask register _ _ => regShadowStart ≤ register ∧ register - regShadowStart < numRegs

@[simp] theorem shadowed_reg (register : Nat) (val : UInt8) :
    (RegWrite.reg register val).Shadowed := trivial

@[simp] theorem shadowed_mask (register : Nat) (val bitMask : UInt8) :
    (RegWrite.mask register val bitMask).Shadowed ↔ 5 ≤ register ∧ register - 5 < 30 := Iff.rfl

theorem errors_getPriv {P : Int → Prop} : Errors P getPriv :=
  errors_bind errors_get fun _ => errors_pure _

section

variable {env} {P : Int → Prop} (failing : ∀ n rc, (env.bus n).failed = some rc → P (i2cError rc))

include failing

theorem errors_i2cWrite (reg : Nat) (bytes : List UInt8) : Errors P (i2cWrite env reg bytes) := by
  intro world e world' stopped
  unfold i2cWrite at stopped
  cases failed : (env.bus world.transfers).failed with
  | none =>
    rw [failed] at stopped
    cases stopped
  | some rc =>
    rw [failed] at stopped
    cases stopped
    exact failing _ rc failed

theorem errors_i2cRead : Errors P (i2cRead env) := by
  intro world e world' stopped
  unfold i2cRead at stopped
  cases failed : (env.bus world.transfers).failed with
  | none =>
    rw [failed] at stopped
    cases stopped
  | some rc =>
    rw [failed] at stopped
    cases stopped
    exact failing _ rc failed

theorem errors_writeChunks (passes reg : Nat) (val : List UInt8) :
    Errors P (writeChunks env passes reg val) := by
  induction passes generalizing reg val with
  | zero => exact errors_pure _
  | succ passes ih =>
    apply errors_bind (errors_i2cWrite failing _ _)
    intro _
    exact errors_ite (ih _ _) (errors_pure _)

theorem errors_r82xxWrite (reg : Nat) (val : List UInt8) : Errors P (r82xxWrite env reg val) := by
  refine errors_bind errors_getPriv fun priv => ?_
  refine errors_ite (errors_modify _) ?_
  refine errors_bind (errors_modify _) fun _ => ?_
  exact errors_bind (errors_writeChunks failing _ _ _) fun _ => errors_modify _

theorem errors_writeAll (writes : List RegWrite) (inside : ∀ write ∈ writes, write.Shadowed) :
    Errors P (writeAll env writes) := by
  induction writes with
  | nil => exact errors_pure _
  | cons write writes ih =>
    have rest := ih fun other member => inside other (List.mem_cons_of_mem _ member)
    have here := inside write List.mem_cons_self
    cases write with
    | reg reg val => exact errors_bind (errors_r82xxWrite failing reg [val]) fun _ => rest
    | mask reg val bitMask =>
      refine errors_bind ?_ fun _ => rest
      refine errors_bind errors_getPriv fun priv => ?_
      rw [r82xxReadCacheReg, if_pos (show regShadowStart ≤ reg ∧ _ from here)]
      exact errors_r82xxWrite failing reg _

theorem errors_read (len : Nat) : Errors P (r82xxRead env len) :=
  errors_bind (errors_i2cRead failing) fun _ =>
    errors_bind (errors_i2cRead failing) fun _ => errors_pure _

theorem errors_checkLock : Errors P (checkLock env) := by
  refine errors_bind (errors_read failing 3) fun data => ?_
  refine errors_ite (errors_pure _) ?_
  refine errors_bind (errors_writeAll failing _ (by simp)) fun _ => ?_
  exact errors_bind (errors_read failing 3) fun _ => errors_pure _

theorem errors_setPll (freq : UInt32)
    (refused : 128 / (vcoPowerRef env.cfg.rafaelChip).toNat - 1 <
      (fractionFor env.cfg.xtal freq).1.toNat → P (-1)) :
    Errors P (r82xxSetPll env freq) := by
  rw [r82xxSetPll_eq]
  refine errors_bind (errors_writeAll failing _ (by simp)) fun _ => ?_
  refine errors_bind errors_getPriv fun priv => ?_
  refine errors_bind (errors_read failing 5) fun data => ?_
  unfold programPll
  dsimp only
  split
  next large => exact errors_throw (refused large)
  next small =>
    refine errors_bind (errors_r82xxWrite failing _ _) fun _ => ?_
    refine errors_bind (errors_checkLock failing) fun lock => ?_
    refine errors_bind (errors_modify _) fun _ => ?_
    apply errors_writeAll failing
    cases lock <;> simp

end

end

/-! ### Registers that are left alone -/

section

variable (env : Env)

theorem writeChunks_one (reg : Nat) (val : UInt8) :
    writeChunks env 2 reg [val] = (do
      i2cWrite env reg [val]
      pure ()) := rfl

/-- A write of one register changes no other, even if it fails. -/
theorem keeps_chip {a reg : Nat} (other : a ≠ reg) (val byte : UInt8) :
    Keeps (fun world => world.chip a = byte) (fun world => world.chip a = byte)
      (r82xxWrite env reg [val]) := by
  refine keeps_bind keeps_getPriv fun priv => keeps_ite _ (keeps_modify _ fun _ holds => holds) ?_
  refine keeps_bind (keeps_modify _ fun _ holds => holds) fun _ => ?_
  refine keeps_bind ?_ fun _ => keeps_modify _ fun _ holds => holds
  rw [List.length_singleton, writeChunks_one]
  refine keeps_bind ?_ fun _ => keeps_pure _
  intro world holds
  unfold i2cWrite
  cases (env.bus world.transfers).failed with
  | some rc => exact holds
  | none =>
    exact (RegFile.store_other world.chip val other).trans holds

theorem keeps_mask {I : World → Prop} {reg : Nat}
    (write : ∀ val, Keeps I I (r82xxWrite env reg [val])) (val bitMask : UInt8) :
    Keeps I I (writeAll env [.mask reg val bitMask]) := by
  refine keeps_bind (keeps_bind keeps_getPriv fun priv => ?_) fun _ => keeps_pure _
  cases r82xxReadCacheReg priv reg with
  | none => exact keeps_throw _ fun _ holds => holds
  | some cached => exact write _

theorem keeps_read_of {I : World → Prop}
    (counts : ∀ world n, I world → I { world with transfers := n }) (len : Nat) :
    Keeps I I (r82xxRead env len) := by
  have once : Keeps I I (i2cRead env) := by
    intro world holds
    unfold i2cRead
    cases (env.bus world.transfers).failed with
    | none => exact counts world _ holds
    | some rc => exact counts world _ holds
  exact keeps_bind once fun _ => keeps_bind once fun _ => keeps_pure _

theorem keeps_chip_refused (freq : UInt32) {a : Nat} (other : a ≠ 0x1a) (byte : UInt8)
    (refused : 128 / (vcoPowerRef env.cfg.rafaelChip).toNat - 1 <
      (fractionFor env.cfg.xtal freq).1.toNat) :
    Keeps (fun world => world.chip a = byte) (fun world => world.chip a = byte)
      (r82xxSetPll env freq) := by
  rw [r82xxSetPll_eq]
  apply keeps_bind (keeps_mask env (fun val => keeps_chip env other val byte) _ _)
  intro _
  apply keeps_bind keeps_getPriv
  intro _
  apply keeps_bind (keeps_read_of env (fun _ _ holds => holds) 5)
  intro _
  rw [programPll, if_pos refused]
  exact keeps_throw _ fun _ holds => holds

theorem setPll_refused (freq : UInt32) (world : World)
    (refused : 128 / (vcoPowerRef env.cfg.rafaelChip).toNat - 1 <
      (fractionFor env.cfg.xtal freq).1.toNat) :
    ∃ rc world', r82xxSetPll env freq world = (.error rc, world') := by
  rcases run : r82xxSetPll env freq world with ⟨rc | value, world'⟩
  · exact ⟨rc, world', rfl⟩
  · rw [r82xxSetPll_eq] at run
    obtain ⟨_, _, _, run⟩ := bind_eq_ok run
    obtain ⟨_, _, _, run⟩ := bind_eq_ok run
    obtain ⟨_, _, _, run⟩ := bind_eq_ok run
    rw [programPll, if_pos refused] at run
    cases run

end

/-! ### The ratio -/

/-- The ratio in units of 1/65536, rounded, for the reference `xtal`. -/
def vcoRatio (xtal vcoFreq : Nat) : Nat := (xtal + 65536 * vcoFreq) / (2 * xtal)

theorem pllFraction_toNat (xtal : UInt32) (vcoFreq : UInt64) (slow : xtal.toNat < 2 ^ 31)
    (small : vcoFreq.toNat < 2 ^ 47) :
    (pllFraction xtal vcoFreq).1.toNat = vcoRatio xtal.toNat vcoFreq.toNat / 65536 % 256 ∧
      (pllFraction xtal vcoFreq).2.toNat = vcoRatio xtal.toNat vcoFreq.toNat % 65536 := by
  have twice : (2 * xtal).toNat = 2 * xtal.toNat := by
    rw [UInt32.toNat_mul]
    exact Nat.mod_eq_of_lt (by show 2 * _ < _; omega)
  have scaled : (65536 * vcoFreq).toNat = 65536 * vcoFreq.toNat := by
    rw [UInt64.toNat_mul]
    exact Nat.mod_eq_of_lt (by show 65536 * _ < _; omega)
  have ratio : ((xtal.toUInt64 + 65536 * vcoFreq) / (2 * xtal).toUInt64).toNat =
      vcoRatio xtal.toNat vcoFreq.toNat := by
    rw [UInt64.toNat_div, UInt64.toNat_add, scaled, UInt32.toNat_toUInt64, UInt32.toNat_toUInt64,
      twice, Nat.mod_eq_of_lt (by omega), vcoRatio]
  constructor
  · show (UInt64.toUInt32 _).toUInt8.toNat = _
    rw [UInt32.toNat_toUInt8, UInt64.toNat_toUInt32, UInt64.toNat_div, ratio]
    show _ / 65536 % 4294967296 % 256 = _
    omega
  · show (UInt64.toUInt32 _).toNat = _
    rw [UInt64.toNat_toUInt32, UInt64.toNat_mod, ratio]
    show _ % 65536 % 4294967296 = _
    omega

/-! ### Unreachable frequencies -/

/-- The frequency in kHz, rounded. -/
def kHz (freq : UInt32) : Nat := (freq.toNat + 500) / 1000

/-- The VCO can run at `m` times the frequency. -/
def Reaches (khz m : Nat) : Prop := 1770000 ≤ khz * m ∧ khz * m < 3540000

instance (khz m : Nat) : Decidable (Reaches khz m) :=
  inferInstanceAs (Decidable (1770000 ≤ khz * m ∧ khz * m < 3540000))

/-- The test in the loop; where the addition of 500 wraps, neither side holds. -/
theorem reaches_iff (freq : UInt32) (m : UInt8) (low : 2 ≤ m.toNat) (high : m.toNat ≤ 64) :
    (1770000 ≤ (freq + 500) / 1000 * m.toUInt32 ∧
      (freq + 500) / 1000 * m.toUInt32 < 1770000 * 2) ↔ Reaches (kHz freq) m.toNat := by
  have bound := freq.toNat_lt
  have quotient : ((freq + 500) / 1000).toNat = (freq.toNat + 500) % 4294967296 / 1000 := by
    rw [UInt32.toNat_div, UInt32.toNat_add]
    rfl
  have product : ((freq + 500) / 1000 * m.toUInt32).toNat =
      (freq.toNat + 500) % 4294967296 / 1000 * m.toNat := by
    rw [UInt32.toNat_mul, quotient, UInt8.toNat_toUInt32]
    apply Nat.mod_eq_of_lt
    calc (freq.toNat + 500) % 4294967296 / 1000 * m.toNat
        ≤ 4294967 * 64 := Nat.mul_le_mul (by omega) high
      _ < 2 ^ 32 := by decide
  rw [UInt32.le_iff_toNat_le, UInt32.lt_iff_toNat_lt, product]
  show 1770000 ≤ _ ∧ _ < 3540000 ↔ _
  unfold Reaches kHz
  by_cases wraps : freq.toNat + 500 < 4294967296
  · rw [Nat.mod_eq_of_lt wraps]
  · have zero : (freq.toNat + 500) % 4294967296 / 1000 = 0 := by omega
    have large : 4294967 * 2 ≤ (freq.toNat + 500) / 1000 * m.toNat :=
      Nat.mul_le_mul (by omega) low
    rw [zero]
    omega

theorem calcDivider_cons (freq : UInt32) (m : UInt8) (more : List UInt8) (low : 2 ≤ m.toNat)
    (high : m.toNat ≤ 64) :
    calcDivider ((freq + 500) / 1000) (m :: more) =
      if Reaches (kHz freq) m.toNat then (m, divNum m)
      else calcDivider ((freq + 500) / 1000) more := by
  rw [calcDivider]
  by_cases reaches : Reaches (kHz freq) m.toNat
  · rw [if_pos reaches, if_pos ((reaches_iff freq m low high).mpr reaches)]
  · rw [if_neg reaches, if_neg fun found => reaches ((reaches_iff freq m low high).mp found)]

theorem calcDivider_cases (freq : UInt32) (dividers : List UInt8)
    (range : ∀ m ∈ dividers, 2 ≤ m.toNat ∧ m.toNat ≤ 64) :
    (∃ m ∈ dividers, Reaches (kHz freq) m.toNat ∧
        calcDivider ((freq + 500) / 1000) dividers = (m, divNum m)) ∨
      (∀ m ∈ dividers, ¬Reaches (kHz freq) m.toNat) ∧
        calcDivider ((freq + 500) / 1000) dividers = (128, 0) := by
  induction dividers with
  | nil =>
    right
    exact ⟨fun m member => (List.not_mem_nil member).elim, rfl⟩
  | cons m more ih =>
    obtain ⟨low, high⟩ := range m List.mem_cons_self
    rw [calcDivider_cons freq m more low high]
    by_cases reaches : Reaches (kHz freq) m.toNat
    · left
      exact ⟨m, List.mem_cons_self, reaches, if_pos reaches⟩
    · rw [if_neg reaches]
      rcases ih fun other member => range other (List.mem_cons_of_mem _ member) with
        ⟨found, member, rest⟩ | ⟨none, rest⟩
      · exact .inl ⟨found, List.mem_cons_of_mem _ member, rest⟩
      · right
        refine ⟨fun other member => ?_, rest⟩
        rcases List.mem_cons.mp member with rfl | later
        · exact reaches
        · exact none other later

theorem mixDividers_range : ∀ m ∈ mixDividers, 2 ≤ m.toNat ∧ m.toNat ≤ 64 := by
  decide +kernel

theorem dividerFor_cases (freq : UInt32) :
    (∃ m ∈ mixDividers, Reaches (kHz freq) m.toNat ∧ dividerFor freq = (m, divNum m)) ∨
      (∀ m ∈ mixDividers, ¬Reaches (kHz freq) m.toNat) ∧ dividerFor freq = (128, 0) :=
  calcDivider_cases freq mixDividers mixDividers_range

/-- No divider brings the VCO into its range. -/
def Unreachable (freq : UInt32) : Prop := ∀ m ∈ [2, 4, 8, 16, 32, 64], ¬Reaches (kHz freq) m

instance (freq : UInt32) : Decidable (Unreachable freq) :=
  inferInstanceAs (Decidable (∀ m ∈ [2, 4, 8, 16, 32, 64], ¬Reaches (kHz freq) m))

theorem dividerFor_unreachable (freq : UInt32) (unreachable : Unreachable freq) :
    dividerFor freq = (128, 0) := by
  rcases dividerFor_cases freq with ⟨m, member, reaches, _⟩ | ⟨_, left⟩
  · have listed : m.toNat ∈ [2, 4, 8, 16, 32, 64] := List.mem_map_of_mem (f := UInt8.toNat) member
    exact (unreachable _ listed reaches).elim
  · exact left

/-- The reference clocks that `rtlsdr_open` sets. -/
def Opened (cfg : Config) : Prop :=
  cfg.rafaelChip = .r820t ∧ cfg.xtal = 28800000 ∨
    cfg.rafaelChip = .r828d ∧ cfg.xtal = if cfg.isRtlsdrBlogV4 then 28800000 else 16000000

/-- The remainder of the ratio that decides, as a condition on the frequency: about
`freq % (4 * xtal)` must be at least `xtal`, or `2 * xtal` for the R828D. -/
def TooLarge (cfg : Config) (freq : UInt32) : Prop :=
  128 / (vcoPowerRef cfg.rafaelChip).toNat * (131072 * cfg.xtal.toNat) ≤
    (cfg.xtal.toNat + 8388608 * freq.toNat) % (131072 * cfg.xtal.toNat * 256)

theorem vcoRatio_remainder (xtal freq : Nat) :
    vcoRatio xtal (freq * 128) / 65536 % 256 =
      (xtal + 8388608 * freq) % (131072 * xtal * 256) / (131072 * xtal) := by
  rw [Nat.mod_mul_right_div_self, vcoRatio, Nat.div_div_eq_div_mul]
  congr 2
  · omega
  · omega

/-- For an unreachable frequency, the check of the function. -/
theorem refused_iff (cfg : Config) (freq : UInt32) (opened : Opened cfg)
    (unreachable : Unreachable freq) :
    128 / (vcoPowerRef cfg.rafaelChip).toNat - 1 < (fractionFor cfg.xtal freq).1.toNat ↔
      TooLarge cfg freq := by
  have slow : cfg.xtal.toNat < 2 ^ 31 ∧ 0 < cfg.xtal.toNat := by
    rcases opened with ⟨_, clock⟩ | ⟨_, clock⟩
    · rw [clock]
      decide
    · rw [clock]
      split <;> decide
  have power : 0 < 128 / (vcoPowerRef cfg.rafaelChip).toNat := by
    unfold vcoPowerRef
    split <;> decide
  have product : (freq.toUInt64 * (128 : UInt8).toUInt64).toNat = freq.toNat * 128 := by
    rw [UInt64.toNat_mul, UInt32.toNat_toUInt64]
    apply Nat.mod_eq_of_lt
    have := freq.toNat_lt
    show freq.toNat * 128 < _
    omega
  have small : (freq.toUInt64 * (128 : UInt8).toUInt64).toNat < 2 ^ 47 := by
    have := freq.toNat_lt
    rw [product]
    omega
  unfold fractionFor
  rw [dividerFor_unreachable freq unreachable,
    (pllFraction_toNat cfg.xtal _ slow.1 small).1, product, vcoRatio_remainder, TooLarge,
    ← Nat.le_div_iff_mul_le (Nat.mul_pos (by decide) slow.2)]
  omega

/-- An unreachable frequency is refused, and the registers of the PLL are kept, if and only if
it meets the condition. -/
theorem set_pll_refuses_iff (cfg : Config) (opened : Opened cfg) (freq : UInt32)
    (unreachable : Unreachable freq) :
    (∀ (bus : Nat → Transfer) (world : World),
      (∃ rc, (r82xxSetPll ⟨cfg, bus⟩ freq world).1 = .error rc ∧ rc < 0) ∧
        ∀ i < 7, (r82xxSetPll ⟨cfg, bus⟩ freq world).2.chip (0x10 + i) =
          world.chip (0x10 + i)) ↔
      TooLarge cfg freq := by
  rw [← refused_iff cfg freq opened unreachable]
  constructor
  · intro refuses
    by_contra small
    -- on a bus without failures the function would return 0
    let bus : Nat → Transfer := fun _ => ⟨none, []⟩
    have working : ∀ n rc, (Env.bus ⟨cfg, bus⟩ n).failed = some rc → False := by
      intro n rc failed
      cases failed
    obtain ⟨value, world', run⟩ := (errors_setPll working freq small).ends newWorld
    obtain ⟨rc, failed, _⟩ := (refuses bus newWorld).1
    rw [run] at failed
    cases failed
  · intro refused bus world
    obtain ⟨rc, world', run⟩ := setPll_refused ⟨cfg, bus⟩ freq world refused
    constructor
    · have negative : ∀ n code, (Env.bus ⟨cfg, bus⟩ n).failed = some code →
          i2cError code < 0 := by
        intro n code _
        unfold i2cError
        split <;> omega
      have errors := errors_setPll (P := fun rc => rc < 0) negative freq fun _ => by decide
      exact ⟨rc, by rw [run], errors world rc world' run⟩
    · intro i inside
      exact (keeps_chip_refused ⟨cfg, bus⟩ freq (by omega) _ refused).stopped
        (s := world) rfl fun _ holds => holds

/-- A tuner with a crystal of 28.8 MHz. -/
def r820tConfig : Config :=
  { xtal := 28800000, rafaelChip := .r820t, usePredetect := false, isRtlsdrBlogV4 := false }

/-- At 1.78 GHz no divider is left, and the frequency is refused. -/
theorem set_pll_refuses_high :
    ∃ rc, (r82xxSetPll ⟨r820tConfig, fun _ => ⟨none, []⟩⟩ 1780000000 newWorld).1 = .error rc ∧
      rc < 0 :=
  ((set_pll_refuses_iff r820tConfig (.inl ⟨rfl, rfl⟩) 1780000000 (by decide +kernel)).mpr
    (by unfold TooLarge; decide +kernel) _ newWorld).1

/-- 20 MHz and the intermediate frequency of 3.57 MHz: the lowest divider is too small, but the
function returns 0 and has written the registers. -/
theorem set_pll_accepts_unreachable :
    Unreachable 23570000 ∧
      (r82xxSetPll (busFailing fun _ => false) 23570000 newWorld).1 = .ok () ∧
      (r82xxSetPll (busFailing fun _ => false) 23570000 newWorld).2.chip 0x14 = 0xc9 := by
  decide +kernel

end RtlSdr.R82xx
