import Mathlib.Algebra.Order.Field.Basic
import Mathlib.Tactic.FieldSimp
import Mathlib.Tactic.Linarith
import Mathlib.Tactic.Ring
import RtlSdr.Librtlsdr.Tuners.Bus

/-!
# The E4000

`e4k_compute_pll_params` splits the VCO frequency into `z` and `x`, the integer part and the
fraction in 65536ths of its ratio to the clock. `z` is computed in 64 bits and stored in 8;
`is_z_valid` would tell when it does not fit, but is not called.
-/
namespace RtlSdr.Tuners.E4k

/-! ### The PLL parameters -/

/-- `struct e4k_pll_params`. -/
structure PllParams where
  fosc : UInt32
  intendedFlo : UInt32
  flo : UInt32
  x : UInt16
  z : UInt8
  r : UInt8
  rIdx : UInt8
  threephase : UInt8
deriving DecidableEq, Repr

/-- `struct pll_settings`. -/
structure PllSettings where
  freq : UInt32
  regSynth7 : UInt8
  mult : UInt8
deriving DecidableEq, Repr

/-- `pll_vars`. Bit 3 of `reg_synth7` stands for three-phase mixing. -/
def pllVars : List PllSettings := [
  ⟨72400000, 0x0f, 48⟩,
  ⟨81200000, 0x0e, 40⟩,
  ⟨108300000, 0x0d, 32⟩,
  ⟨162500000, 0x0c, 24⟩,
  ⟨216600000, 0x0b, 16⟩,
  ⟨325000000, 0x0a, 12⟩,
  ⟨350000000, 0x09, 8⟩,
  ⟨432000000, 0x03, 8⟩,
  ⟨667000000, 0x02, 6⟩,
  ⟨1200000000, 0x01, 4⟩]

def isFoscValid (fosc : UInt32) : Bool := ¬(fosc < 16000000 ∨ fosc > 30000000)

def computeFvco (fosc : UInt32) (z : UInt8) (x : UInt16) : UInt64 :=
  fosc.toUInt64 * z.toUInt64 + fosc.toUInt64 * x.toUInt64 / 65536

def einval : Int := 22

/-- `compute_flo`, whose error code becomes a `uint32_t`. -/
def computeFlo (fosc : UInt32) (z : UInt8) (x : UInt16) (r : UInt8) : UInt32 :=
  let fvco := computeFvco fosc z x
  if fvco = 0 then UInt32.ofInt (-einval) else (fvco / r.toUInt64).toUInt32

/-- The row of the table for a frequency; above the last one, `r` and `r_idx` keep the values
they start with. -/
def settingsFor (intendedFlo : UInt32) : PllSettings :=
  (pllVars.find? fun row => intendedFlo < row.freq).getD ⟨0, 0, 2⟩

/-- `e4k_compute_pll_params`, with the parameters it is given to fill. -/
def e4kComputePllParams (oscp : PllParams) (fosc intendedFlo : UInt32) : UInt32 × PllParams :=
  if isFoscValid fosc then
    let row := settingsFor intendedFlo
    let intendedFvco := intendedFlo.toUInt64 * row.mult.toUInt64
    let z := intendedFvco / fosc.toUInt64
    let remainder := intendedFvco - fosc.toUInt64 * z
    let x := (remainder * 65536 / fosc.toUInt64).toUInt32
    let flo := computeFlo fosc z.toUInt8 x.toUInt16 row.mult
    (flo,
      { fosc, intendedFlo, flo
        x := x.toUInt16
        z := z.toUInt8
        r := row.mult
        rIdx := row.regSynth7
        threephase := if row.regSynth7 &&& 0x08 ≠ 0 then 1 else 0 })
  else (0, { oscp with rIdx := 0 })

/-! ### The chip -/

/-- `enum e4k_band`. -/
inductive Band
  | vhf2
  | vhf3
  | uhf
  | l
deriving DecidableEq, Repr

def Band.toUInt8 : Band → UInt8
  | .vhf2 => 0
  | .vhf3 => 1
  | .uhf => 2
  | .l => 3

/-- `struct e4k_state`, with the chip. -/
structure State where
  band : Band
  vco : PllParams
  chip : Chip

section

variable (bus : Bus)

def e4kRegWrite (reg : Nat) (val : UInt8) (s : State) : Int × State :=
  let sent := i2cWrite bus reg val s.chip
  (if sent.1 then 0 else -1, { s with chip := sent.2 })

def e4kRegRead (s : State) : Int × State :=
  let read := i2cRead bus s.chip
  (match read.1 with
    | some byte => byte.toNat
    | none => -1, { s with chip := read.2 })

/-- `e4k_reg_set_mask`. A read that fails counts as 0xff. -/
def e4kRegSetMask (reg : Nat) (mask val : UInt8) (s : State) : Int × State :=
  let read := e4kRegRead bus s
  let tmp := UInt8.ofInt read.1
  if tmp &&& mask = val then (0, read.2)
  else e4kRegWrite bus reg ((tmp &&& ~~~mask) ||| (val &&& mask)) read.2

/-- `struct reg_field`. -/
structure RegField where
  reg : Nat
  shift : UInt8
  width : Nat
deriving DecidableEq, Repr

def width2mask : List UInt8 := [0, 1, 3, 7, 0xf, 0x1f, 0x3f, 0x7f, 0xff]

def e4kFieldWrite (field : RegField) (val : UInt8) (s : State) : Int × State :=
  let read := e4kRegRead bus s
  if read.1 < 0 then read
  else
    let mask := width2mask.getD field.width 0 <<< field.shift
    e4kRegSetMask bus field.reg mask (val <<< field.shift) read.2

/-! ### Filters -/

def rfFiltCenterUhf : List UInt32 := [
  360000000, 380000000, 405000000, 425000000, 450000000, 475000000, 505000000, 540000000,
  575000000, 615000000, 670000000, 720000000, 760000000, 840000000, 890000000, 970000000]

def rfFiltCenterL : List UInt32 := [
  1300000000, 1320000000, 1360000000, 1410000000, 1445000000, 1460000000, 1490000000, 1530000000,
  1560000000, 1590000000, 1640000000, 1660000000, 1680000000, 1700000000, 1720000000, 1750000000]

def unsignedDelta (a b : UInt32) : UInt32 := if a > b then a - b else b - a

/-- The loop of `closest_arr_idx`, from the index `i` on. -/
def closestLoop (freq : UInt32) : List UInt32 → Nat → UInt32 → Nat → Nat
  | [], _, _, bi => bi
  | center :: centers, i, bestDelta, bi =>
    let delta := unsignedDelta freq center
    if delta < bestDelta then closestLoop freq centers (i + 1) delta i
    else closestLoop freq centers (i + 1) bestDelta bi

def closestArrIdx (arr : List UInt32) (freq : UInt32) : Nat := closestLoop freq arr 0 0xffffffff 0

def chooseRfFilter (band : Band) (freq : UInt32) : Nat :=
  match band with
  | .vhf2 | .vhf3 => 0
  | .uhf => closestArrIdx rfFiltCenterUhf freq
  | .l => closestArrIdx rfFiltCenterL freq

def e4kRfFilterSet (s : State) : Int × State :=
  e4kRegSetMask bus 0x10 0x0f (chooseRfFilter s.band s.vco.flo).toUInt8 s

def mixFilterBw : List UInt32 := [
  27000000, 27000000, 27000000, 27000000, 27000000, 27000000, 27000000, 27000000,
  4600000, 4200000, 3800000, 3400000, 3300000, 2700000, 2300000, 1900000]

def ifrcFilterBw : List UInt32 := [
  21400000, 21000000, 17600000, 14700000, 12400000, 10600000, 9000000, 7700000,
  6400000, 5300000, 4400000, 3400000, 2600000, 1800000, 1200000, 1000000]

def ifchFilterBw : List UInt32 := [
  5500000, 5300000, 5000000, 4800000, 4600000, 4400000, 4300000, 4100000,
  3900000, 3800000, 3700000, 3600000, 3400000, 3300000, 3200000, 3100000,
  3000000, 2950000, 2900000, 2800000, 2750000, 2700000, 2600000, 2550000,
  2500000, 2450000, 2400000, 2300000, 2280000, 2240000, 2200000, 2150000]

/-- `enum e4k_if_filter`. -/
inductive IfFilter
  | mix
  | chan
  | rc
deriving DecidableEq, Repr

def IfFilter.bandwidths : IfFilter → List UInt32
  | .mix => mixFilterBw
  | .chan => ifchFilterBw
  | .rc => ifrcFilterBw

def IfFilter.field : IfFilter → RegField
  | .mix => ⟨0x11, 4, 4⟩
  | .chan => ⟨0x12, 0, 5⟩
  | .rc => ⟨0x11, 0, 4⟩

def e4kIfFilterBwSet (filter : IfFilter) (bandwidth : UInt32) (s : State) : Int × State :=
  e4kFieldWrite bus filter.field (closestArrIdx filter.bandwidths bandwidth).toUInt8 s

/-! ### Tuning -/

def e4kBandSet (band : Band) (s : State) : Int × State :=
  let s := (e4kRegWrite bus 0x78 (if band = .l then 0 else 3) s).2
  -- without the reset there is a gap between 325 and 350 MHz
  let s := (e4kRegSetMask bus 0x07 0x06 0 s).2
  let set := e4kRegSetMask bus 0x07 0x06 (band.toUInt8 <<< 1) s
  (set.1, if set.1 ≥ 0 then { set.2 with band } else set.2)

/-- The band `e4k_tune_params` chooses for the frequency it will get. -/
def bandFor (flo : UInt32) : Band :=
  if flo < 140000000 then .vhf2
  else if flo < 350000000 then .vhf3
  else if flo < 1135000000 then .uhf
  else .l

/-- `e4k_tune_params`. What the writes return is not looked at, and neither is what the function
returns itself. -/
def e4kTuneParams (p : PllParams) (s : State) : State :=
  let s := (e4kRegWrite bus 0x0d p.rIdx s).2
  let s := (e4kRegWrite bus 0x09 p.z s).2
  let s := (e4kRegWrite bus 0x0a (p.x &&& 0xff).toUInt8 s).2
  let s := (e4kRegWrite bus 0x0b (p.x >>> 8).toUInt8 s).2
  let s := (e4kBandSet bus (bandFor p.flo) { s with vco := p }).2
  (e4kRfFilterSet bus s).2

def e4kTuneFreq (freq : UInt32) (s : State) : Int × State :=
  let params := e4kComputePllParams s.vco s.vco.fosc freq
  if params.1 = 0 then (-einval, s)
  else
    let read := e4kRegRead bus (e4kTuneParams bus params.2 s)
    -- a read that fails is -1, and has the bit of the lock
    (if UInt32.ofInt read.1 &&& 0x01 = 0 then -1 else 0, read.2)

end

/-! ### The multiplier -/

/-- The multiplier that `r_idx` stands for. -/
def multiplierOf (rIdx : UInt8) : Nat :=
  ((pllVars.find? fun row => row.regSynth7 = rIdx).map fun row => row.mult.toNat).getD 2

def multiplierFor (intendedFlo : UInt32) : Nat := (settingsFor intendedFlo).mult.toNat

theorem settingsFor_cases (intendedFlo : UInt32) :
    (∃ row ∈ pllVars, intendedFlo < row.freq ∧ settingsFor intendedFlo = row) ∨
      settingsFor intendedFlo = ⟨0, 0, 2⟩ := by
  unfold settingsFor
  cases found : pllVars.find? fun row => intendedFlo < row.freq with
  | none => exact .inr rfl
  | some row =>
    have below := List.find?_some found
    exact .inl ⟨row, List.mem_of_find?_eq_some found, of_decide_eq_true below, rfl⟩

theorem multiplierOf_settingsFor (intendedFlo : UInt32) :
    multiplierOf (settingsFor intendedFlo).regSynth7 = multiplierFor intendedFlo := by
  rw [multiplierFor]
  rcases settingsFor_cases intendedFlo with ⟨row, member, _, found⟩ | last
  · have rows : ∀ row ∈ pllVars, multiplierOf row.regSynth7 = row.mult.toNat := by decide
    rw [found]
    exact rows row member
  · rw [last]
    rfl

theorem multiplierFor_range (intendedFlo : UInt32) :
    2 ≤ multiplierFor intendedFlo ∧ multiplierFor intendedFlo ≤ 48 := by
  rw [multiplierFor]
  rcases settingsFor_cases intendedFlo with ⟨row, member, _, found⟩ | last
  · have rows : ∀ row ∈ pllVars, 2 ≤ row.mult.toNat ∧ row.mult.toNat ≤ 48 := by decide
    rw [found]
    exact rows row member
  · rw [last]
    decide

theorem intendedFvco_le (intendedFlo : UInt32) (upper : intendedFlo ≤ 2200000000) :
    intendedFlo.toNat * multiplierFor intendedFlo ≤ 4800000000 := by
  rw [multiplierFor]
  rcases settingsFor_cases intendedFlo with ⟨row, member, below, found⟩ | last
  · have rows : ∀ row ∈ pllVars, row.freq.toNat * row.mult.toNat ≤ 4800000000 := by decide
    rw [found]
    have less : intendedFlo.toNat < row.freq.toNat := UInt32.lt_iff_toNat_lt.mp below
    exact (Nat.mul_le_mul_right _ (Nat.le_of_lt less)).trans (rows row member)
  · have bound : intendedFlo.toNat ≤ 2200000000 := UInt32.le_iff_toNat_le.mp upper
    rw [last]
    exact (Nat.mul_le_mul_right 2 bound).trans (by decide)

/-! ### The words as numbers -/

/-- `z` before it is cut to 8 bits. -/
def wholeOf (fosc v : Nat) : Nat := v / fosc

/-- `x`. -/
def fractionOf (fosc v : Nat) : Nat := v % fosc * 65536 / fosc

/-- The VCO frequency for a `z` and an `x`. -/
def fvcoOf (fosc z x : Nat) : Nat := fosc * z + fosc * x / 65536

theorem fractionOf_lt {fosc v : Nat} (positive : 0 < fosc) : fractionOf fosc v < 65536 := by
  rw [fractionOf, Nat.div_lt_iff_lt_mul positive, Nat.mul_comm 65536]
  exact Nat.mul_lt_mul_of_pos_right (Nat.mod_lt v positive) (by decide)

/-- Both divisions round down: the frequency is below the intended one by less than a step of
the fraction and one. -/
theorem fvco_near {fosc v : Nat} (positive : 0 < fosc) :
    let fvco := fvcoOf fosc (wholeOf fosc v) (fractionOf fosc v)
    fvco ≤ v ∧ (v - fvco) * 65536 < fosc + 65536 := by
  have whole := Nat.div_add_mod v fosc
  have x := Nat.div_mul_le_self (v % fosc * 65536) fosc
  have next := Nat.lt_div_mul_add (a := v % fosc * 65536) positive
  have part := Nat.div_mul_le_self (fosc * fractionOf fosc v) 65536
  have above := Nat.lt_div_mul_add (a := fosc * fractionOf fosc v) (b := 65536) (by decide)
  have same : fractionOf fosc v * fosc = fosc * fractionOf fosc v := Nat.mul_comm _ _
  change fractionOf fosc v * fosc ≤ v % fosc * 65536 at x
  change v % fosc * 65536 < fractionOf fosc v * fosc + fosc at next
  rw [same] at x next
  intro fvco
  change fosc * (v / fosc) + fosc * fractionOf fosc v / 65536 ≤ v ∧
    (v - (fosc * (v / fosc) + fosc * fractionOf fosc v / 65536)) * 65536 < fosc + 65536
  generalize fosc * (v / fosc) = base at whole ⊢
  generalize fosc * fractionOf fosc v / 65536 = low at part above ⊢
  omega

theorem fvcoOf_large {fosc z x : Nat} (low : 16000000 ≤ fosc) (nonzero : z ≠ 0 ∨ x ≠ 0) :
    244 ≤ fvcoOf fosc z x := by
  unfold fvcoOf
  rcases nonzero with whole | fraction
  · have : fosc * 1 ≤ fosc * z := Nat.mul_le_mul_left fosc (by omega)
    omega
  · have : fosc * 1 ≤ fosc * x := Nat.mul_le_mul_left fosc (by omega)
    omega

theorem isFoscValid_iff (fosc : UInt32) :
    isFoscValid fosc = true ↔ 16000000 ≤ fosc.toNat ∧ fosc.toNat ≤ 30000000 := by
  unfold isFoscValid
  simp only [decide_eq_true_eq, not_or, UInt32.not_lt, UInt32.le_iff_toNat_le, UInt32.reduceToNat]

theorem computeFlo_toNat {fosc : UInt32} {z : UInt8} {x : UInt16} {r : UInt8}
    (upper : fosc.toNat ≤ 30000000) (two : 2 ≤ r.toNat) :
    (computeFlo fosc z x r).toNat =
      if fvcoOf fosc.toNat z.toNat x.toNat = 0 then 4294967274
      else fvcoOf fosc.toNat z.toNat x.toNat / r.toNat := by
  have zByte : z.toNat < 256 := z.toNat_lt
  have xWord : x.toNat < 65536 := x.toNat_lt
  have whole : fosc.toNat * z.toNat ≤ 30000000 * 255 := Nat.mul_le_mul upper (by omega)
  have part : fosc.toNat * x.toNat ≤ 30000000 * 65535 := Nat.mul_le_mul upper (by omega)
  have fvco : (computeFvco fosc z x).toNat = fvcoOf fosc.toNat z.toNat x.toNat := by
    rw [computeFvco, UInt64.toNat_add, UInt64.toNat_div, UInt64.toNat_mul, UInt64.toNat_mul,
      UInt32.toNat_toUInt64, UInt8.toNat_toUInt64, UInt16.toNat_toUInt64]
    simp only [UInt64.reduceToNat]
    unfold fvcoOf
    omega
  have bound : fvcoOf fosc.toNat z.toNat x.toNat < 2 * 2 ^ 32 := by
    unfold fvcoOf
    omega
  unfold computeFlo
  dsimp only
  by_cases zero : fvcoOf fosc.toNat z.toNat x.toNat = 0
  · have none : computeFvco fosc z x = 0 := UInt64.toNat_inj.mp (by rw [fvco, zero]; rfl)
    rw [if_pos none, if_pos zero]
    decide
  · have some : computeFvco fosc z x ≠ 0 := by
      intro none
      rw [none] at fvco
      exact zero fvco.symm
    have fits : fvcoOf fosc.toNat z.toNat x.toNat / r.toNat < 2 ^ 32 := by
      rw [Nat.div_lt_iff_lt_mul (by omega)]
      exact Nat.lt_of_lt_of_le bound (by rw [Nat.mul_comm]; exact Nat.mul_le_mul_left _ two)
    rw [if_neg some, if_neg zero, UInt64.toNat_toUInt32, UInt64.toNat_div, fvco,
      UInt8.toNat_toUInt64, Nat.mod_eq_of_lt fits]

theorem computePllParams_spec (oscp : PllParams) (fosc intendedFlo : UInt32)
    (valid : isFoscValid fosc = true) :
    let v := intendedFlo.toNat * multiplierFor intendedFlo
    let params := e4kComputePllParams oscp fosc intendedFlo
    multiplierOf params.2.rIdx = multiplierFor intendedFlo ∧
      params.2.z.toNat = wholeOf fosc.toNat v % 256 ∧
      params.2.x.toNat = fractionOf fosc.toNat v ∧
      params.1.toNat =
        if fvcoOf fosc.toNat params.2.z.toNat params.2.x.toNat = 0 then 4294967274
        else fvcoOf fosc.toNat params.2.z.toNat params.2.x.toNat / multiplierFor intendedFlo := by
  intro v params
  obtain ⟨low, high⟩ := (isFoscValid_iff fosc).mp valid
  have positive : 0 < fosc.toNat := by omega
  have range := multiplierFor_range intendedFlo
  have flo := intendedFlo.toNat_lt
  have product : v ≤ 2 ^ 32 * 48 := Nat.mul_le_mul (Nat.le_of_lt flo) range.2
  have fvco : (intendedFlo.toUInt64 * (settingsFor intendedFlo).mult.toUInt64).toNat = v := by
    rw [UInt64.toNat_mul, UInt32.toNat_toUInt64, UInt8.toNat_toUInt64]
    exact Nat.mod_eq_of_lt (Nat.lt_of_le_of_lt product (by decide))
  have z : (intendedFlo.toUInt64 * (settingsFor intendedFlo).mult.toUInt64 /
      fosc.toUInt64).toNat = wholeOf fosc.toNat v := by
    rw [UInt64.toNat_div, fvco, UInt32.toNat_toUInt64]
    rfl
  have split := Nat.div_add_mod v fosc.toNat
  have remainder : (intendedFlo.toUInt64 * (settingsFor intendedFlo).mult.toUInt64 -
      fosc.toUInt64 * (intendedFlo.toUInt64 * (settingsFor intendedFlo).mult.toUInt64 /
        fosc.toUInt64)).toNat = v % fosc.toNat := by
    rw [UInt64.toNat_sub, UInt64.toNat_mul, z, fvco, UInt32.toNat_toUInt64]
    change (2 ^ 64 - fosc.toNat * (v / fosc.toNat) % 2 ^ 64 + v) % 2 ^ 64 = v % fosc.toNat
    generalize fosc.toNat * (v / fosc.toNat) = used at split ⊢
    generalize v % fosc.toNat = rest at split ⊢
    omega
  have below := Nat.mod_lt v positive
  have fraction := fractionOf_lt (v := v) positive
  have x : ((intendedFlo.toUInt64 * (settingsFor intendedFlo).mult.toUInt64 -
      fosc.toUInt64 * (intendedFlo.toUInt64 * (settingsFor intendedFlo).mult.toUInt64 /
        fosc.toUInt64)) * 65536 / fosc.toUInt64).toUInt32.toUInt16.toNat =
        fractionOf fosc.toNat v := by
    rw [UInt32.toNat_toUInt16, UInt64.toNat_toUInt32, UInt64.toNat_div, UInt64.toNat_mul,
      remainder, UInt32.toNat_toUInt64]
    simp only [UInt64.reduceToNat]
    rw [Nat.mod_eq_of_lt (a := v % fosc.toNat * 65536) (by omega)]
    change fractionOf fosc.toNat v % _ % _ = _
    omega
  have result : params = (_, _) := if_pos valid
  rw [result]
  dsimp only
  refine ⟨multiplierOf_settingsFor intendedFlo, ?_, x, ?_⟩
  · rw [UInt64.toNat_toUInt8, z]
  · exact computeFlo_toNat high range.1

/-! ### Accuracy -/

/-- What the result should be: not above the intended frequency, below it by less than one and
a step of the fraction, and the frequency for the words that are stored. -/
structure Accurate (fosc intendedFlo flo : UInt32) (p : PllParams) : Prop where
  below : flo.toNat ≤ intendedFlo.toNat
  near : (intendedFlo.toNat : ℚ) - flo.toNat <
    ((fosc.toNat : ℚ) / 65536 + 1) / multiplierOf p.rIdx + 1
  stored : flo.toNat =
    (fosc.toNat * p.z.toNat + fosc.toNat * p.x.toNat / 65536) / multiplierOf p.rIdx

theorem near_iff {fosc intended flo r : Nat} (positive : 0 < r) :
    (intended : ℚ) - flo < ((fosc : ℚ) / 65536 + 1) / r + 1 ↔
      r * intended * 65536 < r * flo * 65536 + fosc + 65536 + r * 65536 := by
  have scaled : ((fosc : ℚ) / 65536 + 1) / r + 1 = (fosc + 65536 + r * 65536) / (r * 65536) := by
    field_simp
  rw [scaled, lt_div_iff₀ (by positivity)]
  constructor
  · intro less
    have : (r * intended * 65536 : ℚ) < r * flo * 65536 + fosc + 65536 + r * 65536 := by linarith
    exact_mod_cast this
  · intro less
    have : (r * intended * 65536 : ℚ) < r * flo * 65536 + fosc + 65536 + r * 65536 := by
      exact_mod_cast less
    linarith

theorem quotient_near {fosc intended r fvco : Nat} (positive : 0 < r)
    (near : (intended * r - fvco) * 65536 < fosc + 65536) :
    r * intended * 65536 < r * (fvco / r) * 65536 + fosc + 65536 + r * 65536 := by
  have quotient := Nat.lt_div_mul_add (a := fvco) positive
  have scaled : fvco * 65536 < (fvco / r * r + r) * 65536 :=
    Nat.mul_lt_mul_of_pos_right quotient (by decide)
  rw [Nat.sub_mul] at near
  have above := lt_add_of_tsub_lt_left near
  rw [Nat.mul_comm r intended, Nat.mul_comm r (fvco / r)]
  linarith

/-- `z` fits into its 8 bits and the VCO frequency is not lost in the fraction. -/
def Representable (fosc intendedFlo : UInt32) : Prop :=
  fosc.toNat ≤ intendedFlo.toNat * multiplierFor intendedFlo * 65536 ∧
    intendedFlo.toNat * multiplierFor intendedFlo < 256 * fosc.toNat

instance (fosc intendedFlo : UInt32) : Decidable (Representable fosc intendedFlo) :=
  inferInstanceAs (Decidable (_ ∧ _))

/-- The words of a frequency that is not lost are not both zero. -/
theorem words_nonzero {fosc v : Nat} (positive : 0 < fosc) (notLost : fosc ≤ v * 65536) :
    wholeOf fosc v ≠ 0 ∨ fractionOf fosc v ≠ 0 := by
  by_cases large : fosc ≤ v
  · exact .inl (Nat.pos_iff_ne_zero.mp (Nat.div_pos large positive))
  · right
    rw [fractionOf, Nat.mod_eq_of_lt (Nat.not_le.mp large)]
    exact Nat.pos_iff_ne_zero.mp (Nat.div_pos notLost positive)

/-- The error code is no frequency the caller can have meant. -/
theorem error_not_accurate {fosc intendedFlo flo : UInt32} {p : PllParams}
    (upper : intendedFlo ≤ 2200000000) (error : flo.toNat = 4294967274) :
    ¬(flo = 0 ∨ Accurate fosc intendedFlo flo p) := by
  rintro (zero | accurate)
  · rw [zero] at error
    cases error
  · have bound : intendedFlo.toNat ≤ 2200000000 := UInt32.le_iff_toNat_le.mp upper
    have below := accurate.below
    omega

section

variable {fosc intendedFlo flo : UInt32} {p : PllParams}
  (low : 16000000 ≤ fosc.toNat) (multiplier : multiplierOf p.rIdx = multiplierFor intendedFlo)
  (z : p.z.toNat = wholeOf fosc.toNat (intendedFlo.toNat * multiplierFor intendedFlo) % 256)
  (x : p.x.toNat = fractionOf fosc.toNat (intendedFlo.toNat * multiplierFor intendedFlo))
  (result : flo.toNat =
    if fvcoOf fosc.toNat p.z.toNat p.x.toNat = 0 then 4294967274
    else fvcoOf fosc.toNat p.z.toNat p.x.toNat / multiplierFor intendedFlo)

include low multiplier z x result

theorem accurate_of_representable (fits : Representable fosc intendedFlo) :
    Accurate fosc intendedFlo flo p := by
  obtain ⟨notLost, small⟩ := fits
  have positive : 0 < fosc.toNat := by omega
  have two := (multiplierFor_range intendedFlo).1
  obtain ⟨below, near⟩ := fvco_near (v := intendedFlo.toNat * multiplierFor intendedFlo) positive
  have fits : wholeOf fosc.toNat (intendedFlo.toNat * multiplierFor intendedFlo) < 256 :=
    (Nat.div_lt_iff_lt_mul positive).mpr small
  rw [Nat.mod_eq_of_lt fits] at z
  have large := fvcoOf_large low (words_nonzero positive notLost)
  rw [z, x, if_neg (by omega)] at result
  refine ⟨?_, ?_, ?_⟩
  · rw [result]
    exact Nat.div_le_of_le_mul (Nat.mul_comm _ (multiplierFor _) ▸ below)
  · rw [multiplier, near_iff (by omega), result]
    exact quotient_near (by omega) near
  · rw [result, multiplier, z, x]
    rfl

omit low multiplier in
theorem not_accurate_of_lost (upper : intendedFlo ≤ 2200000000)
    (lost : intendedFlo.toNat * multiplierFor intendedFlo * 65536 < fosc.toNat) :
    ¬(flo = 0 ∨ Accurate fosc intendedFlo flo p) := by
  have whole : wholeOf fosc.toNat (intendedFlo.toNat * multiplierFor intendedFlo) = 0 :=
    Nat.div_eq_of_lt (by omega)
  have fraction : fractionOf fosc.toNat (intendedFlo.toNat * multiplierFor intendedFlo) = 0 := by
    rw [fractionOf, Nat.mod_eq_of_lt (by omega)]
    exact Nat.div_eq_of_lt lost
  have nothing : fvcoOf fosc.toNat 0 0 = 0 := by
    rw [fvcoOf]
    omega
  rw [whole] at z
  rw [z, x, fraction, if_pos nothing] at result
  exact error_not_accurate upper result

/-- Where `z` is cut off the frequency is too low by 256 times the clock, over the multiplier. -/
theorem not_accurate_of_cut (upper : intendedFlo ≤ 2200000000)
    (cut : 256 * fosc.toNat ≤ intendedFlo.toNat * multiplierFor intendedFlo) :
    ¬(flo = 0 ∨ Accurate fosc intendedFlo flo p) := by
  have positive : 0 < fosc.toNat := by omega
  have range := multiplierFor_range intendedFlo
  have bound := intendedFvco_le intendedFlo upper
  obtain ⟨below, _⟩ := fvco_near (v := intendedFlo.toNat * multiplierFor intendedFlo) positive
  -- the integer part is between 256 and 300, so 8 bits lose exactly 256
  have least : 256 ≤ wholeOf fosc.toNat (intendedFlo.toNat * multiplierFor intendedFlo) :=
    (Nat.le_div_iff_mul_le positive).mpr cut
  have most : wholeOf fosc.toNat (intendedFlo.toNat * multiplierFor intendedFlo) ≤ 300 :=
    Nat.div_le_of_le_mul (by omega)
  have lost : fvcoOf fosc.toNat p.z.toNat p.x.toNat + 256 * fosc.toNat ≤
      intendedFlo.toNat * multiplierFor intendedFlo := by
    refine Nat.le_trans ?_ below
    obtain ⟨rest, split⟩ := Nat.exists_eq_add_of_le least
    have byte : p.z.toNat = rest := by omega
    rw [byte, x, split, fvcoOf, fvcoOf, Nat.mul_add]
    omega
  by_cases nothing : fvcoOf fosc.toNat p.z.toNat p.x.toNat = 0
  · rw [if_pos nothing] at result
    exact error_not_accurate upper result
  · have words : p.z.toNat ≠ 0 ∨ p.x.toNat ≠ 0 := by
      by_contra zero
      rw [not_or, not_not, not_not] at zero
      apply nothing
      rw [zero.1, zero.2, fvcoOf]
      omega
    have large := fvcoOf_large low words
    rw [if_neg nothing] at result
    generalize fvcoOf fosc.toNat p.z.toNat p.x.toNat = fvco at result lost large
    rintro (zero | accurate)
    · -- the frequency is not 0: the VCO frequency is above every multiplier
      have quotient : 0 < fvco / multiplierFor intendedFlo := Nat.div_pos (by omega) (by omega)
      rw [zero] at result
      exact Nat.ne_of_lt quotient result
    · have near := accurate.near
      rw [multiplier, near_iff (by omega), result] at near
      have quotient := Nat.div_mul_le_self fvco (multiplierFor intendedFlo)
      rw [Nat.mul_comm (multiplierFor intendedFlo) intendedFlo.toNat,
        Nat.mul_comm (multiplierFor intendedFlo) (fvco / _)] at near
      omega

end

/-- For every clock that is accepted and every frequency up to 2.2 GHz, `e4k_compute_pll_params`
refuses the frequency or is accurate exactly where `z` fits and the frequency is not lost. -/
theorem computePllParams_accurate_iff (oscp : PllParams) (fosc intendedFlo : UInt32)
    (valid : isFoscValid fosc = true) (upper : intendedFlo ≤ 2200000000) :
    ((e4kComputePllParams oscp fosc intendedFlo).1 = 0 ∨
      Accurate fosc intendedFlo (e4kComputePllParams oscp fosc intendedFlo).1
        (e4kComputePllParams oscp fosc intendedFlo).2) ↔ Representable fosc intendedFlo := by
  obtain ⟨multiplier, z, x, result⟩ := computePllParams_spec oscp fosc intendedFlo valid
  obtain ⟨low, _⟩ := (isFoscValid_iff fosc).mp valid
  constructor
  · intro fine
    by_contra cut
    rw [Representable, not_and_or, Nat.not_le, Nat.not_lt] at cut
    rcases cut with lost | cut
    · exact not_accurate_of_lost z x result upper lost fine
    · exact not_accurate_of_cut low multiplier z x result upper cut fine
  · intro fits
    exact .inr (accurate_of_representable low multiplier z x result fits)

def zeroParams : PllParams := ⟨0, 0, 0, 0, 0, 0, 0, 0⟩

/-- 100 MHz with the usual clock. -/
theorem computePllParams_accurate_fm :
    Representable 28800000 100000000 ∧
      ((e4kComputePllParams zeroParams 28800000 100000000).1 = 0 ∨
        Accurate 28800000 100000000 (e4kComputePllParams zeroParams 28800000 100000000).1
          (e4kComputePllParams zeroParams 28800000 100000000).2) := by
  have fits : Representable 28800000 100000000 := by decide
  exact ⟨fits, (computePllParams_accurate_iff zeroParams 28800000 100000000 (by decide)
    (by decide)).mpr fits⟩

/-- With a clock of 16 MHz `z` is 299 for 1199 MHz and stored as 43: the function returns
175 MHz. Of 0 Hz it returns its error code. -/
theorem computePllParams_cut :
    isFoscValid 16000000 = true ∧
      (e4kComputePllParams zeroParams 16000000 1199000000).1 = 175000000 ∧
      ¬((e4kComputePllParams zeroParams 16000000 1199000000).1 = 0 ∨
        Accurate 16000000 1199000000 (e4kComputePllParams zeroParams 16000000 1199000000).1
          (e4kComputePllParams zeroParams 16000000 1199000000).2) ∧
      (e4kComputePllParams zeroParams 28800000 0).1 = 4294967274 := by
  have flo : (e4kComputePllParams zeroParams 16000000 1199000000).1 = 175000000 := rfl
  have multiplier :
      multiplierOf (e4kComputePllParams zeroParams 16000000 1199000000).2.rIdx = 4 := rfl
  refine ⟨by decide, flo, ?_, rfl⟩
  rw [flo]
  rintro (zero | accurate)
  · cases zero
  · have near := accurate.near
    rw [multiplier] at near
    simp only [UInt32.reduceToNat] at near
    norm_num at near

end RtlSdr.Tuners.E4k
