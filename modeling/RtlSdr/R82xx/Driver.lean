import RtlSdr.Lib.Prog
import RtlSdr.Lib.RegFile

/-!
# The driver of `tuner_r82xx.c`

The driver writes the registers through a bus on which any transfer may fail, and keeps a copy of
them in `regs` to save transfers. `if (rc < 0) return rc;` is the error of `Prog`. The world also
holds the registers of the chip and a record of the calls of `r82xx_write` that have returned 0.
-/
namespace RtlSdr.R82xx

/-! ### The state -/

def regShadowStart : Nat := 5
def numRegs : Nat := 30
def verNum : UInt8 := 49

/-- `enum r82xx_chip`. -/
inductive Chip
  | r820t
  | r620d
  | r828d
  | r828
  | r828s
  | r820c
deriving DecidableEq, Repr

/-- `enum r82xx_tuner_type`. -/
inductive TunerType
  | radio
  | analogTv
  | digitalTv
deriving DecidableEq, Repr

/-- `enum r82xx_xtal_cap_value`. -/
inductive XtalCap
  | lowCap30p
  | lowCap20p
  | lowCap10p
  | lowCap0p
  | highCap0p
deriving DecidableEq, Repr

/-- `enum r82xx_delivery_system`. -/
inductive DeliverySystem
  | undefined
  | dvbt
  | dvbt2
  | isdbt
deriving DecidableEq, Repr

/-- `struct r82xx_config`, and whether the dongle is an RTL-SDR Blog V4. -/
structure Config where
  xtal : UInt32
  rafaelChip : Chip
  usePredetect : Bool
  isRtlsdrBlogV4 : Bool
deriving DecidableEq, Repr

/-- The value `r820t_init` gives to `max_i2c_msg_len`. -/
def maxI2cMsgLen : Nat := 8

/-- `struct r82xx_priv`. The `type` that standby sets to -1 is `none`. -/
structure Priv where
  regs : RegFile
  xtalCapSel : XtalCap
  intFreq : UInt32
  filCalCode : UInt8
  input : UInt8
  hasLock : Bool
  initDone : Bool
  delsys : DeliverySystem
  type : Option TunerType
  bw : Nat

/-- How a transfer on the bus ends: the result of the call if it is not the length of the
message, and the bytes that a read returns. -/
structure Transfer where
  failed : Option Int
  data : List UInt8

/-- The configuration, and how each transfer ends. -/
structure Env where
  cfg : Config
  bus : Nat → Transfer

/-- A call of `r82xx_write` that has returned 0, and what the chip held then. -/
structure WriteReturn where
  reg : Nat
  val : List UInt8
  registers : List UInt8
deriving DecidableEq, Repr

structure World where
  priv : Priv
  chip : RegFile
  /-- The number of transfers so far. -/
  transfers : Nat
  /-- Whether a write of registers has failed since the last `r82xx_init` began, or there
  was none yet. -/
  stale : Bool
  returned : List WriteReturn

abbrev Driver := Prog Int World

def modifyPriv (f : Priv → Priv) : Driver Unit :=
  Prog.modify fun world => { world with priv := f world.priv }

def getPriv : Driver Priv := do
  let world ← Prog.get
  pure world.priv

/-! ### Reading and writing registers -/

section Driver

variable (env : Env)

/-- `shadow_store`. What lies before the first register and behind the last is left out. -/
def shadowStore (regs : RegFile) (reg : Nat) (val : List UInt8) : RegFile :=
  let r := reg - regShadowStart
  regs.store r ((val.drop (regShadowStart - reg)).take (numRegs - r))

def shadowEqual (regs : RegFile) (reg : Nat) (val : List UInt8) : Bool :=
  let r := reg - regShadowStart
  regShadowStart ≤ reg && val.length ≤ numRegs - r && regs.load r val.length = val

/-- What the driver makes of the result of a transfer that failed. -/
def i2cError (rc : Int) : Int := if rc < 0 then rc else -1

/-- One message with registers to the chip. -/
def i2cWrite (reg : Nat) (bytes : List UInt8) : Driver Unit := fun world =>
  let sent := { world with transfers := world.transfers + 1 }
  match (env.bus world.transfers).failed with
  | none => (.ok (), { sent with chip := world.chip.store reg bytes })
  | some rc => (.error (i2cError rc), { sent with stale := true })

/-- The loop of `r82xx_write`; a pass for each byte is more than enough. -/
def writeChunks : Nat → Nat → List UInt8 → Driver Unit
  | 0, _, _ => pure ()
  | passes + 1, reg, val => do
    let size := min val.length (maxI2cMsgLen - 1)
    i2cWrite env reg (val.take size)
    if size < val.length then writeChunks passes (reg + size) (val.drop size) else pure ()

/-- Return 0 from `r82xx_write`. -/
def returnWrite (reg : Nat) (val : List UInt8) : Driver Unit :=
  Prog.modify fun world =>
    { world with
      returned := world.returned ++ [⟨reg, val, world.chip.load reg val.length⟩] }

/-- `r82xx_write`. The copy is updated before anything is sent. -/
def r82xxWrite (reg : Nat) (val : List UInt8) : Driver Unit := do
  let priv ← getPriv
  if shadowEqual priv.regs reg val then returnWrite reg val
  else
    modifyPriv fun priv => { priv with regs := shadowStore priv.regs reg val }
    writeChunks env (val.length + 1) reg val
    returnWrite reg val

def r82xxWriteReg (reg : Nat) (val : UInt8) : Driver Unit := r82xxWrite env reg [val]

/-- `r82xx_read_cache_reg`, or `none` for -1. -/
def r82xxReadCacheReg (priv : Priv) (reg : Nat) : Option UInt8 :=
  if regShadowStart ≤ reg ∧ reg - regShadowStart < numRegs then
    some (priv.regs (reg - regShadowStart))
  else none

def maskReg8 (reg val mask : UInt8) : UInt8 := (reg &&& ~~~mask) ||| (val &&& mask)

def r82xxWriteRegMask (reg : Nat) (val bitMask : UInt8) : Driver Unit := do
  let priv ← getPriv
  match r82xxReadCacheReg priv reg with
  | none => Prog.throw (-1)
  | some cached => r82xxWrite env reg [maskReg8 cached val bitMask]

/-- One of the writes the functions below consist of. -/
inductive RegWrite
  | reg (reg : Nat) (val : UInt8)
  | mask (reg : Nat) (val bitMask : UInt8)
deriving DecidableEq, Repr

/-- Calls of `r82xx_write_reg` and `r82xx_write_reg_mask` in a row, each of them followed by
`if (rc < 0) return rc;`. -/
def writeAll : List RegWrite → Driver Unit
  | [] => pure ()
  | .reg reg val :: writes => do
    r82xxWriteReg env reg val
    writeAll writes
  | .mask reg val bitMask :: writes => do
    r82xxWriteRegMask env reg val bitMask
    writeAll writes

/-- The table of `r82xx_bitrev`. -/
def bitrevLut : List UInt8 :=
  [0x0, 0x8, 0x4, 0xc, 0x2, 0xa, 0x6, 0xe, 0x1, 0x9, 0x5, 0xd, 0x3, 0xb, 0x7, 0xf]

def r82xxBitrev (byte : UInt8) : UInt8 :=
  (bitrevLut.getD (byte &&& 0xf).toNat 0 <<< 4) ||| bitrevLut.getD (byte >>> 4).toNat 0

/-- A transfer that leaves the registers alone: the address of a read, or the read itself. -/
def i2cRead : Driver (List UInt8) := fun world =>
  let sent := { world with transfers := world.transfers + 1 }
  match (env.bus world.transfers).failed with
  | none => (.ok (env.bus world.transfers).data, sent)
  | some rc => (.error (i2cError rc), sent)

/-- `r82xx_read`, always from register 0 on. -/
def r82xxRead (len : Nat) : Driver (List UInt8) := do
  -- the address of the register, and then the bytes, bit by bit in reverse
  let _ ← i2cRead env
  let data ← i2cRead env
  pure ((List.range len).map fun i => r82xxBitrev (data.getD i 0))

/-! ### Tuning -/

/-- `struct r82xx_freq_range`. -/
structure FreqRange where
  /-- The start of the range in MHz. -/
  freq : UInt32
  openD : UInt8
  rfMuxPloy : UInt8
  tfC : UInt8
  xtalCap20p : UInt8
  xtalCap10p : UInt8
  xtalCap0p : UInt8
deriving DecidableEq, Repr

def lowestRange : FreqRange := ⟨0, 0x08, 0x02, 0xdf, 0x02, 0x01, 0x00⟩

def higherRanges : List FreqRange := [
  ⟨50, 0x08, 0x02, 0xbe, 0x02, 0x01, 0x00⟩,
  ⟨55, 0x08, 0x02, 0x8b, 0x02, 0x01, 0x00⟩,
  ⟨60, 0x08, 0x02, 0x7b, 0x02, 0x01, 0x00⟩,
  ⟨65, 0x08, 0x02, 0x69, 0x02, 0x01, 0x00⟩,
  ⟨70, 0x08, 0x02, 0x58, 0x02, 0x01, 0x00⟩,
  ⟨75, 0x00, 0x02, 0x44, 0x02, 0x01, 0x00⟩,
  ⟨80, 0x00, 0x02, 0x44, 0x02, 0x01, 0x00⟩,
  ⟨90, 0x00, 0x02, 0x34, 0x01, 0x01, 0x00⟩,
  ⟨100, 0x00, 0x02, 0x34, 0x01, 0x01, 0x00⟩,
  ⟨110, 0x00, 0x02, 0x24, 0x01, 0x01, 0x00⟩,
  ⟨120, 0x00, 0x02, 0x24, 0x01, 0x01, 0x00⟩,
  ⟨140, 0x00, 0x02, 0x14, 0x01, 0x01, 0x00⟩,
  ⟨180, 0x00, 0x02, 0x13, 0x00, 0x00, 0x00⟩,
  ⟨220, 0x00, 0x02, 0x13, 0x00, 0x00, 0x00⟩,
  ⟨250, 0x00, 0x02, 0x11, 0x00, 0x00, 0x00⟩,
  ⟨280, 0x00, 0x02, 0x00, 0x00, 0x00, 0x00⟩,
  ⟨310, 0x00, 0x41, 0x00, 0x00, 0x00, 0x00⟩,
  ⟨450, 0x00, 0x41, 0x00, 0x00, 0x00, 0x00⟩,
  ⟨588, 0x00, 0x40, 0x00, 0x00, 0x00, 0x00⟩,
  ⟨650, 0x00, 0x40, 0x00, 0x00, 0x00, 0x00⟩]

/-- The loop that finds the range of a frequency in MHz. -/
def findRange (freq : UInt32) : FreqRange → List FreqRange → FreqRange
  | range, [] => range
  | range, next :: higher => if freq < next.freq then range else findRange freq next higher

def FreqRange.xtalCap (range : FreqRange) : XtalCap → UInt8
  | .lowCap30p => range.xtalCap20p ||| 0x08
  | .lowCap20p => range.xtalCap20p ||| 0x08
  | .lowCap10p => range.xtalCap10p ||| 0x08
  | .highCap0p => range.xtalCap0p ||| 0x00
  | .lowCap0p => range.xtalCap0p ||| 0x08

def r82xxSetMux (freq : UInt32) : Driver Unit := do
  let range := findRange (freq / 1000000) lowestRange higherRanges
  -- open drain, RF mux and band of the tracking filter
  writeAll env [.mask 0x17 range.openD 0x08, .mask 0x1a range.rfMuxPloy 0xc3, .reg 0x1b range.tfC]
  let priv ← getPriv
  -- crystal capacitor and drive, then the image rejection
  writeAll env [.mask 0x10 (range.xtalCap priv.xtalCapSel) 0x0b, .mask 0x08 0x00 0x3f,
    .mask 0x09 0x00 0x3f]

/-- How often `div_buf` is halved until it is 2. -/
def divNum (mixDiv : UInt8) : UInt8 := mixDiv.toNat.log2.toUInt8 - 1

/-- The loop that finds the divider: `mix_div` and `div_num`. -/
def calcDivider (freqKhz : UInt32) : List UInt8 → UInt8 × UInt8
  -- the loop has doubled `mix_div` past its last value
  | [] => (128, 0)
  | mixDiv :: more =>
    if 1770000 ≤ freqKhz * mixDiv.toUInt32 ∧ freqKhz * mixDiv.toUInt32 < 1770000 * 2 then
      (mixDiv, divNum mixDiv)
    else calcDivider freqKhz more

/-- `nint` and `sdm` for a VCO frequency. -/
def pllFraction (pllRef : UInt32) (vcoFreq : UInt64) : UInt8 × UInt32 :=
  let vcoDiv := (pllRef.toUInt64 + 65536 * vcoFreq) / (2 * pllRef).toUInt64
  ((vcoDiv / 65536).toUInt32.toUInt8, (vcoDiv % 65536).toUInt32)

/-- The values for registers 0x10 to 0x16, from their copies and what the chip reports. -/
def pllRegs (regs : List UInt8) (divNum nint : UInt8) (sdm : UInt32) : List UInt8 :=
  let reg0 := maskReg8 (maskReg8 (regs.getD 0 0) 0 0x10) (divNum <<< 5) 0xe0
  let reg2 := maskReg8 (maskReg8 (regs.getD 2 0) 0x80 0xe0) (if sdm = 0 then 0x08 else 0x00) 0x08
  -- in `int`, as the C code computes it
  let ni := UInt8.ofInt (((nint.toNat : Int) - 13).tdiv 4)
  let si := UInt8.ofInt ((nint.toNat : Int) - 4 * ni.toNat - 13)
  [reg0, regs.getD 1 0, reg2, regs.getD 3 0, ni + (si <<< 6), (sdm &&& 0xff).toUInt8,
    (sdm >>> 8).toUInt8]

/-- `data[2] & 0x40`. -/
def locked (data : List UInt8) : Bool := data.getD 2 0 &&& 0x40 ≠ 0

/-- Wait for the lock, with a higher VCO current the second time. -/
def checkLock : Driver Bool := do
  let data ← r82xxRead env 3
  if locked data then pure true
  else
    writeAll env [.mask 0x12 0x60 0xe0]
    let data ← r82xxRead env 3
    pure (locked data)

def r82xxSetPll (freq : UInt32) : Driver Unit := do
  let freqKhz := (freq + 500) / 1000
  -- PLL autotune at 128 kHz, and at 8 kHz once there is a lock
  writeAll env [.mask 0x1a 0x00 0x0c]
  let priv ← getPriv
  let regs := priv.regs.load (0x10 - regShadowStart) 7
  let divider := calcDivider freqKhz [2, 4, 8, 16, 32, 64]
  let data ← r82xxRead env 5
  let vcoPowerRef : UInt8 := if env.cfg.rafaelChip = .r828d then 1 else 2
  let vcoFineTune := (data.getD 4 0 &&& 0x30) >>> 4
  -- the VCO is corrected by what the chip reports of its fine tuning
  let divNum :=
    if vcoFineTune > vcoPowerRef then divider.2 - 1
    else if vcoFineTune < vcoPowerRef then divider.2 + 1
    else divider.2
  let fraction := pllFraction env.cfg.xtal (freq.toUInt64 * divider.1.toUInt64)
  -- no valid PLL values
  if fraction.1.toNat > 128 / vcoPowerRef.toNat - 1 then Prog.throw (-1)
  else
    r82xxWrite env 0x10 (pllRegs regs divNum fraction.1 fraction.2)
    let lock ← checkLock env
    modifyPriv fun priv => { priv with hasLock := lock }
    writeAll env (if lock then [.mask 0x1a 0x08 0x08] else [])

/-- The values `r82xx_sysfreq_sel` chooses by the delivery system. -/
structure SysFreq where
  mixerTop : UInt8
  lnaTop : UInt8
  cpCur : UInt8
  divBufCur : UInt8
  lnaVthL : UInt8
  mixerVthL : UInt8
  airCable1In : UInt8
  cable2In : UInt8
  preDect : UInt8
  lnaDischarge : UInt8
  filterCur : UInt8
deriving DecidableEq, Repr

def sysFreq (freq : UInt32) : DeliverySystem → SysFreq
  | .dvbt =>
    if freq = 506000000 ∨ freq = 666000000 ∨ freq = 818000000 then
      ⟨0x14, 0xe5, 0x28, 0x20, 0x53, 0x75, 0x00, 0x00, 0x40, 14, 0x40⟩
    else ⟨0x24, 0xe5, 0x38, 0x30, 0x53, 0x75, 0x00, 0x00, 0x40, 14, 0x40⟩
  | .dvbt2 => ⟨0x24, 0xe5, 0x38, 0x30, 0x53, 0x75, 0x00, 0x00, 0x40, 14, 0x40⟩
  | .isdbt => ⟨0x24, 0xe5, 0x38, 0x30, 0x75, 0x75, 0x00, 0x00, 0x40, 14, 0x40⟩
  | .undefined => ⟨0x24, 0xe5, 0x38, 0x30, 0x53, 0x75, 0x00, 0x00, 0x40, 14, 0x40⟩

def r82xxSysfreqSel (freq : UInt32) (type : TunerType) (delsys : DeliverySystem) :
    Driver Unit := do
  let sys := sysFreq freq delsys
  writeAll env (if env.cfg.usePredetect then [.mask 0x06 sys.preDect 0x40] else [])
  writeAll env [.mask 0x1d sys.lnaTop 0xc7, .mask 0x1c sys.mixerTop 0xf8, .reg 0x0d sys.lnaVthL,
    .reg 0x0e sys.mixerVthL]
  modifyPriv fun priv => { priv with input := sys.airCable1In }
  writeAll env [.mask 0x05 sys.airCable1In 0x60, .mask 0x06 sys.cable2In 0x08,
    .mask 0x11 sys.cpCur 0x38, .mask 0x17 sys.divBufCur 0x30, .mask 0x0a sys.filterCur 0x60]
  if type ≠ .analogTv then
    -- the LNA is set low, then the detector and its clock, then the LNA again
    writeAll env [.mask 0x1d 0 0x38, .mask 0x1c 0 0x04, .mask 0x06 0 0x40, .mask 0x1a 0x30 0x30,
      .mask 0x1d 0x18 0x38, .mask 0x1c sys.mixerTop 0x04, .mask 0x1e sys.lnaDischarge 0x1f,
      .mask 0x1a 0x20 0x30]
  else
    writeAll env [.mask 0x06 0 0x40, .mask 0x1d sys.lnaTop 0x38, .mask 0x1c sys.mixerTop 0x04,
      .mask 0x1e sys.lnaDischarge 0x1f, .mask 0x1a 0x00 0x30, .mask 0x10 0x00 0x04]

/-- `r82xx_init_array`. The last three of the 30 bytes have no initialiser. -/
def r82xxInitArray : List UInt8 :=
  [0x83, 0x32, 0x75, 0xc0, 0x40, 0xd6, 0x6c, 0xf5, 0x63, 0x75, 0x68, 0x6c, 0x83, 0x80, 0x00,
    0x0f, 0x00, 0xc0, 0x30, 0x48, 0xcc, 0x60, 0x00, 0x54, 0xae, 0x4a, 0xc0, 0x00, 0x00, 0x00]

/-- The calibration loop of `r82xx_set_tv_standard`, and whether the function goes on
behind it. -/
def calibrate : Nat → Driver Bool
  | 0 => pure true
  | passes + 1 => do
    writeAll env [.mask 0x0b 0x6b 0x60, .mask 0x0f 0x04 0x04, .mask 0x10 0x00 0x03]
    r82xxSetPll env (56000 * 1000)
    -- without a lock the whole function returns, and reports success
    let priv ← getPriv
    if priv.hasLock then
      -- start trigger, stop trigger, calibration clock off
      writeAll env [.mask 0x0b 0x10 0x10, .mask 0x0b 0x00 0x10, .mask 0x0f 0x00 0x04]
      let data ← r82xxRead env 5
      let code := data.getD 4 0 &&& 0x0f
      modifyPriv fun priv => { priv with filCalCode := code }
      if code ≠ 0 ∧ code ≠ 0x0f then pure true else calibrate passes
    else pure false

/-- What `r82xx_set_tv_standard` does after the calibration. -/
def finishTvStandard (bw : Nat) (type : TunerType) (delsys : DeliverySystem) :
    Driver Unit := do
  modifyPriv fun priv =>
    -- still 15 after both passes: the narrowest filter is taken
    { priv with filCalCode := if priv.filCalCode = 0x0f then 0 else priv.filCalCode }
  let priv ← getPriv
  writeAll env [.mask 0x0a (0x10 ||| priv.filCalCode) 0x1f, .mask 0x0b 0x6b 0xef,
    .mask 0x07 0x00 0x80, .mask 0x06 0x10 0x30, .mask 0x1e 0x60 0x60, .mask 0x05 0x01 0x80,
    .mask 0x1f 0x00 0x80, .mask 0x0f 0x00 0x80, .mask 0x19 0x60 0x60]
  modifyPriv fun priv => { priv with delsys, type := some type, bw }

/-- The registers `r82xx_set_tv_standard` writes. -/
def writeTvStandard (bw : Nat) (type : TunerType) (delsys : DeliverySystem) : Driver Unit := do
  writeAll env [.mask 0x0c 0x00 0x0f, .mask 0x13 verNum 0x3f]
  writeAll env (if type ≠ .analogTv then [.mask 0x1d 0x00 0x38] else [])
  modifyPriv fun priv => { priv with intFreq := 3570 * 1000 }
  let goesOn ← calibrate env 2
  if goesOn then finishTvStandard env bw type delsys else pure ()

/-- `r82xx_set_tv_standard`. The copy of the registers is set without a look at the chip. -/
def r82xxSetTvStandard (bw : Nat) (type : TunerType) (delsys : DeliverySystem) :
    Driver Unit := do
  modifyPriv fun priv => { priv with regs := priv.regs.store 0 r82xxInitArray }
  writeTvStandard env bw type delsys

/-! ### Gain and bandwidth -/

def lnaGainSteps : List Int := [0, 9, 13, 40, 38, 13, 31, 22, 26, 31, 26, 14, 19, 5, 35, 13]
def mixerGainSteps : List Int := [0, 5, 10, 10, 19, 9, 10, 25, 17, 10, 8, 16, 13, 6, 3, -8]

/-- The loop of `r82xx_set_gain`: `lna_index` and `mix_index`. -/
def gainIndices (gain : Int) : Nat → Int → Nat → Nat → Nat × Nat
  | 0, _, lna, mix => (lna, mix)
  | passes + 1, total, lna, mix =>
    if total ≥ gain then (lna, mix)
    else
      let total := total + lnaGainSteps.getD (lna + 1) 0
      -- the LNA and the mixer are raised in turn, with a check after each
      if total ≥ gain then (lna + 1, mix)
      else gainIndices gain passes (total + mixerGainSteps.getD (mix + 1) 0) (lna + 1) (mix + 1)

def r82xxSetGain (setManualGain : Bool) (gain : Int) : Driver Unit := do
  if setManualGain then
    writeAll env [.mask 0x05 0x10 0x10, .mask 0x07 0 0x10]
    -- what is read is not used
    let _ ← r82xxRead env 4
    writeAll env [.mask 0x0c 0x08 0x9f]
    let indices := gainIndices gain 15 0 0 0
    writeAll env [.mask 0x05 indices.1.toUInt8 0x0f, .mask 0x07 indices.2.toUInt8 0x0f]
  else
    writeAll env [.mask 0x05 0 0x10, .mask 0x07 0x10 0x10, .mask 0x0c 0x0b 0x9f]

def ifLowPassBwTable : List Int :=
  [1700000, 1600000, 1550000, 1450000, 1200000, 900000, 700000, 550000, 450000, 350000]

def filtHpBw1 : Int := 350000
def filtHpBw2 : Int := 380000

/-- What `r82xx_set_bandwidth` chooses by the bandwidth. -/
structure Bandwidth where
  reg0a : UInt8
  reg0b : UInt8
  intFreq : UInt32
deriving DecidableEq, Repr

/-- The index after the loop over the low-pass filters: that of the narrowest one which is
not too narrow. -/
def lowPassLoop (bw : Int) : List Int → Nat → Nat
  | [], i => i
  | filter :: narrower, i => if bw > filter then i else lowPassLoop bw narrower (i + 1)

/-- A bandwidth that the filters before the low-pass filter are used for. -/
def narrowBandwidth (bw : Int) : Bandwidth :=
  let hp2 := bw > 1700000 + filtHpBw1
  let bw₁ := if hp2 then bw - filtHpBw2 else bw
  let hp1 := bw₁ > 1700000
  let bw₂ := if hp1 then bw₁ - filtHpBw1 else bw₁
  let i := lowPassLoop bw₂ ifLowPassBwTable 0 - 1
  let realBw := (if hp2 then filtHpBw2 else 0) + (if hp1 then filtHpBw1 else 0) +
    ifLowPassBwTable.getD i 0
  let intFreq := 2300000 + (if hp2 then filtHpBw2 else 0) + (if hp1 then filtHpBw1 else 0) -
    realBw.tdiv 2
  { reg0a := 0x00
    reg0b := 0x80 ||| (if hp2 then 0x00 else 0x20) ||| (if hp1 then 0x00 else 0x40) |||
      (15 - i).toUInt8
    intFreq := UInt32.ofInt intFreq }

def bandwidth (bw : Int) : Bandwidth :=
  if bw > 7000000 then ⟨0x10, 0x0b, 4570000⟩
  else if bw > 6000000 then ⟨0x10, 0x2a, 4570000⟩
  else if bw > 1700000 + filtHpBw1 + filtHpBw2 then ⟨0x10, 0x6b, 3570000⟩
  else narrowBandwidth bw

/-- `r82xx_set_bandwidth`, which returns the intermediate frequency. -/
def r82xxSetBandwidth (bw : Int) : Driver UInt32 := do
  let chosen := bandwidth bw
  modifyPriv fun priv => { priv with intFreq := chosen.intFreq }
  writeAll env [.mask 0x0a chosen.reg0a 0x10, .mask 0x0b chosen.reg0b 0xef]
  pure chosen.intFreq

/-! ### The frequency -/

/-- The inputs of an RTL-SDR Blog V4. -/
def hf : UInt8 := 1
def vhf : UInt8 := 2
def uhf : UInt8 := 3

/-- The part of `r82xx_set_freq` for an RTL-SDR Blog V4. Its GPIO is not modelled: the call
that sets it returns 0. -/
def setBlogV4Input (freq : UInt32) : Driver Unit := do
  let openD : UInt8 :=
    if freq ≤ 2200000 ∨ (freq ≥ 85000000 ∧ freq ≤ 112000000) ∨
      (freq ≥ 172000000 ∧ freq ≤ 242000000) then 0x00 else 0x08
  writeAll env [.mask 0x17 openD 0x08]
  let band := if freq ≤ 28800000 then hf else if freq < 250000000 then vhf else uhf
  let priv ← getPriv
  if band ≠ priv.input then
    modifyPriv fun priv => { priv with input := band }
    writeAll env [.mask 0x06 (if band = hf then 0x08 else 0x00) 0x08,
      .mask 0x05 (if band = vhf then 0x40 else 0x00) 0x40,
      .mask 0x05 (if band = uhf then 0x00 else 0x20) 0x20]
  else pure ()

/-- The part of `r82xx_set_freq` for the other dongles. -/
def setAirCableInput (freq : UInt32) : Driver Unit := do
  let airCable1In : UInt8 := if freq > 345000000 then 0x00 else 0x60
  let priv ← getPriv
  if env.cfg.rafaelChip = .r828d ∧ airCable1In ≠ priv.input then
    modifyPriv fun priv => { priv with input := airCable1In }
    writeAll env [.mask 0x05 airCable1In 0x60]
  else pure ()

def r82xxSetFreq (freq : UInt32) : Driver Unit := do
  let priv ← getPriv
  let upconvertFreq :=
    if env.cfg.isRtlsdrBlogV4 ∧ freq < 28800000 then freq + 28800000 else freq
  -- the Blog V4 receives HF through an upconverter
  let loFreq := upconvertFreq + priv.intFreq
  r82xxSetMux env loFreq
  r82xxSetPll env loFreq
  let priv ← getPriv
  if priv.hasLock then
    if env.cfg.isRtlsdrBlogV4 then setBlogV4Input env freq else setAirCableInput env freq
  else pure ()

/-! ### Standby and initialisation -/

def r82xxStandby : Driver Unit := do
  let priv ← getPriv
  if priv.initDone then
    writeAll env [.reg 0x06 0xb1, .reg 0x05 0xa0, .reg 0x07 0x3a, .reg 0x08 0x40, .reg 0x09 0xc0,
      .reg 0x0a 0x36, .reg 0x0c 0x35, .reg 0x0f 0x68, .reg 0x11 0x03, .reg 0x17 0xf4]
    -- the type is reset even if the last write fails
    (r82xxWriteReg env 0x19 0x0c).thenDo fun world =>
      { world with priv := { world.priv with type := none } }
  else pure ()

/-- `r82xx_init`. The result of the first write is overwritten by the next call. -/
def r82xxInit : Driver Unit := do
  modifyPriv fun priv => { priv with xtalCapSel := .highCap0p, regs := fun _ => 0 }
  Prog.ignoring (r82xxWrite env 0x05 r82xxInitArray)
  r82xxSetTvStandard env 3 .digitalTv .undefined
  (r82xxSysfreqSel env 0 .digitalTv .dvbt).thenDo fun world =>
    { world with priv := { world.priv with initDone := true } }

/-! ### Sequences of calls -/

inductive Call
  | init
  | setFreq (freq : UInt32)
  | setBandwidth (bw : Int)
  | setGain (setManualGain : Bool) (gain : Int)
  | standby
deriving DecidableEq, Repr

/-- The program of a call. `stale` is reset where `r82xx_init` begins. -/
def Call.run : Call → Driver Unit
  | .init => do
    Prog.modify fun world => { world with stale := false }
    r82xxInit env
  | .setFreq freq => r82xxSetFreq env freq
  | .setBandwidth bw => do
    let _ ← r82xxSetBandwidth env bw
  | .setGain setManualGain gain => r82xxSetGain env setManualGain gain
  | .standby => r82xxStandby env

/-- The world after a sequence of calls, whatever they return. -/
def after (world : World) (calls : List Call) : World :=
  calls.foldl (fun world call => (call.run env world).2) world

end Driver

end RtlSdr.R82xx
