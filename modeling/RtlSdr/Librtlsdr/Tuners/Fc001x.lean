import RtlSdr.Lib.Prog
import RtlSdr.Librtlsdr.Tuners.Bus

/-!
# The FC0012 and the FC0013

Both drivers compute the divider of the PLL in the same way, from tables of their own. The ratio of
the VCO frequency to half the clock is rounded to `xdiv`, which is written as `8 * reg[2] + reg[1]`,
and `xin` is the fraction that was rounded off, in two's complement.
-/
namespace RtlSdr.Tuners.Fc001x

open Prog

/-! ### The words of the PLL -/

/-- What the tables give for a frequency. -/
structure Divider where
  multi : UInt8
  reg5 : UInt8
  reg6 : UInt8
deriving DecidableEq, Repr

/-- The table of `fc0012_set_params`. -/
def fc0012Divider (freq : UInt32) : Divider :=
  if freq < 37084000 then ⟨96, 0x82, 0x00⟩
  else if freq < 55625000 then ⟨64, 0x82, 0x02⟩
  else if freq < 74167000 then ⟨48, 0x42, 0x00⟩
  else if freq < 111250000 then ⟨32, 0x42, 0x02⟩
  else if freq < 148334000 then ⟨24, 0x22, 0x00⟩
  else if freq < 222500000 then ⟨16, 0x22, 0x02⟩
  else if freq < 296667000 then ⟨12, 0x12, 0x00⟩
  else if freq < 445000000 then ⟨8, 0x12, 0x02⟩
  else if freq < 593334000 then ⟨6, 0x0a, 0x00⟩
  else ⟨4, 0x0a, 0x02⟩

/-- The table of `fc0013_set_params`. -/
def fc0013Divider (freq : UInt32) : Divider :=
  if freq < 37084000 then ⟨96, 0x82, 0x00⟩
  else if freq < 55625000 then ⟨64, 0x02, 0x02⟩
  else if freq < 74167000 then ⟨48, 0x42, 0x00⟩
  else if freq < 111250000 then ⟨32, 0x82, 0x02⟩
  else if freq < 148334000 then ⟨24, 0x22, 0x00⟩
  else if freq < 222500000 then ⟨16, 0x42, 0x02⟩
  else if freq < 296667000 then ⟨12, 0x12, 0x00⟩
  else if freq < 445000000 then ⟨8, 0x22, 0x02⟩
  else if freq < 593334000 then ⟨6, 0x0a, 0x00⟩
  else if freq < 950000000 then ⟨4, 0x12, 0x02⟩
  else ⟨2, 0x0a, 0x02⟩

/-- `f_vco`: the product has 32 bits before it is stored in 64. -/
def fVco (freq : UInt32) (multi : UInt8) : UInt64 := (freq * multi.toUInt32).toUInt64

/-- `xdiv`, from the VCO frequency and half the clock. -/
def xdiv (f : UInt64) (half : UInt32) : UInt16 :=
  let xdiv := (f / half.toUInt64).toUInt16
  if f - (xdiv.toUInt32 * half).toUInt64 ≥ (half / 2).toUInt64 then xdiv + 1 else xdiv

/-- `reg[1]` and `reg[2]`. -/
def dividerRegs (xdiv : UInt16) : UInt8 × UInt8 :=
  let pm := (xdiv / 8).toUInt8
  let am := (xdiv - 8 * pm.toUInt16).toUInt8
  -- `am` is at least 2: what is missing is borrowed
  let am' := if am < 2 then am + 8 else am
  let pm' := if am < 2 then pm - 1 else pm
  if pm' > 31 then (am' + 8 * (pm' - 31), 31) else (am', pm')

/-- `xin`: the fraction, from the remainder and half the clock in kHz. -/
def xin (f : UInt64) (half : UInt32) : UInt16 :=
  let khz := ((f - f / half.toUInt64 * half.toUInt64) / 1000).toUInt16
  let xin := ((khz.toUInt32 <<< 15) / (half / 1000)).toUInt16
  if xin ≥ 16384 then xin + 32768 else xin

/-- The bits for the bandwidth in register 6. -/
def bandwidthBits (bandwidth : UInt32) : UInt8 :=
  if bandwidth = 6000000 then 0x80 else if bandwidth = 7000000 then 0x40 else 0x00

/-- What is written to the registers 1 to 6. -/
structure Words where
  reg1 : UInt8
  reg2 : UInt8
  reg3 : UInt8
  reg4 : UInt8
  reg5 : UInt8
  reg6 : UInt8
  vcoSelect : Bool
deriving DecidableEq, Repr

/-- The words for a frequency, or `none` where there is no valid PLL combination. -/
def words (divider : Divider) (clock freq bandwidth : UInt32) : Option Words :=
  let half := clock / 2
  let f := fVco freq divider.multi
  let reg := dividerRegs (xdiv f half)
  let fraction := xin f half
  let vco : UInt8 := if f ≥ 3060000000 then 0x08 else 0x00
  if reg.1 > 15 ∨ reg.2 < 0x0b then none
  else some
    { reg1 := reg.1
      reg2 := reg.2
      reg3 := (fraction >>> 8).toUInt8
      reg4 := (fraction &&& 0xff).toUInt8
      -- modified for the demodulator, and the clock output
      reg5 := divider.reg5 ||| 0x07
      reg6 := ((divider.reg6 ||| vco ||| 0x20) &&& 0x3f) ||| bandwidthBits bandwidth
      vcoSelect := f ≥ 3060000000 }

/-! ### The drivers -/

abbrev Driver := Prog Int Chip

section

variable (bus : Bus)

/-- `fc0012_writereg` and `fc0013_writereg`. -/
def writereg (reg : Nat) (val : UInt8) : Driver Unit := fun chip =>
  let sent := i2cWrite bus reg val chip
  (if sent.1 then .ok () else .error (-1), sent.2)

/-- `fc0012_readreg` and `fc0013_readreg`. -/
def readreg : Driver UInt8 := fun chip =>
  let read := i2cRead bus chip
  (match read.1 with
    | some val => .ok val
    | none => .error (-1), read.2)

/-- Writes up to the first one that fails. -/
def writeRegs : List (Nat × UInt8) → Driver Unit
  | [] => pure ()
  | write :: writes => do
    writereg bus write.1 write.2
    writeRegs writes

def Words.writes (w : Words) : List (Nat × UInt8) :=
  [(1, w.reg1), (2, w.reg2), (3, w.reg3), (4, w.reg4), (5, w.reg5), (6, w.reg6)]

/-- The calibration of the VCO, and its other range if the voltage is at the end of this one. -/
def calibrateVco (w : Words) : Driver Unit := do
  writeRegs bus [(0x0e, 0x80), (0x0e, 0x00), (0x0e, 0x00)]
  let tmp ← readreg bus
  if w.vcoSelect then
    writeRegs bus
      (if tmp &&& 0x3f > 0x3c then [(0x06, w.reg6 &&& ~~~0x08), (0x0e, 0x80), (0x0e, 0x00)] else [])
  else
    writeRegs bus
      (if tmp &&& 0x3f < 0x02 then [(0x06, w.reg6 ||| 0x08), (0x0e, 0x80), (0x0e, 0x00)] else [])

def fc0012SetParams (clock freq bandwidth : UInt32) : Driver Unit :=
  match words (fc0012Divider freq) clock freq bandwidth with
  | none => Prog.throw (-1)
  | some w => do
    writeRegs bus w.writes
    calibrateVco bus w

/-- The bits of the tracking filter. -/
def vhfTrack (freq : UInt32) : UInt8 :=
  if freq ≤ 177500000 then 0x1c
  else if freq ≤ 184500000 then 0x18
  else if freq ≤ 191500000 then 0x14
  else if freq ≤ 198500000 then 0x10
  else if freq ≤ 205500000 then 0x0c
  else if freq ≤ 219500000 then 0x08
  else if freq < 300000000 then 0x04
  else 0x1c

def fc0013SetVhfTrack (freq : UInt32) : Driver Unit := do
  let tmp ← readreg bus
  writeRegs bus [(0x1d, (tmp &&& 0xe3) ||| vhfTrack freq)]

/-- The filters of the FC0013: VHF below 300 MHz, and UHF from there on. -/
def selectFilters (freq : UInt32) : Driver Unit := do
  let tmp ← readreg bus
  writeRegs bus [(0x07, if freq < 300000000 then tmp ||| 0x10 else tmp &&& 0xef)]
  let tmp ← readreg bus
  writeRegs bus [(0x14, if freq < 300000000 then tmp &&& 0x1f else (tmp &&& 0x1f) ||| 0x40)]

/-- `fc0013_set_params`. The filters are set before the words are checked. -/
def fc0013SetParams (clock freq bandwidth : UInt32) : Driver Unit := do
  fc0013SetVhfTrack bus freq
  selectFilters bus freq
  match words (fc0013Divider freq) clock freq bandwidth with
  | none => Prog.throw (-1)
  | some w => do
    writeRegs bus w.writes
    let tmp ← readreg bus
    writeRegs bus [(0x11, if (fc0013Divider freq).multi = 64 then tmp ||| 0x04 else tmp &&& 0xfb)]
    calibrateVco bus w

end

/-! ### What is in the chip -/

/-- The registers of the PLL hold the words. -/
def Holds (w : Words) (chip : Chip) : Prop :=
  chip.regs 1 = w.reg1 ∧ chip.regs 2 = w.reg2 ∧ chip.regs 3 = w.reg3 ∧ chip.regs 4 = w.reg4

section

variable {bus : Bus}

theorem keeps_readreg {I : Chip → Prop} (same : ∀ chip chip', chip'.regs = chip.regs → I chip →
    I chip') : Keeps I I (readreg bus) := by
  intro chip holds
  have kept := same chip _ (i2cRead_regs bus chip) holds
  unfold readreg
  dsimp only
  cases (i2cRead bus chip).1 with
  | none => exact kept
  | some val => exact kept

theorem holds_same (w : Words) (chip chip' : Chip) (same : chip'.regs = chip.regs)
    (holds : Holds w chip) : Holds w chip' := by
  unfold Holds at holds ⊢
  rwa [same]

theorem writereg_run (bus : Bus) (reg : Nat) (val : UInt8) (chip : Chip) :
    writereg bus reg val chip = (.error (-1), { chip with transfers := chip.transfers + 1 }) ∨
      writereg bus reg val chip =
        (.ok (), Chip.set { chip with transfers := chip.transfers + 1 } reg val) := by
  unfold writereg i2cWrite
  cases bus.fails chip.transfers with
  | true => exact .inl rfl
  | false => exact .inr rfl

theorem keeps_writeRegs (w : Words) (writes : List (Nat × UInt8))
    (others : ∀ write ∈ writes, 4 < write.1) :
    Keeps (Holds w) (Holds w) (writeRegs bus writes) := by
  induction writes with
  | nil => exact keeps_pure _
  | cons write writes ih =>
    have other := others write List.mem_cons_self
    apply keeps_bind
    · intro chip holds
      rcases writereg_run bus write.1 write.2 chip with run | run
      · rw [run]
        exact holds
      · rw [run]
        obtain ⟨one, two, three, four⟩ := holds
        exact ⟨(set_other _ _ (by omega)).trans one, (set_other _ _ (by omega)).trans two,
          (set_other _ _ (by omega)).trans three, (set_other _ _ (by omega)).trans four⟩
    · intro _
      exact ih fun write member => others write (List.mem_cons_of_mem _ member)

theorem keeps_calibrateVco (w : Words) : Keeps (Holds w) (Holds w) (calibrateVco bus w) := by
  apply keeps_bind (keeps_writeRegs w _ (by decide))
  intro _
  apply keeps_bind (keeps_readreg (holds_same w))
  intro tmp
  -- the other range is in register 6
  refine keeps_ite _ (keeps_writeRegs w _ ?_) (keeps_writeRegs w _ ?_)
  · split <;> simp
  · split <;> simp

end

/-! ### On a bus that works -/

section

variable {bus : Bus} (working : bus.Working)

include working

theorem writeRegs_working (writes : List (Nat × UInt8)) (chip : Chip) :
    writeRegs bus writes chip =
      (.ok (), { regs := chip.regs.storeAll writes
                 transfers := chip.transfers + writes.length }) := by
  induction writes generalizing chip with
  | nil => rfl
  | cons write writes ih =>
    have step : writereg bus write.1 write.2 chip =
        (.ok (), Chip.set { chip with transfers := chip.transfers + 1 } write.1 write.2) := by
      rw [writereg, i2cWrite_working working]
      rfl
    rw [writeRegs, bind_ok step, ih, Chip.set, List.length_cons, RegFile.storeAll,
      RegFile.storeAll, List.foldl_cons, Nat.add_assoc, Nat.add_comm 1]

variable {P : Int → Prop}

theorem errors_writeRegs (writes : List (Nat × UInt8)) : Errors P (writeRegs bus writes) := by
  intro chip e chip' stopped
  rw [writeRegs_working working] at stopped
  cases stopped

theorem errors_readreg : Errors P (readreg bus) := by
  intro chip e chip' stopped
  rw [readreg, i2cRead_working working] at stopped
  cases stopped

theorem errors_calibrateVco (w : Words) : Errors P (calibrateVco bus w) := by
  refine errors_bind (errors_writeRegs working _) fun _ => ?_
  refine errors_bind (errors_readreg working) fun tmp => ?_
  exact errors_ite (errors_writeRegs working _) (errors_writeRegs working _)

theorem errors_selectFilters (freq : UInt32) : Errors P (selectFilters bus freq) := by
  refine errors_bind (errors_readreg working) fun _ => ?_
  refine errors_bind (errors_writeRegs working _) fun _ => ?_
  exact errors_bind (errors_readreg working) fun _ => errors_writeRegs working _

/-- How a call ends: refused, or with the words in the chip. -/
inductive Outcome : Option Words → Except Int Unit × Chip → Prop
  | refused (chip : Chip) : Outcome none (.error (-1), chip)
  | written {w : Words} {chip : Chip} (holds : Holds w chip) : Outcome (some w) (.ok (), chip)

theorem finish_outcome (w : Words) (next : Driver Unit) (never : Errors (fun _ => False) next)
    (keeps : Keeps (Holds w) (Holds w) next) (chip : Chip) :
    Outcome (some w) ((do writeRegs bus w.writes; next) chip) := by
  have written := writeRegs_working working w.writes chip
  have holds : Holds w (writeRegs bus w.writes chip).2 := by
    rw [written]
    exact ⟨rfl, rfl, rfl, rfl⟩
  rw [written] at holds
  obtain ⟨_, chip', run⟩ := never.ends _
  rw [bind_ok written, run]
  exact .written (keeps.ok holds run)

theorem fc0012SetParams_outcome (clock freq bandwidth : UInt32) (chip : Chip) :
    Outcome (words (fc0012Divider freq) clock freq bandwidth)
      (fc0012SetParams bus clock freq bandwidth chip) := by
  unfold fc0012SetParams
  cases words (fc0012Divider freq) clock freq bandwidth with
  | none => exact .refused chip
  | some w =>
    exact finish_outcome working w _ (errors_calibrateVco working w) (keeps_calibrateVco w) chip

theorem fc0013SetParams_outcome (clock freq bandwidth : UInt32) (chip : Chip) :
    Outcome (words (fc0013Divider freq) clock freq bandwidth)
      (fc0013SetParams bus clock freq bandwidth chip) := by
  -- the filters are set whatever becomes of the words
  have track : Errors (fun _ => False) (fc0013SetVhfTrack bus freq) :=
    errors_bind (errors_readreg working) fun _ => errors_writeRegs working _
  obtain ⟨_, tracked, trackRun⟩ := track.ends chip
  obtain ⟨_, selected, selectRun⟩ := (errors_selectFilters working freq).ends tracked
  rw [fc0013SetParams, bind_ok trackRun, bind_ok selectRun]
  cases words (fc0013Divider freq) clock freq bandwidth with
  | none => exact .refused selected
  | some w =>
    apply finish_outcome working w
    · refine errors_bind (errors_readreg working) fun tmp => ?_
      exact errors_bind (errors_writeRegs working _) fun _ => errors_calibrateVco working w
    · refine keeps_bind (keeps_readreg (holds_same w)) fun tmp => ?_
      refine keeps_bind (keeps_writeRegs w _ (by simp)) fun _ => ?_
      exact keeps_calibrateVco w

end

end RtlSdr.Tuners.Fc001x
