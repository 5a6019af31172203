import RtlSdr.Lib.Double
import RtlSdr.R82xx.IntFreq

/-!
# The settings of a device in `librtlsdr.c`

The setters of a device with an R820T or R828D tuner out of direct sampling, where register writes
and calls of the tuner succeed. Of the tuner's own state only `int_freq` matters here, which changes
as the driver says.
-/
namespace RtlSdr.Librtlsdr

open DoubleArith

def defRtlXtalFreq : UInt32 := 28800000
def minRtlXtalFreq : UInt32 := defRtlXtalFreq - 1000
def maxRtlXtalFreq : UInt32 := defRtlXtalFreq + 1000
def r82xxIfFreq : UInt32 := 3570000

/-- The part of `struct rtlsdr_dev` the setters use, and page 1 of the demodulator. -/
structure Device where
  rate : UInt32
  rtlXtal : UInt32
  tunXtal : UInt32
  freq : UInt32
  bw : UInt32
  corr : Int
  /-- `r82xx_c.xtal`. -/
  tunerXtal : UInt32
  /-- `r82xx_p.int_freq`. -/
  intFreq : UInt32
  page1 : RegFile

/-- `rtlsdr_demod_write_reg` on page 1. -/
def Device.demodWrite (dev : Device) (addr : Nat) (bytes : List UInt8) : Device :=
  { dev with page1 := dev.page1.store addr bytes }

section Fields

variable (dev : Device) (addr : Nat) (bytes : List UInt8)

@[simp] theorem demodWrite_intFreq : (dev.demodWrite addr bytes).intFreq = dev.intFreq := rfl

@[simp] theorem demodWrite_corr : (dev.demodWrite addr bytes).corr = dev.corr := rfl

@[simp] theorem demodWrite_rtlXtal : (dev.demodWrite addr bytes).rtlXtal = dev.rtlXtal := rfl

end Fields

section

variable (D : Type) [DoubleArith D]

def ofUInt32 (n : UInt32) : D := ofInt n.toNat

def twoPow (n : Nat) : D := ofInt (2 ^ n)

/-- `APPLY_PPM_CORR`, converted to `uint32_t`. -/
def applyPpmCorr (val : UInt32) (ppm : Int) : UInt32 :=
  UInt32.ofInt (trunc (ofUInt32 D val * (ofInt 1 + ofInt ppm / ofInt 1000000)))

/-- The value of `if_freq` in `rtlsdr_set_if_freq`. -/
def ifFreq (freq rtlXtal : UInt32) : Int32 :=
  Int32.ofInt (trunc (ofUInt32 D freq * twoPow D 22 / ofUInt32 D rtlXtal * ofInt (-1)))

/-- The 22 bits for registers 0x19 to 0x1b. -/
def ifBytes (ifFreq : Int32) : List UInt8 :=
  [UInt8.ofInt ((ifFreq >>> 16) &&& 0x3f).toInt, UInt8.ofInt ((ifFreq >>> 8) &&& 0xff).toInt,
    UInt8.ofInt (ifFreq &&& 0xff).toInt]

/-- What `rtlsdr_set_if_freq` writes for a frequency and the current clock. -/
def Device.ifBytes (dev : Device) (freq : UInt32) : List UInt8 :=
  Librtlsdr.ifBytes (ifFreq D freq (applyPpmCorr D dev.rtlXtal dev.corr))

def rtlsdrSetIfFreq (dev : Device) (freq : UInt32) : Device :=
  -- three writes of one byte, the highest first
  let bytes := dev.ifBytes D freq
  ((dev.demodWrite 0x19 [bytes.getD 0 0]).demodWrite 0x1a [bytes.getD 1 0]).demodWrite 0x1b
    [bytes.getD 2 0]

def rtlsdrSetSampleFreqCorrection (dev : Device) (ppm : Int) : Device :=
  let offs := Int16.ofInt (trunc ((ofInt (ppm * -1) : D) * twoPow D 24 / ofInt 1000000))
  -- the low byte goes out first
  (dev.demodWrite 0x3f [UInt8.ofInt (offs &&& 0xff).toInt]).demodWrite 0x3e
    [UInt8.ofInt ((offs >>> 8) &&& 0x3f).toInt]

def rtlsdrSetCenterFreq (dev : Device) (freq : UInt32) : Device := { dev with freq }

/-- `r820t_set_bw`; its argument is an `int`. -/
def r820tSetBw (dev : Device) (bw : UInt32) : Device :=
  let intFreq := (R82xx.bandwidth bw.toInt32.toInt).intFreq
  -- the tuner returns its new IF, and the demodulator follows
  let dev := rtlsdrSetIfFreq D { dev with intFreq } intFreq
  rtlsdrSetCenterFreq dev dev.freq

def rtlsdrSetTunerBandwidth (dev : Device) (bw : UInt32) : Int × Device :=
  -- 0 stands for automatic selection: the tuner gets the rate, and `bw` keeps the 0
  (0, { r820tSetBw D dev (if bw > 0 then bw else dev.rate) with bw })

/-- Whether `rtlsdr_set_sample_rate` goes on with a rate. -/
def rateSupported (sampRate : UInt32) : Bool :=
  ¬(sampRate ≤ 225000 ∨ sampRate > 3200000 ∨ (sampRate > 300000 ∧ sampRate ≤ 900000))

/-- `rsamp_ratio`, as it is written to the chip. -/
def rsampRatio (rtlXtal sampRate : UInt32) : UInt32 :=
  UInt32.ofInt (trunc (ofUInt32 D rtlXtal * twoPow D 22 / ofUInt32 D sampRate)) &&& 0x0ffffffc

def realRsampRatio (rsampRatio : UInt32) : UInt32 :=
  rsampRatio ||| ((rsampRatio &&& 0x08000000) <<< 1)

def realRate (rtlXtal realRsampRatio : UInt32) : D :=
  ofUInt32 D rtlXtal * twoPow D 22 / ofUInt32 D realRsampRatio

/-- The writes at the end of `rtlsdr_set_sample_rate`. -/
def writeRatio (dev : Device) (ratio : UInt32) : Device :=
  let dev := dev.demodWrite 0x9f [(ratio >>> 24).toUInt8, (ratio >>> 16).toUInt8]
  let dev := dev.demodWrite 0xa1 [(ratio >>> 8).toUInt8, ratio.toUInt8]
  let dev := rtlsdrSetSampleFreqCorrection D dev dev.corr
  -- the soft reset of the demodulator
  (dev.demodWrite 0x01 [0x14]).demodWrite 0x01 [0x10]

def rtlsdrSetSampleRate (dev : Device) (sampRate : UInt32) : Int × Device :=
  if rateSupported sampRate then
    let ratio := rsampRatio D dev.rtlXtal sampRate
    -- `dev->rate` is the real rate, not the one that was asked for
    let rate := UInt32.ofInt (trunc (realRate D dev.rtlXtal (realRsampRatio ratio)))
    let dev := r820tSetBw D { dev with rate } (if dev.bw > 0 then dev.bw else rate)
    (0, writeRatio D dev ratio)
  else (-22, dev)

def rtlsdrSetFreqCorrection (dev : Device) (ppm : Int) : Int × Device :=
  if dev.corr = ppm then (-2, dev)
  else
    let dev := rtlsdrSetSampleFreqCorrection D { dev with corr := ppm } ppm
    -- the clock of the tuner is read with the new correction, but the IF is not written again
    let dev := { dev with tunerXtal := applyPpmCorr D dev.tunXtal dev.corr }
    (0, if dev.freq ≠ 0 then rtlsdrSetCenterFreq dev dev.freq else dev)

/-- The first half of `rtlsdr_set_xtal_freq`, about the crystal of the demodulator. -/
def setRtlXtal (dev : Device) (rtlFreq : UInt32) : Int × Device :=
  if rtlFreq > 0 ∧ dev.rtlXtal ≠ rtlFreq then
    let dev := { dev with rtlXtal := rtlFreq }
    -- the ratio depends on the crystal, so the rate is set again if there is one
    if dev.rate ≠ 0 then rtlsdrSetSampleRate D dev dev.rate else (0, dev)
  else (0, dev)

/-- The second half, about the crystal of the tuner. -/
def setTunXtal (r : Int) (dev : Device) (tunerFreq : UInt32) : Int × Device :=
  if dev.tunXtal ≠ tunerFreq then
    -- 0 stands for the clock of the demodulator
    let dev := { dev with tunXtal := if tunerFreq = 0 then dev.rtlXtal else tunerFreq }
    let dev := { dev with tunerXtal := applyPpmCorr D dev.tunXtal dev.corr }
    if dev.freq ≠ 0 then (0, rtlsdrSetCenterFreq dev dev.freq) else (r, dev)
  else (r, dev)

/-- Whether `rtlsdr_set_xtal_freq` refuses a frequency. -/
def xtalRefused (rtlFreq : UInt32) : Bool :=
  rtlFreq > 0 ∧ (rtlFreq < minRtlXtalFreq ∨ rtlFreq > maxRtlXtalFreq)

def rtlsdrSetXtalFreq (dev : Device) (rtlFreq tunerFreq : UInt32) : Int × Device :=
  if xtalRefused rtlFreq then (-2, dev)
  else
    let first := setRtlXtal D dev rtlFreq
    setTunXtal D first.1 first.2 tunerFreq

/-- The device after `rtlsdr_open`, with what page 1 held before and the crystal of the
tuner. `r82xx_init` sets `int_freq` to the same frequency. -/
def opened (page1 : RegFile) (tunXtal : UInt32) : Device :=
  let dev : Device :=
    { rate := 0, rtlXtal := defRtlXtalFreq, tunXtal, freq := 0, bw := 0, corr := 0,
      tunerXtal := 0, intFreq := 0, page1 }
  -- Zero-IF mode is disabled before, and the spectrum inverted after
  let dev := rtlsdrSetIfFreq D (dev.demodWrite 0xb1 [0x1a]) r82xxIfFreq
  let dev := dev.demodWrite 0x15 [0x01]
  { dev with tunerXtal := applyPpmCorr D dev.tunXtal dev.corr, intFreq := 3570 * 1000 }

inductive Setting
  | sampleRate (rate : UInt32)
  | tunerBandwidth (bw : UInt32)
  | centerFreq (freq : UInt32)
  | freqCorrection (ppm : Int)
  | xtalFreq (rtlFreq tunerFreq : UInt32)
deriving DecidableEq, Repr

def Setting.apply (dev : Device) : Setting → Device
  | .sampleRate rate => (rtlsdrSetSampleRate D dev rate).2
  | .tunerBandwidth bw => (rtlsdrSetTunerBandwidth D dev bw).2
  | .centerFreq freq => rtlsdrSetCenterFreq dev freq
  | .freqCorrection ppm => (rtlsdrSetFreqCorrection D dev ppm).2
  | .xtalFreq rtlFreq tunerFreq => (rtlsdrSetXtalFreq D dev rtlFreq tunerFreq).2

/-- The device after a sequence of calls. -/
def applyAll (dev : Device) (settings : List Setting) : Device :=
  settings.foldl (Setting.apply D) dev

end

end RtlSdr.Librtlsdr
