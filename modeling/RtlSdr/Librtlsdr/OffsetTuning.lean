import RtlSdr.Librtlsdr.Tuners.E4k
import RtlSdr.Librtlsdr.Tuners.Fc001xAccuracy
import RtlSdr.Librtlsdr.Tuners.Fc2580

/-!
# Offset tuning in `librtlsdr.c`

With offset tuning the tuner is set `offs_freq` below the frequency that is asked for.
`rtlsdr_set_offset_tuning` tunes again only where the frequency is above the offset;
`rtlsdr_set_center_freq` subtracts without a look. A frequency below the offset wraps, and whether
it is refused is left to the driver of the tuner.
-/
namespace RtlSdr.OffsetTuning

open Tuners
open Librtlsdr (applyPpmCorr rateSupported rsampRatio realRsampRatio realRate writeRatio
  rtlsdrSetIfFreq)

/-! ### The tuners -/

/-- The tuners that `rtlsdr_set_offset_tuning` does not refuse, with the state of their
drivers. -/
inductive Tuner
  | e4000 (state : E4k.State)
  | fc0012 (chip : Chip)
  | fc0013 (chip : Chip)
  | fc2580 (chip : Chip)

/-- The result of a driver as an `int`. -/
def returned (result : Except Int Unit × Chip) : Int × Chip :=
  match result.1 with
  | .ok () => (0, result.2)
  | .error rc => (rc, result.2)

/-- `set_freq` of `rtlsdr_tuner_iface_t`. The FC0012 and the FC0013 look up the clock of the
tuner; the E4000 has it in its state. -/
def Tuner.setFreq (bus : Bus) (clock freq : UInt32) : Tuner → Int × Tuner
  | .e4000 state =>
    let tuned := E4k.e4kTuneFreq bus freq state
    (tuned.1, .e4000 tuned.2)
  | .fc0012 chip =>
    let tuned := returned (Fc001x.fc0012SetParams bus clock freq 6000000 chip)
    (tuned.1, .fc0012 tuned.2)
  | .fc0013 chip =>
    let tuned := returned (Fc001x.fc0013SetParams bus clock freq 6000000 chip)
    (tuned.1, .fc0013 tuned.2)
  | .fc2580 chip =>
    let tuned := Fc2580.fc2580SetRfFreqHz bus freq.toUInt64 chip
    (tuned.1, .fc2580 tuned.2)

/-- `set_bw` of `rtlsdr_tuner_iface_t`. What it returns is not looked at here. -/
def Tuner.setBw (bus : Bus) (bw : UInt32) : Tuner → Tuner
  | .e4000 state =>
    let state := (E4k.e4kIfFilterBwSet bus .mix bw state).2
    let state := (E4k.e4kIfFilterBwSet bus .rc bw state).2
    .e4000 (E4k.e4kIfFilterBwSet bus .chan bw state).2
  | .fc0012 chip => .fc0012 chip
  | .fc0013 chip => .fc0013 chip
  -- the bandwidth is fixed
  | .fc2580 chip => .fc2580 (Fc2580.fc2580SetBandwidthMode bus 1 chip).2

/-! ### The device -/

/-- The part of `struct rtlsdr_dev` the setters use. -/
structure Device extends Librtlsdr.Device where
  offsFreq : UInt32
  directSampling : Bool
  tuner : Tuner
  /-- The frequency that the tuner was asked for last. -/
  handed : Option UInt32

section

variable (D : Type) [DoubleArith D] (bus : Bus)

def rtlsdrSetCenterFreq (dev : Device) (freq : UInt32) : Int × Device :=
  let set : Int × Device :=
    if dev.directSampling then
      (0, { dev with toDevice := rtlsdrSetIfFreq D dev.toDevice freq })
    else
      let clock := applyPpmCorr D dev.tunXtal dev.corr
      let tuned := dev.tuner.setFreq bus clock (freq - dev.offsFreq)
      (tuned.1, { dev with tuner := tuned.2, handed := some (freq - dev.offsFreq) })
  -- 0 stands for a frequency that is not known
  (set.1, { set.2 with freq := if set.1 = 0 then freq else 0 })

def rtlsdrGetCenterFreq (dev : Device) : UInt32 := dev.freq

def offsetFor (rate : UInt32) : UInt32 := rate / 2 * 170 / 100

/-- The offset, the IF and the filters, before the tuner is set again. -/
def setOffset (dev : Device) (on : Bool) : Device :=
  let offsFreq := if on then offsetFor dev.rate else 0
  let bw := if on then 2 * offsFreq else if dev.bw > 0 then dev.bw else dev.rate
  { dev with
    toDevice := rtlsdrSetIfFreq D dev.toDevice offsFreq
    offsFreq
    tuner := dev.tuner.setBw bus bw }

def rtlsdrSetOffsetTuning (dev : Device) (on : Bool) : Int × Device :=
  if dev.directSampling then (-3, dev)
  else
    let dev := setOffset D bus dev on
    if dev.freq > dev.offsFreq then rtlsdrSetCenterFreq D bus dev dev.freq else (0, dev)

/-- The rate, the filters and the resampler, before the offset is adjusted. -/
def setRate (dev : Device) (sampRate : UInt32) : Device :=
  let ratio := rsampRatio D dev.rtlXtal sampRate
  let rate := UInt32.ofInt (DoubleArith.trunc (realRate D dev.rtlXtal (realRsampRatio ratio)))
  { dev with
    toDevice := writeRatio D { dev.toDevice with rate } ratio
    tuner := dev.tuner.setBw bus (if dev.bw > 0 then dev.bw else rate) }

def rtlsdrSetSampleRate (dev : Device) (sampRate : UInt32) : Int × Device :=
  if rateSupported sampRate then
    let dev := setRate D bus dev sampRate
    (0, if dev.offsFreq ≠ 0 then (rtlsdrSetOffsetTuning D bus dev true).2 else dev)
  else (-22, dev)

/-! ### Sequences of calls -/

inductive Call
  | sampleRate (rate : UInt32)
  | offsetTuning (on : Bool)
  | centerFreq (freq : UInt32)
deriving DecidableEq, Repr

def Call.run (dev : Device) : Call → Device
  | .sampleRate rate => (rtlsdrSetSampleRate D bus dev rate).2
  | .offsetTuning on => (rtlsdrSetOffsetTuning D bus dev on).2
  | .centerFreq freq => (rtlsdrSetCenterFreq D bus dev freq).2

/-- The device after a sequence of calls. -/
def after (dev : Device) (calls : List Call) : Device := calls.foldl (Call.run D bus) dev

end

/-! ### The frequency that is handed to the tuner -/

theorem sub_exact_iff (freq offs : UInt32) :
    (freq - offs).toNat + offs.toNat = freq.toNat ↔ offs ≤ freq := by
  have small := freq.toNat_lt
  have small' := offs.toNat_lt
  rw [UInt32.toNat_sub, UInt32.le_iff_toNat_le]
  omega

section

variable (D : Type) [DoubleArith D] (bus : Bus) (dev : Device)

theorem setCenterFreq_kept (freq : UInt32) :
    (rtlsdrSetCenterFreq D bus dev freq).2.offsFreq = dev.offsFreq ∧
      (rtlsdrSetCenterFreq D bus dev freq).2.directSampling = dev.directSampling := by
  rw [rtlsdrSetCenterFreq]
  cases dev.directSampling with
  | true => exact ⟨rfl, rfl⟩
  | false => exact ⟨rfl, rfl⟩

variable {dev} in
theorem setCenterFreq_handed (direct : dev.directSampling = false) (freq : UInt32) :
    (rtlsdrSetCenterFreq D bus dev freq).2.handed = some (freq - dev.offsFreq) := by
  rw [rtlsdrSetCenterFreq, if_neg (by rw [direct]; decide)]

variable {D bus dev} in
theorem setCenterFreq_freq {freq : UInt32} (ok : (rtlsdrSetCenterFreq D bus dev freq).1 = 0) :
    rtlsdrGetCenterFreq (rtlsdrSetCenterFreq D bus dev freq).2 = freq := by
  rw [rtlsdrSetCenterFreq] at ok ⊢
  exact if_pos ok

/-- The tuner is left alone, or set again for the frequency of the device, without a wrap. -/
def Retuned (dev dev' : Device) : Prop :=
  dev'.directSampling = dev.directSampling ∧ (dev'.handed = dev.handed ∨
    ∃ handed, dev'.handed = some handed ∧ handed.toNat + dev'.offsFreq.toNat = dev.freq.toNat)

theorem setOffsetTuning_retuned (on : Bool) :
    Retuned dev (rtlsdrSetOffsetTuning D bus dev on).2 := by
  rw [rtlsdrSetOffsetTuning]
  dsimp only
  split_ifs with direct above
  · exact ⟨rfl, .inl rfl⟩
  · have off : (setOffset D bus dev on).directSampling = false := Bool.eq_false_iff.mpr direct
    obtain ⟨offs, sampling⟩ := setCenterFreq_kept D bus (setOffset D bus dev on) dev.freq
    have same : (setOffset D bus dev on).freq = dev.freq := rfl
    rw [same] at above ⊢
    refine ⟨sampling, .inr ⟨_, setCenterFreq_handed D bus off dev.freq, ?_⟩⟩
    rw [offs, sub_exact_iff]
    exact UInt32.le_of_lt above
  · exact ⟨rfl, .inl rfl⟩

theorem setSampleRate_retuned (sampRate : UInt32) :
    Retuned dev (rtlsdrSetSampleRate D bus dev sampRate).2 := by
  rw [rtlsdrSetSampleRate]
  dsimp only
  split_ifs with supported on
  · exact setOffsetTuning_retuned D bus (setRate D bus dev sampRate) true
  · exact ⟨rfl, .inl rfl⟩
  · exact ⟨rfl, .inl rfl⟩

theorem run_directSampling (call : Call) :
    (call.run D bus dev).directSampling = dev.directSampling := by
  cases call with
  | sampleRate rate => exact (setSampleRate_retuned D bus dev rate).1
  | offsetTuning on => exact (setOffsetTuning_retuned D bus dev on).1
  | centerFreq freq => exact (setCenterFreq_kept D bus dev freq).2

theorem after_directSampling (calls : List Call) :
    (after D bus dev calls).directSampling = dev.directSampling := by
  induction calls generalizing dev with
  | nil => rfl
  | cons call calls ih =>
    rw [after, List.foldl_cons]
    exact (ih _).trans (run_directSampling D bus dev call)

end

/-- After every sequence of calls: where `rtlsdr_set_center_freq` returns 0 out of direct
sampling, the device reports the frequency, and the tuner was set to it less the offset exactly
if it is not below the offset. -/
theorem setCenterFreq_exact_iff (D : Type) [DoubleArith D] (bus : Bus) (dev : Device)
    (direct : dev.directSampling = false) (calls : List Call) (freq : UInt32)
    (ok : (rtlsdrSetCenterFreq D bus (after D bus dev calls) freq).1 = 0) :
    ((∃ handed, (rtlsdrSetCenterFreq D bus (after D bus dev calls) freq).2.handed = some handed ∧
        handed.toNat + (after D bus dev calls).offsFreq.toNat = freq.toNat) ∧
      rtlsdrGetCenterFreq (rtlsdrSetCenterFreq D bus (after D bus dev calls) freq).2 = freq) ↔
      (after D bus dev calls).offsFreq ≤ freq := by
  have off : (after D bus dev calls).directSampling = false := by
    rw [after_directSampling, direct]
  rw [setCenterFreq_handed D bus off, setCenterFreq_freq ok]
  constructor
  · rintro ⟨⟨handed, ⟨⟩, exact⟩, _⟩
    exact (sub_exact_iff _ _).mp exact
  · intro above
    exact ⟨⟨_, rfl, (sub_exact_iff _ _).mpr above⟩, rfl⟩

/-- A device with an FC2580, on a bus that works. -/
def fc2580Device : Device where
  rate := 0
  rtlXtal := 28800000
  tunXtal := 16384000
  freq := 0
  bw := 0
  corr := 0
  tunerXtal := 0
  intFreq := 0
  page1 := fun _ => 0
  offsFreq := 0
  directSampling := false
  tuner := .fc2580 Fc001x.resetChip
  handed := none

/-- The device at 2.4 MHz with offset tuning. -/
def offsetDevice : Device :=
  after ℚ Fc001x.quietBus fc2580Device [.sampleRate 2400000, .offsetTuning true]

/-- 100 MHz is above the offset of 2.04 MHz. -/
theorem setCenterFreq_exact_fm :
    (∃ handed, (rtlsdrSetCenterFreq ℚ Fc001x.quietBus offsetDevice 100000000).2.handed =
        some handed ∧ handed.toNat + offsetDevice.offsFreq.toNat = 100000000) ∧
      rtlsdrGetCenterFreq (rtlsdrSetCenterFreq ℚ Fc001x.quietBus offsetDevice 100000000).2 =
        100000000 :=
  (setCenterFreq_exact_iff ℚ Fc001x.quietBus fc2580Device rfl
    [.sampleRate 2400000, .offsetTuning true] 100000000 (by decide +kernel)).mpr
    (by decide +kernel)

/-- 1 MHz is below it: the FC2580 is set to 4293.96 MHz, and the call returns 0. -/
theorem setCenterFreq_wraps :
    (rtlsdrSetCenterFreq ℚ Fc001x.quietBus offsetDevice 1000000).1 = 0 ∧
      offsetDevice.offsFreq = 2040000 ∧
      (rtlsdrSetCenterFreq ℚ Fc001x.quietBus offsetDevice 1000000).2.handed =
        some 4293927296 := by
  decide +kernel

end RtlSdr.OffsetTuning
