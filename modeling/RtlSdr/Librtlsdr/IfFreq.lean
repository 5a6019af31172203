import RtlSdr.Lib.Guarded
import RtlSdr.Librtlsdr.Settings

/-!
# The IF register and the settings it depends on

The register is written from the tuner's intermediate frequency, the correction and the crystal. A
change of the bandwidth writes it anew; a change of the correction does not, and a change of the
crystal only where a sample rate is set that is accepted again.
-/
namespace RtlSdr.Librtlsdr

section

variable (D : Type) [DoubleArith D]

/-- The register holds what `rtlsdr_set_if_freq` computes from the current settings. -/
def IfFollows (dev : Device) : Prop := dev.page1.load 0x19 3 = dev.ifBytes D dev.intFreq

instance (dev : Device) : Decidable (IfFollows D dev) := inferInstanceAs (Decidable (_ = _))

/-! ### Writing the register -/

theorem load_demodWrite (dev : Device) (addr : Nat) (bytes : List UInt8)
    (elsewhere : addr + bytes.length ≤ 0x19 ∨ 0x1b < addr) :
    (dev.demodWrite addr bytes).page1.load 0x19 3 = dev.page1.load 0x19 3 := by
  apply List.map_congr_left
  intro i member
  have inside := List.mem_range.mp member
  exact RegFile.store_outside _ _ _ _ (by omega)

theorem load_setIfFreq (dev : Device) (freq : UInt32) :
    (rtlsdrSetIfFreq D dev freq).page1.load 0x19 3 = dev.ifBytes D freq := by
  -- three writes next to each other are one of three bytes
  have joined : (rtlsdrSetIfFreq D dev freq).page1 = dev.page1.store 0x19 (dev.ifBytes D freq) := by
    simp only [rtlsdrSetIfFreq, Device.demodWrite]
    rw [show (0x1a : Nat) = 0x19 + [(dev.ifBytes D freq).getD 0 0].length from rfl,
      RegFile.store_append]
    exact RegFile.store_append dev.page1 0x19 [_, _] [_]
  rw [joined]
  exact RegFile.load_store _ _ _

theorem ifFollows_setBw (dev : Device) (bw : UInt32) : IfFollows D (r820tSetBw D dev bw) :=
  load_setIfFreq D { dev with intFreq := (R82xx.bandwidth bw.toInt32.toInt).intFreq } _

theorem load_setSampleFreqCorrection (dev : Device) (ppm : Int) :
    (rtlsdrSetSampleFreqCorrection D dev ppm).page1.load 0x19 3 = dev.page1.load 0x19 3 := by
  rw [rtlsdrSetSampleFreqCorrection, load_demodWrite _ _ _ (.inr (by decide)),
    load_demodWrite _ _ _ (.inr (by decide))]

/-- The register would hold the same value with another correction or crystal. -/
def SameIf (dev : Device) (corr : Int) (rtlXtal : UInt32) : Prop :=
  { dev with corr, rtlXtal }.ifBytes D dev.intFreq = dev.ifBytes D dev.intFreq

variable {dev dev' : Device}

/-- As long as nothing writes the register, what a device holds besides the correction and the
crystal does not matter. -/
theorem IfFollows.iff_sameIf (follows : IfFollows D dev)
    (page1 : dev'.page1.load 0x19 3 = dev.page1.load 0x19 3)
    (intFreq : dev'.intFreq = dev.intFreq) :
    IfFollows D dev' ↔ SameIf D dev dev'.corr dev'.rtlXtal := by
  -- the register holds what the old settings gave: the question is whether the new give the same
  rw [IfFollows, page1, intFreq, follows]
  exact eq_comm

theorem IfFollows.of_same (follows : IfFollows D dev)
    (page1 : dev'.page1.load 0x19 3 = dev.page1.load 0x19 3)
    (intFreq : dev'.intFreq = dev.intFreq) (corr : dev'.corr = dev.corr)
    (rtlXtal : dev'.rtlXtal = dev.rtlXtal) : IfFollows D dev' := by
  rw [follows.iff_sameIf D page1 intFreq, corr, rtlXtal]
  rfl

/-- What follows a new bandwidth goes to other registers. -/
theorem IfFollows.writeRatio (follows : IfFollows D dev) (ratio : UInt32) :
    IfFollows D (writeRatio D dev ratio) := by
  apply follows.of_same D
  -- the reset is at 0x01, the ratio and its correction are at 0x3e and above
  · rw [Librtlsdr.writeRatio, load_demodWrite _ _ _ (.inl (by simp)),
      load_demodWrite _ _ _ (.inl (by simp)), load_setSampleFreqCorrection,
      load_demodWrite _ _ _ (.inr (by decide)), load_demodWrite _ _ _ (.inr (by decide))]
  all_goals simp [Librtlsdr.writeRatio, rtlsdrSetSampleFreqCorrection]

theorem ifFollows_setSampleRate (dev : Device) (sampRate : UInt32)
    (supported : rateSupported sampRate = true) :
    IfFollows D (rtlsdrSetSampleRate D dev sampRate).2 := by
  rw [rtlsdrSetSampleRate, if_pos supported]
  exact (ifFollows_setBw D _ _).writeRatio D _

theorem setSampleRate_refused (dev : Device) (sampRate : UInt32)
    (refused : rateSupported sampRate = false) : (rtlsdrSetSampleRate D dev sampRate).2 = dev := by
  rw [rtlsdrSetSampleRate, if_neg (by rw [refused]; decide)]

/-! ### One call -/

theorem setTunXtal_same (r : Int) (dev : Device) (tunerFreq : UInt32) :
    let dev' := (setTunXtal D r dev tunerFreq).2
    dev'.page1 = dev.page1 ∧ dev'.intFreq = dev.intFreq ∧ dev'.corr = dev.corr ∧
      dev'.rtlXtal = dev.rtlXtal := by
  dsimp only [setTunXtal]
  split
  -- tuning again changes `freq` at most
  · split <;> exact ⟨rfl, rfl, rfl, rfl⟩
  · exact ⟨rfl, rfl, rfl, rfl⟩

theorem ifFollows_setTunXtal (r : Int) (dev : Device) (tunerFreq : UInt32) :
    IfFollows D (setTunXtal D r dev tunerFreq).2 ↔ IfFollows D dev := by
  obtain ⟨page1, intFreq, corr, rtlXtal⟩ := setTunXtal_same D r dev tunerFreq
  rw [IfFollows, Device.ifBytes, page1, intFreq, corr, rtlXtal]
  rfl

/-- When a call leaves the register up to date. -/
def Refreshes (dev : Device) : Setting → Prop
  | .sampleRate _ => True
  | .tunerBandwidth _ => True
  | .centerFreq _ => True
  -- the correction is stored and given to the resampler and the tuner, but not to the IF
  | .freqCorrection ppm => SameIf D dev ppm dev.rtlXtal
  | .xtalFreq rtlFreq _ =>
    -- nothing changes, the rate is set again and the bandwidth with it, or it makes no difference
    rtlFreq = 0 ∨ xtalRefused rtlFreq = true ∨ rateSupported dev.rate = true ∨
      SameIf D dev dev.corr rtlFreq

theorem ifFollows_setFreqCorrection (follows : IfFollows D dev) (ppm : Int) :
    IfFollows D (rtlsdrSetFreqCorrection D dev ppm).2 ↔ SameIf D dev ppm dev.rtlXtal := by
  by_cases unchanged : dev.corr = ppm
  -- an unchanged correction returns -2 before anything is written
  · subst unchanged
    rw [rtlsdrSetFreqCorrection, if_pos rfl]
    exact ⟨fun _ => rfl, fun _ => follows⟩
  · have written := load_setSampleFreqCorrection D { dev with corr := ppm } ppm
    rw [rtlsdrSetFreqCorrection, if_neg unchanged]
    dsimp only
    -- with or without a centre frequency to set again, the register stays
    split <;> exact follows.iff_sameIf D written (by simp [rtlsdrSetCenterFreq,
      rtlsdrSetSampleFreqCorrection])

/-- Without a sample rate, or with one that is refused when it is set again, only the crystal
changes. -/
theorem setRtlXtal_unsupported (dev : Device) (rtlFreq : UInt32)
    (changes : rtlFreq > 0 ∧ dev.rtlXtal ≠ rtlFreq) (refused : rateSupported dev.rate = false) :
    (setRtlXtal D dev rtlFreq).2 = { dev with rtlXtal := rtlFreq } := by
  rw [setRtlXtal, if_pos changes]
  dsimp only
  split
  · exact setSampleRate_refused D _ _ refused
  · rfl

theorem ifFollows_setRtlXtal (follows : IfFollows D dev) (rtlFreq : UInt32) :
    IfFollows D (setRtlXtal D dev rtlFreq).2 ↔
      rtlFreq = 0 ∨ rateSupported dev.rate = true ∨ SameIf D dev dev.corr rtlFreq := by
  by_cases changes : rtlFreq > 0 ∧ dev.rtlXtal ≠ rtlFreq
  · have positive : rtlFreq ≠ 0 := fun zero => absurd changes.1 (by rw [zero]; decide)
    cases supported : rateSupported dev.rate with
    | true =>
      -- a rate that would be accepted is not 0, so it is set again
      have rated : dev.rate ≠ 0 := by
        intro zero
        rw [zero] at supported
        exact absurd supported (by decide)
      rw [setRtlXtal, if_pos changes]
      dsimp only
      rw [if_pos rated]
      exact ⟨fun _ => .inr (.inl rfl), fun _ => ifFollows_setSampleRate D _ _ supported⟩
    | false =>
      have stays : IfFollows D { dev with rtlXtal := rtlFreq } ↔ SameIf D dev dev.corr rtlFreq :=
        follows.iff_sameIf D rfl rfl
      rw [setRtlXtal_unsupported D dev rtlFreq changes supported, stays]
      simp [positive]
  · rw [setRtlXtal, if_neg changes]
    refine ⟨fun _ => ?_, fun _ => follows⟩
    -- nothing was changed: there is no new crystal, or it is the old one
    by_cases zero : rtlFreq = 0
    · exact .inl zero
    · have same : dev.rtlXtal = rtlFreq := by
        by_contra differs
        exact changes ⟨UInt32.pos_iff_ne_zero.mpr zero, differs⟩
      refine .inr (.inr ?_)
      rw [← same]
      rfl

theorem IfFollows.setCenterFreq (follows : IfFollows D dev) (freq : UInt32) :
    IfFollows D (rtlsdrSetCenterFreq dev freq) :=
  follows.of_same D rfl rfl rfl rfl

theorem IfFollows.setBwField (follows : IfFollows D dev) (bw : UInt32) :
    IfFollows D { dev with bw } :=
  follows.of_same D rfl rfl rfl rfl

theorem ifFollows_setTunerBandwidth (dev : Device) (bw : UInt32) :
    IfFollows D (rtlsdrSetTunerBandwidth D dev bw).2 :=
  (ifFollows_setBw D dev (if bw > 0 then bw else dev.rate)).setBwField D bw

/-- The register follows after a call exactly when the call is one that refreshes it. -/
theorem ifFollows_apply (follows : IfFollows D dev) (setting : Setting) :
    IfFollows D (setting.apply D dev) ↔ Refreshes D dev setting := by
  cases setting with
  | sampleRate rate =>
    refine iff_of_true ?_ trivial
    cases supported : rateSupported rate with
    | true => exact ifFollows_setSampleRate D dev rate supported
    | false =>
      -- a refused rate returns -EINVAL and changes nothing
      rw [Setting.apply, setSampleRate_refused D dev rate supported]
      exact follows
  | tunerBandwidth bw => exact iff_of_true (ifFollows_setTunerBandwidth D dev bw) trivial
  | centerFreq freq => exact iff_of_true (follows.setCenterFreq D freq) trivial
  | freqCorrection ppm => exact ifFollows_setFreqCorrection D follows ppm
  | xtalFreq rtlFreq tunerFreq =>
    rw [Setting.apply, rtlsdrSetXtalFreq, Refreshes]
    by_cases refused : xtalRefused rtlFreq = true
    · rw [if_pos refused]
      exact iff_of_true follows (.inr (.inl refused))
    · rw [if_neg refused]
      dsimp only
      rw [ifFollows_setTunXtal, ifFollows_setRtlXtal D follows]
      simp [refused]

/-! ### Sequences of calls -/

/-- Every call of a sequence refreshes the register, in the state it finds. -/
def AllRefresh (dev : Device) (settings : List Setting) : Prop :=
  Guarded.Meets (Setting.apply D) (Refreshes D) dev settings

theorem ifFollows_opened (page1 : RegFile) (tunXtal : UInt32) :
    IfFollows D (opened D page1 tunXtal) := by
  rw [IfFollows, opened]
  dsimp only
  rw [load_demodWrite _ _ _ (.inl (by decide)), load_setIfFreq]
  rfl

/-- Two devices agree on what the register depends on. -/
structure SameSettings (dev dev' : Device) : Prop where
  intFreq : dev.intFreq = dev'.intFreq
  corr : dev.corr = dev'.corr
  rtlXtal : dev.rtlXtal = dev'.rtlXtal

theorem SameSettings.same_load (same : SameSettings dev dev') (follows : IfFollows D dev)
    (follows' : IfFollows D dev') : dev.page1.load 0x19 3 = dev'.page1.load 0x19 3 := by
  rw [follows, follows', Device.ifBytes, Device.ifBytes, same.intFreq, same.corr, same.rtlXtal]

/-- From `rtlsdr_open` on the register follows after each call exactly when every call
refreshes it, and two such sequences that end in the same settings leave the same value. -/
theorem ifRegister_iff (page1 : RegFile) (tunXtal : UInt32) (settings : List Setting) :
    ((∀ before, before <+: settings →
        IfFollows D (applyAll D (opened D page1 tunXtal) before)) ↔
      AllRefresh D (opened D page1 tunXtal) settings) ∧
    ∀ (page1' : RegFile) (tunXtal' : UInt32) (settings' : List Setting),
      AllRefresh D (opened D page1 tunXtal) settings →
      AllRefresh D (opened D page1' tunXtal') settings' →
      SameSettings (applyAll D (opened D page1 tunXtal) settings)
        (applyAll D (opened D page1' tunXtal') settings') →
      (applyAll D (opened D page1 tunXtal) settings).page1.load 0x19 3 =
        (applyAll D (opened D page1' tunXtal') settings').page1.load 0x19 3 := by
  -- from the call to the run: `ifFollows_apply` is the step, and opening is the start
  have always := fun page1 tunXtal => Guarded.always_iff_meets (IfFollows D)
    (fun dev setting follows => ifFollows_apply D follows setting)
    (ifFollows_opened D page1 tunXtal)
  refine ⟨always page1 tunXtal settings, ?_⟩
  intro page1' tunXtal' settings' refresh refresh' same
  apply same.same_load D
  · exact (always page1 tunXtal settings).mpr refresh settings List.prefix_rfl
  · exact (always page1' tunXtal' settings').mpr refresh' settings' List.prefix_rfl

end

/-- With a sample rate set, a new crystal reaches the register at once, and setting the
bandwidth once more changes nothing. -/
theorem ifRegister_rate_crystal :
    let fresh := opened Float (fun _ => 0) defRtlXtalFreq
    let once := applyAll Float fresh [.sampleRate 2048000, .xtalFreq 28800500 0]
    let again := applyAll Float fresh
      [.sampleRate 2048000, .xtalFreq 28800500 0, .tunerBandwidth 0]
    IfFollows Float once ∧ once.page1.load 0x19 3 = again.page1.load 0x19 3 := by
  have supported : rateSupported
      (applyAll Float (opened Float (fun _ => 0) defRtlXtalFreq) [.sampleRate 2048000]).rate =
      true := by
    decide +kernel
  obtain ⟨follows, same⟩ := ifRegister_iff Float (fun _ => 0) defRtlXtalFreq
    [.sampleRate 2048000, .xtalFreq 28800500 0]
  have refresh : AllRefresh Float (opened Float (fun _ => 0) defRtlXtalFreq)
      [.sampleRate 2048000, .xtalFreq 28800500 0] :=
    ⟨trivial, .inr (.inr (.inl supported)), trivial⟩
  refine ⟨follows.mpr refresh _ List.prefix_rfl, same _ _ _ refresh ?_ ?_⟩
  · exact ⟨trivial, .inr (.inr (.inl supported)), trivial, trivial⟩
  · exact ⟨by decide +kernel, by decide +kernel, by decide +kernel⟩

/-- A correction after the sample rate leaves the register behind, a crystal without a sample
rate as well; and the order of two calls shows in the register. -/
theorem ifRegister_stale :
    let fresh := opened Float (fun _ => 0) defRtlXtalFreq
    let last := applyAll Float fresh [.sampleRate 2048000, .freqCorrection 100]
    let first := applyAll Float fresh [.freqCorrection 100, .sampleRate 2048000]
    ¬IfFollows Float last ∧
      ¬IfFollows Float (applyAll Float fresh [.xtalFreq 28800500 0]) ∧
      last.intFreq = first.intFreq ∧ last.corr = first.corr ∧ last.rtlXtal = first.rtlXtal ∧
      last.page1.load 0x19 3 ≠ first.page1.load 0x19 3 := by
  decide +kernel

end RtlSdr.Librtlsdr
