import RtlSdr.Fm.Safety
import Mathlib.Analysis.SpecialFunctions.Trigonometric.Arctan

/-!
# The options of rtl_fm

`main` folds the options into `demod` and `optimal_settings` derives the rest. The result here is
which options are harmless: no division by zero and no access outside of an array, over every
sequence of buffers.
-/
namespace RtlSdr.Fm

open Checked CArray

/-- What `-M` can be given. -/
inductive Modulation where
  | fm | raw | am | usb | lsb | wbfm
deriving DecidableEq

/-- The options that `full_demod` depends on, after the conversion of their numbers. -/
inductive Argument where
  | sampleRate (s : Int)
  | resampleRate (r : Int)
  | oversample (o : Int)
  | modulation (m : Modulation)
  | firSize (size : Int)
  | dc
  | deemp
  | customAtan (atan : CustomAtan)
  | squelchLevel (l : Int)
deriving DecidableEq

/-- The fields of `demod` that the options set. -/
structure Chosen where
  rateIn : Int
  rateOut : Int
  rateOut2 : Int
  postDownsample : Int
  downsamplePasses : Int
  compFirSize : Int
  squelchLevel : Int
  mode : Mode
  customAtan : CustomAtan
  deemph : Bool
  dcBlock : Bool

/-- `demod_init`. -/
def Chosen.default : Chosen where
  rateIn := 24000
  rateOut := 24000
  rateOut2 := -1
  postDownsample := 1
  downsamplePasses := 0
  compFirSize := 0
  squelchLevel := 0
  mode := .fm
  customAtan := .std
  deemph := false
  dcBlock := false

def Chosen.modulate (d : Chosen) : Modulation → Chosen
  | .fm => { d with mode := .fm }
  | .raw => { d with mode := .raw }
  | .am => { d with mode := .am }
  | .usb => { d with mode := .usb }
  | .lsb => { d with mode := .lsb }
  | .wbfm => { d with
      mode := .fm, rateIn := 170000, rateOut := 170000, rateOut2 := 32000, customAtan := .fast
      deemph := true, squelchLevel := 0 }

/-- One round of the loop over the options. -/
def Chosen.option (d : Chosen) : Argument → Chosen
  | .sampleRate s => { d with rateIn := s, rateOut := s }
  | .resampleRate r => { d with rateOut2 := r }
  | .oversample o => { d with postDownsample := o }
  | .modulation m => d.modulate m
  | .firSize size => { d with downsamplePasses := 1, compFirSize := size }
  | .dc => { d with dcBlock := true }
  | .deemp => { d with deemph := true }
  | .customAtan atan => { d with customAtan := atan }
  | .squelchLevel l => { d with squelchLevel := l }

def options (args : List Argument) : Chosen := args.foldl Chosen.option .default

/-- `demod.rate_in *= demod.post_downsample`. -/
def Chosen.finalRate (d : Chosen) : Int := machine.int32 (d.rateIn * d.postDownsample)

/-- The end of `main`, and `optimal_settings`. -/
def configure (fl : Floats) (freq edge : Int) (offsetTuning : Bool) (d : Chosen) :
    Checked Setup := do
  let settings ← optimalSettings freq d.finalRate d.downsamplePasses edge offsetTuning
    (d.mode = .fm)
  pure {
    rateOut := d.rateOut
    rateOut2 := d.rateOut2
    downsample := settings.downsample
    downsamplePasses := settings.downsamplePasses
    compFirSize := d.compFirSize
    postDownsample := d.postDownsample
    outputScale := settings.outputScale
    squelchLevel := d.squelchLevel
    mode := d.mode
    customAtan := d.customAtan
    deemph := d.deemph
    deemphA := if d.deemph then fl.deemphA d.rateOut else 0
    dcBlock := d.dcBlock }

/-- A rate of at least 1, and an oversampling in the range that is asked for. -/
def Argument.Valid : Argument → Prop
  | .sampleRate s => 1 ≤ s ∧ s < 2147483648
  | .resampleRate r => 1 ≤ r ∧ r < 2147483648
  | .oversample o => 1 ≤ o ∧ o ≤ 16
  | _ => True

structure Chosen.Valid (d : Chosen) : Prop where
  rate : 1 ≤ d.rateOut
  rateOut2 : d.rateOut2 = -1 ∨ 1 ≤ d.rateOut2 ∧ d.rateOut2 < 2147483648
  post : 1 ≤ d.postDownsample ∧ d.postDownsample ≤ 16

theorem wbfm_rate : (1 : Int) ≤ 32000 ∧ (32000 : Int) < 2147483648 := by
  decide

theorem Chosen.Valid.option {d : Chosen} (now : d.Valid) {arg : Argument} (valid : arg.Valid) :
    (d.option arg).Valid := by
  obtain ⟨rate, rateOut2, post⟩ := now
  cases arg with
  | sampleRate s => exact ⟨valid.1, rateOut2, post⟩
  | resampleRate r => exact ⟨rate, .inr valid, post⟩
  | oversample o => exact ⟨rate, rateOut2, valid⟩
  | modulation m =>
    cases m with
    | wbfm => exact ⟨(by decide : (1 : Int) ≤ 170000), .inr wbfm_rate, post⟩
    | fm | raw | am | usb | lsb => exact ⟨rate, rateOut2, post⟩
  | firSize size | dc | deemp | customAtan atan | squelchLevel l => exact ⟨rate, rateOut2, post⟩

theorem options_valid (args : List Argument) (valid : ∀ arg ∈ args, arg.Valid) :
    (options args).Valid := by
  have fold (args : List Argument) (valid : ∀ arg ∈ args, arg.Valid) (d : Chosen)
      (now : d.Valid) : (args.foldl Chosen.option d).Valid := by
    induction args generalizing d with
    | nil => exact now
    | cons arg args ih =>
      exact ih (fun arg member => valid arg (List.mem_cons_of_mem _ member)) _
        (now.option (valid arg List.mem_cons_self))
  exact fold args valid _ ⟨by decide, .inl rfl, by decide⟩

/-! ### What the options come to -/

/-- `downsample`, before it is made a power of two. -/
def Chosen.ratio (d : Chosen) : Int := (1000000 : Int).tdiv d.finalRate + 1

/-- The number of samples received for each one that is demodulated. -/
def Chosen.window (d : Chosen) : Nat :=
  if d.downsamplePasses ≠ 0 then 2 ^ (d.ratio.toNat.log2 + 1) else boxcarWidth d.ratio

/-- The most samples that a buffer of `n` leaves: the boxcar may complete a sum that was begun in
an earlier buffer. -/
def Chosen.most (d : Chosen) (n : Nat) : Nat :=
  if d.downsamplePasses ≠ 0 then n / d.window else (n + d.window - 1) / d.window

/-- Options that do no harm, for buffers of `n` samples. -/
structure Chosen.Harmless (d : Chosen) (n : Nat) : Prop where
  rate : d.finalRate ≠ 0
  settings : if d.downsamplePasses ≠ 0 then 0 < d.ratio else d.ratio ≠ 0
  fm : d.mode = .fm → d.window ≤ n
  dc : d.mode ≠ .raw → d.dcBlock = true → d.postDownsample ≤ (n / d.window : Nat)
  up : d.mode ≠ .raw → d.rateOut < d.rateOut2 → (d.most n : Int) < d.postDownsample

section Configured

variable (fl : Floats) (freq edge : Int) (offsetTuning : Bool) (d : Chosen)

theorem configure_exact_iff :
    (configure fl freq edge offsetTuning d).exact = true ↔
      d.finalRate ≠ 0 ∧ if d.downsamplePasses ≠ 0 then 0 < d.ratio else d.ratio ≠ 0 := by
  have whole : (configure fl freq edge offsetTuning d).exact = true ↔
      (chooseDownsample d.finalRate d.downsamplePasses).exact = true ∧
        128 * (chooseDownsample d.finalRate d.downsamplePasses).value.1 ≠ 0 := by
    rw [configure, exact_bind, exact_pure, Bool.and_true, optimalSettings, exact_bind,
      Bool.and_eq_true, exact_bind, exact_pure, Bool.and_true]
    exact and_congr Iff.rfl decide_eq_true_iff
  rw [whole, chooseDownsample, exact_bind, Bool.and_eq_true, value_bind]
  change (decide (d.finalRate ≠ 0) = true ∧ _) ∧ _ ↔ _
  rw [decide_eq_true_iff, and_assoc]
  refine and_congr Iff.rfl ?_
  by_cases none : d.downsamplePasses = 0
  · rw [if_pos none, if_neg (not_not.mpr none)]
    change true = true ∧ 128 * d.ratio ≠ 0 ↔ _
    constructor
    · rintro ⟨_, scale⟩ zero
      exact scale (by rw [zero]; rfl)
    · intro nonzero
      exact ⟨rfl, by omega⟩
  · have power : (0 : Int) < 2 ^ ((d.ratio.toNat.log2 : Int) + 1).toNat := Int.pow_pos (by decide)
    rw [if_neg none, if_pos none, exact_bind]
    change (decide (0 < d.ratio) && true) = true ∧
      128 * (2 : Int) ^ ((d.ratio.toNat.log2 : Int) + 1).toNat ≠ 0 ↔ _
    rw [Bool.and_true, decide_eq_true_iff]
    exact and_iff_left (by omega)

theorem configure_passes :
    (configure fl freq edge offsetTuning d).value.downsamplePasses =
      if d.downsamplePasses ≠ 0 then (d.ratio.toNat.log2 : Int) + 1 else 0 := by
  change (chooseDownsample d.finalRate d.downsamplePasses).value.2 = _
  rw [chooseDownsample, value_bind]
  by_cases none : d.downsamplePasses = 0
  · rw [if_pos none, if_neg (not_not.mpr none)]
    exact none
  · rw [if_neg none, if_pos none]
    rfl

theorem configure_downsample (none : d.downsamplePasses = 0) :
    (configure fl freq edge offsetTuning d).value.downsample = d.ratio := by
  change (chooseDownsample d.finalRate d.downsamplePasses).value.1 = _
  rw [chooseDownsample, value_bind, if_pos none]
  rfl

theorem configure_valid (valid : d.Valid) :
    (configure fl freq edge offsetTuning d).value.Valid := by
  refine ⟨valid.rate, valid.rateOut2, valid.post, ?_⟩
  intro (wanted : d.deemph = true)
  change 1 ≤ if d.deemph = true then fl.deemphA d.rateOut else 0
  rw [if_pos wanted]
  exact fl.one_le_deemphA _ valid.rate

/-- The samples that a buffer of `n` leaves, if it begins at phase `p`. -/
def Chosen.outputs (p n : Nat) : Nat :=
  if d.downsamplePasses ≠ 0 then n / d.window else (p + n) / d.window

theorem decimatedLen_configure (p n : Nat) :
    decimatedLen (configure fl freq edge offsetTuning d).value p n / 2 = d.outputs p n ∧
      (2 ≤ decimatedLen (configure fl freq edge offsetTuning d).value p n ↔
        1 ≤ d.outputs p n) := by
  have half : decimatedLen (configure fl freq edge offsetTuning d).value p n / 2 =
      d.outputs p n := by
    rw [decimatedLen, configure_passes, Chosen.outputs, Chosen.window]
    by_cases none : d.downsamplePasses = 0
    · rw [if_neg (not_not.mpr none), if_neg (not_not.mpr none), if_neg (not_not.mpr none),
        if_neg (not_not.mpr rfl), configure_downsample _ _ _ _ _ none]
      omega
    · have passes : (d.ratio.toNat.log2 : Int) + 1 ≠ 0 := by omega
      have count : ((d.ratio.toNat.log2 : Int) + 1).toNat = d.ratio.toNat.log2 + 1 := by omega
      rw [if_pos none, if_pos none, if_pos none, if_pos passes, count, Int.shiftRight_eq_div_pow,
        Int.ediv_ediv_of_nonneg (Int.natCast_nonneg _), Int.mul_comm 2 (n : Int),
        Int.mul_ediv_mul_of_pos_left _ _ (by decide)]
      rfl
  refine ⟨half, ?_⟩
  omega

theorem safe_configure (valid : d.Valid) (p n : Nat) :
    (configure fl freq edge offsetTuning d).value.Safe
        (decimatedLen (configure fl freq edge offsetTuning d).value p n) ↔
      (d.mode = .fm → 1 ≤ d.outputs p n) ∧
      (d.mode ≠ .raw → d.dcBlock = true → d.postDownsample ≤ d.outputs p n) ∧
      (d.mode ≠ .raw → d.rateOut < d.rateOut2 → (d.outputs p n : Int) < d.postDownsample) := by
  obtain ⟨half, some⟩ := decimatedLen_configure fl freq edge offsetTuning d p n
  have post := valid.post
  have length : resultLength (configure fl freq edge offsetTuning d).value
      (decimatedLen (configure fl freq edge offsetTuning d).value p n) =
        (d.outputs p n : Int) / d.postDownsample := by
    rw [resultLength, half, Int.tdiv_eq_ediv_of_nonneg (Int.natCast_nonneg _)]
    rfl
  have none : (d.outputs p n : Int) / d.postDownsample = 0 ↔
      (d.outputs p n : Int) < d.postDownsample := by
    constructor
    · intro zero
      by_contra enough
      have atLeast : 1 ≤ (d.outputs p n : Int) / d.postDownsample := by
        rw [Int.le_ediv_iff_mul_le (by omega)]
        omega
      omega
    · exact fun less => Int.ediv_eq_zero_of_lt (Int.natCast_nonneg _) less
  constructor
  · rintro ⟨fm, dc, up⟩
    rw [length] at dc up
    refine ⟨fun mode => some.mp (fm mode), fun cooked wanted => ?_, fun cooked higher => ?_⟩
    · exact Int.not_lt.mp fun less => dc cooked wanted (none.mpr less)
    · exact none.mp (up cooked higher)
  · rintro ⟨fm, dc, up⟩
    refine ⟨fun mode => some.mpr (fm mode), fun cooked wanted => ?_, fun cooked higher => ?_⟩
    · rw [length]
      exact fun zero => Int.not_lt.mpr (dc cooked wanted) (none.mp zero)
    · rw [length]
      exact none.mpr (up cooked higher)

end Configured

/-! ### The boxcar from buffer to buffer -/

theorem phaseAt_eq {c : Setup} (none : c.downsamplePasses = 0) (n k p : Nat)
    (below : p < boxcarWidth c.downsample) :
    phaseAt c n p k = (p + k * n) % boxcarWidth c.downsample := by
  induction k generalizing p with
  | zero => rw [phaseAt, Nat.zero_mul, Nat.add_zero, Nat.mod_eq_of_lt below]
  | succ k ih =>
    have more : p + n + k * n = p + (k + 1) * n := by
      rw [Nat.succ_mul]
      omega
    rw [phaseAt, ih _ (nextPhase_lt n below), nextPhase, if_neg (not_not.mpr none),
      Nat.mod_add_mod, more]

/-- Some buffer completes one sum more than its samples alone would. -/
theorem exists_most (n : Nat) {width : Nat} (positive : 1 ≤ width) :
    ∃ k, (k * n % width + n) / width = (n + width - 1) / width := by
  have whole := Nat.div_add_mod n width
  have rest := Nat.mod_lt n positive
  by_cases divides : n % width = 0
  · refine ⟨0, ?_⟩
    have multiple : n + width - 1 = width - 1 + width * (n / width) := by omega
    have less : (width - 1) / width = 0 := Nat.div_eq_of_lt (by omega)
    rw [Nat.zero_mul, Nat.zero_mod, Nat.zero_add, multiple,
      Nat.add_mul_div_left _ _ positive, less, Nat.zero_add]
  · -- Otherwise the phase would grow by the same amount with every buffer.
    by_contra never
    rw [not_exists] at never
    have up : (n + width - 1) / width = n / width + 1 := by
      have multiple : n + width - 1 = n % width - 1 + width * (n / width + 1) := by
        rw [Nat.mul_succ]
        omega
      rw [multiple, Nat.add_mul_div_left _ _ positive, Nat.div_eq_of_lt (by omega), Nat.zero_add]
    have inside (k : Nat) : k * n % width + n % width < width := by
      by_contra beyond
      apply never k
      have phase := Nat.mod_lt (k * n) positive
      have multiple : k * n % width + n =
          k * n % width + n % width - width + width * (n / width + 1) := by
        rw [Nat.mul_succ]
        omega
      rw [up, multiple, Nat.add_mul_div_left _ _ positive, Nat.div_eq_of_lt (by omega),
        Nat.zero_add]
    have grows (k : Nat) : k * n % width = k * (n % width) := by
      induction k with
      | zero => rw [Nat.zero_mul, Nat.zero_mul, Nat.zero_mod]
      | succ k ih =>
        rw [Nat.succ_mul, Nat.succ_mul, Nat.add_mod, Nat.mod_eq_of_lt (inside k), ih]
    have last := Nat.mod_lt (width * n) positive
    have long : width * 1 ≤ width * (n % width) := Nat.mul_le_mul_left _ (by omega)
    rw [grows width] at last
    omega

theorem one_le_window (d : Chosen) : 1 ≤ d.window := by
  rw [Chosen.window]
  split_ifs
  · exact Nat.one_le_two_pow
  · exact one_le_boxcarWidth _

theorem outputs_range (d : Chosen) (p n : Nat) (below : p < d.window) :
    n / d.window ≤ d.outputs p n ∧ d.outputs p n ≤ d.most n := by
  rw [Chosen.outputs, Chosen.most]
  split_ifs
  · exact ⟨Nat.le_refl _, Nat.le_refl _⟩
  · exact ⟨Nat.div_le_div_right (by omega), Nat.div_le_div_right (by omega)⟩

section Thread

variable (fl : Floats) (freq edge : Int) (offsetTuning : Bool) (d : Chosen)

theorem phases (n : Nat) :
    (∀ k, d.downsamplePasses = 0 →
      phaseAt (configure fl freq edge offsetTuning d).value n 0 k = k * n % d.window) ∧
    ∀ k, n / d.window ≤ d.outputs (phaseAt (configure fl freq edge offsetTuning d).value n 0 k) n ∧
      d.outputs (phaseAt (configure fl freq edge offsetTuning d).value n 0 k) n ≤ d.most n := by
  have boxcar (k : Nat) (none : d.downsamplePasses = 0) :
      phaseAt (configure fl freq edge offsetTuning d).value n 0 k = k * n % d.window := by
    have zero : (configure fl freq edge offsetTuning d).value.downsamplePasses = 0 := by
      rw [configure_passes, if_neg (not_not.mpr none)]
    rw [phaseAt_eq zero _ _ _ (one_le_boxcarWidth _), Nat.zero_add, Chosen.window,
      if_neg (not_not.mpr none), configure_downsample _ _ _ _ _ none]
  refine ⟨boxcar, fun k => ?_⟩
  by_cases none : d.downsamplePasses = 0
  · rw [boxcar k none]
    exact outputs_range d _ n (Nat.mod_lt _ (one_le_window d))
  · rw [Chosen.outputs, Chosen.most, if_pos none, if_pos none]
    exact ⟨Nat.le_refl _, Nat.le_refl _⟩

theorem safe_every_iff (valid : d.Valid) (n : Nat) :
    (∀ k, (configure fl freq edge offsetTuning d).value.Safe
      (decimatedLen (configure fl freq edge offsetTuning d).value
        (phaseAt (configure fl freq edge offsetTuning d).value n 0 k) n)) ↔
      (d.mode = .fm → d.window ≤ n) ∧
      (d.mode ≠ .raw → d.dcBlock = true → d.postDownsample ≤ (n / d.window : Nat)) ∧
      (d.mode ≠ .raw → d.rateOut < d.rateOut2 → (d.most n : Int) < d.postDownsample) := by
  obtain ⟨boxcar, range⟩ := phases fl freq edge offsetTuning d n
  have window := one_le_window d
  have some : d.window ≤ n ↔ 1 ≤ n / d.window := by
    rw [Nat.le_div_iff_mul_le window, Nat.one_mul]
  have first : d.outputs (phaseAt (configure fl freq edge offsetTuning d).value n 0 0) n =
      n / d.window := by
    change d.outputs 0 n = _
    rw [Chosen.outputs, Nat.zero_add, ite_self]
  simp only [safe_configure fl freq edge offsetTuning d valid]
  constructor
  · intro every
    obtain ⟨fm, dc, _⟩ := every 0
    rw [first] at fm dc
    refine ⟨fun mode => some.mpr (fm mode), dc, fun cooked higher => ?_⟩
    by_cases none : d.downsamplePasses = 0
    · -- the boxcar comes to a buffer that leaves as many samples as any
      obtain ⟨k, most⟩ := exists_most n window
      have less := (every k).2.2 cooked higher
      rw [boxcar k none, Chosen.outputs, if_neg (not_not.mpr none), most] at less
      rw [Chosen.most, if_neg (not_not.mpr none)]
      exact less
    · have less := (every 0).2.2 cooked higher
      rw [first] at less
      rw [Chosen.most, if_pos none]
      exact less
  · rintro ⟨fm, dc, up⟩ k
    obtain ⟨low, high⟩ := range k
    refine ⟨fun mode => ?_, fun cooked wanted => ?_, fun cooked higher => ?_⟩
    · exact Nat.le_trans (some.mp (fm mode)) low
    · have enough := dc cooked wanted
      omega
    · have less := up cooked higher
      omega

theorem ready_init (c : Setup) {n : Nat} {src : List Int} (bytes : ∀ x ∈ src, -127 ≤ x ∧ x ≤ 128)
    (count : src.length = 2 * n) : Ready c n 0 (receive src demodInit) := by
  have zeros : AllInt16 demodInit.lowpassed := fun _ => isInt16_zero
  refine ⟨?_, zeros.memcpy bytes, rfl, one_le_boxcarWidth _, fun _ => rfl⟩
  change (src.length : Int) = _
  rw [count, Int.natCast_mul]
  rfl

/-- `optimal_settings` and `full_demod` are safe for every sequence of buffers of `n` complex
samples if and only if the options are harmless. -/
theorem demodThread_safe_iff (args : List Argument) (valid : ∀ arg ∈ args, arg.Valid) (n : Nat)
    (fits : 2 * (n : Int) ≤ maximumBufLength) :
    ((configure fl freq edge offsetTuning (options args)).exact = true ∧
      ∀ bufs : List (List UInt8), (∀ buf ∈ bufs, buf.length = 2 * n) →
        (demodThread fl (configure fl freq edge offsetTuning (options args)).value offsetTuning bufs
          demodInit).exact = true) ↔
      (options args).Harmless n := by
  have chosen := options_valid args valid
  generalize options args = d at chosen
  have thread (bufs : List (List UInt8)) (each : ∀ buf ∈ bufs, buf.length = 2 * n) :=
    demodThread_exact_iff fl (configure_valid fl freq edge offsetTuning d chosen) offsetTuning fits
      bufs each demodInit fun src bytes count => ready_init _ bytes count
  have every := safe_every_iff fl freq edge offsetTuning d chosen n
  rw [configure_exact_iff]
  constructor
  · rintro ⟨⟨rate, settings⟩, runs⟩
    have safe : ∀ k, (configure fl freq edge offsetTuning d).value.Safe
        (decimatedLen (configure fl freq edge offsetTuning d).value
          (phaseAt (configure fl freq edge offsetTuning d).value n 0 k) n) := by
      intro k
      have silence : ∀ buf ∈ List.replicate (k + 1) (List.replicate (2 * n) (0 : UInt8)),
          buf.length = 2 * n := by
        intro buf member
        rw [List.eq_of_mem_replicate member, List.length_replicate]
      have run := (thread _ silence).mp (runs _ silence)
      rw [List.length_replicate] at run
      exact run k (Nat.lt_succ_self k)
    obtain ⟨fm, dc, up⟩ := every.mp safe
    exact ⟨rate, settings, fm, dc, up⟩
  · rintro ⟨rate, settings, fm, dc, up⟩
    refine ⟨⟨rate, settings⟩, fun bufs each => ?_⟩
    rw [thread bufs each]
    exact fun k _ => every.mpr ⟨fm, dc, up⟩ k

theorem demodThread_first_iff (valid : d.Valid) {n : Nat} (fits : 2 * (n : Int) ≤ maximumBufLength)
    (buf : List UInt8) (length : buf.length = 2 * n) :
    (demodThread fl (configure fl freq edge offsetTuning d).value offsetTuning [buf]
        demodInit).exact = true ↔
      (d.mode = .fm → 1 ≤ d.outputs 0 n) ∧
      (d.mode ≠ .raw → d.dcBlock = true → d.postDownsample ≤ d.outputs 0 n) ∧
      (d.mode ≠ .raw → d.rateOut < d.rateOut2 → (d.outputs 0 n : Int) < d.postDownsample) := by
  have each : ∀ b ∈ [buf], b.length = 2 * n := by
    intro b member
    rw [List.mem_singleton.mp member, length]
  rw [demodThread_exact_iff fl (configure_valid fl freq edge offsetTuning d valid) offsetTuning fits
    [buf] each demodInit fun src bytes count => ready_init _ bytes count,
    ← safe_configure fl freq edge offsetTuning d valid]
  constructor
  · exact fun every => every 0 (Nat.succ_pos _)
  · intro safe k inside
    rw [List.length_singleton, Nat.lt_one_iff] at inside
    rw [inside]
    exact safe

end Thread

/-- The conversion to an integer type. -/
noncomputable def truncate (x : ℝ) : Int := if 0 ≤ x then ⌊x⌋ else ⌈x⌉

theorem one_le_round_deemph (rate : Int) (positive : 1 ≤ rate) :
    1 ≤ round (1 / (1 - Real.exp (-1 / ((rate : ℝ) * 75e-6)))) := by
  have negative : -1 / ((rate : ℝ) * 75e-6) < 0 :=
    div_neg_of_neg_of_pos (by norm_num) (by positivity)
  have small := Real.exp_lt_one_iff.mpr negative
  have large := Real.exp_pos (-1 / ((rate : ℝ) * 75e-6))
  have atLeast : 1 ≤ 1 / (1 - Real.exp (-1 / ((rate : ℝ) * 75e-6))) := by
    rw [le_div_iff₀ (by linarith)]
    linarith
  rw [round_eq, Int.le_floor, Int.cast_one]
  linarith

/-- The computations in `double`, without their rounding. -/
noncomputable def exactFloats : Floats where
  angle cj cr := truncate ((Complex.mk cr cj).arg / 3.14159 * (2 ^ 14 : Nat))
  sqrt x := truncate (Real.sqrt x)
  rms p t len :=
    truncate (Real.sqrt ((p - (t * (2 : Nat) * (t / len) - (t / len) * (t / len) * len)) / len))
  atanLut i := truncate (Real.arctan (i / (2 ^ 8 : Nat)) / 3.14159 * (2 ^ 14 : Nat))
  deemphA rate := round (1 / (1 - Real.exp (-1 / (rate * 75e-6))))
  one_le_deemphA := one_le_round_deemph

/-- The preset `wbfm`, with the buffers that librtlsdr delivers. -/
theorem demodThread_safe_wbfm :
    (∀ arg ∈ [Argument.modulation .wbfm], arg.Valid) ∧
    (configure exactFloats 100000000 0 false (options [.modulation .wbfm])).exact = true ∧
    ∀ bufs : List (List UInt8), (∀ buf ∈ bufs, buf.length = 2 * 131072) →
      (demodThread exactFloats
        (configure exactFloats 100000000 0 false (options [.modulation .wbfm])).value false bufs
        demodInit).exact = true := by
  have valid : ∀ arg ∈ [Argument.modulation .wbfm], arg.Valid := by
    intro arg member
    rw [List.mem_singleton.mp member]
    trivial
  refine ⟨valid, (demodThread_safe_iff exactFloats 100000000 0 false [.modulation .wbfm] valid
    131072 (by decide)).mpr ⟨by decide, by decide, fun _ => by decide, ?_, ?_⟩⟩
  · intro _ (off : false = true)
    cases off
  · intro _ (down : (170000 : Int) < 32000)
    exact absurd down (by decide)

/-- `-s 24k -r 48k` divides by zero, and `-s 7` reads the sample before the first one. -/
theorem demodThread_unsafe :
    (demodThread exactFloats (configure exactFloats 100000000 0 false
        (options [.sampleRate 24000, .resampleRate 48000])).value false
      [List.replicate 262144 127] demodInit).exact = false ∧
    (demodThread exactFloats (configure exactFloats 100000000 0 false
        (options [.sampleRate 7])).value false
      [List.replicate 262144 127] demodInit).exact = false := by
  have length : (List.replicate 262144 (127 : UInt8)).length = 2 * 131072 := List.length_replicate
  constructor
  · rw [Bool.eq_false_iff]
    intro exactly
    rw [demodThread_first_iff exactFloats 100000000 0 false _
      ⟨by decide, .inr (by decide), by decide⟩ (by decide) _ length] at exactly
    have up := exactly.2.2 (by decide) (by decide)
    revert up
    decide
  · rw [Bool.eq_false_iff]
    intro exactly
    rw [demodThread_first_iff exactFloats 100000000 0 false _
      ⟨by decide, .inl (by decide), by decide⟩ (by decide) _ length] at exactly
    have some := exactly.1 (by decide)
    revert some
    decide

end RtlSdr.Fm
