import RtlSdr.Fm.Discriminator

/-!
# The demodulator of rtl_fm

`full_demod` takes the samples of one buffer from `lowpassed` to `result`. The computations keep a
record of what the source leaves unchecked: every access of the two arrays and every division of
integers. What is computed in `double` is a parameter.
-/
namespace RtlSdr.Fm

open Checked CArray

/-- The functions that `mode_demod` may point to. -/
inductive Mode where
  | fm | am | usb | lsb | raw
deriving DecidableEq

/-- The values of `custom_atan`. -/
inductive CustomAtan where
  | std | fast | lut
deriving DecidableEq

/-- The results of computations in `double`, after their conversion to an integer. -/
structure Floats where
  /-- `atan2(cj, cr) / 3.14159 * (1<<14)`. -/
  angle : Int → Int → Int
  /-- `sqrt`, as an `int16_t`. -/
  sqrt : Int → Int
  /-- The end of `rms`, for the sum of the squares, the sum and the length. -/
  rms : Int → Int → Int → Int
  atanLut : Int → Int
  /-- `round(1 / (1 - exp(-1 / (rate_out * 75e-6))))`. -/
  deemphA : Int → Int
  one_le_deemphA : ∀ rate, 1 ≤ rate → 1 ≤ deemphA rate

/-- What stays as it is while the demodulator runs. -/
structure Setup where
  rateOut : Int
  rateOut2 : Int
  downsample : Int
  downsamplePasses : Int
  compFirSize : Int
  postDownsample : Int
  outputScale : Int
  squelchLevel : Int
  mode : Mode
  customAtan : CustomAtan
  deemph : Bool
  deemphA : Int
  dcBlock : Bool

/-- What changes from buffer to buffer. -/
structure Demod where
  lowpassed : Buf
  lpLen : Int
  lpIHist : Int → Taps
  lpQHist : Int → Taps
  droopIHist : List Int
  droopQHist : List Int
  result : Buf
  resultLen : Int
  boxcar : Boxcar
  preR : Int
  preJ : Int
  squelchHits : Int
  resample : Resample
  /-- The static variable of `deemph_filter`. -/
  deemphAvg : Int
  dcAvg : Int

/-! ### Down to the rate of the demodulator -/

/-- The arrays of the passes of `fifth_order`. -/
structure Passes where
  lpIHist : Int → Taps
  lpQHist : Int → Taps
  lowpassed : Buf

def fifthPass (w : Words) (lpLen : Int) (i : Nat) (s : Passes) : Checked Passes := do
  let inPhase ← fifthOrder w s.lowpassed 0 (lpLen >>> i) (s.lpIHist i)
  let quadrature ← fifthOrder w inPhase.1 1 ((lpLen >>> i) - 1) (s.lpQHist i)
  pure ⟨Function.update s.lpIHist i inPhase.2, Function.update s.lpQHist i quadrature.2,
    quadrature.1⟩

/-- The loop over the passes. Every pass has a history of its own; the source has room for ten. -/
def fifthPasses (w : Words) (lpLen : Int) : Nat → Passes → Checked Passes
  | 0, s => pure s
  | i + 1, s => do
    let s ← fifthPasses w lpLen i s
    fifthPass w lpLen i s

/-- The largest number of passes for which there is a table. -/
def cicTableMax : Int := 10

def droop (w : Words) (dsP : Int) (s : Demod) : Checked Demod := do
  let fir := cic9Tables.getD dsP.toNat []
  let inPhase ← genericFir w s.lowpassed 0 s.lpLen fir s.droopIHist
  let quadrature ← genericFir w inPhase.1 1 (s.lpLen - 1) fir s.droopQHist
  pure { s with
    lowpassed := quadrature.1, droopIHist := inPhase.2, droopQHist := quadrature.2 }

def halve (w : Words) (c : Setup) (s : Demod) : Checked Demod := do
  let dsP := c.downsamplePasses
  let passed ← fifthPasses w s.lpLen dsP.toNat ⟨s.lpIHist, s.lpQHist, s.lowpassed⟩
  let s := { s with
    lowpassed := passed.lowpassed, lpIHist := passed.lpIHist, lpQHist := passed.lpQHist
    lpLen := s.lpLen >>> dsP.toNat }
  if c.compFirSize = 9 ∧ dsP ≤ cicTableMax then droop w dsP s else pure s

def sumUp (w : Words) (c : Setup) (s : Demod) : Checked Demod := do
  let summed ← lowPass w c.downsample s.lpLen s.boxcar s.lowpassed
  pure { s with boxcar := summed.1, lowpassed := summed.2.1, lpLen := summed.2.2 }

def decimate (w : Words) (c : Setup) (s : Demod) : Checked Demod :=
  if c.downsamplePasses ≠ 0 then halve w c s else sumUp w c s

/-! ### Squelch -/

def rmsRound (lowpassed : Buf) (i : Int) (sums : Int × Int) : Checked (Int × Int) := do
  let s ← load maximumBufLength lowpassed i
  pure (sums.1 + s * s, sums.2 + s)

/-- `rms` with a step of 1. -/
def rms (fl : Floats) (lowpassed : Buf) (len : Int) : Checked Int := do
  let sums ← forLoop 0 len 1 (rmsRound lowpassed) (0, 0)
  pure (fl.rms sums.2.1 sums.2.2 len)

def silence (s : Demod) : Checked Demod := do
  let zeros ← forLoop 0 s.lpLen 1 (fun i buf => save maximumBufLength buf i 0) s.lowpassed
  pure { s with lowpassed := zeros.2, squelchHits := s.squelchHits + 1 }

def squelch (fl : Floats) (c : Setup) (s : Demod) : Checked Demod :=
  if c.squelchLevel ≠ 0 then do
    let sr ← rms fl s.lowpassed s.lpLen
    if sr < c.squelchLevel then silence s else pure { s with squelchHits := 0 }
  else pure s

/-! ### The modes -/

/-- An operation on the type `int` of the machine. -/
def wraps (x : Int) : Checked Int := pure (machine.int32 x)

def polarDiscriminant (fl : Floats) (ar aj br bj : Int) : Checked Int := do
  let c ← multiply wraps ar aj br (← wraps (-bj))
  pure (fl.angle c.2 c.1)

def discriminate (fl : Floats) (customAtan : CustomAtan) (ar aj br bj : Int) : Checked Int :=
  match customAtan with
  | .std => polarDiscriminant fl ar aj br bj
  | .fast => polarDiscFast wraps ar aj br bj
  | .lut => polarDiscLut wraps (fun i => pure (fl.atanLut i)) ar aj br bj

def fmRound (fl : Floats) (customAtan : CustomAtan) (lp : Buf) (i : Int) (result : Buf) :
    Checked Buf := do
  let ar ← load maximumBufLength lp i
  let aj ← load maximumBufLength lp (i + 1)
  let br ← load maximumBufLength lp (i - 2)
  let bj ← load maximumBufLength lp (i - 1)
  let pcm ← discriminate fl customAtan ar aj br bj
  save maximumBufLength result (i / 2) (machine.int16 pcm)

/-- All of `result` that `fm_demod` stores. -/
def fmResult (fl : Floats) (c : Setup) (s : Demod) : Checked Buf := do
  let ar ← load maximumBufLength s.lowpassed 0
  let aj ← load maximumBufLength s.lowpassed 1
  let pcm ← polarDiscriminant fl ar aj s.preR s.preJ
  let result ← save maximumBufLength s.result 0 (machine.int16 pcm)
  let filled ← forLoop 2 (s.lpLen - 1) 2 (fmRound fl c.customAtan s.lowpassed) result
  pure filled.2

def fmDemod (fl : Floats) (c : Setup) (s : Demod) : Checked Demod := do
  let result ← fmResult fl c s
  let preR ← load maximumBufLength s.lowpassed (s.lpLen - 2)
  let preJ ← load maximumBufLength s.lowpassed (s.lpLen - 1)
  pure { s with result, preR, preJ, resultLen := s.lpLen / 2 }

/-- The loop of `am_demod`, `usb_demod` and `lsb_demod`, with `pcm` for each complex sample. -/
def sampleDemod (pcm : Int → Int → Int) (s : Demod) : Checked Demod := do
  let filled ← forLoop 0 s.lpLen 2 (fun i result => do
    let r ← load maximumBufLength s.lowpassed i
    let j ← load maximumBufLength s.lowpassed (i + 1)
    save maximumBufLength result (i / 2) (machine.int16 (pcm r j))) s.result
  pure { s with result := filled.2, resultLen := s.lpLen / 2 }

def amDemod (fl : Floats) (c : Setup) : Demod → Checked Demod :=
  sampleDemod fun r j => fl.sqrt (machine.int32 (r * r + j * j)) * c.outputScale

def usbDemod (c : Setup) : Demod → Checked Demod :=
  sampleDemod fun r j => machine.int16 (r + j) * c.outputScale

def lsbDemod (c : Setup) : Demod → Checked Demod :=
  sampleDemod fun r j => machine.int16 (r - j) * c.outputScale

def rawDemod (s : Demod) : Checked Demod := do
  let filled ← forLoop 0 s.lpLen 1 (fun i result => do
    let x ← load maximumBufLength s.lowpassed i
    save maximumBufLength result i x) s.result
  pure { s with result := filled.2, resultLen := s.lpLen }

def modeDemod (fl : Floats) (c : Setup) (s : Demod) : Checked Demod :=
  match c.mode with
  | .fm => fmDemod fl c s
  | .am => amDemod fl c s
  | .usb => usbDemod c s
  | .lsb => lsbDemod c s
  | .raw => rawDemod s

/-! ### After the demodulation -/

/-- The inner loop of `low_pass_simple`. -/
def stepSum (signal2 : Buf) (i step : Int) : Checked Int := do
  let sum ← forLoop 0 step 1 (fun i2 sum => do
    let x ← load maximumBufLength signal2 (i + i2)
    pure (machine.int32 (sum + x))) 0
  pure sum.2

def simpleRound (step i : Int) (signal2 : Buf) : Checked Buf := do
  let sum ← stepSum signal2 i step
  let place ← divide i step
  save maximumBufLength signal2 place (machine.int16 sum)

/-- The array and the length that `low_pass_simple` returns: no wrap around. -/
def lowPassSimple (signal2 : Buf) (len step : Int) : Checked (Buf × Int) := do
  let summed ← forLoop 0 len step (simpleRound step) signal2
  let place ← divide summed.1 step
  let last ← load maximumBufLength summed.2 place
  let signal2 ← save maximumBufLength summed.2 (place + 1) last
  let length ← divide len step
  pure (signal2, length)

def postDownsample (c : Setup) (s : Demod) : Checked Demod := do
  let simple ← lowPassSimple s.result s.resultLen c.postDownsample
  pure { s with result := simple.1, resultLen := simple.2 }

def deemphRound (deemphA i : Int) (s : Int × Buf) : Checked (Int × Buf) := do
  let x ← load maximumBufLength s.2 i
  let d := machine.int32 (x - s.1)
  let half := deemphA.tdiv 2
  let change ← divide (if d > 0 then machine.int32 (d + half) else machine.int32 (d - half)) deemphA
  let avg := machine.int32 (s.1 + change)
  let result ← save maximumBufLength s.2 i (machine.int16 avg)
  pure (avg, result)

def deemphFilter (c : Setup) (s : Demod) : Checked Demod := do
  let filtered ← forLoop 0 s.resultLen 1 (deemphRound c.deemphA) (s.deemphAvg, s.result)
  pure { s with deemphAvg := filtered.2.1, result := filtered.2.2 }

def dcSum (s : Demod) : Checked Int := do
  let sum ← forLoop 0 s.resultLen 1 (fun i sum => do
    let x ← load maximumBufLength s.result i
    pure (sum + x)) 0
  pure sum.2

def dcSubtract (s : Demod) (avg : Int) : Checked Buf := do
  let shifted ← forLoop 0 s.resultLen 1 (fun i result => do
    let x ← load maximumBufLength result i
    save maximumBufLength result i (machine.int16 (x - avg))) s.result
  pure shifted.2

def dcBlockFilter (s : Demod) : Checked Demod := do
  let sum ← dcSum s
  let avg ← divide sum s.resultLen
  let avg := (machine.int32 (machine.int32 avg + s.dcAvg * 9)).tdiv 10
  let result ← dcSubtract s avg
  pure { s with result, dcAvg := avg }

def resampleResult (c : Setup) (s : Demod) : Checked Demod := do
  let resampled ← lowPassReal machine c.rateOut c.rateOut2 s.resultLen s.resample s.result
  pure { s with
    resample := resampled.1, result := resampled.2.1, resultLen := resampled.2.2 }

/-- A stage that is in use only on a condition. -/
def optional (wanted : Bool) (stage : Demod → Checked Demod) (s : Demod) : Checked Demod :=
  if wanted then stage s else pure s

/-- The part of `full_demod` that is left out for raw samples. -/
def postProcess (c : Setup) (s : Demod) : Checked Demod := do
  let s ← optional (c.postDownsample > 1) (postDownsample c) s
  let s ← optional c.deemph (deemphFilter c) s
  let s ← optional c.dcBlock dcBlockFilter s
  optional (c.rateOut2 > 0) (resampleResult c) s

def fullDemod (fl : Floats) (c : Setup) (s : Demod) : Checked Demod := do
  let s ← decimate machine c s
  let s ← squelch fl c s
  let s ← modeDemod fl c s
  if c.mode = .raw then pure s else postProcess c s

/-! ### From buffer to buffer -/

/-- A rotation of the samples by 1, j, -1, -j and so on; a buffer is a multiple of 8 bytes. -/
def rotate90 : List UInt8 → List UInt8
  | b0 :: b1 :: b2 :: b3 :: b4 :: b5 :: b6 :: b7 :: rest =>
    b0 :: b1 :: (255 - b3) :: b2 :: (255 - b4) :: (255 - b5) :: b7 :: (255 - b6) :: rotate90 rest
  | rest => rest

/-- What `rtlsdr_callback` puts into `buf16`. -/
def buf16 (offsetTuning : Bool) (buf : List UInt8) : List Int :=
  (if offsetTuning then buf else rotate90 buf).map byteSample

/-- `memcpy` to the start of an array. -/
def memcpy (dst : Buf) (src : List Int) (i : Int) : Int :=
  if 0 ≤ i ∧ i < src.length then src.getD i.toNat 0 else dst i

/-- The end of `rtlsdr_callback`. -/
def receive (src : List Int) (s : Demod) : Demod :=
  { s with lowpassed := memcpy s.lowpassed src, lpLen := src.length }

/-- The buffers that the demodulator works on, one after another. -/
def demodThread (fl : Floats) (c : Setup) (offsetTuning : Bool) :
    List (List UInt8) → Demod → Checked Demod
  | [], s => pure s
  | buf :: rest, s => do
    let s ← fullDemod fl c (receive (buf16 offsetTuning buf) s)
    demodThread fl c offsetTuning rest s

/-- The state at the start, which is all zero but for `squelch_hits`. -/
def demodInit : Demod where
  lowpassed _ := 0
  lpLen := 0
  lpIHist _ := .empty
  lpQHist _ := .empty
  droopIHist := List.replicate 9 0
  droopQHist := List.replicate 9 0
  result _ := 0
  resultLen := 0
  boxcar := .empty
  preR := 0
  preJ := 0
  squelchHits := 11
  resample := .empty
  deemphAvg := 0
  dcAvg := 0

theorem rotate90_length (buf : List UInt8) : (rotate90 buf).length = buf.length := by
  induction buf using rotate90.induct with
  | case1 b0 b1 b2 b3 b4 b5 b6 b7 rest ih =>
    rw [rotate90]
    simp only [List.length_cons, ih]
  | case2 rest short => rw [rotate90.eq_2 rest short]

theorem buf16_length (offsetTuning : Bool) (buf : List UInt8) :
    (buf16 offsetTuning buf).length = buf.length := by
  rw [buf16, List.length_map]
  cases offsetTuning with
  | true => rfl
  | false => exact rotate90_length buf

theorem mem_buf16 {offsetTuning : Bool} {buf : List UInt8} {x : Int}
    (member : x ∈ buf16 offsetTuning buf) : -127 ≤ x ∧ x ≤ 128 := by
  rw [buf16, List.mem_map] at member
  obtain ⟨byte, _, rfl⟩ := member
  exact byteSample_range byte

theorem memcpy_cases (dst : Buf) (src : List Int) (i : Int) :
    memcpy dst src i ∈ src ∨ memcpy dst src i = dst i := by
  rw [memcpy]
  split_ifs with inside
  · left
    rw [List.getD_eq_getElem _ _ (by omega)]
    exact List.getElem_mem _
  · right
    rfl

/-! ### What every call keeps -/

def AllInt16 (buf : Buf) : Prop := ∀ i, IsInt16 (buf i)

theorem AllInt16.update {buf : Buf} (all : AllInt16 buf) (i : Int) {x : Int} (fits : IsInt16 x) :
    AllInt16 (Function.update buf i x) := by
  intro j
  by_cases same : j = i
  · rw [same, Function.update_self]
    exact fits
  · rw [Function.update_of_ne same]
    exact all j

theorem AllInt16.memcpy {dst : Buf} (all : AllInt16 dst) {src : List Int}
    (bytes : ∀ x ∈ src, -127 ≤ x ∧ x ≤ 128) : AllInt16 (memcpy dst src) := by
  intro i
  rcases memcpy_cases dst src i with copied | same
  · have range := bytes _ copied
    exact ⟨by omega, by omega⟩
  · rw [same]
    exact all i

theorem lowPass_int16 (downsample lpLen : Int) (acc : Boxcar) {lowpassed : Buf}
    (all : AllInt16 lowpassed) :
    AllInt16 (lowPass machine downsample lpLen acc lowpassed).value.2.1 := by
  refine whileLoop_invariant _ _ (fun s : LowPass => AllInt16 s.lowpassed) ?_ _ _ all
  intro s now _
  rw [lowPassRound, value_bind, value_bind, apply_ite Checked.value]
  split_ifs
  · exact now
  · exact (now.update _ (isInt16_int16 _)).update _ (isInt16_int16 _)

theorem fifthOrder_int16 {data : Buf} (base length : Int) (hist : Taps) (all : AllInt16 data) :
    AllInt16 (fifthOrder machine data base length hist).value.1 := by
  refine whileLoop_invariant _ _ (fun s : FifthOrder => AllInt16 s.data) ?_ _ _
    (all.update _ (isInt16_int16 _))
  intro s now _
  exact now.update _ (isInt16_int16 _)

theorem genericFir_int16 {data : Buf} (base length : Int) (fir hist : List Int)
    (all : AllInt16 data) : AllInt16 (genericFir machine data base length fir hist).value.1 := by
  refine whileLoop_invariant _ _ (fun s : GenericFir => AllInt16 s.data) ?_ _ _ all
  intro s now _
  exact now.update _ (isInt16_int16 _)

theorem fifthPasses_gives {lpLen : Int} (low : 0 ≤ lpLen) (fits : lpLen ≤ maximumBufLength)
    (passes : Nat) (s : Passes) (all : AllInt16 s.lowpassed) :
    (fifthPasses machine lpLen passes s).Gives fun t => AllInt16 t.lowpassed := by
  induction passes with
  | zero => exact gives_pure all
  | succ i ih =>
    refine ih.bind fun t kept => ?_
    have shifted : lpLen >>> i ≤ lpLen := by
      rw [Int.shiftRight_eq_div_pow]
      exact Int.ediv_le_self _ low
    have size := maximumBufLength_eq
    refine Gives.bind (P := fun r => AllInt16 r.1) ⟨?_, ?_⟩ fun re inPhase => ?_
    · exact fifthOrder_exact machine _ 0 _ _ (by decide) (by decide) (by omega)
    · exact fifthOrder_int16 0 _ _ kept
    refine Gives.bind (P := fun r => AllInt16 r.1) ⟨?_, ?_⟩ fun im quadrature => ?_
    · exact fifthOrder_exact machine _ 1 _ _ (by decide) (by decide) (by omega)
    · exact fifthOrder_int16 1 _ _ inPhase
    exact gives_pure quadrature

theorem droop_gives (dsP : Int) (s : Demod) (fits : s.lpLen ≤ maximumBufLength)
    (all : AllInt16 s.lowpassed) :
    (droop machine dsP s).Gives fun t =>
      AllInt16 t.lowpassed ∧ t.lpLen = s.lpLen ∧ t.boxcar = s.boxcar ∧ t.resample = s.resample := by
  refine Gives.bind (P := fun r => AllInt16 r.1) ⟨?_, ?_⟩ fun re inPhase => ?_
  · exact genericFir_exact machine _ _ 0 _ _ (by decide) (by omega)
  · exact genericFir_int16 0 _ _ _ all
  refine Gives.bind (P := fun r => AllInt16 r.1) ⟨?_, ?_⟩ fun im quadrature => ?_
  · exact genericFir_exact machine _ _ 1 _ _ (by decide) (by omega)
  · exact genericFir_int16 1 _ _ _ inPhase
  exact gives_pure ⟨quadrature, rfl, rfl, rfl⟩

theorem halve_gives (c : Setup) (s : Demod) (low : 0 ≤ s.lpLen)
    (fits : s.lpLen ≤ maximumBufLength) (all : AllInt16 s.lowpassed) :
    (halve machine c s).Gives fun t =>
      AllInt16 t.lowpassed ∧ t.lpLen = s.lpLen >>> c.downsamplePasses.toNat ∧
        t.boxcar = s.boxcar ∧ t.resample = s.resample := by
  have shifted : 0 ≤ s.lpLen >>> c.downsamplePasses.toNat ∧
      s.lpLen >>> c.downsamplePasses.toNat ≤ s.lpLen := by
    rw [Int.shiftRight_eq_div_pow]
    exact ⟨Int.ediv_nonneg low (Int.natCast_nonneg _), Int.ediv_le_self _ low⟩
  refine (fifthPasses_gives low fits _ _ all).bind fun passed kept => ?_
  exact gives_ite (fun _ => droop_gives _ _ (Int.le_trans shifted.2 fits) kept)
    (fun _ => gives_pure ⟨kept, rfl, rfl, rfl⟩)

/-- The number of samples that `low_pass` adds up: every one is stored unless `downsample` is more
than one. -/
def boxcarWidth (downsample : Int) : Nat := (max downsample 1).toNat

theorem one_le_boxcarWidth (downsample : Int) : 1 ≤ boxcarWidth downsample := by
  rw [boxcarWidth]
  omega

theorem lowPassStep_count (w : Words) (downsample : Int) (xs : List (Int × Int)) (acc : Boxcar)
    (p : Nat) (phase : acc.prevIndex = p) (below : p < boxcarWidth downsample) :
    (Transducer.run (lowPassStep w downsample) acc xs).1.prevIndex =
        ((p + xs.length) % boxcarWidth downsample : Nat) ∧
      (Transducer.run (lowPassStep w downsample) acc xs).2.length =
        (p + xs.length) / boxcarWidth downsample := by
  induction xs generalizing acc p with
  | nil =>
    rw [Transducer.run_nil, List.length_nil, Nat.add_zero, Nat.mod_eq_of_lt below,
      Nat.div_eq_of_lt below]
    exact ⟨phase, rfl⟩
  | cons x xs ih =>
    have next : (acc.add w x).prevIndex = ((p + 1 : Nat) : Int) := by
      change acc.prevIndex + 1 = _
      rw [phase, Int.natCast_succ]
    have more : p + (x :: xs).length = p + 1 + xs.length := by
      rw [List.length_cons]
      omega
    rw [Transducer.run_cons, more, lowPassStep]
    dsimp only
    by_cases full : (acc.add w x).prevIndex < downsample
    · have inside : p + 1 < boxcarWidth downsample := by
        rw [boxcarWidth]
        omega
      rw [if_pos full]
      exact ih _ (p + 1) next inside
    · -- The last sample of a window: the phase starts at zero again.
      have width : boxcarWidth downsample = p + 1 := by
        rw [boxcarWidth] at below ⊢
        omega
      obtain ⟨last, count⟩ := ih Boxcar.empty 0 rfl (one_le_boxcarWidth downsample)
      rw [if_neg full]
      dsimp only
      rw [List.length_append, count, last, List.length_singleton, Nat.zero_add, width,
        Nat.add_mod_left, Nat.add_div_left _ (Nat.succ_pos p), Nat.add_comm 1]
      exact ⟨rfl, rfl⟩

theorem sumUp_gives (c : Setup) (s : Demod) (n p : Nat) (length : s.lpLen = 2 * n)
    (fits : s.lpLen ≤ maximumBufLength) (all : AllInt16 s.lowpassed)
    (phase : s.boxcar.prevIndex = p) (below : p < boxcarWidth c.downsample) :
    (sumUp machine c s).Gives fun t =>
      AllInt16 t.lowpassed ∧ t.lpLen = 2 * ((p + n) / boxcarWidth c.downsample : Nat) ∧
        t.boxcar.prevIndex = ((p + n) % boxcarWidth c.downsample : Nat) ∧
        t.resample = s.resample := by
  obtain ⟨xs, count, same⟩ := exists_interleave s.lowpassed 0 n
  obtain ⟨state, stored, _⟩ := lowPass_value machine c.downsample s.boxcar xs s.lowpassed same
  obtain ⟨last, outputs⟩ := lowPassStep_count machine c.downsample xs s.boxcar p phase below
  rw [count] at state stored last outputs
  have exactly := lowPass_exact machine c.downsample s.boxcar s.lowpassed n (by omega)
  have kept := lowPass_int16 c.downsample (2 * n) s.boxcar all
  rw [sumUp, length]
  refine Gives.bind (P := fun r => r = (lowPass machine c.downsample (2 * n) s.boxcar
    s.lowpassed).value) ⟨exactly, rfl⟩ ?_
  rintro r rfl
  refine gives_pure ⟨kept, ?_, ?_, rfl⟩
  · rw [← outputs]
    exact stored
  · rw [← last, ← state]
/-- The phase of the boxcar after a buffer of `n` samples. -/
def nextPhase (c : Setup) (p n : Nat) : Nat :=
  if c.downsamplePasses ≠ 0 then p else (p + n) % boxcarWidth c.downsample

/-- The new `lp_len`, for a buffer of `n` samples that begins at phase `p`. -/
def decimatedLen (c : Setup) (p n : Nat) : Int :=
  if c.downsamplePasses ≠ 0 then (2 * n : Int) >>> c.downsamplePasses.toNat
  else 2 * ((p + n) / boxcarWidth c.downsample : Nat)

theorem decimate_gives (c : Setup) (s : Demod) (n p : Nat) (length : s.lpLen = 2 * n)
    (fits : s.lpLen ≤ maximumBufLength) (all : AllInt16 s.lowpassed)
    (phase : s.boxcar.prevIndex = p) (below : p < boxcarWidth c.downsample) :
    (decimate machine c s).Gives fun t =>
      AllInt16 t.lowpassed ∧ t.lpLen = decimatedLen c p n ∧
        t.boxcar.prevIndex = nextPhase c p n ∧ t.resample = s.resample := by
  rw [decimate, decimatedLen, nextPhase]
  by_cases passes : c.downsamplePasses ≠ 0
  · rw [if_pos passes, if_pos passes, if_pos passes, ← length, ← phase]
    refine (halve_gives c s (by omega) fits all).mono ?_
    rintro t ⟨kept, shorter, same, apart⟩
    exact ⟨kept, shorter, by rw [same], apart⟩
  · rw [if_neg passes, if_neg passes, if_neg passes]
    exact sumUp_gives c s n p length fits all phase below

theorem nextPhase_lt {c : Setup} {p : Nat} (n : Nat) (below : p < boxcarWidth c.downsample) :
    nextPhase c p n < boxcarWidth c.downsample := by
  rw [nextPhase]
  split_ifs
  · exact below
  · exact Nat.mod_lt _ (one_le_boxcarWidth _)

theorem decimatedLen_range {c : Setup} {p n : Nat} (below : p < boxcarWidth c.downsample) :
    0 ≤ decimatedLen c p n ∧ decimatedLen c p n ≤ 2 * n := by
  rw [decimatedLen]
  split_ifs
  · rw [Int.shiftRight_eq_div_pow]
    exact ⟨Int.ediv_nonneg (by omega) (Int.natCast_nonneg _), Int.ediv_le_self _ (by omega)⟩
  · have width := one_le_boxcarWidth c.downsample
    have enough : (p + n) / boxcarWidth c.downsample < n + 1 := by
      rw [Nat.div_lt_iff_lt_mul width, Nat.succ_mul]
      have atLeast : n ≤ n * boxcarWidth c.downsample := Nat.le_mul_of_pos_right n width
      omega
    generalize (p + n) / boxcarWidth c.downsample = outputs at enough
    omega

theorem squelch_gives (fl : Floats) (c : Setup) (s : Demod) (fits : s.lpLen ≤ maximumBufLength)
    (all : AllInt16 s.lowpassed) :
    (squelch fl c s).Gives fun t =>
      AllInt16 t.lowpassed ∧ t.lpLen = s.lpLen ∧ t.boxcar = s.boxcar ∧
        t.resample = s.resample := by
  have sums : (rms fl s.lowpassed s.lpLen).Gives fun _ => True := by
    refine forLoop_exact Int.one_pos (fun k sums inside => ?_) _
    exact (load_gives (by omega) (by omega)).bind fun _ _ => gives_pure trivial
  have zeros : (silence s).Gives fun t =>
      AllInt16 t.lowpassed ∧ t.lpLen = s.lpLen ∧ t.boxcar = s.boxcar ∧
        t.resample = s.resample := by
    refine (forLoop_gives AllInt16 Int.one_pos ?_ _ all).bind
      fun zeros finished => gives_pure ⟨finished.kept, rfl, rfl, rfl⟩
    intro k buf inside now
    refine (save_gives (by omega) (by omega)).mono ?_
    rintro _ rfl
    exact now.update _ ⟨by decide, by decide⟩
  refine gives_ite (fun _ => ?_) (fun _ => gives_pure ⟨all, rfl, rfl, rfl⟩)
  refine sums.bind fun sr _ => ?_
  exact gives_ite (fun _ => zeros) (fun _ => gives_pure ⟨all, rfl, rfl, rfl⟩)

end RtlSdr.Fm
