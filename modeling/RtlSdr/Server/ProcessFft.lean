import RtlSdr.Lib.CFloat
import RtlSdr.Ring

/-!
# The hop processing of `rtlsdr_server_process_fft`

Of every `fft_step` complex samples the first `fft_bins` are windowed and transformed; the powers of
`fft_accum` such windows are averaged into one spectrum. The body of the loop is one function, since
it runs outside the lock except where it publishes a spectrum.
-/
namespace RtlSdr

def fftDefaultBins : Nat := 1024
def fftDefaultStep : Nat := 4096
def fftDefaultAccum : Nat := 4

/-- `struct fft_plan` for `n` points: the window, and `fft_execute` in place, which may
fail. -/
structure FftTransform (F : Type) (n : Nat) where
  window : List F
  execute : List F → Option (List F)
  window_length : window.length = n
  execute_length : ∀ points spectrum, execute points = some spectrum →
    points.length = 2 * n → spectrum.length = 2 * n

/-- The FFT fields of the server that are set once. -/
structure FftPlan (F : Type) where
  bins : Nat
  step : Nat
  accum : Nat
  transform : FftTransform F bins
  bins_ge : 2 ≤ bins
  step_ge : bins ≤ step
  accum_pos : 0 < accum

/-- The FFT fields only the compute thread touches. -/
structure FftLocal (F : Type) where
  cursor : Cursor
  nsamples : Nat
  accumCount : Nat
  fftIn : List F
  fftAcc : List F

/-- What one round of the loop comes to. -/
inductive FftRound (F : Type)
  | collecting
  | failed
  | spectrum (power : List F)

variable {F : Type} [CFloat F]

/-- `(float)input[...] - 127.5f`. -/
def fftSample (byte : UInt8) : F := CFloat.ofInt byte.toNat - 127.5

/-- The window loop over interleaved components. -/
def windowed : List F → List F → List F
  | w :: window, i :: q :: points => i * w :: q * w :: windowed window points
  | _, points => points

def addPower : List F → List F → List F
  | a :: acc, i :: q :: points => (a + (i * i + q * q)) :: addPower acc points
  | acc, _ => acc

/-- The body of the loop of `rtlsdr_server_process_fft`: the state, the input it has
not consumed and what came of it. -/
def processFftRound (plan : FftPlan F) (st : FftLocal F) (input : List UInt8) :
    FftLocal F × List UInt8 × FftRound F :=
  let remaining :=
    if st.nsamples < plan.bins then plan.bins - st.nsamples else plan.step - st.nsamples
  let count := min (input.length / 2) remaining
  let fftIn :=
    -- past the bins the samples up to the end of the hop are skipped
    if st.nsamples < plan.bins then
      Memory.splice st.fftIn (2 * st.nsamples) ((input.take (2 * count)).map fftSample)
    else st.fftIn
  let rest := input.drop (2 * count)
  let nsamples := st.nsamples + count
  if nsamples = plan.step then
    let fftIn := windowed plan.transform.window fftIn
    match plan.transform.execute fftIn with
    | none => ({ st with fftIn, nsamples }, rest, .failed)
    | some fftIn =>
      let fftAcc := addPower st.fftAcc fftIn
      let accumCount := st.accumCount + 1
      if accumCount ≥ plan.accum then
        ({ st with fftIn, fftAcc := List.replicate plan.bins 0.0, nsamples := 0, accumCount := 0 },
          rest, .spectrum (fftAcc.map (· / CFloat.ofInt accumCount)))
      else ({ st with fftIn, fftAcc, nsamples := 0, accumCount }, rest, .collecting)
  else ({ st with fftIn, nsamples }, rest, .collecting)

/-- The local part of `fft_gap`, which is also the state `calloc` leaves. -/
def FftLocal.clear (plan : FftPlan F) (st : FftLocal F) : FftLocal F :=
  { st with
    nsamples := 0
    accumCount := 0
    fftIn := List.replicate (2 * plan.bins) 0.0
    fftAcc := List.replicate plan.bins 0.0 }

/-- A rectangular window and the identity in place of the transform. -/
def plainTransform (F : Type) [CFloat F] (bins : Nat) : FftTransform F bins :=
  { window := List.replicate bins 1.0
    execute := some
    window_length := by simp
    execute_length := by
      rintro points spectrum ⟨⟩ length
      exact length }

end RtlSdr
