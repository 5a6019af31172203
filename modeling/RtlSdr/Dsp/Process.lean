import RtlSdr.Dsp.Stage
import RtlSdr.Lib.Memory
import RtlSdr.Lib.Transducer

/-!
# The receiver chain (`rtlsdr_dsp`)

DC blocker and NCO feed the first stage in blocks; the later stages run once for each
block. The five process functions differ in the number of later stages only.
-/
namespace RtlSdr

variable {F D : Type} [CFloat F] [CDouble D F]

/-- `struct rtlsdr_dsp`. Stage 1 is kept apart from the later ones, so that there is
always one; `num_stages` is one more than there are later stages. -/
structure Dsp (F D : Type) where
  inputRate : Nat
  outputRate : Nat
  bandwidth : Nat
  freqOffset : Int
  phase : UInt32
  phaseInc : UInt32
  dcAlpha : D
  dcXi : D
  dcXq : D
  dcYi : D
  dcYq : D
  first : Stage F
  later : List (Stage F)

def ncoSize : Nat := 65536

/-- `nco_table[i]`. -/
def ncoTable (D : Type) {F : Type} [CDouble D F] (i : Nat) : F :=
  CDouble.toFloat (CDouble.cos (2.0 * mPi * CDouble.ofInt i / CDouble.ofInt ncoSize : D))

def ncoCos (D : Type) {F : Type} [CDouble D F] (ph : UInt32) : F := ncoTable D (ph >>> 16).toNat

def ncoSin (D : Type) {F : Type} [CDouble D F] (ph : UInt32) : F :=
  ncoTable D (((ph >>> 16) - 16384) &&& 65535).toNat

def sat16 (v : F) : Int16 :=
  let v := v * 256.0
  let v := if CFloat.lt v (-32768.0) then -32768.0 else if CFloat.lt 32767.0 v then 32767.0 else v
  CFloat.toInt16 v

/-- One input sample through the DC blocker and the NCO. -/
def Dsp.mix (dsp : Dsp F D) (sample : UInt8 × UInt8) : Dsp F D × (F × F) :=
  let cos : D := CDouble.ofFloat (ncoCos D dsp.phase)
  let sin : D := CDouble.ofFloat (ncoSin D dsp.phase)
  let ri : D := CDouble.ofInt sample.1.toNat - 127.5
  let rq : D := CDouble.ofInt sample.2.toNat - 127.5
  let dcYi := ri - dsp.dcXi + dsp.dcAlpha * dsp.dcYi
  let dcYq := rq - dsp.dcXq + dsp.dcAlpha * dsp.dcYq
  ({ dsp with phase := dsp.phase + dsp.phaseInc, dcYi, dcYq, dcXi := ri, dcXq := rq },
    (CDouble.toFloat (dcYi * cos + dcYq * sin), CDouble.toFloat (dcYq * cos - dcYi * sin)))

/-- The body of the `STAGE1_BLOCK` loop: mix and store, without counting. -/
def Dsp.feed (dsp : Dsp F D) (sample : UInt8 × UInt8) : Dsp F D :=
  let (dsp, m) := dsp.mix sample
  { dsp with first := dsp.first.write m }

/-- `STAGE1_BLOCK(count)` from the front of the input; the callers never ask for more
samples than there are. -/
def stage1Block : Nat → Dsp F D → List UInt8 → Dsp F D × List UInt8
  | 0, dsp, input => (dsp, input)
  | count + 1, dsp, i :: q :: input => stage1Block count (dsp.feed (i, q)) input
  | _ + 1, dsp, input => (dsp, input)

/-- `stage1_next`: whether a block was completed, and the input left. -/
def stage1Next (dsp : Dsp F D) (input : List UInt8) : Dsp F D × List UInt8 × Bool :=
  let available := input.length / 2
  let missing := dsp.first.decimation - dsp.first.counter
  if available = 0 then (dsp, input, false)
  else
    let count := if available < missing then available else missing
    let (dsp, input) := stage1Block count dsp input
    -- `count` is at most what was missing, so the source's `!=` is `<`
    if short : dsp.first.counter + count < dsp.first.decimation then
      ({ dsp with first := dsp.first.count (dsp.first.counter + count) short }, input, false)
    else
      ({ dsp with first := dsp.first.count 0 (Nat.zero_lt_of_lt dsp.first.counting) }, input, true)

/-- The nested `stage_run` calls: a stage that does not fire ends the chain. -/
def cascade : List (Stage F) → F × F → List (Stage F) × Option (F × F)
  | [], x => ([], some x)
  | st :: later, x =>
    match stageRun st x with
    | (st, none) => (st :: later, none)
    | (st, some y) =>
      let (later, out) := cascade later y
      (st :: later, out)

/-- The components written for a filtered sample. -/
def components : Option (F × F) → List Int16
  | none => []
  | some y => [sat16 y.1, sat16 y.2]

/-- The loop of the process functions with `stages` later stages. -/
def processLoop (stages : Nat) : Nat → Dsp F D → List UInt8 → Dsp F D × List Int16
  | 0, dsp, _ => (dsp, [])
  | fuel + 1, dsp, input =>
    match stage1Next dsp input with
    | (dsp, _, false) => (dsp, [])
    | (dsp, input, true) =>
      let (later, out) := cascade (dsp.later.take stages) (stageFir dsp.first)
      let (dsp, rest) :=
        processLoop stages fuel { dsp with later := later ++ dsp.later.drop stages } input
      (dsp, components out ++ rest)

/-- A process function; every completed block takes input, so the fuel suffices. -/
def process (stages : Nat) (dsp : Dsp F D) (input : List UInt8) : Dsp F D × List Int16 :=
  processLoop stages (input.length + 1) dsp input

def processT01 (dsp : Dsp F D) (input : List UInt8) : Dsp F D × List Int16 := process 0 dsp input
def processT04 (dsp : Dsp F D) (input : List UInt8) : Dsp F D × List Int16 := process 1 dsp input
def processT06 (dsp : Dsp F D) (input : List UInt8) : Dsp F D × List Int16 := process 2 dsp input
def processT08 (dsp : Dsp F D) (input : List UInt8) : Dsp F D × List Int16 := process 3 dsp input
def processT10 (dsp : Dsp F D) (input : List UInt8) : Dsp F D × List Int16 := process 4 dsp input

def Dsp.numStages (dsp : Dsp F D) : Nat := dsp.later.length + 1

/-- `process_fn` as `rtlsdr_dsp_create` chooses it. -/
def Dsp.processFn (dsp : Dsp F D) : List UInt8 → Dsp F D × List Int16 :=
  if dsp.numStages = 1 then processT01 dsp
  else if dsp.numStages = 2 then processT04 dsp
  else if dsp.numStages = 3 then processT06 dsp
  else if dsp.numStages = 4 then processT08 dsp
  else processT10 dsp

/-- `rtlsdr_dsp_create`; `allocated` says whether every allocation and the one-time NCO
initialisation succeed, and any failure returns NULL. -/
def dspCreate (allocated : Bool) (inputRate outputRate bandwidth : Nat) (freqOffset : Int) :
    Option (Dsp F D) :=
  match (makePlan inputRate outputRate bandwidth freqOffset : Option (Plan D)) with
  | none => none
  | some plan =>
    if !allocated then none
    else
      let phaseInc : D :=
        CDouble.round (CDouble.ofInt freqOffset / CDouble.ofInt inputRate * 4294967296.0)
      match plan.stages with
      | [] => none
      | first :: later =>
        some
          { inputRate, outputRate, bandwidth := plan.bandwidth, freqOffset
            phase := 0
            phaseInc := UInt32.ofInt (CDouble.toInt64 phaseInc).toInt
            dcAlpha := CDouble.exp (-2.0 * mPi * 10.0 / CDouble.ofInt inputRate)
            dcXi := 0.0, dcXq := 0.0, dcYi := 0.0, dcYq := 0.0
            first := stageInit first
            later := later.map stageInit }

/-- The caller's side of `rtlsdr_dsp_process`; a missing pointer is `none`. -/
structure ProcessCall where
  input : Option (List UInt8)
  inputLen : Nat
  output : Option (List Int16)
  outputCapacity : Nat
  outputLen : Option Nat
deriving DecidableEq, Repr

/-- What a call leaves behind: the instance, the caller's two out-parameters and whether
it returned 0. -/
structure ProcessResult (F D : Type) where
  dsp : Dsp F D
  output : Option (List Int16)
  outputLen : Option Nat
  ok : Bool

def dspProcess (dsp : Dsp F D) (call : ProcessCall) : ProcessResult F D :=
  match call.outputLen, call.input, call.output with
  | none, _, output => ⟨dsp, output, none, false⟩
  | some _, some input, some output =>
    if call.inputLen &&& 1 ≠ 0 ∨ call.outputCapacity < call.inputLen then
      ⟨dsp, some output, some 0, false⟩
    else
      let (dsp, written) := dsp.processFn (input.take call.inputLen)
      ⟨dsp, some (Memory.splice output 0 written), some written.length, true⟩
  | some _, _, output => ⟨dsp, output, some 0, false⟩

/-- The part of `rtlsdr_dsp_reset` done for each stage. -/
def Stage.reset (st : Stage F) : Stage F :=
  { st with
    delayI := List.replicate st.bufSize 0.0
    delayQ := List.replicate st.bufSize 0.0
    wp := 0
    counter := 0
    i_sized := List.length_replicate
    q_sized := List.length_replicate
    inside := Nat.zero_lt_of_lt st.inside
    counting := Nat.zero_lt_of_lt st.counting }

def dspReset (dsp : Dsp F D) : Dsp F D :=
  { dsp with
    phase := 0
    dcXi := 0.0, dcXq := 0.0, dcYi := 0.0, dcYq := 0.0
    first := dsp.first.reset
    later := dsp.later.map Stage.reset }

/-! ### Fresh instances -/

theorem stageInit_reset (plan : PlanStage D) : (stageInit plan : Stage F).reset = stageInit plan :=
  rfl

/-- An instance with the stages of a plan and nothing in its memory. -/
structure Dsp.FreshFrom (dsp : Dsp F D) (plan : Plan D) : Prop where
  stages : ∃ first later, plan.stages = first :: later ∧ dsp.first = stageInit first ∧
    dsp.later = later.map stageInit
  reset : dspReset dsp = dsp

theorem dspCreate_fresh (allocated : Bool) (inputRate outputRate bandwidth : Nat)
    (freqOffset : Int) (dsp : Dsp F D)
    (created : dspCreate allocated inputRate outputRate bandwidth freqOffset = some dsp) :
    ∃ plan, makePlan inputRate outputRate bandwidth freqOffset = some plan ∧
      dsp.FreshFrom plan := by
  unfold dspCreate at created
  split at created
  · cases created
  next plan planned =>
    refine ⟨plan, planned, ?_⟩
    split at created
    · cases created
    simp only at created
    split at created
    · cases created
    next first later stages =>
      cases created
      refine ⟨⟨first, later, stages, rfl, rfl⟩, ?_⟩
      simp only [dspReset, List.map_map, stageInit_reset]
      congr 1

theorem dspCreate_stages (allocated : Bool) (inputRate outputRate bandwidth : Nat)
    (freqOffset : Int) (dsp : Dsp F D)
    (created : dspCreate allocated inputRate outputRate bandwidth freqOffset = some dsp) :
    dsp.numStages ≤ maxStages ∧
      ((dsp.first :: dsp.later).map Stage.decimation).prod = inputRate / outputRate := by
  obtain ⟨plan, planned, ⟨first, later, stages, head, tail⟩, _⟩ :=
    dspCreate_fresh allocated inputRate outputRate bandwidth freqOffset dsp created
  obtain ⟨_, few, product⟩ := makePlan_spec _ _ _ _ _ planned
  rw [stages] at few product
  have factors : (stageInit first :: later.map stageInit : List (Stage F)).map Stage.decimation =
      (first :: later).map PlanStage.factor := by
    simp [stageInit, Function.comp_def]
  constructor
  · rw [Dsp.numStages, tail, List.length_map]
    exact few
  · rw [head, tail, factors]
    exact product

end RtlSdr
