import RtlSdr.Dsp.Convolution

/-!
# Cutting the input does not matter

`rtlsdr_dsp_process` runs the sample machine over the bytes it accepts, and that machine
is a transducer: its state and output do not depend on where the input is cut, a refused
call is no input at all, and a reset forgets everything a sample has ever changed.
-/
namespace RtlSdr

variable {F D : Type} [CFloat F] [CDouble D F]

/-- The caller's buffers are as large as the call says. -/
structure ProcessCall.Valid (call : ProcessCall) : Prop where
  input : ∀ input, call.input = some input → call.inputLen ≤ input.length
  output : ∀ output, call.output = some output → call.outputCapacity ≤ output.length

/-- The bytes a call feeds into the chain: none if it is refused. -/
def ProcessCall.piece (call : ProcessCall) : List UInt8 :=
  match call.outputLen, call.input, call.output with
  | some _, some input, some _ =>
    if call.inputLen &&& 1 ≠ 0 ∨ call.outputCapacity < call.inputLen then []
    else input.take call.inputLen
  | _, _, _ => []

/-- The components a call returns to its caller. -/
def ProcessResult.returned (result : ProcessResult F D) : List Int16 :=
  if result.ok then (result.output.getD []).take (result.outputLen.getD 0) else []

/-- A call, as a step that returns components. -/
def dspCall (dsp : Dsp F D) (call : ProcessCall) : Dsp F D × List Int16 :=
  ((dspProcess dsp call).dsp, (dspProcess dsp call).returned)

/-- What the owner of an instance can do with it. -/
inductive DspAction
  | process (call : ProcessCall)
  | reset

def dspAct (dsp : Dsp F D) : DspAction → Dsp F D
  | .process call => (dspProcess dsp call).dsp
  | .reset => dspReset dsp

/-! ### Single calls -/

variable (dsp : Dsp F D) (call : ProcessCall)

/-- A call is refused and changes only `*output_len`, or it runs the sample machine over
its piece. -/
theorem dspProcess_cases (few : dsp.numStages ≤ maxStages) :
    (dspProcess dsp call = ⟨dsp, call.output, call.outputLen.map fun _ => 0, false⟩ ∧
      call.piece = []) ∨
    ∃ input output, call.input = some input ∧ call.output = some output ∧
      call.inputLen % 2 = 0 ∧ call.inputLen ≤ call.outputCapacity ∧
      call.piece = input.take call.inputLen ∧
      dspProcess dsp call =
        ⟨(Transducer.run sampleStep dsp (samplesOf call.piece)).1,
          some (Memory.splice output 0 (Transducer.run sampleStep dsp (samplesOf call.piece)).2),
          some (Transducer.run sampleStep dsp (samplesOf call.piece)).2.length, true⟩ := by
  obtain ⟨input, inputLen, output, capacity, outputLen⟩ := call
  unfold dspProcess ProcessCall.piece
  rcases outputLen with _ | outputLen
  · exact .inl ⟨rfl, rfl⟩
  rcases input with _ | input
  · exact .inl ⟨rfl, rfl⟩
  rcases output with _ | output
  · exact .inl ⟨rfl, rfl⟩
  by_cases refused : inputLen &&& 1 ≠ 0 ∨ capacity < inputLen
  · left
    simp only [if_pos refused]
    exact ⟨rfl, trivial⟩
  · right
    obtain ⟨even, room⟩ := not_or.mp refused
    have even : inputLen % 2 = 0 := by
      rw [← Nat.and_one_is_mod]
      exact not_not.mp even
    refine ⟨input, output, rfl, rfl, even, Nat.le_of_not_lt room, ?_⟩
    simp only [if_neg refused, processFn_eq dsp _ few]
    exact ⟨trivial, trivial⟩

theorem piece_even (valid : call.Valid) : call.piece.length % 2 = 0 := by
  obtain ⟨input, inputLen, output, capacity, outputLen⟩ := call
  unfold ProcessCall.piece
  rcases outputLen with _ | outputLen
  · rfl
  rcases input with _ | input
  · rfl
  rcases output with _ | output
  · rfl
  have whole : inputLen ≤ input.length := valid.input input rfl
  by_cases refused : inputLen &&& 1 ≠ 0 ∨ capacity < inputLen
  · simp only [if_pos refused]
    rfl
  · have even : inputLen &&& 1 = 0 := not_not.mp (not_or.mp refused).1
    rw [Nat.and_one_is_mod] at even
    simp only [if_neg refused, List.length_take, Nat.min_eq_left whole]
    exact even

/-- Refused or not, a call is the sample machine over its piece. -/
theorem dspCall_eq (few : dsp.numStages ≤ maxStages) :
    dspCall dsp call = Transducer.run sampleStep dsp (samplesOf call.piece) := by
  rcases dspProcess_cases dsp call few with ⟨refused, nothing⟩ | ⟨_, output, _, _, _, _, _, done⟩
  · rw [dspCall, refused, nothing]
    rfl
  · rw [dspCall, done]
    simp only [ProcessResult.returned, if_true, Option.getD_some, Memory.splice, List.take_zero,
      List.nil_append, List.take_left]

/-! ### Sessions -/

theorem run_numStages (samples : List (UInt8 × UInt8)) :
    (Transducer.run sampleStep dsp samples).1.numStages = dsp.numStages :=
  Transducer.run_invariant sampleStep (fun now => now.numStages = dsp.numStages)
    (fun now sample same => (sampleStep_numStages now sample).trans same) dsp rfl samples

theorem calls_eq (calls : List ProcessCall) (valid : ∀ call ∈ calls, call.Valid)
    (few : dsp.numStages ≤ maxStages) :
    Transducer.run dspCall dsp calls =
      Transducer.run sampleStep dsp (samplesOf (calls.flatMap ProcessCall.piece)) := by
  induction calls generalizing dsp with
  | nil => rfl
  | cons call calls ih =>
    have even := piece_even call (valid call List.mem_cons_self)
    have rest := ih (dspCall dsp call).1 (fun c member => valid c (List.mem_cons_of_mem _ member))
      (by rw [dspCall_eq dsp call few, run_numStages]; exact few)
    rw [Transducer.run_cons, rest, dspCall_eq dsp call few, List.flatMap_cons,
      samplesOf_append _ _ even, Transducer.run_append]

/-! ### Reset -/

theorem stageRun_reset (st : Stage F) (x : F × F) : (stageRun st x).1.reset = st.reset := by
  unfold stageRun
  simp only
  split_ifs <;> rfl

theorem cascade_reset (stages : List (Stage F)) (x : F × F) :
    (cascade stages x).1.map Stage.reset = stages.map Stage.reset := by
  induction stages generalizing x with
  | nil => rfl
  | cons st later ih =>
    have same := stageRun_reset st x
    rw [cascade]
    rcases run : stageRun st x with ⟨st', _ | y⟩
    · rw [run] at same
      simp only [List.map_cons, same]
    · rw [run] at same
      simp only [List.map_cons, same, ih]

/-- A reset undoes any sample. -/
theorem sampleStep_reset (sample : UInt8 × UInt8) :
    dspReset (sampleStep dsp sample).1 = dspReset dsp := by
  obtain ⟨first, later, out, chained, step⟩ := sampleStep_cascade dsp sample
  have same := cascade_reset (dsp.first :: dsp.later) (dsp.mix sample).2
  rw [chained, List.map_cons, List.map_cons, List.cons.injEq] at same
  rw [step]
  simp only [dspReset, same.1, same.2]
  rfl

theorem run_reset (samples : List (UInt8 × UInt8)) :
    dspReset (Transducer.run sampleStep dsp samples).1 = dspReset dsp :=
  Transducer.run_invariant sampleStep (fun now => dspReset now = dspReset dsp)
    (fun now sample same => (sampleStep_reset now sample).trans same) dsp rfl samples

/-- Whatever was done with an instance, it has the same stages and resets to the same
state. -/
theorem reachable_reset (few : dsp.numStages ≤ maxStages) (history : List DspAction) :
    (history.foldl dspAct dsp).numStages ≤ maxStages ∧
      dspReset (history.foldl dspAct dsp) = dspReset dsp := by
  induction history generalizing dsp with
  | nil => exact ⟨few, rfl⟩
  | cons action history ih =>
    have step : (dspAct dsp action).numStages = dsp.numStages ∧
        dspReset (dspAct dsp action) = dspReset dsp := by
      cases action with
      | process call =>
        have same := congrArg Prod.fst (dspCall_eq dsp call few)
        rw [dspAct, show (dspProcess dsp call).dsp = _ from same]
        exact ⟨run_numStages dsp _, run_reset dsp _⟩
      | reset =>
        constructor
        · simp [dspAct, dspReset, Dsp.numStages]
        · simp only [dspAct, dspReset, List.map_map]
          rfl
    obtain ⟨stages, same⟩ := ih (dspAct dsp action) (step.1 ▸ few)
    exact ⟨stages, same.trans step.2⟩

/-! ### How much comes out -/

theorem firChain_length (stages : List (Stage F)) (x : List (F × F)) :
    (firChain stages x).length = x.length / (stages.map Stage.decimation).prod := by
  induction stages generalizing x with
  | nil => simp [firChain]
  | cons st later ih =>
    rw [firChain, ih, List.map_cons, List.prod_cons, ← Nat.div_div_eq_div_mul]
    simp [decimatingFir]

theorem reference_length (fresh : Dsp F D) (samples : List (UInt8 × UInt8)) :
    (reference fresh samples).length =
      2 * (samples.length / ((fresh.first :: fresh.later).map Stage.decimation).prod) := by
  have pairs (y : List (F × F)) : (saturated y).length = 2 * y.length := by
    induction y with
    | nil => rfl
    | cons z y ih =>
      simp only [saturated, List.flatMap_cons, List.length_append, List.length_cons,
        List.length_nil] at ih ⊢
      omega
  rw [reference, pairs, firChain_length]
  simp [mixedInput]

/-- The state and the output of an instance depend on the bytes it was given and on
nothing else: not on how they were cut, not on refused calls, and after a reset on
nothing that happened before. -/
theorem dsp_partition (allocated : Bool) (inputRate outputRate bandwidth : Nat)
    (freqOffset : Int) (dsp : Dsp F D)
    (created : dspCreate allocated inputRate outputRate bandwidth freqOffset = some dsp)
    (history : List DspAction) :
    -- piece by piece is one call on the whole, from every reachable state
    (∀ (calls : List ProcessCall) (one : ProcessCall), (∀ call ∈ calls, call.Valid) → one.Valid →
      one.piece = calls.flatMap ProcessCall.piece →
      Transducer.run dspCall (history.foldl dspAct dsp) calls =
        dspCall (history.foldl dspAct dsp) one) ∧
    -- the total output of a fresh instance
    (∀ calls : List ProcessCall, (∀ call ∈ calls, call.Valid) →
      (Transducer.run dspCall dsp calls).2.length =
        2 * ((calls.flatMap ProcessCall.piece).length / 2 / (inputRate / outputRate))) ∧
    -- every single call
    (∀ call : ProcessCall, call.Valid →
      let result := dspProcess (history.foldl dspAct dsp) call
      (result.ok = true → ∃ len, result.outputLen = some len ∧ len % 2 = 0 ∧
        len ≤ call.inputLen) ∧
      (result.ok = false → result.dsp = history.foldl dspAct dsp ∧ result.output = call.output ∧
        result.outputLen = call.outputLen.map fun _ => 0)) ∧
    -- a reset gives back the fresh instance
    dspReset (history.foldl dspAct dsp) = dsp := by
  obtain ⟨plan, _, fresh⟩ :=
    dspCreate_fresh allocated inputRate outputRate bandwidth freqOffset dsp created
  obtain ⟨few, product⟩ :=
    dspCreate_stages allocated inputRate outputRate bandwidth freqOffset dsp created
  obtain ⟨stages, reset⟩ := reachable_reset dsp few history
  refine ⟨?_, ?_, ?_, reset.trans fresh.reset⟩
  · intro calls one valid _ whole
    rw [calls_eq _ calls valid stages, dspCall_eq _ one stages, whole]
  · intro calls valid
    have output := (run_tracks dsp (samplesOf (calls.flatMap ProcessCall.piece))
      (tracks_fresh dsp plan fresh)).2
    rw [calls_eq dsp calls valid few, output, reference_length, samplesOf_length, product]
  · intro call valid
    rcases dspProcess_cases (history.foldl dspAct dsp) call stages with
      ⟨refused, _⟩ | ⟨input, output, given, _, even, _, piece, done⟩
    · rw [refused]
      exact ⟨fun ok => (by cases ok), fun _ => ⟨rfl, rfl, rfl⟩⟩
    · rw [done]
      refine ⟨fun _ => ⟨_, rfl, ?_⟩, fun failed => by cases failed⟩
      obtain ⟨pairs, bound⟩ := run_output (history.foldl dspAct dsp) (samplesOf call.piece)
      refine ⟨pairs, bound.trans ?_⟩
      have whole := valid.input input given
      rw [samplesOf_length, piece, List.length_take, Nat.min_eq_left whole]
      omega

/-- Ten bytes, a refused odd call and fourteen more bytes against 24 at once, which is two samples
of the output, on IEEE arithmetic. -/
theorem dsp_partition_six :
    ∃ dsp : Dsp Float32 Float, dspCreate true 600000 100000 0 100000 = some dsp ∧
      Transducer.run dspCall dsp
          [⟨some (List.replicate 10 200), 10, some (List.replicate 10 0), 10, some 9⟩,
            ⟨some [7], 1, some [0], 1, some 9⟩,
            ⟨some (List.replicate 14 200), 14, some (List.replicate 14 0), 14, some 9⟩] =
        dspCall dsp ⟨some (List.replicate 24 200), 24, some (List.replicate 24 0), 24, some 9⟩ ∧
      (Transducer.run dspCall dsp
        [⟨some (List.replicate 24 200), 24, some (List.replicate 24 0), 24, some 9⟩]).2.length =
          4 := by
  have succeeds : (dspCreate true 600000 100000 0 100000 :
      Option (Dsp Float32 Float)).isSome = true := rfl
  obtain ⟨dsp, created⟩ := Option.isSome_iff_exists.mp succeeds
  have valid (n : Nat) (x : UInt8) :
      ProcessCall.Valid ⟨some (List.replicate n x), n, some (List.replicate n 0), n, some 9⟩ :=
    ⟨by rintro _ ⟨⟩; simp, by rintro _ ⟨⟩; simp⟩
  obtain ⟨cut, count, _⟩ := dsp_partition true 600000 100000 0 100000 dsp created []
  refine ⟨dsp, created, cut _ _ ?_ (valid 24 200) rfl, count _ ?_⟩
  · simpa using ⟨valid 10 200, valid 1 7, valid 14 200⟩
  · simpa using valid 24 200

end RtlSdr
