import RtlSdr.Server.Averages
import RtlSdr.Server.State

/-!
# Whole calls of `rtlsdr_server_process_fft`

A call is the same as one round for each sample, which is what makes the cutting of a stream into
calls invisible; and from a fresh start the samples alone determine the state: window `h` counts
from the moment its hop is complete, and every `fft_accum` windows make a spectrum.
-/
namespace RtlSdr

variable {F : Type} [CFloat F]

/-! ### A call -/

structure FftState (F : Type) where
  own : FftLocal F
  shared : FftShared F

/-- What a call comes to: the state, whether it returns 0, the spectra that it publishes with
their numbers, and the indices at which it accesses `fft_in`. -/
structure FftCall (F : Type) where
  state : FftState F
  ok : Bool
  published : List (UInt64 × List F)
  indices : List Nat

/-- The critical section of the loop. -/
def FftShared.publish (fft : FftShared F) (power : List F) : FftShared F :=
  { fft with power, seq := fft.seq + 1, ready := true }

/-- How many samples a round takes of those available. -/
def roundCount (plan : FftPlan F) (st : FftLocal F) (available : Nat) : Nat :=
  min available
    (if st.nsamples < plan.bins then plan.bins - st.nsamples else plan.step - st.nsamples)

/-- The components of `count` samples from `first` on. -/
def componentIndices (first count : Nat) : List Nat :=
  (List.range count).flatMap fun j => [(first + j) * 2, (first + j) * 2 + 1]

/-- The indices of one round: those it stores to, and all of them if it completes a hop. -/
def roundIndices (plan : FftPlan F) (st : FftLocal F) (available : Nat) : List Nat :=
  let count := roundCount plan st available
  (if st.nsamples < plan.bins then componentIndices st.nsamples count else []) ++
    if st.nsamples + count = plan.step then componentIndices 0 plan.bins else []

/-- The result of a round in the shared state: what it leaves, whether it failed, and what it
publishes. -/
def settle (shared : FftShared F) (own : FftLocal F) :
    FftRound F → (FftState F × Bool) × List (UInt64 × List F)
  | .collecting => ((⟨own, shared⟩, false), [])
  | .failed => ((⟨own, shared⟩, true), [])
  | .spectrum power =>
    ((⟨own, shared.publish power⟩, false), [((shared.publish power).seq, power)])

/-- The loop; every round takes a sample, so a pass for each byte is more than enough. -/
def processFftLoop (plan : FftPlan F) : Nat → FftState F → List UInt8 → FftCall F
  | 0, s, _ => ⟨s, true, [], []⟩
  | _ + 1, s, [] => ⟨s, true, [], []⟩
  | passes + 1, s, input =>
    let (own, rest, round) := processFftRound plan s.own input
    let ((next, failed), spectra) := settle s.shared own round
    let touched := roundIndices plan s.own (input.length / 2)
    if failed then ⟨next, false, spectra, touched⟩
    else
      let call := processFftLoop plan passes next rest
      ⟨call.state, call.ok, spectra ++ call.published, touched ++ call.indices⟩

/-- `rtlsdr_server_process_fft`; what it checks of the plan is part of its type. -/
def rtlsdrServerProcessFft (plan : FftPlan F) (s : FftState F) (input : List UInt8) : FftCall F :=
  if input.length &&& 1 ≠ 0 then ⟨s, false, [], []⟩
  else processFftLoop plan (input.length + 1) s input

/-- Calls in a row; the worker stops at the first that fails. -/
def processFftCalls (plan : FftPlan F) : FftState F → List (List UInt8) → FftCall F
  | s, [] => ⟨s, true, [], []⟩
  | s, piece :: more =>
    let call := rtlsdrServerProcessFft plan s piece
    if call.ok then
      let rest := processFftCalls plan call.state more
      ⟨rest.state, rest.ok, call.published ++ rest.published, call.indices ++ rest.indices⟩
    else call

/-! ### A round in two parts -/

def FftLocal.store (plan : FftPlan F) (st : FftLocal F) (bytes : List UInt8) (count : Nat) :
    FftLocal F :=
  { st with
    fftIn :=
      if st.nsamples < plan.bins then
        Memory.splice st.fftIn (2 * st.nsamples) (bytes.map fftSample)
      else st.fftIn
    nsamples := st.nsamples + count }

/-- Complete the hop if its samples are there. -/
def FftLocal.finish (plan : FftPlan F) (st : FftLocal F) : FftLocal F × FftRound F :=
  if st.nsamples = plan.step then
    let fftIn := windowed plan.transform.window st.fftIn
    match plan.transform.execute fftIn with
    | none => ({ st with fftIn }, .failed)
    | some fftIn =>
      let fftAcc := addPower st.fftAcc fftIn
      let accumCount := st.accumCount + 1
      if accumCount ≥ plan.accum then
        ({ st with fftIn, fftAcc := List.replicate plan.bins 0.0, nsamples := 0, accumCount := 0 },
          .spectrum (fftAcc.map (· / CFloat.ofInt accumCount)))
      else ({ st with fftIn, fftAcc, nsamples := 0, accumCount }, .collecting)
  else (st, .collecting)

/-- The state when a round has taken its samples in. -/
def FftLocal.taken (plan : FftPlan F) (st : FftLocal F) (input : List UInt8) : FftLocal F :=
  st.store plan (input.take (2 * roundCount plan st (input.length / 2)))
    (roundCount plan st (input.length / 2))

variable (plan : FftPlan F) (passes : Nat) (s : FftState F) (pieces : List (List UInt8))
  (st : FftLocal F) (input : List UInt8)

theorem processFftRound_eq :
    processFftRound plan st input =
      (((st.taken plan input).finish plan).1,
        input.drop (2 * roundCount plan st (input.length / 2)),
        ((st.taken plan input).finish plan).2) := by
  let rest := input.drop (2 * roundCount plan st (input.length / 2))
  let stored := st.taken plan input
  change (if stored.nsamples = plan.step then
      match plan.transform.execute (windowed plan.transform.window stored.fftIn) with
      | none =>
        ({ stored with fftIn := windowed plan.transform.window stored.fftIn }, rest, .failed)
      | some fftIn =>
        if stored.accumCount + 1 ≥ plan.accum then
          ({ stored with
              fftIn, fftAcc := List.replicate plan.bins 0.0, nsamples := 0, accumCount := 0 },
            rest, .spectrum ((addPower stored.fftAcc fftIn).map
              (· / CFloat.ofInt (stored.accumCount + 1 : Nat))))
        else
          ({ stored with
              fftIn, fftAcc := addPower stored.fftAcc fftIn, nsamples := 0,
              accumCount := stored.accumCount + 1 }, rest, .collecting)
    else (stored, rest, .collecting)) = ((stored.finish plan).1, rest, (stored.finish plan).2)
  generalize stored = s
  unfold FftLocal.finish
  by_cases full : s.nsamples = plan.step
  · rw [if_pos full, if_pos full]
    cases executed : plan.transform.execute (windowed plan.transform.window s.fftIn) with
    | none => simp only [executed]
    | some fftIn =>
      by_cases last : s.accumCount + 1 ≥ plan.accum
      · simp only [executed, if_pos last]
      · simp only [executed, if_neg last]
  · rw [if_neg full, if_neg full]

/-! ### Sample by sample -/

/-- One sample is one round; after a failure nothing happens any more. -/
def fftSampleStep (plan : FftPlan F) (s : FftState F × Bool) (sample : UInt8 × UInt8) :
    (FftState F × Bool) × List (UInt64 × List F) :=
  if s.2 then (s, [])
  else
    let round := processFftRound plan s.1.own [sample.1, sample.2]
    settle s.1.shared round.1 round.2.2

/-- What every round can start from. -/
structure Ready (plan : FftPlan F) (st : FftLocal F) : Prop where
  within : st.nsamples < plan.step
  sized : st.fftIn.length = 2 * plan.bins

theorem fftSampleStep_eq (i q : UInt8) (within : s.own.nsamples < plan.step) :
    fftSampleStep plan (s, false) (i, q) =
      settle s.shared ((s.own.store plan [i, q] 1).finish plan).1
        ((s.own.store plan [i, q] 1).finish plan).2 := by
  have one : roundCount plan s.own ((1 + 1) / 2) = 1 := by
    unfold roundCount
    split <;> omega
  have taken : s.own.taken plan [i, q] = s.own.store plan [i, q] 1 := by
    rw [FftLocal.taken, List.length_cons, List.length_singleton, one]
    rfl
  simp only [fftSampleStep, Bool.false_eq_true, if_false, processFftRound_eq, taken]

/-- Taking in samples in two parts, inside the window or behind it. -/
theorem FftLocal.store_store (first second : List UInt8) (m n : Nat) (half : first.length = 2 * m)
    (sized : st.fftIn.length = 2 * plan.bins)
    (same : st.nsamples < plan.bins ↔ st.nsamples + m < plan.bins) :
    (st.store plan first m).store plan second n = st.store plan (first ++ second) (m + n) := by
  unfold FftLocal.store
  by_cases inside : st.nsamples < plan.bins
  · have place : 2 * (st.nsamples + m) =
        2 * st.nsamples + (first.map (fftSample (F := F))).length := by
      rw [List.length_map, half]
      omega
    simp only [if_pos inside, if_pos (same.mp inside), place, List.map_append, Nat.add_assoc]
    rw [Memory.splice_splice _ _ _ _ (by omega)]
  · have behind : ¬st.nsamples + m < plan.bins := fun within => inside (same.mpr within)
    simp only [if_neg inside, if_neg behind, Nat.add_assoc]

theorem FftLocal.store_sized (bytes : List UInt8) (count : Nat)
    (length : bytes.length = 2 * count) (sized : st.fftIn.length = 2 * plan.bins)
    (room : st.nsamples + count ≤ if st.nsamples < plan.bins then plan.bins else plan.step) :
    (st.store plan bytes count).fftIn.length = 2 * plan.bins := by
  unfold FftLocal.store
  dsimp only
  split_ifs at room ⊢
  · rw [Memory.splice_length, sized]
    rw [List.length_map, length, sized]
    omega
  · exact sized

theorem run_samples (bytes : List UInt8) (count : Nat) (length : bytes.length = 2 * (count + 1))
    (sized : s.own.fftIn.length = 2 * plan.bins)
    (room : s.own.nsamples + (count + 1) ≤
      if s.own.nsamples < plan.bins then plan.bins else plan.step) :
    Transducer.run (fftSampleStep plan) (s, false) (samplesOf bytes) =
      settle s.shared ((s.own.store plan bytes (count + 1)).finish plan).1
        ((s.own.store plan bytes (count + 1)).finish plan).2 := by
  have wide := plan.step_ge
  have below : s.own.nsamples + (count + 1) ≤ plan.step := by
    split_ifs at room <;> omega
  induction count generalizing s bytes with
  | zero =>
    match bytes, length with
    | [i, q], _ =>
      change Transducer.run (fftSampleStep plan) (s, false) [(i, q)] = _
      rw [Transducer.run_singleton]
      exact fftSampleStep_eq plan s i q (by omega)
  | succ count ih =>
    match bytes, length with
    | i :: q :: rest, length =>
      rw [List.length_cons, List.length_cons] at length
      -- the first sample completes nothing, and the next is on the same side of the window's end
      have same : s.own.nsamples < plan.bins ↔ s.own.nsamples + 1 < plan.bins := by
        split_ifs at room <;> omega
      have incomplete : (s.own.store plan [i, q] 1).finish plan =
          (s.own.store plan [i, q] 1, .collecting) := by
        rw [FftLocal.finish, if_neg]
        change s.own.nsamples + 1 ≠ plan.step
        omega
      have sized' := s.own.store_sized plan [i, q] 1 rfl sized (by split_ifs at room ⊢ <;> omega)
      rw [samplesOf, Transducer.run_cons, fftSampleStep_eq plan s i q (by omega), incomplete]
      have room' : s.own.nsamples + 1 + (count + 1) ≤
          if s.own.nsamples + 1 < plan.bins then plan.bins else plan.step := by
        split_ifs at room ⊢ <;> omega
      have later := ih ⟨s.own.store plan [i, q] 1, s.shared⟩ rest (by omega) sized' room'
        (show s.own.nsamples + 1 + (count + 1) ≤ plan.step by omega)
      rw [FftLocal.store_store plan s.own [i, q] rest 1 (count + 1) rfl sized same,
        Nat.add_comm 1 (count + 1)] at later
      exact later

theorem run_failed (samples : List (UInt8 × UInt8)) :
    Transducer.run (fftSampleStep plan) (s, true) samples = ((s, true), []) := by
  induction samples with
  | nil => rfl
  | cons sample samples ih =>
    have still : fftSampleStep plan (s, true) sample = ((s, true), []) := rfl
    rw [Transducer.run_cons, still, ih]
    rfl

/-! ### The loop -/

theorem FftLocal.finish_ready (within : st.nsamples ≤ plan.step)
    (sized : st.fftIn.length = 2 * plan.bins) :
    (st.finish plan).2 = .failed ∨ Ready plan (st.finish plan).1 := by
  have wide := plan.step_ge
  have some := plan.bins_ge
  unfold FftLocal.finish
  by_cases full : st.nsamples = plan.step
  · rw [if_pos full]
    cases executed : plan.transform.execute (windowed plan.transform.window st.fftIn) with
    | none =>
      left
      simp only [executed]
    | some fftIn =>
      right
      have length : fftIn.length = 2 * plan.bins := by
        apply plan.transform.execute_length _ _ executed
        rw [windowed_length, sized]
      simp only [executed]
      split_ifs
      · exact ⟨by simp only; omega, length⟩
      · exact ⟨by simp only; omega, length⟩
  · rw [if_neg full]
    exact .inr ⟨Nat.lt_of_le_of_ne within full, sized⟩

omit [CFloat F] in
/-- What a round takes stays inside the window or the hop. -/
theorem roundCount_room (available : Nat) (within : st.nsamples < plan.step)
    (some : 0 < available) :
    0 < roundCount plan st available ∧ roundCount plan st available ≤ available ∧
      st.nsamples + roundCount plan st available ≤
        if st.nsamples < plan.bins then plan.bins else plan.step := by
  unfold roundCount
  split_ifs <;> omega

/-- What a round leaves to the loop. -/
def FftState.round (plan : FftPlan F) (s : FftState F) (input : List UInt8) :
    (FftState F × Bool) × List (UInt64 × List F) :=
  settle s.shared ((s.own.taken plan input).finish plan).1 ((s.own.taken plan input).finish plan).2

theorem processFftLoop_cons (byte : UInt8) (bytes : List UInt8) :
    processFftLoop plan (passes + 1) s (byte :: bytes) =
      let input := byte :: bytes
      let touched := roundIndices plan s.own (input.length / 2)
      if (s.round plan input).1.2 then
        ⟨(s.round plan input).1.1, false, (s.round plan input).2, touched⟩
      else
        let call := processFftLoop plan passes (s.round plan input).1.1
          (input.drop (2 * roundCount plan s.own (input.length / 2)))
        ⟨call.state, call.ok, (s.round plan input).2 ++ call.published,
          touched ++ call.indices⟩ := by
  rw [processFftLoop, processFftRound_eq]
  · rfl
  · intro empty
    cases empty

omit [CFloat F] in
theorem settle_failed (shared : FftShared F) (own : FftLocal F) (round : FftRound F) :
    (settle shared own round).1.2 = true ↔ round = .failed := by
  cases round <;> simp [settle]

omit [CFloat F] in
theorem settle_own (shared : FftShared F) (own : FftLocal F) (round : FftRound F) :
    (settle shared own round).1.1.own = own := by
  cases round <;> rfl

theorem run_round (ready : Ready plan s.own) (some : 2 ≤ input.length) :
    Transducer.run (fftSampleStep plan) (s, false)
        (samplesOf (input.take (2 * roundCount plan s.own (input.length / 2)))) =
      s.round plan input ∧
    ((s.round plan input).1.2 = false → Ready plan (s.round plan input).1.1.own) := by
  have wide := plan.step_ge
  obtain ⟨positive, most, room⟩ := roundCount_room plan s.own (input.length / 2) ready.within
    (by omega)
  have length : (input.take (2 * roundCount plan s.own (input.length / 2))).length =
      2 * roundCount plan s.own (input.length / 2) := by
    rw [List.length_take]
    omega
  constructor
  · unfold FftState.round FftLocal.taken
    generalize input.take (2 * roundCount plan s.own (input.length / 2)) = bytes at length
    obtain ⟨count, succ⟩ := Nat.exists_eq_succ_of_ne_zero (Nat.ne_of_gt positive)
    rw [succ] at length room ⊢
    exact run_samples plan s bytes count length ready.sized room
  · intro continues
    have sized := s.own.store_sized plan _ _ length ready.sized room
    have within : (s.own.taken plan input).nsamples ≤ plan.step := by
      change s.own.nsamples + roundCount plan s.own (input.length / 2) ≤ plan.step
      split_ifs at room <;> omega
    rw [FftState.round, settle_own]
    refine (FftLocal.finish_ready plan (s.own.taken plan input) within sized).resolve_left ?_
    intro failed
    rw [FftState.round, (settle_failed _ _ _).mpr failed] at continues
    cases continues

/-- The loop is the samples one by one, and a call that returns 0 leaves a state for the next. -/
theorem processFftLoop_run (even : input.length % 2 = 0) (enough : input.length < passes)
    (ready : Ready plan s.own) :
    Transducer.run (fftSampleStep plan) (s, false) (samplesOf input) =
        (((processFftLoop plan passes s input).state, !(processFftLoop plan passes s input).ok),
          (processFftLoop plan passes s input).published) ∧
      ((processFftLoop plan passes s input).ok = true →
        Ready plan (processFftLoop plan passes s input).state.own) := by
  induction passes generalizing s input with
  | zero => exact absurd enough (Nat.not_lt_zero _)
  | succ passes ih =>
    cases input with
    | nil => exact ⟨rfl, fun _ => ready⟩
    | cons byte bytes =>
      have some : 2 ≤ (byte :: bytes).length := by
        rw [List.length_cons] at even ⊢
        omega
      obtain ⟨step, continues⟩ := run_round plan s (byte :: bytes) ready some
      obtain ⟨positive, most, _⟩ := roundCount_room plan s.own ((byte :: bytes).length / 2)
        ready.within (by omega)
      rw [processFftLoop_cons]
      generalize byte :: bytes = input at *
      dsimp only
      have parts : samplesOf input =
          samplesOf (input.take (2 * roundCount plan s.own (input.length / 2))) ++
            samplesOf (input.drop (2 * roundCount plan s.own (input.length / 2))) := by
        rw [← samplesOf_append, List.take_append_drop]
        rw [List.length_take]
        omega
      rw [parts, Transducer.run_append, step]
      rcases round : s.round plan input with ⟨⟨next, failed⟩, spectra⟩
      rw [round] at continues
      cases failed with
      | true =>
        rw [run_failed, List.append_nil]
        exact ⟨rfl, fun ok => by cases ok⟩
      | false =>
        obtain ⟨rest, after⟩ := ih next
          (input.drop (2 * roundCount plan s.own (input.length / 2)))
          (by rw [List.length_drop]; omega) (by rw [List.length_drop]; omega) (continues rfl)
        rw [rest]
        exact ⟨rfl, after⟩

/-! ### The cutting of a stream -/

theorem processFft_run (even : input.length % 2 = 0) (ready : Ready plan s.own) :
    Transducer.run (fftSampleStep plan) (s, false) (samplesOf input) =
        (((rtlsdrServerProcessFft plan s input).state,
          !(rtlsdrServerProcessFft plan s input).ok),
          (rtlsdrServerProcessFft plan s input).published) ∧
      ((rtlsdrServerProcessFft plan s input).ok = true →
        Ready plan (rtlsdrServerProcessFft plan s input).state.own) := by
  rw [rtlsdrServerProcessFft, if_neg (by rw [Nat.and_one_is_mod]; omega)]
  exact processFftLoop_run plan _ s input even (Nat.lt_succ_self _) ready

/-- Calls in a row are the samples of all of them, one by one. -/
theorem processFftCalls_run (even : ∀ piece ∈ pieces, piece.length % 2 = 0)
    (ready : Ready plan s.own) :
    Transducer.run (fftSampleStep plan) (s, false) (samplesOf pieces.flatten) =
      (((processFftCalls plan s pieces).state, !(processFftCalls plan s pieces).ok),
        (processFftCalls plan s pieces).published) := by
  induction pieces generalizing s with
  | nil => rfl
  | cons piece more ih =>
    have here := even piece List.mem_cons_self
    have later := fun other member => even other (List.mem_cons_of_mem piece member)
    obtain ⟨call, after⟩ := processFft_run plan s piece here ready
    rw [List.flatten_cons, samplesOf_append _ _ here, Transducer.run_append, call]
    simp only [processFftCalls]
    cases ok : (rtlsdrServerProcessFft plan s piece).ok with
    | true =>
      simp only [Bool.not_true, if_true]
      rw [ih _ later (after ok)]
    | false =>
      simp only [Bool.not_false, Bool.false_eq_true, if_false, ok]
      rw [run_failed, List.append_nil]

/-- However a stream is cut into calls, they reach the state of one call and publish the same
spectra. -/
theorem processFftCalls_cut (even : ∀ piece ∈ pieces, piece.length % 2 = 0)
    (ready : Ready plan s.own) :
    (processFftCalls plan s pieces).state =
        (rtlsdrServerProcessFft plan s pieces.flatten).state ∧
      (processFftCalls plan s pieces).ok = (rtlsdrServerProcessFft plan s pieces.flatten).ok ∧
      (processFftCalls plan s pieces).published =
        (rtlsdrServerProcessFft plan s pieces.flatten).published := by
  have calls := processFftCalls_run plan s pieces even ready
  have whole := (processFft_run plan s pieces.flatten (flatten_even pieces even).1 ready).1
  rw [calls] at whole
  simp only [Prod.mk.injEq, Bool.not_eq_eq_eq_not, Bool.not_not] at whole
  exact ⟨whole.1.1, whole.1.2, whole.2⟩

/-! ### The indices of `fft_in` -/

theorem componentIndices_lt (first count limit : Nat) (inside : first + count ≤ limit) :
    ∀ i ∈ componentIndices first count, i < 2 * limit := by
  intro i member
  obtain ⟨j, counted, component⟩ := List.mem_flatMap.mp member
  rw [List.mem_range] at counted
  rcases List.mem_cons.mp component with even | odd
  · omega
  · rw [List.mem_singleton] at odd
    omega

omit [CFloat F] in
theorem roundIndices_lt (available : Nat) :
    ∀ i ∈ roundIndices plan st available, i < 2 * plan.bins := by
  intro i member
  unfold roundIndices at member
  rcases List.mem_append.mp member with stored | transformed
  · split_ifs at stored with collecting
    · have room : st.nsamples + roundCount plan st available ≤ plan.bins := by
        rw [roundCount, if_pos collecting]
        omega
      exact componentIndices_lt _ _ _ room i stored
    · cases stored
  · split_ifs at transformed
    · exact componentIndices_lt 0 plan.bins plan.bins (by omega) i transformed
    · cases transformed

theorem processFftLoop_indices :
    ∀ i ∈ (processFftLoop plan passes s input).indices, i < 2 * plan.bins := by
  induction passes generalizing s input with
  | zero =>
    intro i member
    cases member
  | succ passes ih =>
    cases input with
    | nil =>
      intro i member
      cases member
    | cons byte bytes =>
      have round := roundIndices_lt plan s.own ((byte :: bytes).length / 2)
      rw [processFftLoop_cons]
      dsimp only
      split_ifs
      · exact round
      · intro i member
        rcases List.mem_append.mp member with here | later
        · exact round i here
        · exact ih _ _ i later

theorem processFftCalls_indices :
    ∀ i ∈ (processFftCalls plan s pieces).indices, i < 2 * plan.bins := by
  induction pieces generalizing s with
  | nil =>
    intro i member
    cases member
  | cons piece more ih =>
    have call : ∀ i ∈ (rtlsdrServerProcessFft plan s piece).indices, i < 2 * plan.bins := by
      unfold rtlsdrServerProcessFft
      split_ifs
      · intro i member
        cases member
      · exact processFftLoop_indices plan _ s piece
    simp only [processFftCalls]
    split_ifs
    · intro i member
      rcases List.mem_append.mp member with here | later
      · exact call i here
      · exact ih _ i later
    · exact call

end RtlSdr
