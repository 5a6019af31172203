import RtlSdr.Server.ProcessFft
import RtlSdr.Dsp.Sample

/-!
# Averages over windows

What the loop of `rtlsdr_server_process_fft` is for: of an unbroken stream of samples it
averages the spectra of consecutive windows, one at the beginning of each hop. The blocks
it is fed in do not show in the result.
-/
namespace RtlSdr

variable {F : Type} [CFloat F]

/-- The components the loop stores for a list of samples. -/
def points (samples : List (UInt8 × UInt8)) : List F :=
  samples.flatMap fun sample => [fftSample sample.1, fftSample sample.2]

/-- The window at the beginning of hop `h`. -/
def FftPlan.window (plan : FftPlan F) (samples : List (UInt8 × UInt8)) (h : Nat) :
    List (UInt8 × UInt8) :=
  (samples.drop (h * plan.step)).take plan.bins

/-- The windows of `count` hops from hop `first` on. -/
def FftPlan.windows (plan : FftPlan F) (samples : List (UInt8 × UInt8)) (first count : Nat) :
    List (List (UInt8 × UInt8)) :=
  (List.range count).map fun h => plan.window samples (first + h)

/-- The powers of some windows, added up. -/
def FftPlan.accumulate (plan : FftPlan F) (windows : List (List (UInt8 × UInt8))) :
    Option (List F) :=
  windows.foldlM
    (fun acc window =>
      (plan.transform.execute (windowed plan.transform.window (points window))).map (addPower acc))
    (List.replicate plan.bins 0.0)

/-- The spectrum averaged over some windows. -/
def FftPlan.average (plan : FftPlan F) (windows : List (List (UInt8 × UInt8))) :
    Option (List F) :=
  (plan.accumulate windows).map fun acc => acc.map (· / CFloat.ofInt windows.length)

/-- The state of the loop after an unbroken stream `fed`: the windows from hop `first` on
are accumulated, and the one of the current hop is being collected. -/
structure Collected (plan : FftPlan F) (st : FftLocal F) (fed : List (UInt8 × UInt8))
    (first : Nat) : Prop where
  total : fed.length = (first + st.accumCount) * plan.step + st.nsamples
  within : st.nsamples < plan.step
  counting : st.accumCount < plan.accum
  sized : st.fftIn.length = 2 * plan.bins
  current : st.fftIn.take (2 * min st.nsamples plan.bins) =
    points (plan.window fed (first + st.accumCount))
  gathered : plan.accumulate (plan.windows fed first st.accumCount) = some st.fftAcc

theorem collected_clear (plan : FftPlan F) (st : FftLocal F) :
    Collected plan (st.clear plan) [] 0 where
  total := by simp [FftLocal.clear]
  within := by
    have some := plan.bins_ge
    have wide := plan.step_ge
    change 0 < plan.step
    omega
  counting := plan.accum_pos
  sized := by simp [FftLocal.clear]
  current := by simp [FftLocal.clear, FftPlan.window, points]
  gathered := rfl

/-! ### Windows of a growing stream -/

omit [CFloat F] in
theorem window_append (plan : FftPlan F) (samples more : List (UInt8 × UInt8)) (h : Nat)
    (complete : h * plan.step + plan.bins ≤ samples.length) :
    plan.window (samples ++ more) h = plan.window samples h := by
  rw [FftPlan.window, List.drop_append_of_le_length (by omega), List.take_append_of_le_length]
  · rfl
  · rw [List.length_drop]
    omega

omit [CFloat F] in
/-- Completed hops do not change any more. -/
theorem windows_append (plan : FftPlan F) (samples more : List (UInt8 × UInt8))
    (first count : Nat) (complete : (first + count) * plan.step ≤ samples.length) :
    plan.windows (samples ++ more) first count = plan.windows samples first count := by
  apply List.map_congr_left
  intro h inside
  apply window_append
  have hop := Nat.mul_le_mul_right plan.step
    (show first + h + 1 ≤ first + count by have := List.mem_range.mp inside; omega)
  have wide := plan.step_ge
  rw [Nat.add_one_mul] at hop
  omega

omit [CFloat F] in
theorem windows_begins (plan : FftPlan F) {samples more : List (UInt8 × UInt8)}
    (begins : samples <+: more) (first count : Nat)
    (complete : (first + count) * plan.step ≤ samples.length) :
    plan.windows more first count = plan.windows samples first count := by
  obtain ⟨rest, rfl⟩ := begins
  exact windows_append plan samples rest first count complete

omit [CFloat F] in
theorem windows_length (plan : FftPlan F) (samples : List (UInt8 × UInt8)) (first count : Nat) :
    (plan.windows samples first count).length = count := by
  simp [FftPlan.windows]

theorem accumulate_succ (plan : FftPlan F) (samples : List (UInt8 × UInt8)) (first count : Nat)
    (acc spectrum : List F) (so_far : plan.accumulate (plan.windows samples first count) = some acc)
    (executed : plan.transform.execute
      (windowed plan.transform.window (points (plan.window samples (first + count)))) =
        some spectrum) :
    plan.accumulate (plan.windows samples first (count + 1)) = some (addPower acc spectrum) := by
  rw [FftPlan.accumulate, FftPlan.windows, List.range_succ, List.map_append, List.foldlM_append]
  rw [show (List.map (fun h => plan.window samples (first + h)) (List.range count)).foldlM _ _ =
    some acc from so_far]
  simp [executed]

/-! ### The components of samples -/

theorem points_append (samples more : List (UInt8 × UInt8)) :
    (points (samples ++ more) : List F) = points samples ++ points more := by
  simp [points]

/-- Storing bytes is storing the components of their samples. -/
theorem points_samplesOf (input : List UInt8) (even : input.length % 2 = 0) :
    (points (samplesOf input) : List F) = input.map fftSample := by
  induction input using samplesOf.induct with
  | case1 i q input ih =>
    simp only [List.length_cons] at even
    rw [samplesOf, List.map_cons, List.map_cons, ← ih (by omega)]
    rfl
  | case2 input short =>
    cases input with
    | nil => rfl
    | cons i input =>
      cases input with
      | nil => simp at even
      | cons q input => exact absurd rfl (short i q input)

theorem windowed_length (window points : List F) :
    (windowed window points).length = points.length := by
  induction window, points using windowed.induct with
  | case1 w window i q points ih => simp [windowed, ih]
  | case2 window points short => rw [windowed]; exact short

/-! ### One round -/

omit [CFloat F] in
theorem window_current (plan : FftPlan F) (fed : List (UInt8 × UInt8)) (h n : Nat)
    (total : fed.length = h * plan.step + n) (more : List (UInt8 × UInt8)) :
    plan.window (fed ++ more) h = (fed.drop (h * plan.step) ++ more).take plan.bins ∧
      (fed.drop (h * plan.step)).length = n := by
  constructor
  · rw [FftPlan.window, List.drop_append_of_le_length (by omega)]
  · rw [List.length_drop]
    omega

variable {plan : FftPlan F} {first : Nat} {fed : List (UInt8 × UInt8)} {st : FftLocal F}
  {input : List UInt8}

theorem Collected.store (collected : Collected plan st fed first) (input : List UInt8)
    (count : Nat) (some : 2 * count ≤ input.length)
    (room : st.nsamples < plan.bins → st.nsamples + count ≤ plan.bins) :
    let fftIn :=
      if st.nsamples < plan.bins then
        Memory.splice st.fftIn (2 * st.nsamples) ((input.take (2 * count)).map fftSample)
      else st.fftIn
    fftIn.length = 2 * plan.bins ∧
      fftIn.take (2 * min (st.nsamples + count) plan.bins) =
        points (plan.window (fed ++ samplesOf (input.take (2 * count)))
          (first + st.accumCount)) := by
  intro fftIn
  have sized := collected.sized
  have current := collected.current
  have length : (input.take (2 * count)).length = 2 * count := by
    rw [List.length_take]
    omega
  obtain ⟨grown, tail⟩ := window_current plan fed (first + st.accumCount) st.nsamples
    collected.total (samplesOf (input.take (2 * count)))
  have before := (window_current plan fed (first + st.accumCount) st.nsamples
    collected.total []).1
  rw [List.append_nil, List.append_nil] at before
  by_cases open_ : st.nsamples < plan.bins
  · have fits := room open_
    simp only [fftIn, if_pos open_]
    constructor
    · rw [Memory.splice_length]
      · exact sized
      · rw [List.length_map, length, sized]
        omega
    · -- the window is the part collected before, followed by what is stored now
      have start : st.fftIn.take (2 * st.nsamples) =
          points (fed.drop ((first + st.accumCount) * plan.step)) := by
        rw [Nat.min_eq_left (by omega)] at current
        rw [current, before, List.take_of_length_le (by omega)]
      have whole : (fed.drop ((first + st.accumCount) * plan.step) ++
          samplesOf (input.take (2 * count))).take plan.bins =
          fed.drop ((first + st.accumCount) * plan.step) ++ samplesOf (input.take (2 * count)) := by
        apply List.take_of_length_le
        rw [List.length_append, tail, samplesOf_length, length]
        omega
      rw [Nat.min_eq_left fits, grown, whole, points_append, ← start,
        points_samplesOf _ (by rw [length]; omega)]
      apply List.take_left'
      rw [List.length_append, List.length_take, List.length_map, length, sized]
      omega
  · simp only [fftIn, if_neg open_]
    refine ⟨sized, ?_⟩
    rw [Nat.min_eq_right (by omega)] at current
    rw [Nat.min_eq_right (by omega), current, before, grown,
      List.take_append_of_le_length (by omega)]

structure RoundEffect (plan : FftPlan F) (st : FftLocal F) (fed : List (UInt8 × UInt8))
    (input : List UInt8) (out : FftLocal F × List UInt8 × FftRound F) : Prop where
  cursor : out.1.cursor = st.cursor
  even : out.2.1.length % 2 = 0
  collects : ∃ more, samplesOf input = more ++ samplesOf out.2.1 ∧
    match out.2.2 with
    | .collecting => ∃ first, Collected plan out.1 (fed ++ more) first
    | .failed => True
    | .spectrum power => ∃ first, Collected plan out.1 (fed ++ more) (first + plan.accum) ∧
        (first + plan.accum) * plan.step ≤ (fed ++ more).length ∧
        plan.average (plan.windows (fed ++ more) first plan.accum) = some power

/-- What a round does to the hop it is in, with the place of the hop in the stream. -/
structure HopEffect (plan : FftPlan F) (st : FftLocal F) (fed : List (UInt8 × UInt8)) (first : Nat)
    (input : List UInt8) (out : FftLocal F × List UInt8 × FftRound F) : Prop where
  cursor : out.1.cursor = st.cursor
  even : out.2.1.length % 2 = 0
  collects : ∃ more, samplesOf input = more ++ samplesOf out.2.1 ∧
    match out.2.2 with
    | .collecting => Collected plan out.1 (fed ++ more) first
    | .failed => (fed ++ more).length = (first + st.accumCount + 1) * plan.step ∧
        plan.transform.execute (windowed plan.transform.window
          (points (plan.window (fed ++ more) (first + st.accumCount)))) = none ∧
        out.1.accumCount = st.accumCount ∧ out.1.fftAcc = st.fftAcc
    | .spectrum power => Collected plan out.1 (fed ++ more) (first + plan.accum) ∧
        (first + plan.accum) * plan.step ≤ (fed ++ more).length ∧
        plan.average (plan.windows (fed ++ more) first plan.accum) = some power

theorem processFftRound_hop (collected : Collected plan st fed first) (input : List UInt8)
    (even : input.length % 2 = 0) :
    HopEffect plan st fed first input (processFftRound plan st input) := by
  have wide := plan.step_ge
  have within := collected.within
  have counting := collected.counting
  have total := collected.total
  unfold processFftRound
  extract_lets remaining count fftIn rest nsamples transformed accumCount
  have most : count ≤ input.length / 2 := Nat.min_le_left _ _
  have room : st.nsamples + count ≤ plan.step := by
    have : count ≤ remaining := Nat.min_le_right _ _
    simp only [remaining] at this
    split_ifs at this <;> omega
  obtain ⟨sized, current⟩ := collected.store input count (by omega) fun open_ => by
    have : count ≤ remaining := Nat.min_le_right _ _
    simp only [remaining, if_pos open_] at this
    omega
  change fftIn.length = _ at sized
  change fftIn.take _ = _ at current
  have half : (input.take (2 * count)).length = 2 * count := by
    rw [List.length_take]
    omega
  have left : rest.length % 2 = 0 := by
    simp only [rest, List.length_drop]
    omega
  have parts : samplesOf input = samplesOf (input.take (2 * count)) ++ samplesOf rest := by
    rw [← samplesOf_append _ _ (by rw [half]; omega), List.take_append_drop]
  have grown : (fed ++ samplesOf (input.take (2 * count))).length =
      (first + st.accumCount) * plan.step + nsamples := by
    rw [List.length_append, samplesOf_length, half]
    simp only [nsamples]
    omega
  -- the hops that were complete before are the same windows now
  have gathered : plan.accumulate (plan.windows (fed ++ samplesOf (input.take (2 * count))) first
      st.accumCount) = some st.fftAcc := by
    rw [windows_append plan _ _ _ _ (by omega)]
    exact collected.gathered
  by_cases full : nsamples = plan.step
  · -- the hop is complete, and with it its window
    rw [if_pos full]
    rw [show st.nsamples + count = plan.step from full, Nat.min_eq_right wide,
      List.take_of_length_le (by omega)] at current
    have hop : ((first + st.accumCount + 1) * plan.step) =
        (fed ++ samplesOf (input.take (2 * count))).length := by
      rw [grown, full, Nat.add_one_mul]
    cases executed : plan.transform.execute (windowed plan.transform.window fftIn) with
    | none =>
      simp only
      rw [current] at executed
      exact ⟨rfl, left, _, parts, hop.symm, executed, rfl, rfl⟩
    | some spectrum =>
      simp only
      have length : spectrum.length = 2 * plan.bins := by
        apply plan.transform.execute_length _ _ executed
        rw [windowed_length]
        exact sized
      rw [current] at executed
      have accumulated := accumulate_succ plan _ first st.accumCount _ _ gathered executed
      have nothing (next : Nat) (here : next * plan.step =
          (fed ++ samplesOf (input.take (2 * count))).length) :
          (points (plan.window (fed ++ samplesOf (input.take (2 * count))) next) : List F) =
            [] := by
        rw [FftPlan.window, List.drop_of_length_le (by omega), List.take_nil]
        rfl
      by_cases last : st.accumCount + 1 ≥ plan.accum
      · rw [if_pos last]
        have exact_ : st.accumCount + 1 = plan.accum := by omega
        rw [Nat.add_assoc, exact_] at hop
        refine ⟨rfl, left, _, parts, ?_, by omega, ?_⟩
        · refine ⟨?_, ?_, plan.accum_pos, length, ?_, rfl⟩
          · simpa using hop.symm
          · simp only; omega
          · rw [Nat.zero_min, Nat.mul_zero, List.take_zero]
            exact (nothing _ hop).symm
        · rw [FftPlan.average, ← exact_, accumulated, windows_length]
          rfl
      · rw [if_neg last]
        rw [Nat.add_assoc] at hop
        refine ⟨rfl, left, _, parts, ?_, ?_, ?_, length, ?_, accumulated⟩
        · simpa using hop.symm
        · simp only; omega
        · simp only [accumCount]; omega
        · rw [Nat.zero_min, Nat.mul_zero, List.take_zero]
          exact (nothing _ hop).symm
  · rw [if_neg full]
    refine ⟨rfl, left, _, parts, grown, ?_, counting, sized, current, gathered⟩
    simp only [nsamples] at full ⊢
    omega

theorem processFftRound_effect (collected : Collected plan st fed first) (input : List UInt8)
    (even : input.length % 2 = 0) :
    RoundEffect plan st fed input (processFftRound plan st input) := by
  obtain ⟨cursor, left, more, parts, collects⟩ := processFftRound_hop collected input even
  refine ⟨cursor, left, more, parts, ?_⟩
  cases result : (processFftRound plan st input).2.2 with
  | collecting =>
    rw [result] at collects
    exact ⟨first, collects⟩
  | failed => trivial
  | spectrum power =>
    rw [result] at collects
    exact ⟨first, collects⟩

/-! ### Progress -/

theorem addPower_length (acc points : List F) : (addPower acc points).length = acc.length := by
  induction acc, points using addPower.induct with
  | case1 a acc i q points ih => simp [addPower, ih]
  | case2 acc points short => rw [addPower]; exact short

/-- Enough input for a spectrum, if no transform fails. -/
structure Enough (plan : FftPlan F) (st : FftLocal F) (input : List UInt8) : Prop where
  within : st.nsamples < plan.step
  counting : st.accumCount < plan.accum
  sized : st.fftAcc.length = plan.bins
  samples : plan.accum * plan.step ≤ st.accumCount * plan.step + st.nsamples + input.length / 2

omit [CFloat F] in
theorem Enough.some (enough : Enough plan st input) : 2 ≤ input.length := by
  obtain ⟨within, counting, _, samples⟩ := enough
  have hop := Nat.mul_le_mul_right plan.step counting
  rw [Nat.succ_mul] at hop
  omega

/-- A round that completes a spectrum, or leaves enough for one. -/
inductive Progresses (plan : FftPlan F) (input : List UInt8) :
    FftLocal F × List UInt8 × FftRound F → Prop
  | spectrum (st : FftLocal F) (rest : List UInt8) (power : List F)
      (length : power.length = plan.bins) : Progresses plan input (st, rest, .spectrum power)
  | collecting (st : FftLocal F) (rest : List UInt8) (shorter : rest.length < input.length)
      (enough : Enough plan st rest) : Progresses plan input (st, rest, .collecting)

theorem processFftRound_progress (runs : ∀ points, plan.transform.execute points ≠ none)
    (enough : Enough plan st input) : Progresses plan input (processFftRound plan st input) := by
  have wide := plan.step_ge
  have many := enough.some
  obtain ⟨within, counting, sized, samples⟩ := enough
  unfold processFftRound
  extract_lets remaining count fftIn rest nsamples transformed accumCount
  have room : 0 < remaining ∧ st.nsamples + remaining ≤ plan.step := by
    simp only [remaining]
    split_ifs <;> omega
  have moves : 0 < count ∧ count ≤ remaining ∧ count ≤ input.length / 2 := by
    simp only [count]
    omega
  have left : rest.length = input.length - 2 * count := by simp [rest]
  by_cases full : nsamples = plan.step
  · rw [if_pos full]
    obtain ⟨spectrum, executed⟩ := Option.ne_none_iff_exists'.mp (runs transformed)
    simp only [executed]
    by_cases last : accumCount ≥ plan.accum
    · rw [if_pos last]
      exact .spectrum _ _ _ (by simp [addPower_length, sized])
    · rw [if_neg last]
      -- the hop that is complete is counted as accumulated
      refine .collecting _ _ (by omega) ⟨?_, by simp only; omega, ?_, ?_⟩
      · simp only
        omega
      · simp [addPower_length, sized]
      · simp only [accumCount, Nat.succ_mul, left]
        omega
  · rw [if_neg full]
    refine .collecting _ _ (by omega) ⟨?_, counting, sized, ?_⟩
    · simp only [nsamples] at full ⊢
      omega
    · simp only [nsamples, left]
      omega

end RtlSdr
