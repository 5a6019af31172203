import RtlSdr.Dsp.Process

/-!
# The chain one sample at a time

Block by block, the process functions do what a sample-at-a-time machine does that
sends every sample through `stage_run` of all stages. The partial blocks carried in the
counter of stage 1 make no difference.
-/
namespace RtlSdr

variable {F D : Type} [CFloat F] [CDouble D F]

/-- The complex samples of an input of even length. -/
def samplesOf : List UInt8 → List (UInt8 × UInt8)
  | i :: q :: input => (i, q) :: samplesOf input
  | _ => []

/-- One sample through the whole chain, stage 1 included, by `stage_run`. -/
def sampleStep (dsp : Dsp F D) (sample : UInt8 × UInt8) : Dsp F D × List Int16 :=
  let (dsp, m) := dsp.mix sample
  match stageRun dsp.first m with
  | (first, none) => ({ dsp with first }, [])
  | (first, some y) =>
    let (later, out) := cascade dsp.later y
    ({ dsp with first, later }, components out)

/-! ### The fused first stage -/

variable (count : Nat) (dsp : Dsp F D) (input : List UInt8) (sample : UInt8 × UInt8)

omit [CFloat F] [CDouble D F] in
theorem Dsp.first_pos : 0 < dsp.first.decimation :=
  Nat.zero_lt_of_lt dsp.first.counting

/-- The block is complete: filter it and run the later stages. -/
def Dsp.fire (dsp : Dsp F D) : Dsp F D × List Int16 :=
  let (later, out) := cascade dsp.later (stageFir dsp.first)
  ({ dsp with first := dsp.first.count 0 dsp.first_pos, later }, components out)

/-- The accounting after `count` samples were stored without counting them. -/
def Dsp.settle (dsp : Dsp F D) (count : Nat) : Dsp F D × List Int16 :=
  if short : dsp.first.counter + count < dsp.first.decimation then
    ({ dsp with first := dsp.first.count (dsp.first.counter + count) short }, [])
  else dsp.fire

/-- A sample alone is a block of one. -/
theorem sampleStep_eq : sampleStep dsp sample = (dsp.feed sample).settle 1 := by
  unfold Dsp.settle
  by_cases short : (dsp.feed sample).first.counter + 1 < (dsp.feed sample).first.decimation
  · have stays : ¬(((dsp.mix sample).1.first.write (dsp.mix sample).2).counter + 1 ≥
        ((dsp.mix sample).1.first.write (dsp.mix sample).2).decimation) := Nat.not_le.mpr short
    rw [dif_pos short]
    simp only [sampleStep, stageRun, dif_neg stays]
    rfl
  · have fires : ((dsp.mix sample).1.first.write (dsp.mix sample).2).counter + 1 ≥
        ((dsp.mix sample).1.first.write (dsp.mix sample).2).decimation := Nat.not_lt.mp short
    rw [dif_neg short]
    simp only [sampleStep, stageRun, dif_pos fires]
    rfl

omit [CDouble D F] in
theorem Dsp.settle_count (counter before count : Nat) (counting : counter < dsp.first.decimation)
    (total : counter + before = dsp.first.counter + count) :
    ({ dsp with first := dsp.first.count counter counting } : Dsp F D).settle before =
      dsp.settle count := by
  unfold Dsp.settle
  by_cases short : dsp.first.counter + count < dsp.first.decimation
  · have also : counter + before < dsp.first.decimation := total ▸ short
    rw [dif_pos short, dif_pos (show (dsp.first.count counter counting).counter + before <
      (dsp.first.count counter counting).decimation from also)]
    simp only [Stage.count, total]
  · have also : ¬counter + before < dsp.first.decimation := total ▸ short
    rw [dif_neg short, dif_neg (show ¬(dsp.first.count counter counting).counter + before <
      (dsp.first.count counter counting).decimation from also)]
    rfl

section

omit [CFloat F]

theorem stage1Block_kept (count : Nat) (dsp : Dsp F D) (input : List UInt8) :
    (stage1Block count dsp input).1.first.counter = dsp.first.counter ∧
      (stage1Block count dsp input).1.first.decimation = dsp.first.decimation ∧
      (stage1Block count dsp input).1.later = dsp.later := by
  induction count generalizing dsp input with
  | zero => exact ⟨rfl, rfl, rfl⟩
  | succ count ih =>
    match input with
    | i :: q :: input => exact ih (dsp.feed (i, q)) input
    | [_] => exact ⟨rfl, rfl, rfl⟩
    | [] => exact ⟨rfl, rfl, rfl⟩

theorem stage1Block_rest (count : Nat) (dsp : Dsp F D) (input : List UInt8)
    (enough : 2 * count ≤ input.length) :
    (stage1Block count dsp input).2 = input.drop (2 * count) := by
  induction count generalizing dsp input with
  | zero => rfl
  | succ count ih =>
    match input, enough with
    | i :: q :: input, enough =>
      rw [stage1Block, ih _ _ (by simp only [List.length_cons] at enough; omega), Nat.mul_succ]
      rfl
    | [_], enough => simp only [List.length_singleton] at enough; omega
    | [], enough => simp only [List.length_nil] at enough; omega

theorem stage1Block_count (count : Nat) (dsp : Dsp F D) (input : List UInt8) (counter : Nat)
    (counting : counter < dsp.first.decimation) :
    (stage1Block count { dsp with first := dsp.first.count counter counting } input).1 =
      { (stage1Block count dsp input).1 with
        first := (stage1Block count dsp input).1.first.count counter
          ((stage1Block_kept count dsp input).2.1.symm ▸ counting) } := by
  induction count generalizing dsp input with
  | zero => rfl
  | succ count ih =>
    match input with
    | i :: q :: input => exact ih (dsp.feed (i, q)) input counting
    | [_] => rfl
    | [] => rfl

end

/-- A block that is not too long is as many samples, one after the other. The induction
is on the samples; all but the last one only advance the counter. -/
theorem run_block (enough : 2 * (count + 1) ≤ input.length)
    (inside : dsp.first.counter + (count + 1) ≤ dsp.first.decimation) :
    Transducer.run sampleStep dsp ((samplesOf input).take (count + 1)) =
      (stage1Block (count + 1) dsp input).1.settle (count + 1) := by
  induction count generalizing dsp input with
  | zero =>
    match input, enough with
    | i :: q :: input, _ =>
      rw [samplesOf, List.take_succ_cons, List.take_zero, Transducer.run_singleton, sampleStep_eq]
      rfl
    | [_], enough => simp only [List.length_singleton] at enough; omega
    | [], enough => simp only [List.length_nil] at enough; omega
  | succ count ih =>
    match input, enough with
    | i :: q :: input, enough =>
      have more : 2 * (count + 1) ≤ input.length := by
        simp only [List.length_cons] at enough; omega
      have short : (dsp.feed (i, q)).first.counter + 1 < (dsp.feed (i, q)).first.decimation := by
        have : dsp.first.counter + 1 < dsp.first.decimation := by omega
        exact this
      have step : sampleStep dsp (i, q) = ({ dsp.feed (i, q) with
          first := (dsp.feed (i, q)).first.count _ short }, []) := by
        rw [sampleStep_eq, Dsp.settle, dif_pos short]
      have rest := ih { dsp.feed (i, q) with first := (dsp.feed (i, q)).first.count _ short }
        input more (by
          have : (dsp.first.counter + 1) + (count + 1) ≤ dsp.first.decimation := by omega
          exact this)
      rw [samplesOf, List.take_succ_cons, Transducer.run_cons, step, rest, stage1Block_count,
        List.nil_append]
      apply Dsp.settle_count
      rw [(stage1Block_kept (count + 1) (dsp.feed (i, q)) input).1]
      omega
    | [_], enough => simp only [List.length_singleton] at enough; omega
    | [], enough => simp only [List.length_nil] at enough; omega

/-! ### The process functions -/

theorem samplesOf_length (input : List UInt8) : (samplesOf input).length = input.length / 2 := by
  match input with
  | i :: q :: input =>
    rw [samplesOf, List.length_cons, samplesOf_length input, List.length_cons, List.length_cons]
    omega
  | [_] => simp [samplesOf]
  | [] => simp [samplesOf]

theorem samplesOf_drop (count : Nat) (input : List UInt8) :
    (samplesOf input).drop count = samplesOf (input.drop (2 * count)) := by
  induction count generalizing input with
  | zero => rfl
  | succ count ih =>
    match input with
    | i :: q :: input =>
      rw [samplesOf, List.drop_succ_cons, ih, Nat.mul_succ]
      rfl
    | [_] => simp [samplesOf, Nat.mul_succ]
    | [] => simp [samplesOf]

theorem samplesOf_append (input rest : List UInt8) (even : input.length % 2 = 0) :
    samplesOf (input ++ rest) = samplesOf input ++ samplesOf rest := by
  match input with
  | i :: q :: input =>
    rw [List.cons_append, List.cons_append, samplesOf, samplesOf, List.cons_append,
      samplesOf_append input rest (by simp only [List.length_cons] at even; omega)]
  | [_] => simp at even
  | [] => rfl

theorem flatten_even (blocks : List (List UInt8)) (even : ∀ block ∈ blocks, block.length % 2 = 0) :
    blocks.flatten.length % 2 = 0 ∧ samplesOf blocks.flatten = blocks.flatMap samplesOf := by
  induction blocks with
  | nil => exact ⟨rfl, rfl⟩
  | cons block blocks ih =>
    have first := even block List.mem_cons_self
    obtain ⟨rest, samples⟩ := ih fun b member => even b (List.mem_cons_of_mem _ member)
    rw [List.flatten_cons, List.flatMap_cons, List.length_append, samplesOf_append _ _ first,
      samples]
    exact ⟨by omega, rfl⟩

theorem cascade_length (later : List (Stage F)) (x : F × F) :
    (cascade later x).1.length = later.length := by
  induction later generalizing x with
  | nil => rfl
  | cons st later ih =>
    rw [cascade]
    rcases stageRun st x with ⟨st', _ | y⟩
    · rfl
    · simp [ih]

/-- `stage1_next` feeds one block, whole or partial; a partial one uses up the input. -/
theorem stage1Next_spec (some : input.length / 2 ≠ 0) :
    ∃ count, 2 * (count + 1) ≤ input.length ∧
      dsp.first.counter + (count + 1) ≤ dsp.first.decimation ∧
      ((count + 1 = input.length / 2 ∧ ∃ dsp' rest, stage1Next dsp input = (dsp', rest, false) ∧
          (stage1Block (count + 1) dsp input).1.settle (count + 1) = (dsp', [])) ∨
        ∃ dsp', stage1Next dsp input = (dsp', input.drop (2 * (count + 1)), true) ∧
          dsp'.later = dsp.later ∧
          (stage1Block (count + 1) dsp input).1.settle (count + 1) =
            ({ dsp' with later := (cascade dsp'.later (stageFir dsp'.first)).1 },
              components (cascade dsp'.later (stageFir dsp'.first)).2)) := by
  have counting := dsp.first.counting
  unfold stage1Next
  simp only [if_neg some]
  generalize size : (if input.length / 2 < dsp.first.decimation - dsp.first.counter then
    input.length / 2 else dsp.first.decimation - dsp.first.counter) = total
  have bounds : 0 < total ∧ total ≤ input.length / 2 ∧
      total ≤ dsp.first.decimation - dsp.first.counter ∧
      (total < dsp.first.decimation - dsp.first.counter → total = input.length / 2) := by
    split_ifs at size <;> omega
  obtain ⟨count, rfl⟩ : ∃ count, total = count + 1 := ⟨total - 1, by omega⟩
  obtain ⟨counter, decimation, later⟩ := stage1Block_kept (count + 1) dsp input
  refine ⟨count, by omega, by omega, ?_⟩
  by_cases short : (stage1Block (count + 1) dsp input).1.first.counter + (count + 1) <
      (stage1Block (count + 1) dsp input).1.first.decimation
  · left
    refine ⟨bounds.2.2.2 (by omega), _, _, dif_pos short, ?_⟩
    rw [Dsp.settle, dif_pos short]
  · right
    rw [dif_neg short, stage1Block_rest _ _ _ (by omega), Dsp.settle, dif_neg short]
    exact ⟨_, rfl, later, rfl⟩

/-- The loop of a process function is the sample machine over the whole input. The
induction is on the fuel, one round for each completed block. -/
theorem processLoop_eq (fuel : Nat) (dsp : Dsp F D) (input : List UInt8)
    (enough : input.length < fuel) :
    processLoop dsp.later.length fuel dsp input =
      Transducer.run sampleStep dsp (samplesOf input) := by
  induction fuel generalizing dsp input with
  | zero => omega
  | succ fuel ih =>
    rw [processLoop]
    by_cases none : input.length / 2 = 0
    · -- less than one sample
      have nothing : samplesOf input = [] := List.length_eq_zero_iff.mp (by rw [samplesOf_length, none])
      have idle : stage1Next dsp input = (dsp, input, false) := by simp [stage1Next, none]
      rw [idle, nothing]
      rfl
    · obtain ⟨count, size, inside, ⟨all, dsp', rest, next, settled⟩ | ⟨dsp', next, later, settled⟩⟩ :=
        stage1Next_spec dsp input none
      · -- the input ends inside a block
        have whole : (samplesOf input).take (count + 1) = samplesOf input :=
          List.take_of_length_le (by rw [samplesOf_length, all])
        rw [next, ← whole, run_block count dsp input size inside, settled]
      · have split : samplesOf input =
            (samplesOf input).take (count + 1) ++ samplesOf (input.drop (2 * (count + 1))) := by
          rw [← samplesOf_drop, List.take_append_drop]
        have fuelled := ih { dsp' with later := (cascade dsp'.later (stageFir dsp'.first)).1 }
          (input.drop (2 * (count + 1))) (by rw [List.length_drop]; omega)
        simp only [cascade_length, later] at fuelled
        rw [next, split, Transducer.run_append, run_block count dsp input size inside, settled]
        simp only [later, List.take_length, List.drop_length, List.append_nil, fuelled]

/-- Whichever function `rtlsdr_dsp_create` chose, it is the sample machine. -/
theorem processFn_eq (few : dsp.numStages ≤ maxStages) :
    dsp.processFn input = Transducer.run sampleStep dsp (samplesOf input) := by
  have whole (stages : Nat) (all : stages = dsp.later.length) :
      process stages dsp input = Transducer.run sampleStep dsp (samplesOf input) := by
    subst all
    exact processLoop_eq _ dsp input (Nat.lt_succ_self _)
  unfold Dsp.numStages maxStages at few
  unfold Dsp.processFn Dsp.numStages
  split_ifs with one two three four
  · exact whole 0 (by omega)
  · exact whole 1 (by omega)
  · exact whole 2 (by omega)
  · exact whole 3 (by omega)
  · exact whole 4 (by omega)

theorem sampleStep_numStages : (sampleStep dsp sample).1.numStages = dsp.numStages := by
  unfold sampleStep Dsp.numStages
  simp only
  rcases stageRun (dsp.mix sample).1.first (dsp.mix sample).2 with ⟨first, _ | y⟩
  · rfl
  · simp only [cascade_length]
    rfl

theorem sampleStep_output :
    (sampleStep dsp sample).2.length = 0 ∨ (sampleStep dsp sample).2.length = 2 := by
  unfold sampleStep
  simp only
  rcases stageRun (dsp.mix sample).1.first (dsp.mix sample).2 with ⟨first, _ | y⟩
  · exact .inl rfl
  · rcases out : (cascade (dsp.mix sample).1.later y).2 with _ | z
    · left
      simp only [out]
      rfl
    · right
      simp only [out]
      rfl

theorem run_output (samples : List (UInt8 × UInt8)) :
    (Transducer.run sampleStep dsp samples).2.length % 2 = 0 ∧
      (Transducer.run sampleStep dsp samples).2.length ≤ 2 * samples.length := by
  induction samples generalizing dsp with
  | nil => exact ⟨rfl, Nat.le_refl 0⟩
  | cons sample samples ih =>
    obtain ⟨even, bound⟩ := ih (sampleStep dsp sample).1
    rw [Transducer.run_cons, List.length_append, List.length_cons]
    rcases sampleStep_output dsp sample with none | two
    · omega
    · omega

end RtlSdr
