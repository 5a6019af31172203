import RtlSdr.Dsp.Sample

/-!
# The chain is its textbook definition

The reference: block DC with the first-order recursion, mix sample `n` with the NCO at
phase `n * phase_inc`, then let every stage convolve its whole input with the taps and
keep one output in `decimation`. Nothing in it is circular, counted or fused.
-/
namespace RtlSdr

variable {F D : Type} [CFloat F] [CDouble D F]

/-! ### The reference -/

/-- `x[n]`, zero for negative `n`. -/
def sampleAt (x : List (F × F)) (n : Int) : F × F :=
  if n < 0 then silence else x.getD n.toNat silence

/-- `y[m] = sum over j of coeffs[j] * x[(m+1) * decimation - 1 - j]`. -/
def decimatingFir (st : Stage F) (x : List (F × F)) : List (F × F) :=
  (List.range (x.length / st.decimation)).map fun m =>
    tapSum st.numTaps st.coeffs fun j => sampleAt x (((m + 1) * st.decimation : Nat) - 1 - (j : Int))

/-- The stages one after the other, each over the whole output of the one before. -/
def firChain : List (Stage F) → List (F × F) → List (F × F)
  | [], x => x
  | st :: later, x => firChain later (decimatingFir st x)

/-- An input byte around the converter's midpoint. -/
def centred (byte : UInt8) : D := CDouble.ofInt byte.toNat - 127.5

/-- `y[n] = x[n] - x[n-1] + alpha * y[n-1]`, from silence. -/
def dcBlocked (alpha : D) (x : Nat → D) : Nat → D
  | 0 => x 0 - 0.0 + alpha * 0.0
  | n + 1 => x (n + 1) - x n + alpha * dcBlocked alpha x n

/-- Input sample `n`, blocked and mixed with the NCO at phase `n * phase_inc mod 2^32`. -/
def mixedAt (alpha : D) (phaseInc : UInt32) (samples : List (UInt8 × UInt8)) (n : Nat) : F × F :=
  let phase := UInt32.ofNat (n * phaseInc.toNat)
  let cos : D := CDouble.ofFloat (ncoCos D phase)
  let sin : D := CDouble.ofFloat (ncoSin D phase)
  let yi := dcBlocked alpha (fun k => centred (samples.getD k (0, 0)).1) n
  let yq := dcBlocked alpha (fun k => centred (samples.getD k (0, 0)).2) n
  (CDouble.toFloat (yi * cos + yq * sin), CDouble.toFloat (yq * cos - yi * sin))

def mixedInput (alpha : D) (phaseInc : UInt32) (samples : List (UInt8 × UInt8)) : List (F × F) :=
  (List.range samples.length).map (mixedAt alpha phaseInc samples)

/-- Both components of every filtered sample, saturated. -/
def saturated (y : List (F × F)) : List Int16 := y.flatMap fun y => [sat16 y.1, sat16 y.2]

/-! ### One stage -/

theorem sampleAt_append (x : List (F × F)) (next : F × F) (n : Int) (inside : n < x.length) :
    sampleAt (x ++ [next]) n = sampleAt x n := by
  unfold sampleAt
  split_ifs with negative
  · rfl
  · rw [List.getD_append _ _ _ _ (by omega)]

theorem sampleAt_ago (x : List (F × F)) (j : Nat) :
    sampleAt x ((x.length : Int) - 1 - j) = DelayLine.ago silence x j := by
  unfold sampleAt
  split_ifs with negative
  · rw [DelayLine.ago_before _ _ _ (by omega)]
  · rw [DelayLine.ago_eq_getD _ _ _ (by omega)]
    congr 1
    omega

/-- One more input sample adds an output exactly when it completes a block. -/
theorem decimatingFir_push (st : Stage F) (x : List (F × F)) (next : F × F) :
    decimatingFir st (x ++ [next]) = decimatingFir st x ++
      if (x.length + 1) % st.decimation = 0 then
        [tapSum st.numTaps st.coeffs (DelayLine.ago silence (x ++ [next]))]
      else [] := by
  -- the outputs there already were do not look at the new sample
  have old : (List.range (x.length / st.decimation)).map (fun m =>
      tapSum st.numTaps st.coeffs fun j =>
        sampleAt (x ++ [next]) (((m + 1) * st.decimation : Nat) - 1 - (j : Int))) =
      decimatingFir st x := by
    apply List.map_congr_left
    intro m member
    congr 1
    funext j
    have block : (m + 1) * st.decimation ≤ x.length := by
      calc (m + 1) * st.decimation ≤ x.length / st.decimation * st.decimation :=
            Nat.mul_le_mul_right _ (List.mem_range.mp member)
        _ ≤ x.length := Nat.div_mul_le_self _ _
    exact sampleAt_append x next _ (by omega)
  unfold decimatingFir at old ⊢
  rw [List.length_append, List.length_singleton, Nat.succ_div]
  by_cases complete : (x.length + 1) % st.decimation = 0
  · have divides : st.decimation ∣ x.length + 1 := Nat.dvd_of_mod_eq_zero complete
    rw [if_pos complete, if_pos divides, List.range_succ, List.map_append, old]
    congr 1
    have block : (x.length / st.decimation + 1) * st.decimation = x.length + 1 := by
      have quotient : (x.length + 1) / st.decimation = x.length / st.decimation + 1 := by
        rw [Nat.succ_div, if_pos divides]
      rw [← quotient, Nat.div_mul_cancel divides]
    simp only [List.map_cons, List.map_nil, block]
    congr 2
    funext j
    have last := sampleAt_ago (x ++ [next]) j
    rw [List.length_append, List.length_singleton] at last
    exact last
  · have indivisible : ¬st.decimation ∣ x.length + 1 := fun divides =>
      complete (Nat.mod_eq_zero_of_dvd divides)
    rw [if_neg complete, if_neg indivisible, Nat.add_zero, old, List.append_nil]

/-! ### The chain of stages -/

/-- Every stage has been fed exactly what the reference gives it. -/
def ChainTracks : List (Stage F) → List (F × F) → Prop
  | [], _ => True
  | st :: later, x => st.Tracks x ∧ ChainTracks later (decimatingFir st x)

theorem decimatingFir_stageRun (st : Stage F) (x : F × F) :
    decimatingFir (stageRun st x).1 = decimatingFir st := by
  obtain ⟨coeffs, numTaps, _, decimation⟩ := stageRun_fixed st x
  funext y
  simp only [decimatingFir, coeffs, numTaps, decimation]

/-- One sample through the chain: every stage that fires hands the next reference output
to the stage behind it. -/
theorem cascade_tracks (stages : List (Stage F)) (x : List (F × F)) (next : F × F)
    (tracks : ChainTracks stages x) :
    ChainTracks (cascade stages next).1 (x ++ [next]) ∧
      firChain (cascade stages next).1 = firChain stages ∧
      firChain stages (x ++ [next]) = firChain stages x ++ (cascade stages next).2.toList := by
  induction stages generalizing x next with
  | nil => exact ⟨trivial, rfl, rfl⟩
  | cons st later ih =>
    obtain ⟨first, rest⟩ := tracks
    obtain ⟨fed, answer⟩ := stageRun_tracks st x next first
    have push := decimatingFir_push st x next
    have fixed := decimatingFir_stageRun st next
    rw [cascade]
    rcases run : stageRun st next with ⟨st', _ | y⟩
    · -- the stage does not fire, and the reference has no new output either
      rw [run] at fed answer fixed
      have short : ¬(x.length + 1) % st.decimation = 0 := by
        intro complete
        rw [if_pos complete] at answer
        cases answer
      rw [if_neg short, List.append_nil] at push
      refine ⟨⟨fed, ?_⟩, ?_, ?_⟩
      · rw [fixed, push]
        exact rest
      · funext z
        rw [firChain, firChain, fixed]
      · rw [firChain, firChain, push]
        exact (List.append_nil _).symm
    · rw [run] at fed answer fixed
      have complete : (x.length + 1) % st.decimation = 0 := by
        by_contra short
        rw [if_neg short] at answer
        cases answer
      rw [if_pos complete] at answer push
      obtain rfl := Option.some.inj answer
      obtain ⟨fedLater, same, output⟩ := ih (decimatingFir st x) _ rest
      refine ⟨⟨fed, ?_⟩, ?_, ?_⟩
      · rw [fixed, push]
        exact fedLater
      · funext z
        simp only [firChain, fixed, same]
      · simp only [firChain, push, output]

/-! ### The front end -/

section

omit [CFloat F]

variable (alpha : D) (part : UInt8 × UInt8 → UInt8)

theorem dcBlocked_congr (x y : Nat → D) (n : Nat) (same : ∀ k ≤ n, x k = y k) :
    dcBlocked alpha x n = dcBlocked alpha y n := by
  induction n with
  | zero => rw [dcBlocked, dcBlocked, same 0 (Nat.le_refl 0)]
  | succ n ih =>
    rw [dcBlocked, dcBlocked, same (n + 1) (Nat.le_refl _), same n (Nat.le_succ n),
      ih fun k below => same k (Nat.le_succ_of_le below)]

/-- `x[n-1]`, zero before the start. -/
def previous (x : Nat → D) : Nat → D
  | 0 => 0.0
  | n + 1 => x n

theorem dcBlocked_eq (x : Nat → D) (n : Nat) :
    dcBlocked alpha x n = x n - previous x n + alpha * previous (dcBlocked alpha x) n := by
  cases n <;> rfl

theorem previous_congr (x y : Nat → D) (n : Nat) (same : ∀ k < n, x k = y k) :
    previous x n = previous y n := by
  cases n with
  | zero => rfl
  | succ n => exact same n (Nat.lt_succ_self n)

/-- The component stream the DC blocker sees. -/
def stream (part : UInt8 × UInt8 → UInt8) (samples : List (UInt8 × UInt8)) (k : Nat) : D :=
  centred (part (samples.getD k (0, 0)))

theorem stream_append (samples : List (UInt8 × UInt8)) (next : UInt8 × UInt8) (k : Nat)
    (inside : k < samples.length) :
    (stream part (samples ++ [next]) k : D) = stream part samples k := by
  rw [stream, stream, List.getD_append _ _ _ _ inside]

theorem stream_last (samples : List (UInt8 × UInt8)) (next : UInt8 × UInt8) :
    (stream part (samples ++ [next]) samples.length : D) = centred (part next) := by
  rw [stream, List.getD_append_right _ _ _ _ (Nat.le_refl _), Nat.sub_self]
  rfl

/-- The DC blocker's registers after `samples`. -/
structure Blocker (alpha : D) (part : UInt8 × UInt8 → UInt8) (samples : List (UInt8 × UInt8))
    (x y : D) : Prop where
  input : x = previous (stream part samples) samples.length
  output : y = previous (dcBlocked alpha (stream part samples)) samples.length

theorem Blocker.step (samples : List (UInt8 × UInt8)) (next : UInt8 × UInt8) (x y : D)
    (at_ : Blocker alpha part samples x y) :
    centred (part next) - x + alpha * y =
        dcBlocked alpha (stream part (samples ++ [next])) samples.length ∧
      Blocker alpha part (samples ++ [next]) (centred (part next))
        (centred (part next) - x + alpha * y) := by
  have inputs := previous_congr (stream part (samples ++ [next])) (stream part samples)
    samples.length (fun k inside => stream_append (D := D) part samples next k inside)
  have outputs := previous_congr (dcBlocked alpha (stream part (samples ++ [next])))
    (dcBlocked alpha (stream part samples)) samples.length (by
      intro k inside
      apply dcBlocked_congr
      intro l below
      exact stream_append part samples next l (Nat.lt_of_le_of_lt below inside))
  have now : centred (part next) - x + alpha * y =
      dcBlocked alpha (stream part (samples ++ [next])) samples.length := by
    rw [dcBlocked_eq, stream_last, inputs, outputs, ← at_.input, ← at_.output]
  refine ⟨now, ⟨?_, ?_⟩⟩
  · rw [List.length_append, List.length_singleton, previous, stream_last]
  · rw [List.length_append, List.length_singleton, previous, now]

theorem mixedAt_append (phaseInc : UInt32) (samples : List (UInt8 × UInt8)) (next : UInt8 × UInt8)
    (n : Nat) (inside : n < samples.length) :
    (mixedAt alpha phaseInc (samples ++ [next]) n : F × F) = mixedAt alpha phaseInc samples n := by
  have component (part : UInt8 × UInt8 → UInt8) :
      dcBlocked alpha (stream part (samples ++ [next])) n =
        dcBlocked alpha (stream part samples) n := by
    apply dcBlocked_congr
    intro k below
    exact stream_append part samples next k (Nat.lt_of_le_of_lt below inside)
  have i := component Prod.fst
  have q := component Prod.snd
  unfold stream at i q
  simp only [mixedAt, i, q]

theorem mixedInput_push (phaseInc : UInt32) (samples : List (UInt8 × UInt8))
    (next : UInt8 × UInt8) :
    (mixedInput alpha phaseInc (samples ++ [next]) : List (F × F)) =
      mixedInput alpha phaseInc samples ++
        [mixedAt alpha phaseInc (samples ++ [next]) samples.length] := by
  unfold mixedInput
  rw [List.length_append, List.length_singleton, List.range_succ, List.map_append]
  congr 1
  apply List.map_congr_left
  intro n member
  exact mixedAt_append alpha phaseInc samples next n (List.mem_range.mp member)

end

/-- The whole instance after `samples`, seen from the reference: phase, DC blocker and
every stage's delay line. -/
structure Dsp.Tracks (dsp fresh : Dsp F D) (samples : List (UInt8 × UInt8)) : Prop where
  alpha : dsp.dcAlpha = fresh.dcAlpha
  inc : dsp.phaseInc = fresh.phaseInc
  phase : dsp.phase = UInt32.ofNat (samples.length * fresh.phaseInc.toNat)
  blockerI : Blocker fresh.dcAlpha Prod.fst samples dsp.dcXi dsp.dcYi
  blockerQ : Blocker fresh.dcAlpha Prod.snd samples dsp.dcXq dsp.dcYq
  stages : ChainTracks (dsp.first :: dsp.later)
    (mixedInput fresh.dcAlpha fresh.phaseInc samples)
  chain : firChain (dsp.first :: dsp.later) = firChain (fresh.first :: fresh.later)

/-- The reference output for an instance. -/
def reference (fresh : Dsp F D) (samples : List (UInt8 × UInt8)) : List Int16 :=
  saturated (firChain (fresh.first :: fresh.later)
    (mixedInput fresh.dcAlpha fresh.phaseInc samples))

theorem saturated_append (y : List (F × F)) (out : Option (F × F)) :
    saturated (y ++ out.toList) = saturated y ++ components out := by
  cases out <;> simp [saturated, components]

/-- The sample machine is `mix` followed by the chain of all stages. -/
theorem sampleStep_cascade (dsp : Dsp F D) (sample : UInt8 × UInt8) :
    ∃ first later out,
      cascade (dsp.first :: dsp.later) (dsp.mix sample).2 = (first :: later, out) ∧
      sampleStep dsp sample = ({ (dsp.mix sample).1 with first, later }, components out) := by
  have stages : (dsp.mix sample).1.first = dsp.first ∧ (dsp.mix sample).1.later = dsp.later :=
    ⟨rfl, rfl⟩
  unfold sampleStep
  rw [cascade]
  simp only [stages.1, stages.2]
  rcases stageRun dsp.first (dsp.mix sample).2 with ⟨first, _ | y⟩
  · exact ⟨first, dsp.later, none, rfl, rfl⟩
  · exact ⟨first, _, _, rfl, rfl⟩

theorem mix_eq (dsp fresh : Dsp F D) (samples : List (UInt8 × UInt8)) (next : UInt8 × UInt8)
    (tracks : dsp.Tracks fresh samples) :
    (dsp.mix next).2 =
      mixedAt fresh.dcAlpha fresh.phaseInc (samples ++ [next]) samples.length := by
  obtain ⟨i, _⟩ := tracks.blockerI.step fresh.dcAlpha Prod.fst samples next _ _
  obtain ⟨q, _⟩ := tracks.blockerQ.step fresh.dcAlpha Prod.snd samples next _ _
  unfold stream at i q
  simp only [Dsp.mix, mixedAt, ← i, ← q, tracks.phase, tracks.alpha]
  rfl

/-- One sample keeps the instance in step with the reference and outputs what the
reference gains. -/
theorem sampleStep_tracks (dsp fresh : Dsp F D) (samples : List (UInt8 × UInt8))
    (next : UInt8 × UInt8) (tracks : dsp.Tracks fresh samples) :
    (sampleStep dsp next).1.Tracks fresh (samples ++ [next]) ∧
      reference fresh (samples ++ [next]) = reference fresh samples ++ (sampleStep dsp next).2 := by
  obtain ⟨first, later, out, chained, step⟩ := sampleStep_cascade dsp next
  have mixed := mix_eq dsp fresh samples next tracks
  have push := mixedInput_push (F := F) fresh.dcAlpha fresh.phaseInc samples next
  obtain ⟨fed, same, gained⟩ := cascade_tracks _ _ (dsp.mix next).2 tracks.stages
  rw [chained] at fed same gained
  rw [← mixed] at push
  rw [step]
  refine ⟨⟨tracks.alpha, tracks.inc, ?_, ?_, ?_, ?_, ?_⟩, ?_⟩
  · have advance : (dsp.mix next).1.phase = dsp.phase + dsp.phaseInc := rfl
    rw [advance, tracks.phase, tracks.inc, List.length_append, List.length_singleton, Nat.succ_mul,
      UInt32.ofNat_add, UInt32.ofNat_toNat]
  · have kept := (tracks.blockerI.step fresh.dcAlpha Prod.fst samples next _ _).2
    rw [← tracks.alpha] at kept ⊢
    exact kept
  · have kept := (tracks.blockerQ.step fresh.dcAlpha Prod.snd samples next _ _).2
    rw [← tracks.alpha] at kept ⊢
    exact kept
  · rw [push]
    exact fed
  · rw [same, tracks.chain]
  · unfold reference
    rw [push, ← tracks.chain, gained, saturated_append]

theorem run_tracks (fresh : Dsp F D) (samples : List (UInt8 × UInt8))
    (initial : fresh.Tracks fresh []) :
    (Transducer.run sampleStep fresh samples).1.Tracks fresh samples ∧
      (Transducer.run sampleStep fresh samples).2 = reference fresh samples := by
  have nothing : reference fresh [] = [] := by
    have empty (stages : List (Stage F)) : firChain stages [] = [] := by
      induction stages with
      | nil => rfl
      | cons st later ih => simpa [firChain, decimatingFir] using ih
    simp [reference, mixedInput, empty, saturated]
  refine Transducer.run_history sampleStep
    (fun samples now => now.1.Tracks fresh samples ∧ now.2 = reference fresh samples) fresh
    ⟨initial, nothing.symm⟩ samples ?_
  rintro before next after _ ⟨tracks, output⟩
  obtain ⟨fed, gained⟩ := sampleStep_tracks _ fresh before next tracks
  rw [Transducer.run_concat]
  exact ⟨fed, by rw [gained, output]⟩

theorem tracks_fresh (dsp : Dsp F D) (plan : Plan D) (fresh : dsp.FreshFrom plan) :
    dsp.Tracks dsp [] := by
  obtain ⟨⟨first, later, _, head, tail⟩, reset⟩ := fresh
  have chain (plans : List (PlanStage D)) :
      ChainTracks (plans.map stageInit : List (Stage F)) [] := by
    induction plans with
    | nil => trivial
    | cons stage plans ih => exact ⟨Stage.tracks_fresh stage, by simpa [decimatingFir] using ih⟩
  refine ⟨rfl, rfl, ?_, ?_, ?_, ?_, rfl⟩
  · rw [← reset]
    simp only [List.length_nil, Nat.zero_mul]
    rfl
  · rw [← reset]
    exact ⟨rfl, rfl⟩
  · rw [← reset]
    exact ⟨rfl, rfl⟩
  · rw [head, tail]
    exact chain (first :: later)

/-- The process function `rtlsdr_dsp_create` chooses computes the reference: its output is
the saturated chain of plain convolutions, its fused blocks are `stage_run` sample by
sample, and at every moment each delay line still holds what the taps will read. -/
theorem dsp_convolution (allocated : Bool) (inputRate outputRate bandwidth : Nat)
    (freqOffset : Int) (dsp : Dsp F D)
    (created : dspCreate allocated inputRate outputRate bandwidth freqOffset = some dsp)
    (input : List UInt8) :
    (dsp.processFn input).2 =
        saturated (firChain (dsp.first :: dsp.later)
          (mixedInput dsp.dcAlpha dsp.phaseInc (samplesOf input))) ∧
      dsp.processFn input = Transducer.run sampleStep dsp (samplesOf input) ∧
      (dsp.processFn input).1.Tracks dsp (samplesOf input) := by
  obtain ⟨plan, _, fresh⟩ :=
    dspCreate_fresh allocated inputRate outputRate bandwidth freqOffset dsp created
  obtain ⟨few, _⟩ :=
    dspCreate_stages allocated inputRate outputRate bandwidth freqOffset dsp created
  have machine := processFn_eq dsp input few
  obtain ⟨tracks, output⟩ := run_tracks dsp (samplesOf input) (tracks_fresh dsp plan fresh)
  rw [machine]
  exact ⟨output, rfl, tracks⟩

/-- The chain on IEEE arithmetic from 600 kHz to 100 kHz, which takes two stages. -/
theorem dsp_convolution_six :
    ∃ dsp : Dsp Float32 Float, dspCreate true 600000 100000 0 100000 = some dsp ∧
      (dsp.processFn (List.replicate 24 200)).2 =
        saturated (firChain (dsp.first :: dsp.later)
          (mixedInput dsp.dcAlpha dsp.phaseInc (List.replicate 12 (200, 200)))) := by
  have succeeds : (dspCreate true 600000 100000 0 100000 :
      Option (Dsp Float32 Float)).isSome = true := rfl
  obtain ⟨dsp, created⟩ := Option.isSome_iff_exists.mp succeeds
  exact ⟨dsp, created, (dsp_convolution true 600000 100000 0 100000 dsp created _).1⟩

end RtlSdr
