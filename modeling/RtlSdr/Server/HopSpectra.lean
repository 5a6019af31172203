import RtlSdr.Server.Hops

/-!
# The spectra of a stream

From a fresh start the samples alone say what the hop processing has done: window `h` is accumulated
once the last sample of its hop is there, and a transform that fails leaves everything but `fft_in`
and `fft_nsamples` as the window before left it.
-/
namespace RtlSdr

variable {F : Type} [CFloat F]

/-- The transform of the window of hop `h`. -/
def FftPlan.transformed (plan : FftPlan F) (samples : List (UInt8 × UInt8)) (h : Nat) :
    Option (List F) :=
  plan.transform.execute (windowed plan.transform.window (points (plan.window samples h)))

/-- What `calloc` leaves of the FFT fields, or `fft_gap` before any spectrum. -/
structure Fresh (plan : FftPlan F) (s : FftState F) : Prop where
  cleared : s.own = s.own.clear plan
  seq : s.shared.seq = 0
  ready : s.shared.ready = false

/-- The first `k` spectra of a stream are published, the last of them over `initial`. -/
structure Averaged (plan : FftPlan F) (initial : List F) (samples : List (UInt8 × UInt8)) (k : Nat)
    (shared : FftShared F) (published : List (UInt64 × List F)) : Prop where
  number : published.length = k
  spectrum : ∀ s < k, ∃ power, published[s]? = some (UInt64.ofNat (s + 1), power) ∧
    plan.average (plan.windows samples (s * plan.accum) plan.accum) = some power
  seq : shared.seq = UInt64.ofNat k
  ready : shared.ready = decide (0 < k)
  power : shared.power = (published.getLast?.map (·.2)).getD initial

/-- The first `h` windows of a stream are accumulated, and averaged as far as they make spectra. -/
structure AfterHops (plan : FftPlan F) (initial : List F) (samples : List (UInt8 × UInt8))
    (h : Nat) (s : FftState F) (published : List (UInt64 × List F)) : Prop where
  count : s.own.accumCount = h % plan.accum
  gathered : plan.accumulate (plan.windows samples (h / plan.accum * plan.accum)
    (h % plan.accum)) = some s.own.fftAcc
  published : Averaged plan initial samples (h / plan.accum) s.shared published

/-! ### More samples -/

theorem transformed_append (plan : FftPlan F) (samples more : List (UInt8 × UInt8)) (h : Nat)
    (complete : (h + 1) * plan.step ≤ samples.length) :
    plan.transformed (samples ++ more) h = plan.transformed samples h := by
  have wide := plan.step_ge
  rw [Nat.add_one_mul] at complete
  rw [FftPlan.transformed, window_append plan samples more h (by omega), FftPlan.transformed]

variable {shared : FftShared F} {plan : FftPlan F} {samples fed : List (UInt8 × UInt8)}
  {published : List (UInt64 × List F)} {initial : List F} {k h : Nat} {s : FftState F}

theorem Averaged.append (now : Averaged plan initial samples k shared published)
    (complete : k * plan.accum * plan.step ≤ samples.length) (more : List (UInt8 × UInt8)) :
    Averaged plan initial (samples ++ more) k shared published := by
  refine { now with spectrum := ?_ }
  intro s inside
  obtain ⟨power, here, average⟩ := now.spectrum s inside
  refine ⟨power, here, ?_⟩
  have earlier := Nat.mul_le_mul_right plan.step (Nat.mul_le_mul_right plan.accum inside)
  rw [Nat.succ_mul] at earlier
  rw [windows_append plan samples more _ _ (by omega)]
  exact average

theorem AfterHops.append (now : AfterHops plan initial samples h s published)
    (complete : h * plan.step ≤ samples.length) (more : List (UInt8 × UInt8)) :
    AfterHops plan initial (samples ++ more) h s published := by
  have whole := Nat.mul_le_mul_right plan.step (Nat.div_mul_le_self h plan.accum)
  refine ⟨now.count, ?_, now.published.append (by omega) more⟩
  have parts : h / plan.accum * plan.accum + h % plan.accum = h := Nat.div_add_mod' h plan.accum
  rw [windows_append plan samples more _ _ (by rw [parts]; exact complete)]
  exact now.gathered

/-! ### What the windows determine -/

theorem Averaged.unique {shared' : FftShared F} {published' : List (UInt64 × List F)}
    (one : Averaged plan initial samples k shared published)
    (other : Averaged plan initial samples k shared' published') : published = published' := by
  apply List.ext_getElem?
  intro s
  by_cases inside : s < k
  · obtain ⟨power, here, average⟩ := one.spectrum s inside
    obtain ⟨power', here', average'⟩ := other.spectrum s inside
    rw [here, here', Option.some.inj (average.symm.trans average')]
  · rw [List.getElem?_eq_none (by rw [one.number]; omega),
      List.getElem?_eq_none (by rw [other.number]; omega)]

/-- The fields that a failing transform leaves alone. -/
structure SameResults (s s' : FftState F) : Prop where
  acc : s.own.fftAcc = s'.own.fftAcc
  count : s.own.accumCount = s'.own.accumCount
  power : s.shared.power = s'.shared.power
  seq : s.shared.seq = s'.shared.seq
  ready : s.shared.ready = s'.shared.ready

theorem AfterHops.unique {s' : FftState F} {published' : List (UInt64 × List F)}
    (one : AfterHops plan initial samples h s published)
    (other : AfterHops plan initial samples h s' published') :
    SameResults s s' where
  acc := Option.some.inj (one.gathered.symm.trans other.gathered)
  count := one.count.trans other.count.symm
  power := by rw [one.published.power, other.published.power, one.published.unique other.published]
  seq := one.published.seq.trans other.published.seq.symm
  ready := one.published.ready.trans other.published.ready.symm

theorem accumulate_executes (plan : FftPlan F) (windows : List (List (UInt8 × UInt8)))
    (start acc : List F)
    (gathered : windows.foldlM (fun acc window => (plan.transform.execute
      (windowed plan.transform.window (points window))).map (addPower acc)) start = some acc) :
    ∀ window ∈ windows,
      plan.transform.execute (windowed plan.transform.window (points window)) ≠ none := by
  induction windows generalizing start with
  | nil =>
    intro window member
    cases member
  | cons window windows ih =>
    rw [List.foldlM_cons] at gathered
    obtain ⟨next, first, rest⟩ := Option.bind_eq_some_iff.mp gathered
    obtain ⟨spectrum, executed, _⟩ := Option.map_eq_some_iff.mp first
    intro other member
    rcases List.mem_cons.mp member with rfl | later
    · rw [executed]
      exact Option.some_ne_none _
    · exact ih next rest other later

theorem windows_executes (plan : FftPlan F) (samples : List (UInt8 × UInt8)) (first count : Nat)
    (acc : List F) (gathered : plan.accumulate (plan.windows samples first count) = some acc)
    (h : Nat) (inside : h < count) : plan.transformed samples (first + h) ≠ none :=
  accumulate_executes plan _ _ acc gathered _
    (List.mem_map.mpr ⟨h, List.mem_range.mpr inside, rfl⟩)

theorem AfterHops.executes (now : AfterHops plan initial samples h s published) (g : Nat)
    (before : g < h) : plan.transformed samples g ≠ none := by
  have positive := plan.accum_pos
  have parts := Nat.div_add_mod' g plan.accum
  by_cases averaged : g / plan.accum < h / plan.accum
  · obtain ⟨power, _, average⟩ := now.published.spectrum _ averaged
    obtain ⟨acc, gathered, _⟩ := Option.map_eq_some_iff.mp average
    have executes := windows_executes plan samples _ _ acc gathered _ (Nat.mod_lt g positive)
    rw [parts] at executes
    exact executes
  · -- otherwise it is one of those gathered for the next spectrum
    have same : g / plan.accum = h / plan.accum :=
      Nat.le_antisymm (Nat.div_le_div_right (Nat.le_of_lt before)) (Nat.le_of_not_lt averaged)
    have parts' := Nat.div_add_mod' h plan.accum
    rw [same] at parts
    have executes := windows_executes plan samples _ _ _ now.gathered (g % plan.accum) (by omega)
    rw [parts] at executes
    exact executes

/-! ### A run -/

/-- Where a run is: still taking samples, or stopped at a window. -/
inductive Along (plan : FftPlan F) (initial : List F) (fed : List (UInt8 × UInt8)) :
    (FftState F × Bool) × List (UInt64 × List F) → Prop
  | running (s : FftState F) (published : List (UInt64 × List F)) (k : Nat)
      (collected : Collected plan s.own fed (k * plan.accum))
      (spectra : Averaged plan initial fed k s.shared published) :
      Along plan initial fed ((s, false), published)
  | stopped (s : FftState F) (published : List (UInt64 × List F)) (h : Nat)
      (complete : (h + 1) * plan.step ≤ fed.length) (fails : plan.transformed fed h = none)
      (after : AfterHops plan initial fed h s published) :
      Along plan initial fed ((s, true), published)

theorem Collected.after (collected : Collected plan s.own fed (k * plan.accum))
    (spectra : Averaged plan initial fed k s.shared published) :
    AfterHops plan initial fed (k * plan.accum + s.own.accumCount) s published := by
  obtain ⟨quotient, remainder⟩ := (Nat.div_mod_unique plan.accum_pos).mpr
    ⟨show s.own.accumCount + plan.accum * k = k * plan.accum + s.own.accumCount by
      rw [Nat.mul_comm, Nat.add_comm], collected.counting⟩
  refine ⟨remainder.symm, ?_, ?_⟩
  · rw [quotient, remainder]
    exact collected.gathered
  · rw [quotient]
    exact spectra

theorem Averaged.publish (now : Averaged plan initial fed k shared published) (power : List F)
    (average : plan.average (plan.windows fed (k * plan.accum) plan.accum) = some power) :
    Averaged plan initial fed (k + 1) (shared.publish power)
      (published ++ [((shared.publish power).seq, power)]) where
  number := by rw [List.length_append, now.number, List.length_singleton]
  spectrum := by
    intro s inside
    by_cases last : s = k
    · subst last
      refine ⟨power, ?_, average⟩
      rw [List.getElem?_append_right (by rw [now.number]), now.number, Nat.sub_self]
      simp [FftShared.publish, now.seq]
    · obtain ⟨earlier, here, averaged⟩ := now.spectrum s (by omega)
      refine ⟨earlier, ?_, averaged⟩
      rw [List.getElem?_append_left (by rw [now.number]; omega)]
      exact here
  seq := by simp [FftShared.publish, now.seq]
  ready := by simp [FftShared.publish]
  power := by simp [FftShared.publish]

theorem processFftRound_sample {st : FftLocal F} (i q : UInt8) (within : st.nsamples < plan.step) :
    (processFftRound plan st [i, q]).2.1 = [] := by
  obtain ⟨positive, most, _⟩ := roundCount_room plan st 1 within Nat.one_pos
  have one : roundCount plan st ([i, q].length / 2) = 1 := by
    rw [List.length_cons, List.length_singleton]
    exact Nat.le_antisymm most positive
  rw [processFftRound_eq, one]
  rfl

theorem along_step {now : (FftState F × Bool) × List (UInt64 × List F)}
    (along : Along plan initial fed now) (sample : UInt8 × UInt8) :
    Along plan initial (fed ++ [sample]) ((fftSampleStep plan now.1 sample).1,
      now.2 ++ (fftSampleStep plan now.1 sample).2) := by
  have longer : fed.length ≤ (fed ++ [sample]).length := by
    rw [List.length_append]
    omega
  cases along with
  | stopped s published h complete fails after =>
    have still : fftSampleStep plan (s, true) sample = ((s, true), []) := rfl
    rw [still, List.append_nil]
    rw [← transformed_append plan fed [sample] h complete] at fails
    refine .stopped s published h (by omega) fails (after.append ?_ _)
    rw [Nat.add_one_mul] at complete
    omega
  | running s published k collected spectra =>
    obtain ⟨i, q⟩ := sample
    obtain ⟨_, _, more, parts, collects⟩ := processFftRound_hop collected [i, q] (by simp)
    have nothing := processFftRound_sample i q collected.within
    rw [nothing] at parts
    change [(i, q)] = more ++ [] at parts
    rw [List.append_nil] at parts
    subst parts
    have total := collected.total
    have spectra' := spectra.append (by rw [Nat.add_mul] at total; omega) [(i, q)]
    have step : fftSampleStep plan (s, false) (i, q) =
        settle s.shared (processFftRound plan s.own [i, q]).1
          (processFftRound plan s.own [i, q]).2.2 := rfl
    rw [step]
    cases result : (processFftRound plan s.own [i, q]).2.2 with
    | collecting =>
      rw [result] at collects
      rw [settle, List.append_nil]
      exact .running _ _ k collects spectra'
    | failed =>
      rw [result] at collects
      obtain ⟨length, fails, count, acc⟩ := collects
      rw [settle, List.append_nil]
      refine .stopped _ _ (k * plan.accum + s.own.accumCount) (Nat.le_of_eq length.symm) fails ?_
      -- the windows before are accumulated as they were
      obtain ⟨counted, gathered, before⟩ := (collected.after spectra).append (by omega) [(i, q)]
      exact ⟨count.trans counted, gathered.trans (congrArg some acc.symm), before⟩
    | spectrum power =>
      rw [result] at collects
      obtain ⟨collected', _, average⟩ := collects
      rw [← Nat.succ_mul] at collected'
      exact .running _ _ (k + 1) collected' (spectra'.publish power average)

theorem along_run (fresh : Fresh plan s) (samples : List (UInt8 × UInt8)) :
    Along plan s.shared.power samples (Transducer.run (fftSampleStep plan) (s, false) samples) := by
  apply Transducer.run_history
  · have cleared := collected_clear plan s.own
    rw [← fresh.cleared] at cleared
    refine .running s [] 0 (by rw [Nat.zero_mul]; exact cleared) ⟨rfl, ?_, ?_, ?_, rfl⟩
    · intro number inside
      exact absurd inside (Nat.not_lt_zero _)
    · exact fresh.seq
    · exact fresh.ready
  · intro before sample after _ along
    rw [Transducer.run_concat]
    exact along_step along sample

/-! ### Whole calls -/

theorem Fresh.round (fresh : Fresh plan s) : Ready plan s.own := by
  have cleared := collected_clear plan s.own
  rw [← fresh.cleared] at cleared
  exact ⟨cleared.within, cleared.sized⟩

/-- Calls that all return 0 have accumulated every window whose hop is complete. -/
theorem processFftCalls_ok (fresh : Fresh plan s) (pieces : List (List UInt8))
    (even : ∀ piece ∈ pieces, piece.length % 2 = 0)
    (ok : (processFftCalls plan s pieces).ok = true) :
    let samples := samplesOf pieces.flatten
    let calls := processFftCalls plan s pieces
    calls.state.own.nsamples = samples.length % plan.step ∧
      AfterHops plan s.shared.power samples (samples.length / plan.step) calls.state
        calls.published := by
  intro samples calls
  have along := along_run fresh samples
  rw [processFftCalls_run plan s pieces even fresh.round, ok] at along
  cases along with
  | running _ _ k collected spectra =>
    have positive : 0 < plan.step := Nat.lt_of_le_of_lt (Nat.zero_le _) collected.within
    obtain ⟨quotient, remainder⟩ := (Nat.div_mod_unique positive).mpr
      ⟨show calls.state.own.nsamples +
          plan.step * (k * plan.accum + calls.state.own.accumCount) = samples.length by
        rw [Nat.mul_comm, Nat.add_comm]
        exact collected.total.symm, collected.within⟩
    rw [quotient]
    exact ⟨remainder.symm, collected.after spectra⟩

/-- Calls one of which returns -1 stopped at a window whose hop is complete. -/
theorem processFftCalls_failed (fresh : Fresh plan s) (pieces : List (List UInt8))
    (even : ∀ piece ∈ pieces, piece.length % 2 = 0)
    (failed : (processFftCalls plan s pieces).ok = false) :
    let samples := samplesOf pieces.flatten
    let calls := processFftCalls plan s pieces
    ∃ h < samples.length / plan.step, plan.transformed samples h = none ∧
      AfterHops plan s.shared.power samples h calls.state calls.published := by
  intro samples calls
  have along := along_run fresh samples
  have positive : 0 < plan.step := Nat.lt_of_le_of_lt (Nat.zero_le _) fresh.round.within
  rw [processFftCalls_run plan s pieces even fresh.round, failed] at along
  cases along with
  | stopped _ _ h complete fails after =>
    exact ⟨h, (Nat.le_div_iff_mul_le positive).mpr complete, fails, after⟩

theorem samplesOf_take (count : Nat) (input : List UInt8) (enough : 2 * count ≤ input.length) :
    (samplesOf (input.take (2 * count))).length = count ∧
      samplesOf input =
        samplesOf (input.take (2 * count)) ++ samplesOf (input.drop (2 * count)) := by
  have length : (input.take (2 * count)).length = 2 * count := by
    rw [List.length_take]
    omega
  constructor
  · rw [samplesOf_length, length]
    omega
  · rw [← samplesOf_append _ _ (by omega), List.take_append_drop]

/-- The call with the hops before a failing one succeeds, and the failing one adds nothing to what
it leaves. -/
theorem processFftCalls_before (fresh : Fresh plan s) {input : List UInt8} {stop : FftState F}
    (complete : h * plan.step ≤ input.length / 2)
    (after : AfterHops plan s.shared.power (samplesOf input) h stop published) :
    (rtlsdrServerProcessFft plan s (input.take (2 * (h * plan.step)))).ok = true ∧
      SameResults stop
        (rtlsdrServerProcessFft plan s (input.take (2 * (h * plan.step)))).state := by
  have positive : 0 < plan.step := Nat.lt_of_le_of_lt (Nat.zero_le _) fresh.round.within
  obtain ⟨length, parts⟩ := samplesOf_take (h * plan.step) input (by omega)
  have even : ∀ piece ∈ [input.take (2 * (h * plan.step))], piece.length % 2 = 0 := by
    intro piece member
    rw [List.mem_singleton.mp member, List.length_take]
    omega
  obtain ⟨state, ok, _⟩ := processFftCalls_cut plan s _ even fresh.round
  rw [List.flatten_singleton] at state ok
  rw [← state, ← ok]
  have executes := after.executes
  rw [parts] at executes after
  cases result : (processFftCalls plan s [input.take (2 * (h * plan.step))]).ok with
  | true =>
    obtain ⟨_, before⟩ := processFftCalls_ok fresh _ even result
    rw [List.flatten_singleton, length, Nat.mul_div_cancel _ positive] at before
    exact ⟨rfl, after.unique (before.append (by rw [length]) _)⟩
  | false =>
    obtain ⟨g, earlier, fails, _⟩ := processFftCalls_failed fresh _ even result
    rw [List.flatten_singleton, length, Nat.mul_div_cancel _ positive] at earlier
    rw [List.flatten_singleton] at fails
    have hop := Nat.mul_le_mul_right plan.step earlier
    rw [← transformed_append plan _ (samplesOf (input.drop (2 * (h * plan.step)))) g
      (by rw [length]; exact hop)] at fails
    exact absurd fails (executes g earlier)

/-- The hop processing of a stream, from a fresh start and however it is cut into calls: the cut
does not show; every access to `fft_in` is in bounds; when the calls succeed, exactly the windows
whose hop is complete are accumulated and averaged; and they fail exactly at the first window that
cannot be transformed, with what the window before left. -/
theorem process_fft_hops (plan : FftPlan F) (s : FftState F) (pieces : List (List UInt8))
    (fresh : Fresh plan s) (even : ∀ piece ∈ pieces, piece.length % 2 = 0) :
    let input := pieces.flatten
    let samples := samplesOf input
    let calls := processFftCalls plan s pieces
    let whole := rtlsdrServerProcessFft plan s input
    (calls.state = whole.state ∧ calls.ok = whole.ok ∧ calls.published = whole.published) ∧
      (∀ i ∈ calls.indices, i < 2 * plan.bins) ∧
      (calls.ok = true ↔ ∀ h < samples.length / plan.step, plan.transformed samples h ≠ none) ∧
      (calls.ok = true → calls.state.own.nsamples < plan.step ∧
        calls.state.own.nsamples = samples.length % plan.step ∧
        AfterHops plan s.shared.power samples (samples.length / plan.step) calls.state
          calls.published) ∧
      ∀ h < samples.length / plan.step, plan.transformed samples h = none →
        (∀ g < h, plan.transformed samples g ≠ none) →
          AfterHops plan s.shared.power samples h calls.state calls.published ∧
            let before := rtlsdrServerProcessFft plan s (input.take (2 * (h * plan.step)))
            before.ok = true ∧ SameResults calls.state before.state := by
  intro input samples calls whole
  have positive : 0 < plan.step := Nat.lt_of_le_of_lt (Nat.zero_le _) fresh.round.within
  have succeeds (ok : calls.ok = true) := processFftCalls_ok fresh pieces even ok
  have stops (failed : calls.ok = false) := processFftCalls_failed fresh pieces even failed
  refine ⟨processFftCalls_cut plan s pieces even fresh.round,
    processFftCalls_indices plan s pieces, ⟨?_, ?_⟩, ?_, ?_⟩
  · intro ok
    exact (succeeds ok).2.executes
  · intro executes
    by_contra failed
    obtain ⟨h, inside, fails, _⟩ := stops (Bool.eq_false_of_not_eq_true failed)
    exact executes h inside fails
  · intro ok
    obtain ⟨count, after⟩ := succeeds ok
    refine ⟨?_, count, after⟩
    rw [count]
    exact Nat.mod_lt _ positive
  · intro h inside fails first
    have failed : calls.ok = false := by
      by_contra ok
      exact (succeeds (Bool.eq_true_of_not_eq_false ok)).2.executes h inside fails
    obtain ⟨stop, before, fails', after⟩ := stops failed
    -- both are the first window that fails
    have same : stop = h := by
      apply Nat.le_antisymm
      · by_contra later
        exact after.executes h (by omega) fails
      · by_contra earlier
        exact first stop (by omega) fails'
    subst same
    refine ⟨after, processFftCalls_before fresh ?_ after⟩
    have hop := (Nat.le_div_iff_mul_le positive).mp (Nat.le_of_lt inside)
    rw [samplesOf_length] at hop
    exact hop

/-- Seven samples in calls of three, three and one, with a hop of three. -/
theorem process_fft_hops_seven :
    let plan : FftPlan Whole :=
      { bins := 2, step := 3, accum := 2, transform := plainTransform Whole 2
        bins_ge := by decide, step_ge := by decide, accum_pos := by decide }
    let own : FftLocal Whole := ⟨⟨0, 0⟩, 0, 0, [⟨0⟩, ⟨0⟩, ⟨0⟩, ⟨0⟩], [⟨0⟩, ⟨0⟩]⟩
    let s : FftState Whole := ⟨own, ⟨[⟨0⟩, ⟨0⟩], 0, 0, false⟩⟩
    let pieces : List (List UInt8) := [[1, 2, 3, 4, 5, 6], [7, 8, 9, 10, 11, 12], [13, 14]]
    Fresh plan s ∧ (∀ piece ∈ pieces, piece.length % 2 = 0) ∧
      let calls := processFftCalls plan s pieces
      calls.state = (rtlsdrServerProcessFft plan s pieces.flatten).state ∧
        calls.ok = true ∧ calls.state.own.nsamples = 1 ∧ calls.published.length = 1 := by
  intro plan own s pieces
  have fresh : Fresh plan s := ⟨rfl, rfl, rfl⟩
  have even : ∀ piece ∈ pieces, piece.length % 2 = 0 := by decide
  obtain ⟨cut, _, succeeds, counts, _⟩ := process_fft_hops plan s pieces fresh even
  have ok := succeeds.mpr fun _ _ => Option.some_ne_none _
  obtain ⟨_, left, after⟩ := counts ok
  have number := after.published.number
  have bytes : pieces.flatten.length = 14 := rfl
  rw [samplesOf_length, bytes] at left number
  change _ = 14 / 2 % 3 at left
  change _ = 14 / 2 / 3 / 2 at number
  exact ⟨fresh, even, cut.1, ok, left, number⟩

end RtlSdr
