import RtlSdr.Dsp.PlanWords
import RtlSdr.Dsp.Process

/-!
# The contract of a channel request

Which requests `rtlsdr_dsp_validate` accepts, in the terms of the protocol's documentation. The
bandwidth it reports can take the place of the one requested: the plan stays the same, so that a
channel that was validated can be created whenever there is memory for it.
-/
namespace RtlSdr

/-! ### The stages that are planned -/

/-- The rates before and behind each stage. -/
def stageRates : Nat → List Nat → List (Nat × Nat)
  | _, [] => []
  | rate, factor :: factors => (rate, rate / factor) :: stageRates (rate / factor) factors

/-- A request as the documentation has it. -/
def Accepted (inputRate outputRate bandwidth : Nat) (freqOffset : Int) : Prop :=
  (0 < outputRate ∧ outputRate ≤ inputRate ∧ inputRate ≤ 2 ^ 32 - 1) ∧
    outputRate ∣ inputRate ∧ inputRate / outputRate ≤ 4096 ∧ freqOffset ≠ -2 ^ 63 ∧
    0 < effectiveBandwidth outputRate bandwidth ∧
    2 * freqOffset.natAbs + effectiveBandwidth outputRate bandwidth ≤ inputRate ∧
    ((bandwidth = inputRate ∧ outputRate = inputRate ∧ freqOffset = 0) ∨
      effectiveBandwidth outputRate bandwidth ≤ 4 * outputRate / 5 ∧
        ∀ stage ∈ stageRates inputRate (orderedFactors (inputRate / outputRate)),
          firTaps stage.1 (stage.2 - effectiveBandwidth outputRate bandwidth) ≤ 16383)

section

variable {D F : Type} [CDouble D F]

/-- The last loop fails only for the number of taps. -/
theorem planStages_isSome (raw : Bool) (bandwidth rate : Nat)
    (factors : List { f : Nat // 0 < f }) :
    (planStages raw bandwidth rate factors : Option (List (PlanStage D))).isSome = true ↔
      raw = true ∨ ∀ stage ∈ stageRates rate (factors.map Subtype.val),
        firTaps stage.1 (stage.2 - bandwidth) ≤ 16383 := by
  induction factors generalizing rate with
  | nil =>
    constructor
    · intro _
      exact .inr fun stage member => (List.not_mem_nil member).elim
    · intro _
      rfl
  | cons factor factors ih =>
    rw [planStages, List.map_cons, stageRates, List.forall_mem_cons]
    cases raw with
    | true =>
      simp only [if_true, Option.isSome_map, ih, true_or]
    | false =>
      simp only [Bool.false_eq_true, if_false, false_or]
      split
      next large =>
        constructor
        · intro none
          cases none
        · intro small
          exact absurd small.1 (Nat.not_le.mpr large)
      next small =>
        simp only [Option.isSome_map, ih, Bool.false_eq_true, false_or]
        exact (and_iff_right (Nat.le_of_not_lt small)).symm

section

variable (inputRate outputRate bandwidth : Nat) (freqOffset : Int)

/-- The plan exists if and only if the request is as documented. -/
theorem makePlan_isSome :
    (makePlan inputRate outputRate bandwidth freqOffset : Option (Plan D)).isSome = true ↔
      Accepted inputRate outputRate bandwidth freqOffset := by
  constructor
  · intro accepted
    obtain ⟨plan, planned⟩ := Option.isSome_iff_exists.mp accepted
    have admissible := admissible_of_makePlan inputRate outputRate bandwidth freqOffset plan planned
    rw [makePlan_admissible inputRate outputRate bandwidth freqOffset admissible,
      Option.isSome_map, planStages_isSome, positiveFactors_val, isRaw_iff] at accepted
    have narrow := admissible.narrow
    rw [isRaw_iff] at narrow
    exact ⟨⟨admissible.positive, admissible.decimates, admissible.fits⟩, admissible.divides,
      admissible.ratio, admissible.offset, admissible.some, admissible.inside,
      or_and_left.mpr ⟨narrow, accepted⟩⟩
  · rintro ⟨⟨positive, decimates, fits⟩, divides, ratio, offset, some, inside, filtered⟩
    obtain ⟨narrow, taps⟩ := or_and_left.mp filtered
    rw [← isRaw_iff] at narrow taps
    have admissible : Admissible inputRate outputRate bandwidth freqOffset :=
      ⟨positive, decimates, fits, divides, ratio, offset, some, narrow, inside⟩
    rw [makePlan_admissible inputRate outputRate bandwidth freqOffset admissible,
      Option.isSome_map, planStages_isSome, positiveFactors_val]
    exact taps

theorem makePlan_bandwidth (plan : Plan D)
    (planned : makePlan inputRate outputRate bandwidth freqOffset = some plan) :
    plan.bandwidth = effectiveBandwidth outputRate bandwidth := by
  have admissible := admissible_of_makePlan inputRate outputRate bandwidth freqOffset plan planned
  rw [makePlan_admissible inputRate outputRate bandwidth freqOffset admissible] at planned
  obtain ⟨stages, _, rfl⟩ := Option.map_eq_some_iff.mp planned
  rfl

/-! ### The effective bandwidth in place of the requested one -/

theorem effectiveBandwidth_again (some : 0 < effectiveBandwidth outputRate bandwidth) :
    effectiveBandwidth outputRate (effectiveBandwidth outputRate bandwidth) =
      effectiveBandwidth outputRate bandwidth :=
  if_neg (Nat.ne_of_gt some)

theorem isRaw_again (positive : 0 < outputRate) :
    isRaw inputRate outputRate (effectiveBandwidth outputRate bandwidth) freqOffset =
      isRaw inputRate outputRate bandwidth freqOffset := by
  by_cases default : bandwidth = 0
  · rw [Bool.eq_iff_iff, isRaw_iff, isRaw_iff, effectiveBandwidth, if_pos default]
    omega
  · rw [effectiveBandwidth, if_neg default]

theorem makePlan_again (plan : Plan D)
    (planned : makePlan inputRate outputRate bandwidth freqOffset = some plan) :
    (makePlan inputRate outputRate (effectiveBandwidth outputRate bandwidth) freqOffset :
      Option (Plan D)) = makePlan inputRate outputRate bandwidth freqOffset := by
  have admissible := admissible_of_makePlan inputRate outputRate bandwidth freqOffset plan planned
  simp only [makePlan_eq, effectiveBandwidth_again outputRate bandwidth admissible.some,
    isRaw_again inputRate outputRate bandwidth freqOffset admissible.positive]

end

/-! ### Creation -/

/-- How `pthread_once` and the allocations end, in the order in which they are made; four are
counted for each stage. -/
structure Resources where
  once : Bool
  alloc : Nat → Bool

/-- Whether `stage_init` gets its three arrays, and the one of `design_lowpass`. -/
def stageAllocated (alloc : Nat → Bool) (n taps : Nat) : Bool :=
  alloc n && alloc (n + 1) && alloc (n + 2) && (taps == 1 || alloc (n + 3))

def stagesAllocated (alloc : Nat → Bool) : Nat → List (PlanStage D) → Bool
  | _, [] => true
  | n, stage :: later => stageAllocated alloc n stage.taps && stagesAllocated alloc (n + 4) later

/-- `rtlsdr_dsp_create` with the outcome of each allocation. -/
def rtlsdrDspCreate [CFloat F] (resources : Resources) (inputRate outputRate bandwidth : Nat)
    (freqOffset : Int) : Option (Dsp F D) :=
  match (makePlan inputRate outputRate bandwidth freqOffset : Option (Plan D)) with
  | none => none
  | some plan =>
    if !resources.once then none
    else if !resources.alloc 0 then none
    else if !stagesAllocated resources.alloc 1 plan.stages then none
    else dspCreate true inputRate outputRate bandwidth freqOffset

theorem stagesAllocated_of_all (alloc : Nat → Bool) (all : ∀ n, alloc n = true) (n : Nat)
    (stages : List (PlanStage D)) : stagesAllocated alloc n stages = true := by
  induction stages generalizing n with
  | nil => rfl
  | cons stage later ih => simp [stagesAllocated, stageAllocated, all, ih]

theorem rtlsdrDspCreate_none [CFloat F] (resources : Resources)
    (inputRate outputRate bandwidth : Nat) (freqOffset : Int) (plan : Plan D)
    (planned : makePlan inputRate outputRate bandwidth freqOffset = some plan)
    (failed : (rtlsdrDspCreate resources inputRate outputRate bandwidth freqOffset :
      Option (Dsp F D)) = none) :
    resources.once = false ∨ ∃ n, resources.alloc n = false := by
  by_contra complete
  rw [not_or, not_exists] at complete
  have once : resources.once = true := Bool.not_eq_false _ ▸ complete.1
  have all : ∀ n, resources.alloc n = true := fun n => Bool.not_eq_false _ ▸ complete.2 n
  have several := (makePlan_spec inputRate outputRate bandwidth freqOffset plan planned).1
  simp only [rtlsdrDspCreate, planned, once, all, stagesAllocated_of_all _ all, dspCreate,
    Bool.not_true, Bool.false_eq_true, if_false] at failed
  -- there is a first stage
  cases stages : plan.stages with
  | nil =>
    rw [stages] at several
    exact Nat.lt_irrefl 0 several
  | cons first later =>
    rw [stages] at failed
    cases failed

/-- `rtlsdr_dsp_validate` accepts exactly the documented requests, without a step that wraps, and
reports the effective bandwidth. With it the plan stays the same, so that `rtlsdr_dsp_create`
fails only for a missing resource. -/
theorem validate_contract [CFloat F] (inputRate outputRate bandwidth : UInt64)
    (freqOffset : Int64) :
    let Fi := inputRate.toNat
    let Fo := outputRate.toNat
    let offset := freqOffset.toInt
    let checked := dspValidateWords D Fi Fo bandwidth.toNat offset
    checked.exact = true ∧
      (checked.value.isSome = true ↔ Accepted Fi Fo bandwidth.toNat offset) ∧
      ∀ effective, checked.value = some effective →
        effective = effectiveBandwidth Fo bandwidth.toNat ∧
        dspValidateWords D Fi Fo effective offset = checked ∧
        (makePlanWords Fi Fo effective offset : Checked (Option (PlanWords D))) =
          makePlanWords Fi Fo bandwidth.toNat offset ∧
        ∀ resources, (rtlsdrDspCreate resources Fi Fo effective offset : Option (Dsp F D)) = none →
          resources.once = false ∨ ∃ n, resources.alloc n = false := by
  intro Fi Fo offset checked
  have low : -2 ^ 63 ≤ offset := freqOffset.le_toInt
  have high : offset < 2 ^ 63 := freqOffset.toInt_lt
  have words (band : Nat) := makePlanWords_eq (D := D) Fi Fo band offset low high
  have result : checked = pure (dspValidate D Fi Fo bandwidth.toNat offset) := by
    unfold checked dspValidateWords
    rw [words, pure_bind, Option.map_map]
    rfl
  rw [result]
  refine ⟨rfl, ?_, ?_⟩
  · rw [Checked.value_pure, dspValidate, Option.isSome_map]
    exact makePlan_isSome Fi Fo bandwidth.toNat offset
  · intro effective reported
    obtain ⟨plan, planned, rfl⟩ := Option.map_eq_some_iff.mp reported
    have again := makePlan_again Fi Fo bandwidth.toNat offset plan planned
    rw [makePlan_bandwidth Fi Fo bandwidth.toNat offset plan planned]
    have same : (makePlanWords Fi Fo (effectiveBandwidth Fo bandwidth.toNat) offset :
        Checked (Option (PlanWords D))) = makePlanWords Fi Fo bandwidth.toNat offset := by
      rw [words, words, again]
    refine ⟨rfl, ?_, same, ?_⟩
    · rw [← result]
      unfold checked dspValidateWords
      rw [same]
    · intro resources failed
      exact rtlsdrDspCreate_none resources Fi Fo _ offset plan (again.trans planned) failed

end

end RtlSdr
