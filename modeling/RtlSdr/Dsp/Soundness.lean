import RtlSdr.Dsp.Plan

/-!
# What a filter plan is good for

The product of the factors is the ratio in every case, so the check behind the sort never fails, and
dividing by them in turn gives exact rates down to the output rate. Outside the raw case every rate
stays above the bandwidth, which makes the transition band of each stage positive.
-/
namespace RtlSdr

/-! ### The factor search -/

theorem smallFactor_dvd (remaining : Nat) : smallFactor remaining ∣ remaining := by
  unfold smallFactor
  split_ifs with four three two
  · exact Nat.dvd_of_mod_eq_zero four
  · exact Nat.dvd_of_mod_eq_zero three
  · exact Nat.dvd_of_mod_eq_zero two
  · exact Nat.one_dvd _

theorem primeFactor_stops (remaining fuel f : Nat)
    (enough : remaining < (f + fuel) * (f + fuel)) :
    f ≤ primeFactor remaining fuel f ∧
      (remaining < primeFactor remaining fuel f * primeFactor remaining fuel f ∨
        primeFactor remaining fuel f ∣ remaining) := by
  induction fuel generalizing f with
  | zero => exact ⟨Nat.le_refl f, .inl enough⟩
  | succ fuel ih =>
    rw [primeFactor]
    split_ifs with below divides
    · exact ⟨Nat.le_refl f, .inr (Nat.dvd_of_mod_eq_zero divides)⟩
    · rw [show f + (fuel + 1) = f + 1 + fuel by omega] at enough
      obtain ⟨later, stopped⟩ := ih (f + 1) enough
      exact ⟨Nat.le_of_succ_le later, stopped⟩
    · exact ⟨Nat.le_refl f, .inl (Nat.lt_of_not_le below)⟩

theorem primeFactor_spec (remaining : Nat) :
    5 ≤ primeFactor remaining remaining 5 ∧
      (remaining < primeFactor remaining remaining 5 * primeFactor remaining remaining 5 ∨
        primeFactor remaining remaining 5 ∣ remaining) := by
  apply primeFactor_stops
  calc remaining < 5 + remaining := by omega
    _ ≤ (5 + remaining) * (5 + remaining) := Nat.le_mul_self _

/-- The factor that a turn of the loop looks at. -/
def turnFactor (remaining : Nat) : Nat :=
  if smallFactor remaining < 2 then primeFactor remaining remaining 5 else smallFactor remaining

theorem factorLoop_turn (slots remaining : Nat) :
    factorLoop (slots + 1) remaining =
      if remaining > 1 then
        if smallFactor remaining < 2 ∧ turnFactor remaining * turnFactor remaining > remaining then
          ([], remaining)
        else
          (turnFactor remaining :: (factorLoop slots (remaining / turnFactor remaining)).1,
            (factorLoop slots (remaining / turnFactor remaining)).2)
      else ([], remaining) := rfl

theorem turnFactor_dvd (remaining : Nat)
    (taken : ¬(smallFactor remaining < 2 ∧
      turnFactor remaining * turnFactor remaining > remaining)) :
    2 ≤ turnFactor remaining ∧ turnFactor remaining ∣ remaining := by
  unfold turnFactor at taken ⊢
  split_ifs at taken ⊢ with none
  · obtain ⟨five, stopped⟩ := primeFactor_spec remaining
    exact ⟨by omega, stopped.resolve_left fun beyond => taken ⟨none, beyond⟩⟩
  · exact ⟨Nat.le_of_not_lt none, smallFactor_dvd remaining⟩

theorem factorLoop_prod (slots remaining : Nat) (positive : 0 < remaining) :
    (factorLoop slots remaining).1.prod * (factorLoop slots remaining).2 = remaining ∧
      ∀ f ∈ (factorLoop slots remaining).1, 2 ≤ f := by
  induction slots generalizing remaining with
  | zero => exact ⟨Nat.one_mul _, fun f member => (List.not_mem_nil member).elim⟩
  | succ slots ih =>
    rw [factorLoop_turn]
    split_ifs with more ended
    · exact ⟨Nat.one_mul _, fun f member => (List.not_mem_nil member).elim⟩
    · obtain ⟨two, divides⟩ := turnFactor_dvd remaining ended
      obtain ⟨product, least⟩ := ih (remaining / turnFactor remaining)
        (Nat.div_pos (Nat.le_of_dvd positive divides) (by omega))
      constructor
      · rw [List.prod_cons, Nat.mul_assoc, product, Nat.mul_div_cancel' divides]
      · intro g member
        rcases List.mem_cons.mp member with rfl | later
        · exact two
        · exact least g later
    · exact ⟨Nat.one_mul _, fun f member => (List.not_mem_nil member).elim⟩

theorem planFactors_prod (ratio : Nat) (positive : 0 < ratio) :
    (planFactors ratio).prod = ratio := by
  obtain ⟨product, _⟩ := factorLoop_prod (maxStages - 1) ratio positive
  simp only [planFactors]
  split_ifs with last
  · rw [List.prod_append, List.prod_singleton, product]
  · -- nothing is left, since the product is positive
    have one : (factorLoop (maxStages - 1) ratio).2 = 1 := by
      have nonzero : (factorLoop (maxStages - 1) ratio).2 ≠ 0 := by
        intro zero
        rw [zero, Nat.mul_zero] at product
        omega
      omega
    rwa [one, Nat.mul_one] at product

theorem planFactors_two (ratio : Nat) (positive : 0 < ratio) :
    ∀ f ∈ planFactors ratio, 2 ≤ f ∨ ratio = 1 := by
  obtain ⟨product, least⟩ := factorLoop_prod (maxStages - 1) ratio positive
  intro f member
  simp only [planFactors] at member
  split_ifs at member with last
  · rcases List.mem_append.mp member with found | rest
    · exact .inl (least f found)
    · obtain rfl := List.mem_singleton.mp rest
      rcases last with large | empty
      · exact .inl large
      · rw [empty, List.prod_nil, Nat.one_mul] at product
        rw [product]
        omega
  · exact .inl (least f member)

/-! ### The sort -/

/-- The inner loop brings the largest entry to the front. -/
theorem exchange_perm (first : Nat) (rest : List Nat) :
    ((exchange first rest).1 :: (exchange first rest).2).Perm (first :: rest) := by
  induction rest generalizing first with
  | nil => exact List.Perm.refl _
  | cons x rest ih =>
    simp only [exchange]
    split_ifs
    · exact (List.Perm.swap first _ _).trans ((ih x).cons first)
    · exact (List.Perm.swap x _ _).trans (((ih first).cons x).trans (List.Perm.swap first x rest))

theorem exchange_largest (first : Nat) (rest : List Nat) :
    ∀ y ∈ first :: rest, y ≤ (exchange first rest).1 := by
  induction rest generalizing first with
  | nil =>
    intro y member
    rw [List.mem_singleton.mp member]
    exact Nat.le_refl first
  | cons x rest ih =>
    intro y member
    simp only [exchange]
    split_ifs with larger
    · rcases List.mem_cons.mp member with rfl | later
      · exact Nat.le_trans (Nat.le_of_lt larger) (ih x x List.mem_cons_self)
      · exact ih x y later
    · rcases List.mem_cons.mp member with rfl | later
      · exact ih y y List.mem_cons_self
      · rcases List.mem_cons.mp later with rfl | last
        · exact Nat.le_trans (Nat.le_of_not_lt larger) (ih first first List.mem_cons_self)
        · exact ih first y (List.mem_cons_of_mem _ last)

theorem sortFactors_perm (fuel : Nat) (factors : List Nat) :
    (sortFactors fuel factors).Perm factors := by
  induction fuel generalizing factors with
  | zero => exact List.Perm.refl _
  | succ fuel ih =>
    cases factors with
    | nil => exact List.Perm.refl _
    | cons first rest => exact ((ih _).cons _).trans (exchange_perm first rest)

theorem sortFactors_sorted (fuel : Nat) (factors : List Nat) (enough : factors.length ≤ fuel) :
    (sortFactors fuel factors).Pairwise (· ≥ ·) := by
  induction fuel generalizing factors with
  | zero =>
    rw [List.length_eq_zero_iff.mp (Nat.le_zero.mp enough)]
    exact List.Pairwise.nil
  | succ fuel ih =>
    cases factors with
    | nil => exact List.Pairwise.nil
    | cons first rest =>
      have length := exchange_length first rest
      rw [List.length_cons] at enough
      refine List.pairwise_cons.mpr ⟨?_, ih _ (by omega)⟩
      intro y member
      have inside : y ∈ (exchange first rest).2 := (sortFactors_perm fuel _).mem_iff.mp member
      exact exchange_largest first rest y
        ((exchange_perm first rest).mem_iff.mp (List.mem_cons_of_mem _ inside))

/-- The factors of a plan in their order. -/
def orderedFactors (ratio : Nat) : List Nat :=
  sortFactors (planFactors ratio).length (planFactors ratio)

theorem orderedFactors_perm (ratio : Nat) : (orderedFactors ratio).Perm (planFactors ratio) :=
  sortFactors_perm _ _

theorem orderedFactors_prod (ratio : Nat) (positive : 0 < ratio) :
    (orderedFactors ratio).prod = ratio := by
  rw [(orderedFactors_perm ratio).prod_eq, planFactors_prod ratio positive]

theorem orderedFactors_two (ratio : Nat) (positive : 0 < ratio) :
    ∀ f ∈ orderedFactors ratio, 2 ≤ f ∨ ratio = 1 := fun f member =>
  planFactors_two ratio positive f ((orderedFactors_perm ratio).mem_iff.mp member)

/-! ### Taps -/

theorem makeOdd (taps : Nat) :
    (if taps &&& 1 = 0 then taps + 1 else taps) % 2 = 1 ∧
      taps ≤ if taps &&& 1 = 0 then taps + 1 else taps := by
  rw [Nat.and_one_is_mod]
  split <;> omega

/-- An odd number of taps, at least three and enough for the transition band. -/
theorem firTaps_spec (rate transition : Nat) (positive : 0 < transition) :
    firTaps rate transition % 2 = 1 ∧ 3 ≤ firTaps rate transition ∧
      16 * rate ≤ firTaps rate transition * transition := by
  have enough : 16 * rate ≤ (16 * rate + transition - 1) / transition * transition := by
    have round := Nat.lt_div_mul_add (a := 16 * rate + transition - 1) positive
    omega
  simp only [firTaps]
  generalize (16 * rate + transition - 1) / transition = least at enough
  obtain ⟨odd, larger⟩ := makeOdd (if least < 3 then 3 else least)
  have bounds : 3 ≤ (if least < 3 then 3 else least) ∧
      least ≤ if least < 3 then 3 else least := by
    split <;> omega
  exact ⟨odd, Nat.le_trans bounds.1 larger,
    Nat.le_trans enough (Nat.mul_le_mul_right transition (Nat.le_trans bounds.2 larger))⟩

/-! ### The stages -/

section

variable {D F : Type} [CDouble D F]

/-- Stages that divide `rate` exactly down to `outputRate`, with filters that are wide enough
unless the plan is raw. -/
def StagesSound (raw : Bool) (bandwidth outputRate : Nat) : Nat → List (PlanStage D) → Prop
  | rate, [] => rate = outputRate
  | rate, stage :: later =>
    stage.factor ∣ rate ∧
      (raw = false →
        bandwidth < rate / stage.factor ∧ stage.taps % 2 = 1 ∧ 3 ≤ stage.taps ∧
          stage.taps ≤ 16383 ∧ 16 * rate ≤ stage.taps * (rate / stage.factor - bandwidth)) ∧
      StagesSound raw bandwidth outputRate (rate / stage.factor) later

theorem rate_next (outputRate rate : Nat) (factor : { f : Nat // 0 < f })
    (factors : List { f : Nat // 0 < f }) (positive : 0 < rate)
    (exactly : rate = outputRate * ((factor :: factors).map Subtype.val).prod) :
    factor.val ∣ rate ∧ rate / factor.val = outputRate * (factors.map Subtype.val).prod ∧
      0 < rate / factor.val ∧ outputRate ≤ rate / factor.val := by
  rw [List.map_cons, List.prod_cons, Nat.mul_left_comm] at exactly
  have divides : factor.val ∣ rate := ⟨_, exactly⟩
  have next : rate / factor.val = outputRate * (factors.map Subtype.val).prod := by
    rw [exactly, Nat.mul_div_cancel_left _ factor.property]
  have next_pos : 0 < rate / factor.val :=
    Nat.div_pos (Nat.le_of_dvd positive divides) factor.property
  refine ⟨divides, next, next_pos, ?_⟩
  rw [next] at next_pos ⊢
  exact Nat.le_mul_of_pos_right _ (Nat.pos_of_mul_pos_left next_pos)

theorem planStages_sound (raw : Bool) (bandwidth outputRate rate : Nat)
    (factors : List { f : Nat // 0 < f }) (stages : List (PlanStage D))
    (positive : 0 < rate) (narrow : raw = false → bandwidth < outputRate)
    (exactly : rate = outputRate * (factors.map Subtype.val).prod)
    (planned : planStages raw bandwidth rate factors = some stages) :
    StagesSound raw bandwidth outputRate rate stages := by
  induction factors generalizing rate stages with
  | nil =>
    obtain rfl := Option.some.inj planned
    rw [exactly]
    exact Nat.mul_one _
  | cons factor factors ih =>
    obtain ⟨divides, next, next_pos, least⟩ :=
      rate_next outputRate rate factor factors positive exactly
    simp only [planStages] at planned
    split_ifs at planned with isRaw limit
    · obtain ⟨rest, later, rfl⟩ := Option.map_eq_some_iff.mp planned
      exact ⟨divides, fun notRaw => absurd isRaw (by rw [notRaw]; decide),
        ih _ rest next_pos next later⟩
    · obtain ⟨rest, later, rfl⟩ := Option.map_eq_some_iff.mp planned
      refine ⟨divides, fun notRaw => ?_, ih _ rest next_pos next later⟩
      have above : bandwidth < rate / factor.val := Nat.lt_of_lt_of_le (narrow notRaw) least
      obtain ⟨odd, three, wide⟩ := firTaps_spec rate (rate / factor.val - bandwidth) (by omega)
      exact ⟨above, odd, three, Nat.le_of_not_lt limit, wide⟩

/-! ### The plan -/

/-- `raw`. -/
def isRaw (inputRate outputRate bandwidth : Nat) (freqOffset : Int) : Bool :=
  bandwidth == inputRate && outputRate == inputRate && freqOffset == 0

def effectiveBandwidth (outputRate bandwidth : Nat) : Nat :=
  if bandwidth = 0 then 4 * outputRate / 5 else bandwidth

/-- What is checked before the stages are planned. -/
structure Admissible (inputRate outputRate bandwidth : Nat) (freqOffset : Int) : Prop where
  positive : 0 < outputRate
  decimates : outputRate ≤ inputRate
  fits : inputRate ≤ 2 ^ 32 - 1
  divides : outputRate ∣ inputRate
  ratio : inputRate / outputRate ≤ 4096
  offset : freqOffset ≠ -2 ^ 63
  some : 0 < effectiveBandwidth outputRate bandwidth
  narrow : isRaw inputRate outputRate bandwidth freqOffset = true ∨
    effectiveBandwidth outputRate bandwidth ≤ 4 * outputRate / 5
  inside : 2 * freqOffset.natAbs + effectiveBandwidth outputRate bandwidth ≤ inputRate

theorem Admissible.ratio_pos {inputRate outputRate bandwidth : Nat} {freqOffset : Int}
    (admissible : Admissible inputRate outputRate bandwidth freqOffset) :
    0 < inputRate / outputRate :=
  Nat.div_pos admissible.decimates admissible.positive

/-- The factors with the fact that `planStages` needs. -/
def positiveFactors (ratio : Nat) (positive : 0 < ratio) : List { f : Nat // 0 < f } :=
  (orderedFactors ratio).attachWith (0 < ·)
    (pos_of_prod _ ratio positive (orderedFactors_prod ratio positive))

@[simp] theorem positiveFactors_val (ratio : Nat) (positive : 0 < ratio) :
    (positiveFactors ratio positive).map Subtype.val = orderedFactors ratio :=
  List.attachWith_map_subtype_val _

theorem isRaw_iff (inputRate outputRate bandwidth : Nat) (freqOffset : Int) :
    isRaw inputRate outputRate bandwidth freqOffset = true ↔
      bandwidth = inputRate ∧ outputRate = inputRate ∧ freqOffset = 0 := by
  simp only [isRaw, Bool.and_eq_true, beq_iff_eq, and_assoc]

section

variable (inputRate outputRate bandwidth : Nat) (freqOffset : Int)

variable {inputRate outputRate freqOffset} in
theorem ratio_pos (valid : ¬(outputRate = 0 ∨ outputRate > inputRate ∨ inputRate > uint32Max ∨
    inputRate % outputRate ≠ 0 ∨ inputRate / outputRate > 4096 ∨ freqOffset = int64Min)) :
    0 < inputRate / outputRate :=
  Nat.div_pos (by omega) (by omega)

theorem makePlan_eq :
    (makePlan inputRate outputRate bandwidth freqOffset : Option (Plan D)) =
      if invalid : outputRate = 0 ∨ outputRate > inputRate ∨ inputRate > uint32Max ∨
          inputRate % outputRate ≠ 0 ∨ inputRate / outputRate > 4096 ∨ freqOffset = int64Min then
        none
      else if effectiveBandwidth outputRate bandwidth = 0 ∨
          (isRaw inputRate outputRate bandwidth freqOffset = false ∧
            effectiveBandwidth outputRate bandwidth > 4 * outputRate / 5) then none
      else if freqOffset.natAbs > (inputRate - effectiveBandwidth outputRate bandwidth) / 2 then
        none
      else (planStages (isRaw inputRate outputRate bandwidth freqOffset)
        (effectiveBandwidth outputRate bandwidth) inputRate
        (positiveFactors (inputRate / outputRate) (ratio_pos invalid))).map
          (⟨effectiveBandwidth outputRate bandwidth, ·⟩) := by
  unfold makePlan
  split
  next => rfl
  next valid =>
    have ratio := ratio_pos valid
    -- the product is right, so its check is passed
    have product : (sortFactors (planFactors (inputRate / outputRate)).length
        (planFactors (inputRate / outputRate))).prod = inputRate / outputRate :=
      orderedFactors_prod (inputRate / outputRate) ratio
    simp only [dif_pos product]
    rfl

theorem effectiveBandwidth_le (decimates : outputRate ≤ inputRate)
    (band : isRaw inputRate outputRate bandwidth freqOffset = true ∨
      effectiveBandwidth outputRate bandwidth ≤ 4 * outputRate / 5) :
    effectiveBandwidth outputRate bandwidth ≤ inputRate := by
  rcases band with raw | narrow
  · obtain ⟨whole, _, _⟩ := (isRaw_iff inputRate outputRate bandwidth freqOffset).mp raw
    unfold effectiveBandwidth
    split <;> omega
  · omega

theorem narrow_of_band (positive : 0 < outputRate)
    (band : isRaw inputRate outputRate bandwidth freqOffset = true ∨
      effectiveBandwidth outputRate bandwidth ≤ 4 * outputRate / 5)
    (notRaw : isRaw inputRate outputRate bandwidth freqOffset = false) :
    effectiveBandwidth outputRate bandwidth < outputRate := by
  rcases band with raw | narrow
  · rw [raw] at notRaw
    cases notRaw
  · omega

theorem band_of_check
    (band : ¬(effectiveBandwidth outputRate bandwidth = 0 ∨
      (isRaw inputRate outputRate bandwidth freqOffset = false ∧
        effectiveBandwidth outputRate bandwidth > 4 * outputRate / 5))) :
    isRaw inputRate outputRate bandwidth freqOffset = true ∨
      effectiveBandwidth outputRate bandwidth ≤ 4 * outputRate / 5 := by
  cases raw : isRaw inputRate outputRate bandwidth freqOffset with
  | true => exact .inl rfl
  | false => exact .inr (Nat.le_of_not_lt fun broad => band (.inr ⟨raw, broad⟩))

theorem admissible_iff :
    Admissible inputRate outputRate bandwidth freqOffset ↔
      ¬(outputRate = 0 ∨ outputRate > inputRate ∨ inputRate > uint32Max ∨
          inputRate % outputRate ≠ 0 ∨ inputRate / outputRate > 4096 ∨ freqOffset = int64Min) ∧
        ¬(effectiveBandwidth outputRate bandwidth = 0 ∨
          (isRaw inputRate outputRate bandwidth freqOffset = false ∧
            effectiveBandwidth outputRate bandwidth > 4 * outputRate / 5)) ∧
        ¬freqOffset.natAbs > (inputRate - effectiveBandwidth outputRate bandwidth) / 2 := by
  constructor
  · intro admissible
    have positive := admissible.positive
    have decimates := admissible.decimates
    have fits := admissible.fits
    have divides := Nat.mod_eq_zero_of_dvd admissible.divides
    have ratio := admissible.ratio
    have some := admissible.some
    have inside := admissible.inside
    refine ⟨by unfold uint32Max int64Min; omega, ?_, by omega⟩
    rintro (zero | ⟨notRaw, broad⟩)
    · omega
    · rcases admissible.narrow with raw | narrow
      · rw [raw] at notRaw
        cases notRaw
      · omega
  · rintro ⟨checked, band, offset⟩
    unfold uint32Max int64Min at checked
    have narrow := band_of_check inputRate outputRate bandwidth freqOffset band
    have below := effectiveBandwidth_le inputRate outputRate bandwidth freqOffset (by omega) narrow
    exact ⟨by omega, by omega, by omega, Nat.dvd_of_mod_eq_zero (by omega), by omega, by omega,
      Nat.pos_of_ne_zero fun zero => band (.inl zero), narrow, by omega⟩

/-- `make_plan` on an admissible request plans the stages, and refuses every other. -/
theorem makePlan_admissible (admissible : Admissible inputRate outputRate bandwidth freqOffset) :
    (makePlan inputRate outputRate bandwidth freqOffset : Option (Plan D)) =
      (planStages (isRaw inputRate outputRate bandwidth freqOffset)
        (effectiveBandwidth outputRate bandwidth) inputRate
        (positiveFactors (inputRate / outputRate) admissible.ratio_pos)).map
          (⟨effectiveBandwidth outputRate bandwidth, ·⟩) := by
  obtain ⟨checked, band, offset⟩ := (admissible_iff ..).mp admissible
  rw [makePlan_eq, dif_neg checked, if_neg band, if_neg offset]

theorem admissible_of_makePlan (plan : Plan D)
    (planned : makePlan inputRate outputRate bandwidth freqOffset = some plan) :
    Admissible inputRate outputRate bandwidth freqOffset := by
  rw [makePlan_eq] at planned
  rw [admissible_iff]
  split_ifs at planned with checked band offset
  exact ⟨checked, band, offset⟩

/-- An accepted request: one to five stages in non-increasing order whose factors multiply to
the ratio, so that the check of the product is always passed; exact rates down to the output
rate; and, unless the request is raw, filters with an odd number of taps for a transition band
that is not empty. The search for a factor stops by its own conditions. -/
theorem plan_sound (plan : Plan D)
    (planned : makePlan inputRate outputRate bandwidth freqOffset = some plan) :
    (1 ≤ plan.stages.length ∧ plan.stages.length ≤ 5) ∧
      (plan.stages.map PlanStage.factor).Pairwise (· ≥ ·) ∧
      (plan.stages.map PlanStage.factor).prod = inputRate / outputRate ∧
      (∀ f ∈ plan.stages.map PlanStage.factor, 2 ≤ f ∨ inputRate / outputRate = 1) ∧
      StagesSound (isRaw inputRate outputRate bandwidth freqOffset) plan.bandwidth outputRate
        inputRate plan.stages ∧
      (∀ ratio, 0 < ratio →
        (sortFactors (planFactors ratio).length (planFactors ratio)).prod = ratio) ∧
      ∀ remaining, remaining < primeFactor remaining remaining 5 *
          primeFactor remaining remaining 5 ∨
        primeFactor remaining remaining 5 ∣ remaining := by
  have admissible := admissible_of_makePlan inputRate outputRate bandwidth freqOffset plan planned
  obtain ⟨some, few, product⟩ := makePlan_spec inputRate outputRate bandwidth freqOffset plan
    planned
  rw [makePlan_admissible inputRate outputRate bandwidth freqOffset admissible] at planned
  obtain ⟨stages, later, rfl⟩ := Option.map_eq_some_iff.mp planned
  have factors := planStages_factors _ _ _ _ _ later
  rw [positiveFactors_val] at factors
  have ratio := admissible.ratio_pos
  have narrow := narrow_of_band inputRate outputRate bandwidth freqOffset admissible.positive
    admissible.narrow
  have exactly : inputRate = outputRate *
      ((positiveFactors (inputRate / outputRate) ratio).map Subtype.val).prod := by
    rw [positiveFactors_val, orderedFactors_prod _ ratio, Nat.mul_div_cancel' admissible.divides]
  refine ⟨⟨some, few⟩, ?_, product, ?_, ?_, orderedFactors_prod, fun remaining =>
    (primeFactor_spec remaining).2⟩
  · rw [factors]
    exact sortFactors_sorted _ _ (Nat.le_refl _)
  · rw [factors]
    exact orderedFactors_two _ ratio
  · have positive : 0 < inputRate :=
      Nat.lt_of_lt_of_le admissible.positive admissible.decimates
    exact planStages_sound _ _ outputRate inputRate _ _ positive narrow exactly later

end

end

/-- A decimation by 10 is one by 5 and one by 2. -/
theorem plan_sound_ten : ∃ plan : Plan Whole, makePlan 2400000 240000 0 0 = some plan ∧
    (plan.stages.map PlanStage.factor).prod = 10 ∧
    StagesSound false plan.bandwidth 240000 2400000 plan.stages := by
  have accepted : (makePlan 2400000 240000 0 0 : Option (Plan Whole)).isSome = true := by
    decide +kernel
  obtain ⟨plan, planned⟩ := Option.isSome_iff_exists.mp accepted
  obtain ⟨_, _, product, _, sound, _⟩ := plan_sound 2400000 240000 0 0 plan planned
  exact ⟨plan, planned, product, sound⟩

end RtlSdr
