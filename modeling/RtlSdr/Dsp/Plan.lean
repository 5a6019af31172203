import RtlSdr.Lib.CFloat
import Mathlib.Algebra.BigOperators.Group.List.Lemmas

/-!
# The filter plan (`make_plan` in `rtl_dsp.c`)

Rates and counts are natural numbers: everything above `UINT32_MAX` is refused before
any arithmetic is done on it, and nothing below it overflows 64 bits.
-/
namespace RtlSdr

def maxTaps : Nat := 16383
def maxStages : Nat := 5

def uint32Max : Nat := 2 ^ 32 - 1
def int64Min : Int := -2 ^ 63

/-- `for (f = 4; f >= 2; f--)`: 1 if none of them divides. -/
def smallFactor (remaining : Nat) : Nat :=
  if remaining % 4 = 0 then 4
  else if remaining % 3 = 0 then 3
  else if remaining % 2 = 0 then 2
  else 1

/-- `for (f = 5; f * f <= remaining; f++)`, with the `f` it stops at. -/
def primeFactor (remaining : Nat) : Nat → Nat → Nat
  | 0, f => f
  | fuel + 1, f =>
    if f * f ≤ remaining then
      if remaining % f = 0 then f else primeFactor remaining fuel (f + 1)
    else f

/-- The factor loop with `slots` free entries: the factors found and what remains. -/
def factorLoop : Nat → Nat → List Nat × Nat
  | 0, remaining => ([], remaining)
  | slots + 1, remaining =>
    if remaining > 1 then
      let small := smallFactor remaining
      let f := if small < 2 then primeFactor remaining remaining 5 else small
      -- a prime is left whole
      if small < 2 ∧ f * f > remaining then ([], remaining)
      else
        let (factors, rest) := factorLoop slots (remaining / f)
        (f :: factors, rest)
    else ([], remaining)

/-- The factors in the order they are found. -/
def planFactors (ratio : Nat) : List Nat :=
  let (factors, remaining) := factorLoop (maxStages - 1) ratio
  if remaining > 1 ∨ factors = [] then factors ++ [remaining] else factors

/-- The inner loop of the sort: `factors[i]` is exchanged with every larger entry behind it. -/
def exchange : Nat → List Nat → Nat × List Nat
  | first, [] => (first, [])
  | first, x :: rest =>
    if x > first then
      let (largest, rest) := exchange x rest
      (largest, first :: rest)
    else
      let (largest, rest) := exchange first rest
      (largest, x :: rest)

/-- The outer loop. Entry `i` is final once its inner loop is done, which is when the
source multiplies it into `product`. -/
def sortFactors : Nat → List Nat → List Nat
  | 0, factors => factors
  | _, [] => []
  | fuel + 1, first :: rest =>
    let (largest, rest) := exchange first rest
    largest :: sortFactors fuel rest

structure PlanStage (D : Type) where
  factor : Nat
  taps : Nat
  cutoff : D
  factor_pos : 0 < factor
  taps_pos : 0 < taps
  taps_le : taps ≤ maxTaps

/-- `struct dsp_plan`. -/
structure Plan (D : Type) where
  bandwidth : Nat
  stages : List (PlanStage D)

/-- The odd number of taps for a transition band, before the limit is checked. -/
def firTaps (rate transition : Nat) : Nat :=
  let taps := (16 * rate + transition - 1) / transition
  let taps := if taps < 3 then 3 else taps
  if taps &&& 1 = 0 then taps + 1 else taps

theorem firTaps_pos (rate transition : Nat) : 0 < firTaps rate transition := by
  simp only [firTaps]
  split_ifs <;> omega

section

variable {D F : Type} [CDouble D F]

/-- The last loop of `make_plan`: taps and cutoff of each stage. -/
def planStages (raw : Bool) (bandwidth : Nat) :
    Nat → List { f : Nat // 0 < f } → Option (List (PlanStage D))
  | _, [] => some []
  | rate, factor :: factors =>
    let nextRate := rate / factor.val
    if raw then
      (planStages raw bandwidth nextRate factors).map fun stages =>
        ⟨factor.val, 1, 0.5, factor.property, Nat.one_pos, by decide⟩ :: stages
    else
      let transition := nextRate - bandwidth
      let cutoff : D := CDouble.ofInt (bandwidth + nextRate : Nat) / (4.0 * CDouble.ofInt rate)
      if limit : firTaps rate transition > maxTaps then none
      else
        (planStages raw bandwidth nextRate factors).map fun stages =>
          ⟨factor.val, firTaps rate transition, cutoff, factor.property,
            firTaps_pos rate transition, Nat.le_of_not_lt limit⟩ :: stages

theorem pos_of_prod (factors : List Nat) (ratio : Nat) (positive : 0 < ratio)
    (product : factors.prod = ratio) : ∀ f ∈ factors, 0 < f := by
  intro f member
  have divides : f ∣ ratio := product ▸ List.dvd_prod member
  exact Nat.pos_of_dvd_of_pos divides positive

/-- `make_plan`; `none` is -1. -/
def makePlan (inputRate outputRate bandwidth : Nat) (freqOffset : Int) : Option (Plan D) :=
  let raw := bandwidth == inputRate && outputRate == inputRate && freqOffset == 0
  if invalid : outputRate = 0 ∨ outputRate > inputRate ∨ inputRate > uint32Max ∨
      inputRate % outputRate ≠ 0 ∨ inputRate / outputRate > 4096 ∨ freqOffset = int64Min then none
  else
    let bandwidth := if bandwidth = 0 then 4 * outputRate / 5 else bandwidth
    if bandwidth = 0 ∨ (raw = false ∧ bandwidth > 4 * outputRate / 5) then none
    else if freqOffset.natAbs > (inputRate - bandwidth) / 2 then none
    else
      let factors := planFactors (inputRate / outputRate)
      let factors := sortFactors factors.length factors
      if product : factors.prod = inputRate / outputRate then
        have ratio : 0 < inputRate / outputRate := Nat.div_pos (by omega) (by omega)
        (planStages raw bandwidth inputRate
          (factors.attachWith _ (pos_of_prod factors _ ratio product))).map (⟨bandwidth, ·⟩)
      else none

/-- `rtlsdr_dsp_validate`: the effective bandwidth, or -1. -/
def dspValidate (D : Type) {F : Type} [CDouble D F] (inputRate outputRate bandwidth : Nat)
    (freqOffset : Int) : Option Nat :=
  (makePlan inputRate outputRate bandwidth freqOffset : Option (Plan D)).map Plan.bandwidth

/-! ### What a plan guarantees -/

theorem factorLoop_length (slots remaining : Nat) :
    (factorLoop slots remaining).1.length ≤ slots := by
  induction slots generalizing remaining with
  | zero => exact Nat.le_refl 0
  | succ slots ih =>
    rw [factorLoop]
    split
    · simp only
      generalize (if smallFactor remaining < 2 then primeFactor remaining remaining 5
        else smallFactor remaining) = f
      split
      · exact Nat.zero_le _
      · exact Nat.succ_le_succ (ih _)
    · exact Nat.zero_le _

theorem planFactors_length (ratio : Nat) :
    0 < (planFactors ratio).length ∧ (planFactors ratio).length ≤ maxStages := by
  have bound := factorLoop_length (maxStages - 1) ratio
  simp only [planFactors]
  split_ifs with last
  · simp only [List.length_append, List.length_singleton]
    exact ⟨Nat.succ_pos _, Nat.succ_le_succ bound⟩
  · have found : (factorLoop (maxStages - 1) ratio).1 ≠ [] := fun none => last (.inr none)
    exact ⟨List.length_pos_iff.mpr found, Nat.le_succ_of_le bound⟩

theorem exchange_length (first : Nat) (rest : List Nat) :
    (exchange first rest).2.length = rest.length := by
  induction rest generalizing first with
  | nil => rfl
  | cons x rest ih =>
    simp only [exchange]
    split_ifs <;> simp [ih]

theorem sortFactors_length (fuel : Nat) (factors : List Nat) :
    (sortFactors fuel factors).length = factors.length := by
  induction fuel generalizing factors with
  | zero => rfl
  | succ fuel ih =>
    cases factors with
    | nil => rfl
    | cons first rest => simp [sortFactors, ih, exchange_length]

theorem planStages_factors (raw : Bool) (bandwidth rate : Nat) (factors : List { f : Nat // 0 < f })
    (stages : List (PlanStage D)) (planned : planStages raw bandwidth rate factors = some stages) :
    stages.map PlanStage.factor = factors.map Subtype.val := by
  induction factors generalizing rate stages with
  | nil =>
    obtain rfl := Option.some.inj planned
    rfl
  | cons factor factors ih =>
    simp only [planStages] at planned
    split_ifs at planned
    all_goals
      obtain ⟨rest, later, rfl⟩ := Option.map_eq_some_iff.mp planned
      simp [ih _ _ later]

theorem makePlan_spec (inputRate outputRate bandwidth : Nat) (freqOffset : Int) (plan : Plan D)
    (planned : makePlan inputRate outputRate bandwidth freqOffset = some plan) :
    0 < plan.stages.length ∧ plan.stages.length ≤ maxStages ∧
      (plan.stages.map PlanStage.factor).prod = inputRate / outputRate := by
  simp only [makePlan] at planned
  generalize (if bandwidth = 0 then 4 * outputRate / 5 else bandwidth) = effective at planned
  split_ifs at planned with invalid empty outside product
  obtain ⟨stages, later, rfl⟩ := Option.map_eq_some_iff.mp planned
  have factors := planStages_factors _ _ _ _ _ later
  rw [List.attachWith_map_subtype_val] at factors
  have count := congrArg List.length factors
  rw [List.length_map, sortFactors_length] at count
  obtain ⟨some, few⟩ := planFactors_length (inputRate / outputRate)
  exact ⟨by rw [count]; exact some, by rw [count]; exact few, by rw [factors]; exact product⟩

end

end RtlSdr
