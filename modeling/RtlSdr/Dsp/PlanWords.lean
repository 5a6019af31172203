import Mathlib.Algebra.Order.BigOperators.GroupWithZero.List
import Mathlib.Algebra.Order.Ring.Nat
import RtlSdr.Dsp.Soundness
import RtlSdr.Lib.Checked

/-!
# The filter plan in machine integers

`make_plan` once more, with every operation at the type the C code gives it. On the whole range
of its arguments no step wraps, overflows or divides by zero, and the plan is the one computed
with natural numbers.
-/
namespace RtlSdr

open Checked

/-! ### The factor search -/

/-- `for (f = 5; f * f <= remaining; f++)`. -/
def primeFactorWords (remaining : Nat) : Nat → Nat → Checked Nat
  | 0, f => pure f
  | fuel + 1, f => do
    let square ← int (f * f)
    if square ≤ remaining then
      if remaining % f = 0 then pure f
      else do
        let next ← int (f + 1)
        primeFactorWords remaining fuel next
    else pure f

/-- The factor of a turn; the remainders by 4, 3 and 2 are exact. -/
def turnFactorWords (remaining : Nat) : Checked Nat :=
  if smallFactor remaining < 2 then primeFactorWords remaining remaining 5
  else pure (smallFactor remaining)

def factorLoopWords : Nat → Nat → Checked (List Nat × Nat)
  | 0, remaining => pure ([], remaining)
  | slots + 1, remaining =>
    if remaining > 1 then do
      let f ← turnFactorWords remaining
      let square ← int (f * f)
      if smallFactor remaining < 2 ∧ square > remaining then pure ([], remaining)
      else do
        let rest ← quotient remaining f
        let later ← factorLoopWords slots rest
        pure (f :: later.1, later.2)
    else pure ([], remaining)

def planFactorsWords (ratio : Nat) : Checked (List Nat) := do
  let found ← factorLoopWords (maxStages - 1) ratio
  pure (if found.2 > 1 ∨ found.1 = [] then found.1 ++ [found.2] else found.1)

/-- `product *= plan->factors[i]`. -/
def productWords : Nat → List Nat → Checked Nat
  | product, [] => pure product
  | product, factor :: factors => do
    let product ← unsigned 64 (product * factor : Nat)
    productWords product factors

/-! ### The stages -/

/-- One entry of the arrays in `struct dsp_plan`. -/
structure StageWords (D : Type) where
  factor : Nat
  taps : Nat
  cutoff : D

structure PlanWords (D : Type) where
  bandwidth : Nat
  stages : List (StageWords D)

def firTapsWords (rate transition : Nat) : Checked Nat := do
  let scaled ← unsigned 64 (16 * rate : Nat)
  let raised ← unsigned 64 (scaled + transition : Nat)
  let dividend ← unsigned 64 (raised - 1)
  let taps ← quotient dividend transition
  let taps := if taps < 3 then 3 else taps
  if taps &&& 1 = 0 then unsigned 64 (taps + 1 : Nat) else pure taps

section

variable {D F : Type} [CDouble D F]

def planStagesWords (raw : Bool) (bandwidth : Nat) :
    Nat → List Nat → Checked (Option (List (StageWords D)))
  | _, [] => pure (some [])
  | rate, factor :: factors => do
    let nextRate ← quotient rate factor
    if raw then do
      let later ← planStagesWords raw bandwidth nextRate factors
      pure (later.map (⟨factor, 1, 0.5⟩ :: ·))
    else do
      let transition ← unsigned 64 (nextRate - bandwidth)
      let taps ← firTapsWords rate transition
      if taps > maxTaps then pure none
      else do
        let taps ← int taps
        let band ← unsigned 64 (bandwidth + nextRate : Nat)
        let cutoff : D := CDouble.ofInt band / (4.0 * CDouble.ofInt rate)
        let later ← planStagesWords raw bandwidth nextRate factors
        pure (later.map (⟨factor, taps, cutoff⟩ :: ·))

/-- `freq_offset < 0 ? -freq_offset : freq_offset`, as a `uint64_t`. -/
def offsetWords (freqOffset : Int) : Checked Nat :=
  if freqOffset < 0 then do
    let magnitude ← signed 64 (-freqOffset)
    unsigned 64 magnitude
  else unsigned 64 freqOffset

/-- `make_plan`, for arguments that fit 64 bits. -/
def makePlanWords (inputRate outputRate bandwidth : Nat) (freqOffset : Int) :
    Checked (Option (PlanWords D)) :=
  let raw := bandwidth == inputRate && outputRate == inputRate && freqOffset == 0
  if outputRate = 0 ∨ outputRate > inputRate ∨ inputRate > uint32Max ∨
      inputRate % outputRate ≠ 0 ∨ inputRate / outputRate > 4096 ∨ freqOffset = int64Min then
    pure none
  else do
    let widest ← unsigned 64 (4 * outputRate : Nat)
    let bandwidth := if bandwidth = 0 then widest / 5 else bandwidth
    if bandwidth = 0 ∨ (raw = false ∧ bandwidth > widest / 5) then pure none
    else do
      let offset ← offsetWords freqOffset
      let room ← unsigned 64 (inputRate - bandwidth)
      if offset > room / 2 then pure none
      else do
        let remaining ← int (inputRate / outputRate)
        let factors ← planFactorsWords remaining
        let factors := sortFactors factors.length factors
        let product ← productWords 1 factors
        if product ≠ inputRate / outputRate then pure none
        else do
          let stages ← planStagesWords raw bandwidth inputRate factors
          pure (stages.map (⟨bandwidth, ·⟩))

/-- `rtlsdr_dsp_validate`: the effective bandwidth, or -1. -/
def dspValidateWords (D : Type) {F : Type} [CDouble D F] (inputRate outputRate bandwidth : Nat)
    (freqOffset : Int) : Checked (Option Nat) := do
  let plan : Option (PlanWords D) ← makePlanWords inputRate outputRate bandwidth freqOffset
  pure (plan.map PlanWords.bandwidth)

end

/-! ### Exactness -/

theorem primeFactorWords_eq (remaining fuel f : Nat) (small : remaining ≤ 4096)
    (positive : 0 < f) (low : f ≤ 65) :
    primeFactorWords remaining fuel f = pure (primeFactor remaining fuel f) := by
  induction fuel generalizing f with
  | zero => rfl
  | succ fuel ih =>
    have square : f * f ≤ 65 * 65 := Nat.mul_le_mul low low
    rw [primeFactorWords, primeFactor, int_eq (by omega), pure_bind]
    split_ifs with below divides
    · rfl
    · -- `f` is at most the root, and goes up by one
      have root : f ≤ 64 := by
        by_contra large
        have := Nat.mul_le_mul (Nat.lt_of_not_le large) (Nat.lt_of_not_le large)
        omega
      rw [int_eq (by omega), pure_bind, ih (f + 1) (Nat.succ_pos f) (by omega)]
    · rfl

theorem primeFactor_le (remaining fuel f : Nat) (small : remaining ≤ 4096) (low : f ≤ 65) :
    primeFactor remaining fuel f ≤ 65 := by
  induction fuel generalizing f with
  | zero => exact low
  | succ fuel ih =>
    rw [primeFactor]
    split_ifs with below divides
    · exact low
    · apply ih
      by_contra large
      have := Nat.mul_le_mul (show 65 ≤ f by omega) (show 65 ≤ f by omega)
      omega
    · exact low

theorem turnFactorWords_eq (remaining : Nat) (small : remaining ≤ 4096) :
    turnFactorWords remaining = pure (turnFactor remaining) := by
  unfold turnFactorWords turnFactor
  split
  · exact primeFactorWords_eq remaining remaining 5 small (by decide) (by decide)
  · rfl

theorem turnFactor_bounds (remaining : Nat) (small : remaining ≤ 4096) :
    0 < turnFactor remaining ∧ turnFactor remaining ≤ 65 := by
  unfold turnFactor
  split_ifs with none
  · exact ⟨Nat.lt_of_lt_of_le (by decide) (primeFactor_spec remaining).1,
      primeFactor_le remaining remaining 5 small (by decide)⟩
  · have four : smallFactor remaining ≤ 4 := by
      unfold smallFactor
      split_ifs <;> decide
    omega

theorem factorLoopWords_eq (slots remaining : Nat) (small : remaining ≤ 4096) :
    factorLoopWords slots remaining = pure (factorLoop slots remaining) := by
  induction slots generalizing remaining with
  | zero => rfl
  | succ slots ih =>
    obtain ⟨positive, low⟩ := turnFactor_bounds remaining small
    have square := Nat.mul_le_mul low low
    rw [factorLoopWords, factorLoop_turn, turnFactorWords_eq remaining small, pure_bind,
      int_eq (by omega), pure_bind, quotient_eq (by omega), pure_bind,
      ih (remaining / turnFactor remaining) (Nat.le_trans (Nat.div_le_self _ _) small), pure_bind]
    split_ifs <;> rfl

theorem planFactorsWords_eq (ratio : Nat) (small : ratio ≤ 4096) :
    planFactorsWords ratio = pure (planFactors ratio) := by
  rw [planFactorsWords, factorLoopWords_eq _ _ small, pure_bind]
  rfl

theorem productWords_eq (product : Nat) (factors : List Nat) (positive : ∀ f ∈ factors, 0 < f)
    (fits : product * factors.prod < 2 ^ 64) :
    productWords product factors = pure (product * factors.prod) := by
  induction factors generalizing product with
  | nil => rw [productWords, List.prod_nil, Nat.mul_one]
  | cons factor factors ih =>
    rw [List.prod_cons, ← Nat.mul_assoc] at fits ⊢
    have later := fun f member => positive f (List.mem_cons_of_mem factor member)
    have least : 1 ≤ factors.prod := List.prod_pos later
    have part : product * factor ≤ product * factor * factors.prod :=
      Nat.le_mul_of_pos_right _ least
    rw [productWords, unsigned_natCast (by omega), pure_bind, ih _ later fits]

theorem firTapsWords_eq (rate transition : Nat) (small : rate < 2 ^ 32)
    (narrow : transition < 2 ^ 32) (positive : 0 < transition) :
    firTapsWords rate transition = pure (firTaps rate transition) := by
  have quotient_le : (16 * rate + transition - 1) / transition ≤ 16 * rate + transition - 1 :=
    Nat.div_le_self _ _
  rw [firTapsWords, unsigned_natCast (by omega), pure_bind, unsigned_natCast (by omega), pure_bind,
    unsigned_eq (n := 16 * rate + transition - 1) (by omega) (by omega), pure_bind,
    quotient_eq (by omega), pure_bind]
  simp only [firTaps]
  generalize (16 * rate + transition - 1) / transition = taps at quotient_le
  have low : (if taps < 3 then 3 else taps) + 1 < 2 ^ 64 := by
    split <;> omega
  generalize (if taps < 3 then 3 else taps) = taps at low
  split
  · exact unsigned_natCast low
  · rfl

/-! ### The whole -/

section

variable {D F : Type} [CDouble D F]

/-- The entries of the arrays for a stage. -/
def PlanStage.words (stage : PlanStage D) : StageWords D := ⟨stage.factor, stage.taps, stage.cutoff⟩

def Plan.words (plan : Plan D) : PlanWords D := ⟨plan.bandwidth, plan.stages.map PlanStage.words⟩

theorem planStagesWords_eq (raw : Bool) (bandwidth outputRate rate : Nat)
    (factors : List { f : Nat // 0 < f }) (small : rate < 2 ^ 32) (positive : 0 < rate)
    (narrow : raw = false → bandwidth < outputRate)
    (exactly : rate = outputRate * (factors.map Subtype.val).prod) :
    planStagesWords raw bandwidth rate (factors.map Subtype.val) =
      pure ((planStages raw bandwidth rate factors : Option (List (PlanStage D))).map
        (List.map PlanStage.words)) := by
  induction factors generalizing rate with
  | nil => rfl
  | cons factor factors ih =>
    obtain ⟨_, next, next_pos, least⟩ :=
      rate_next outputRate rate factor factors positive exactly
    have smaller : rate / factor.val ≤ rate := Nat.div_le_self _ _
    have later := ih (rate / factor.val) (by omega) next_pos next
    rw [List.map_cons, planStagesWords, quotient_eq (Nat.ne_of_gt factor.property), pure_bind,
      planStages]
    cases raw with
    | true =>
      simp only [if_true, later, pure_bind, Option.map_map]
      rfl
    | false =>
      have above := Nat.lt_of_lt_of_le (narrow rfl) least
      have band : bandwidth + rate / factor.val < 2 ^ 64 := by omega
      simp only [Bool.false_eq_true, if_false]
      rw [unsigned_eq (n := rate / factor.val - bandwidth) (by omega) (by omega), pure_bind,
        firTapsWords_eq _ _ small (by omega) (by omega), pure_bind]
      split
      next => rfl
      next limit =>
        unfold maxTaps at limit
        rw [int_eq (by omega), pure_bind, unsigned_natCast band, pure_bind, later, pure_bind,
          Option.map_map, Option.map_map]
        rfl

theorem offsetWords_eq (freqOffset : Int) (low : -2 ^ 63 < freqOffset)
    (high : freqOffset < 2 ^ 63) : offsetWords freqOffset = pure freqOffset.natAbs := by
  unfold offsetWords
  split_ifs with negative
  · rw [signed_eq (by omega) (by omega), pure_bind]
    exact unsigned_eq (by omega) (by omega)
  · exact unsigned_eq (by omega) (by omega)

/-- On every input, each step is exact and the plan is the one in natural numbers. -/
theorem makePlanWords_eq (inputRate outputRate bandwidth : Nat) (freqOffset : Int)
    (low : -2 ^ 63 ≤ freqOffset) (high : freqOffset < 2 ^ 63) :
    makePlanWords inputRate outputRate bandwidth freqOffset =
      pure ((makePlan inputRate outputRate bandwidth freqOffset : Option (Plan D)).map
        Plan.words) := by
  rw [makePlan_eq, makePlanWords]
  split
  next => rfl
  next checked =>
    have ratio : 0 < inputRate / outputRate := Nat.div_pos (by omega) (by omega)
    unfold uint32Max int64Min at checked
    rw [unsigned_natCast (by omega), pure_bind]
    change (if effectiveBandwidth outputRate bandwidth = 0 ∨
      (isRaw inputRate outputRate bandwidth freqOffset = false ∧
        effectiveBandwidth outputRate bandwidth > 4 * outputRate / 5) then _ else _) = _
    split
    next => rfl
    next band =>
      have passed := band_of_check inputRate outputRate bandwidth freqOffset band
      have below := effectiveBandwidth_le inputRate outputRate bandwidth freqOffset (by omega)
        passed
      have narrow := narrow_of_band inputRate outputRate bandwidth freqOffset (by omega) passed
      have product := orderedFactors_prod (inputRate / outputRate) ratio
      have positive := pos_of_prod _ _ ratio product
      have exactly : inputRate = outputRate *
          ((positiveFactors (inputRate / outputRate) ratio).map Subtype.val).prod := by
        rw [positiveFactors_val, product, Nat.mul_div_cancel' (Nat.dvd_of_mod_eq_zero (by omega))]
      have stages := planStagesWords_eq (D := D) (isRaw inputRate outputRate bandwidth freqOffset)
        (effectiveBandwidth outputRate bandwidth) outputRate inputRate _ (by omega) (by omega)
        narrow exactly
      rw [offsetWords_eq freqOffset (by omega) high, pure_bind]
      change (unsigned 64 ((inputRate : Int) - effectiveBandwidth outputRate bandwidth) >>= _) = _
      rw [unsigned_eq (n := inputRate - effectiveBandwidth outputRate bandwidth) (by omega)
        (by omega), pure_bind]
      split
      next => rfl
      next =>
        rw [int_eq (by omega), pure_bind, planFactorsWords_eq _ (by omega), pure_bind]
        change (productWords 1 (orderedFactors (inputRate / outputRate)) >>= _) = _
        rw [productWords_eq 1 _ positive (by omega), pure_bind, Nat.one_mul, product,
          if_neg (not_not_intro rfl)]
        rw [positiveFactors_val] at stages
        change (planStagesWords (isRaw inputRate outputRate bandwidth freqOffset)
          (effectiveBandwidth outputRate bandwidth) inputRate
          (orderedFactors (inputRate / outputRate)) >>= _) = _
        rw [stages, pure_bind, Option.map_map, Option.map_map]
        rfl

end

end RtlSdr
