import RtlSdr.Fm.Demod

/-!
# Safety of rtl_fm

Which options let `full_demod` divide by zero or leave its arrays: `fm_demod` keeps the last sample,
`dc_block_filter` divides by the number of results, and `low_pass_real` divides by the ratio of the
rates.
-/
namespace RtlSdr.Fm

open Checked CArray

/-! ### The discriminators do not divide by zero -/

theorem wraps_gives (x : Int) : (wraps x).Gives (· = machine.int32 x) := ⟨rfl, rfl⟩

theorem int32_range (x : Int) : -2147483648 ≤ machine.int32 x ∧ machine.int32 x < 2147483648 :=
  ⟨Int.le_bmod (by decide), Int.bmod_lt (by decide)⟩

theorem int32_ne_zero {x : Int} (nonzero : x ≠ 0) (low : -4294967296 < x) (high : x < 4294967296) :
    machine.int32 x ≠ 0 := by
  intro zero
  obtain ⟨k, rfl⟩ := Int.dvd_of_bmod_eq_zero zero
  omega

theorem octant_gives (start difference : Int) {sum : Int} (nonzero : sum ≠ 0) :
    (octant wraps start difference sum).Gives fun _ => True := by
  refine (wraps_gives _).bind fun scaled _ => ?_
  refine (divide_gives nonzero).bind fun quotient _ => ?_
  exact ⟨rfl, trivial⟩

theorem negateIf_wraps (negative : Bool) (x : Int) :
    negateIf wraps negative x = pure (if negative then machine.int32 (-x) else x) :=
  (apply_ite pure (negative = true) (machine.int32 (-x)) x).symm

/-- The sums that `fast_atan2` divides by wrap at most once, and not to zero. -/
theorem fastAtan2_gives {y x : Int} (below : -2147483648 < y) (above : y < 2147483648)
    (low : -2147483648 ≤ x) (high : x < 2147483648) :
    (fastAtan2 wraps y x).Gives fun _ => True := by
  rw [fastAtan2]
  split_ifs with origin
  · exact gives_pure trivial
  · rw [negateIf_wraps, pure_bind]
    have size : ∃ yabs, (if decide (y < 0) = true then machine.int32 (-y) else y) = yabs ∧
        0 ≤ yabs ∧ yabs < 2147483648 ∧ (x = 0 → yabs ≠ 0) := by
      by_cases negative : y < 0
      · rw [decide_eq_true negative, if_pos rfl, int32_eq (by omega) (by omega)]
        exact ⟨-y, rfl, by omega, by omega, by omega⟩
      · rw [decide_eq_false negative, if_neg Bool.false_ne_true]
        exact ⟨y, rfl, by omega, by omega, fun zero same => origin ⟨zero, same⟩⟩
    obtain ⟨yabs, same, nonneg, small, apart⟩ := size
    have angle : (upperAngle wraps yabs x).Gives fun _ => True := by
      rw [upperAngle]
      split_ifs with right
      · have nonzero := int32_ne_zero (x := x + yabs) (by omega) (by omega) (by omega)
        refine (wraps_gives _).bind fun difference _ => ?_
        refine (wraps_gives _).pass ?_
        exact octant_gives _ _ nonzero
      · have nonzero := int32_ne_zero (x := yabs - x) (by omega) (by omega) (by omega)
        refine (wraps_gives _).bind fun difference _ => ?_
        refine (wraps_gives _).pass ?_
        exact octant_gives _ _ nonzero
    rw [same]
    refine angle.bind fun _ _ => ?_
    rw [negateIf_wraps]
    exact gives_pure trivial

theorem int16_product {a b : Int} (left : IsInt16 a) (right : IsInt16 b) :
    -1073709056 ≤ a * b ∧ a * b ≤ 1073741824 := by
  obtain ⟨la, ha⟩ := left
  obtain ⟨lb, hb⟩ := right
  constructor <;> nlinarith

/-- The imaginary part of a product of 16 bit samples fits an `int`, and is not the least one. -/
theorem multiply_gives {ar aj br bj : Int} (first : IsInt16 ar) (second : IsInt16 aj)
    (third : IsInt16 br) (fourth : IsInt16 bj) :
    (multiply wraps ar aj br (machine.int32 (-bj))).Gives fun c =>
      (-2147483648 ≤ c.1 ∧ c.1 < 2147483648) ∧ -2147483648 < c.2 ∧ c.2 < 2147483648 := by
  have conjugate : machine.int32 (-bj) = -bj := by
    obtain ⟨low, high⟩ := fourth
    exact int32_eq (by omega) (by omega)
  have jr := int16_product second third
  have rj := int16_product first fourth
  have imaginary : machine.int32 (machine.int32 (aj * br) + machine.int32 (ar * -bj)) =
      aj * br - ar * bj := by
    rw [Int.mul_neg, int32_eq (x := aj * br) (by omega) (by omega),
      int32_eq (x := -(ar * bj)) (by omega) (by omega), int32_eq (by omega) (by omega)]
    rfl
  rw [conjugate]
  refine ⟨rfl, int32_range _, ?_⟩
  change -2147483648 < machine.int32 (machine.int32 (aj * br) + machine.int32 (ar * -bj)) ∧
    machine.int32 (machine.int32 (aj * br) + machine.int32 (ar * -bj)) < 2147483648
  rw [imaginary]
  omega

theorem lutQuadrant_gives (entry : Int → Int) (cj x : Int) :
    (lutQuadrant wraps (fun i => pure (entry i)) cj x).Gives fun _ => True := by
  have done (m : Checked Int) (pure_ : m.exact = true) : m.Gives fun _ => True := ⟨pure_, trivial⟩
  refine gives_ite (fun _ => ?_) (fun _ => ?_)
  · rw [pure_bind]
    exact gives_ite (fun _ => gives_pure trivial) (fun _ => done _ rfl)
  · rw [pure_bind]
    exact gives_ite (fun _ => done _ rfl) (fun _ => done _ rfl)

theorem lutCases_gives (entry : Int → Int) (cr cj : Int) :
    (lutCases wraps (fun i => pure (entry i)) cr cj).Gives fun _ => True := by
  have angle (nonzero : cr ≠ 0) :
      (lutAngle wraps (fun i => pure (entry i)) cr cj).Gives fun _ => True := by
    refine (wraps_gives _).bind fun shifted _ => ?_
    refine (divide_gives nonzero).bind fun x _ => ?_
    rw [negateIf_wraps, pure_bind]
    generalize (if decide (x < 0) = true then machine.int32 (-x) else x) = xAbs
    exact gives_ite (fun _ => gives_pure trivial) (fun _ => lutQuadrant_gives entry cj x)
  rw [lutCases]
  split_ifs with zero up down right left
  · exact gives_pure trivial
  · exact gives_pure trivial
  · exact gives_pure trivial
  · exact gives_pure trivial
  · exact gives_pure trivial
  · apply angle
    rintro rfl
    omega

theorem discriminate_gives (fl : Floats) (customAtan : CustomAtan) {ar aj br bj : Int}
    (first : IsInt16 ar) (second : IsInt16 aj) (third : IsInt16 br) (fourth : IsInt16 bj) :
    (discriminate fl customAtan ar aj br bj).Gives fun _ => True := by
  cases customAtan with
  | std => exact ⟨rfl, trivial⟩
  | fast =>
    refine (wraps_gives _).pass ?_
    refine (multiply_gives first second third fourth).bind ?_
    rintro c ⟨real, below, above⟩
    exact fastAtan2_gives below above real.1 real.2
  | lut =>
    refine (wraps_gives _).pass ?_
    refine (multiply_gives first second third fourth).bind fun c _ => ?_
    exact lutCases_gives _ _ _

/-! ### The modes and the filters after them -/

theorem fmResult_gives (fl : Floats) (c : Setup) (s : Demod) (fits : s.lpLen ≤ maximumBufLength)
    (all : AllInt16 s.lowpassed) : (fmResult fl c s).Gives fun _ => True := by
  have size := maximumBufLength_eq
  refine (load_gives (by omega) (by omega)).bind fun _ _ => ?_
  refine (load_gives (by omega) (by omega)).bind fun _ _ => ?_
  refine Gives.bind (P := fun _ => True) ⟨rfl, trivial⟩ fun _ _ => ?_
  refine (save_gives (by omega) (by omega)).bind fun result _ => ?_
  refine forLoop_exact (by decide) (fun k result inside => ?_) _
  refine (load_gives (by omega) (by omega)).bind fun ar first => ?_
  refine (load_gives (by omega) (by omega)).bind fun aj second => ?_
  refine (load_gives (by omega) (by omega)).bind fun br third => ?_
  refine (load_gives (by omega) (by omega)).bind fun bj fourth => ?_
  rw [first, second, third, fourth]
  refine (discriminate_gives fl c.customAtan (all _) (all _) (all _) (all _)).bind fun pcm _ => ?_
  exact (save_gives (by omega) (by omega)).mono fun _ _ => trivial

/-- `fm_demod` reads the last sample of the buffer without asking whether there is one. -/
theorem fmDemod_exact_iff (fl : Floats) (c : Setup) (s : Demod)
    (fits : s.lpLen ≤ maximumBufLength) (all : AllInt16 s.lowpassed) :
    (fmDemod fl c s).exact = true ↔ 2 ≤ s.lpLen := by
  constructor
  · intro exactly
    rw [fmDemod, exact_bind, exact_bind, Bool.and_eq_true, Bool.and_eq_true] at exactly
    have inside : 0 ≤ s.lpLen - 2 ∧ s.lpLen - 2 < maximumBufLength :=
      of_decide_eq_true exactly.2.1
    omega
  · intro some
    have gives : (fmDemod fl c s).Gives fun _ => True := by
      refine (fmResult_gives fl c s fits all).bind fun _ _ => ?_
      refine (load_gives (by omega) (by omega)).bind fun _ _ => ?_
      exact (load_gives (by omega) (by omega)).bind fun _ _ => gives_pure trivial
    exact gives.1

theorem sampleDemod_gives (pcm : Int → Int → Int) (s : Demod) (even : s.lpLen % 2 = 0 ∨
    s.lpLen < maximumBufLength) (fits : s.lpLen ≤ maximumBufLength) :
    (sampleDemod pcm s).Gives fun _ => True := by
  refine forLoop_exact (by decide) (fun k result inside => ?_) _
  refine (load_gives (by omega) (by omega)).bind fun _ _ => ?_
  refine (load_gives (by omega) (by omega)).bind fun _ _ => ?_
  exact (save_gives (by omega) (by omega)).mono fun _ _ => trivial

theorem rawDemod_gives (s : Demod) (fits : s.lpLen ≤ maximumBufLength) :
    (rawDemod s).Gives fun _ => True := by
  refine forLoop_exact (by decide) (fun k result inside => ?_) _
  refine (load_gives (by omega) (by omega)).bind fun _ _ => ?_
  exact (save_gives (by omega) (by omega)).mono fun _ _ => trivial

theorem lowPassSimple_gives (signal2 : Buf) {len step : Int}
    (few : 2 * len ≤ maximumBufLength) (low : 1 ≤ step) (high : step ≤ 16) :
    (lowPassSimple signal2 len step).Gives fun _ => True := by
  have size := maximumBufLength_eq
  have sum (signal2 : Buf) (k : Nat) (inside : 0 + step * (k : Int) < len) :
      (stepSum signal2 (0 + step * k) step).Gives fun _ => True := by
    have start : 0 ≤ step * (k : Int) := Int.mul_nonneg (by omega) (by omega)
    refine forLoop_exact (by decide) (fun k2 sum within => ?_) _
    exact (load_gives (by omega) (by omega)).bind fun _ _ => gives_pure trivial
  have place (k : Nat) : (0 + step * (k : Int)).tdiv step = k := by
    rw [Int.zero_add, Int.mul_tdiv_cancel_left _ (by omega)]
  have below (k : Nat) : (k : Int) ≤ step * k := by
    have more : 1 * (k : Int) ≤ step * k := Int.mul_le_mul_of_nonneg_right low (by omega)
    omega
  have loop : (forLoop 0 len step (simpleRound step) signal2).Gives
      (Finished (fun _ => True) 0 len step) := by
    refine forLoop_gives (fun _ => True) (by omega) ?_ _ trivial
    intro k signal2 inside _
    have bound := below k
    refine (sum signal2 k inside).bind fun _ _ => ?_
    refine (divide_gives (by omega)).pass ?_
    rw [place k]
    exact (save_gives (by omega) (by omega)).mono fun _ _ => trivial
  refine loop.bind fun summed finished => ?_
  obtain ⟨n, last, _, most⟩ := finished.rounds
  have bound := below n
  rw [last]
  refine (divide_gives (by omega)).pass ?_
  rw [place n]
  refine (load_gives (by omega) (by omega)).bind fun _ _ => ?_
  refine (save_gives (by omega) (by omega)).bind fun _ _ => ?_
  exact (divide_gives (by omega)).bind fun _ _ => gives_pure trivial

theorem deemphFilter_gives (c : Setup) (s : Demod) (fits : s.resultLen ≤ maximumBufLength)
    (positive : 1 ≤ c.deemphA) : (deemphFilter c s).Gives fun _ => True := by
  refine forLoop_exact (by decide) (fun k result inside => ?_) _
  refine (load_gives (by omega) (by omega)).bind fun _ _ => ?_
  refine (divide_gives (by omega)).bind fun _ _ => ?_
  exact (save_gives (by omega) (by omega)).bind fun _ _ => gives_pure trivial

/-- `dc_block_filter` divides by the number of results. -/
theorem dcBlockFilter_exact_iff (s : Demod) (fits : s.resultLen ≤ maximumBufLength) :
    (dcBlockFilter s).exact = true ↔ s.resultLen ≠ 0 := by
  constructor
  · intro exactly
    rw [dcBlockFilter, exact_bind, exact_bind, Bool.and_eq_true, Bool.and_eq_true] at exactly
    exact of_decide_eq_true exactly.2.1
  · intro some
    have sum : (dcSum s).Gives fun _ => True := by
      refine forLoop_exact (by decide) (fun k sum inside => ?_) _
      exact (load_gives (by omega) (by omega)).bind fun _ _ => gives_pure trivial
    have subtract (avg : Int) : (dcSubtract s avg).Gives fun _ => True := by
      refine forLoop_exact (by decide) (fun k result inside => ?_) _
      refine (load_gives (by omega) (by omega)).bind fun _ _ => ?_
      exact (save_gives (by omega) (by omega)).mono fun _ _ => trivial
    have gives : (dcBlockFilter s).Gives fun _ => True := by
      refine sum.bind fun _ _ => ?_
      refine (divide_gives some).bind fun _ _ => ?_
      exact (subtract _).bind fun _ _ => gives_pure trivial
    exact gives.1

/-- `low_pass_real` divides by the ratio of the rates at every result it gives. -/
theorem resampleResult_exact_iff (c : Setup) (s : Demod) (fast : 1 ≤ c.rateOut)
    (slow : 1 ≤ c.rateOut2) (fits : c.rateOut2 < 2147483648) (nonneg : 0 ≤ s.resultLen)
    (few : s.resultLen ≤ maximumBufLength)
    (fresh : c.rateOut < c.rateOut2 → s.resample = .empty) :
    (resampleResult c s).exact = true ↔ (c.rateOut < c.rateOut2 → s.resultLen = 0) := by
  have whole : (resampleResult c s).exact =
      (lowPassReal machine c.rateOut c.rateOut2 s.resultLen s.resample s.result).exact := by
    rw [resampleResult, exact_bind, exact_pure, Bool.and_true]
  rw [whole]
  by_cases up : c.rateOut < c.rateOut2
  · obtain ⟨n, length⟩ := Int.eq_ofNat_of_zero_le nonneg
    rw [fresh up, length, lowPassReal, exact_bind, exact_pure, Bool.and_true, Int.toNat_natCast]
    cases n with
    | zero => exact iff_of_true rfl fun _ => rfl
    | succ n =>
      -- The first sample is given at once, and the ratio is zero.
      have some : decide ((0 : Int) < (n + 1 : Nat)) = true := decide_eq_true (by omega)
      have index : machine.int32 (0 + c.rateOut2) = c.rateOut2 := by
        rw [Int.zero_add, int32_eq (by omega) fits]
      have ratio : c.rateOut.tdiv c.rateOut2 = 0 := Int.tdiv_eq_zero_of_lt (by omega) up
      have first : (lowPassRealRound machine c.rateOut c.rateOut2
          ⟨0, 0, .empty, s.result⟩).exact = false := by
        rw [lowPassRealRound, exact_bind, Bool.and_eq_false_iff]
        right
        dsimp only [Resample.add, Resample.empty]
        rw [index, if_neg (by omega), exact_bind, Bool.and_eq_false_iff]
        right
        rw [exact_bind, Bool.and_eq_false_iff]
        left
        exact decide_eq_false fun nonzero => nonzero ratio
      rw [whileLoop, if_pos some, exact_bind, first]
      refine iff_of_false Bool.false_ne_true fun none => ?_
      have := none up
      omega
  · have ratio : c.rateOut.tdiv c.rateOut2 ≠ 0 := by
      have atLeast : 1 ≤ c.rateOut / c.rateOut2 := by
        rw [Int.le_ediv_iff_mul_le (by omega)]
        omega
      rw [Int.tdiv_eq_ediv_of_nonneg (by omega)]
      omega
    obtain ⟨n, length⟩ := Int.eq_ofNat_of_zero_le nonneg
    rw [length]
    exact iff_of_true
      (lowPassReal_exact machine _ _ _ _ n (by omega) (by omega) ratio) fun down => absurd down up

/-! ### One buffer -/

/-- What the stages after the decimation do not touch. -/
structure Untouched (s t : Demod) : Prop where
  lowpassed : t.lowpassed = s.lowpassed
  boxcar : t.boxcar = s.boxcar
  resample : t.resample = s.resample

variable {s : Demod} {wanted : Bool} {stage : Demod → Checked Demod} {c : Setup}

theorem Untouched.trans {t u : Demod} (first : Untouched s t) (second : Untouched t u) :
    Untouched s u :=
  ⟨second.1.trans first.1, second.2.trans first.2, second.3.trans first.3⟩

theorem optional_untouched (untouched : Untouched s (stage s).value) :
    Untouched s (optional wanted stage s).value := by
  cases wanted with
  | true => exact untouched
  | false => exact ⟨rfl, rfl, rfl⟩

theorem optional_exact :
    (optional wanted stage s).exact = true ↔ (wanted = true → (stage s).exact = true) := by
  cases wanted with
  | true => exact ⟨fun exactly _ => exactly, fun exactly => exactly rfl⟩
  | false => exact iff_of_true rfl fun impossible => absurd impossible Bool.false_ne_true

theorem optional_resultLen (same : (stage s).value.resultLen = s.resultLen) :
    (optional wanted stage s).value.resultLen = s.resultLen := by
  cases wanted with
  | true => exact same
  | false => rfl

theorem modeDemod_untouched (fl : Floats) (c : Setup) (s : Demod) :
    Untouched s (modeDemod fl c s).value := by
  rw [modeDemod]
  cases c.mode
  all_goals exact ⟨rfl, rfl, rfl⟩

theorem modeDemod_length (fl : Floats) (c : Setup) (s : Demod) (cooked : c.mode ≠ .raw) :
    (modeDemod fl c s).value.resultLen = s.lpLen / 2 := by
  rw [modeDemod]
  cases mode : c.mode with
  | raw => exact absurd mode cooked
  | fm => rfl
  | am => rfl
  | usb => rfl
  | lsb => rfl

theorem modeDemod_exact_iff (fl : Floats) (c : Setup) (s : Demod)
    (even : s.lpLen % 2 = 0 ∨ s.lpLen < maximumBufLength) (fits : s.lpLen ≤ maximumBufLength)
    (all : AllInt16 s.lowpassed) :
    (modeDemod fl c s).exact = true ↔ (c.mode = .fm → 2 ≤ s.lpLen) := by
  rw [modeDemod]
  cases c.mode with
  | fm => exact (fmDemod_exact_iff fl c s fits all).trans ⟨fun some _ => some, fun some => some rfl⟩
  | am | usb | lsb => exact iff_of_true (sampleDemod_gives _ s even fits).1 Mode.noConfusion
  | raw => exact iff_of_true (rawDemod_gives s fits).1 Mode.noConfusion

/-- What `main` sees to, for options in their ranges. -/
structure Setup.Valid (c : Setup) : Prop where
  rateOut : 1 ≤ c.rateOut
  rateOut2 : c.rateOut2 = -1 ∨ 1 ≤ c.rateOut2 ∧ c.rateOut2 < 2147483648
  post : 1 ≤ c.postDownsample ∧ c.postDownsample ≤ 16
  deemphA : c.deemph = true → 1 ≤ c.deemphA

/-- The number of results that are left after `low_pass_simple`. -/
def resultLength (c : Setup) (lpLen : Int) : Int := (lpLen / 2).tdiv c.postDownsample

theorem optional_length (valid : c.Valid) (s : Demod) :
    (optional (c.postDownsample > 1) (postDownsample c) s).value.resultLen =
      s.resultLen.tdiv c.postDownsample := by
  by_cases more : c.postDownsample > 1
  · rw [decide_eq_true more]
    rfl
  · have one : c.postDownsample = 1 := by
      have post := valid.post
      omega
    rw [decide_eq_false more, one, Int.tdiv_one]
    rfl

theorem postProcess_stages (valid : c.Valid) (s : Demod) :
    ∃ t u v : Demod, (optional (c.postDownsample > 1) (postDownsample c) s).value = t ∧
      (optional c.deemph (deemphFilter c) t).value = u ∧
      (optional c.dcBlock dcBlockFilter u).value = v ∧
      t.resultLen = s.resultLen.tdiv c.postDownsample ∧ u.resultLen = t.resultLen ∧
      v.resultLen = t.resultLen ∧ Untouched s v := by
  refine ⟨_, _, _, rfl, rfl, rfl, optional_length valid s, optional_resultLen rfl, ?_, ?_⟩
  · exact (optional_resultLen rfl).trans (optional_resultLen rfl)
  · have first : Untouched s (optional (c.postDownsample > 1) (postDownsample c) s).value :=
      optional_untouched ⟨rfl, rfl, rfl⟩
    have second : Untouched _ (optional c.deemph (deemphFilter c)
        (optional (c.postDownsample > 1) (postDownsample c) s).value).value :=
      optional_untouched ⟨rfl, rfl, rfl⟩
    exact (first.trans second).trans (optional_untouched ⟨rfl, rfl, rfl⟩)

/-- The filters after the demodulation divide by zero where there is no result to take the mean of,
or a result to be given at a higher rate. -/
theorem postProcess_exact_iff (valid : c.Valid) (s : Demod) (nonneg : 0 ≤ s.resultLen)
    (few : 2 * s.resultLen ≤ maximumBufLength)
    (fresh : c.rateOut < c.rateOut2 → s.resample = .empty) :
    (postProcess c s).exact = true ↔
      (c.dcBlock = true → s.resultLen.tdiv c.postDownsample ≠ 0) ∧
        (c.rateOut < c.rateOut2 → s.resultLen.tdiv c.postDownsample = 0) := by
  have post := valid.post
  have shorter : 0 ≤ s.resultLen.tdiv c.postDownsample ∧
      s.resultLen.tdiv c.postDownsample ≤ s.resultLen := by
    rw [Int.tdiv_eq_ediv_of_nonneg nonneg]
    exact ⟨Int.ediv_nonneg nonneg (by omega), Int.ediv_le_self _ nonneg⟩
  have simple : (optional (c.postDownsample > 1) (postDownsample c) s).exact = true := by
    rw [optional_exact]
    intro _
    have gives := lowPassSimple_gives s.result few post.1 post.2
    exact (gives.bind (Q := fun _ => True) fun _ _ => gives_pure trivial).1
  obtain ⟨t, u, v, first, second, third, length, same, again, kept⟩ := postProcess_stages valid s
  have deemph : (optional c.deemph (deemphFilter c) t).exact = true :=
    optional_exact.mpr fun wanted => (deemphFilter_gives c t (by omega) (valid.deemphA wanted)).1
  rw [postProcess, exact_bind, simple, Bool.true_and, first, exact_bind, deemph, Bool.true_and,
    second, exact_bind, Bool.and_eq_true, optional_exact, dcBlockFilter_exact_iff u (by omega), third,
    same, ← length]
  refine and_congr Iff.rfl ?_
  rw [← again, optional_exact, decide_eq_true_iff]
  rcases valid.rateOut2 with absent | ⟨positive, high⟩
  · have rate := valid.rateOut
    exact iff_of_true (fun given => by omega) (fun up => by omega)
  · have fresh' (up : c.rateOut < c.rateOut2) : v.resample = .empty := by
      rw [kept.resample, fresh up]
    rw [← resampleResult_exact_iff c v valid.rateOut positive high (by omega) (by omega) fresh']
    exact ⟨fun exactly => exactly positive, fun exactly _ => exactly⟩

theorem postProcess_keeps (valid : c.Valid) (s : Demod) :
    (postProcess c s).value.lowpassed = s.lowpassed ∧ (postProcess c s).value.boxcar = s.boxcar ∧
      (s.resultLen.tdiv c.postDownsample = 0 →
        (postProcess c s).value.resample = s.resample) := by
  obtain ⟨t, u, v, first, second, third, length, _, again, kept⟩ := postProcess_stages valid s
  rw [postProcess, value_bind, first, value_bind, second, value_bind, third, ← length, ← again]
  rw [← kept.lowpassed, ← kept.boxcar, ← kept.resample, optional]
  split_ifs
  · refine ⟨rfl, rfl, fun none => ?_⟩
    rw [resampleResult, value_bind, none]
    rfl
  · exact ⟨rfl, rfl, fun _ => rfl⟩

/-- What one buffer needs, where the decimation leaves `lpLen` values of it. -/
structure Setup.Safe (c : Setup) (lpLen : Int) : Prop where
  fm : c.mode = .fm → 2 ≤ lpLen
  dc : c.mode ≠ .raw → c.dcBlock = true → resultLength c lpLen ≠ 0
  up : c.mode ≠ .raw → c.rateOut < c.rateOut2 → resultLength c lpLen = 0

/-- The state before a buffer of `n` samples, at phase `p` of the boxcar. -/
structure Ready (c : Setup) (n p : Nat) (s : Demod) : Prop where
  length : s.lpLen = 2 * n
  int16 : AllInt16 s.lowpassed
  phase : s.boxcar.prevIndex = p
  below : p < boxcarWidth c.downsample
  fresh : c.rateOut < c.rateOut2 → s.resample = .empty

section Buffer

variable (fl : Floats) {c : Setup} (valid : c.Valid) {n p : Nat}
  (fits : 2 * (n : Int) ≤ maximumBufLength) {s : Demod} (ready : Ready c n p s)

/-- The state that `mode_demod` is called with. -/
structure Decimated (c : Setup) (n p : Nat) (t : Demod) : Prop where
  length : t.lpLen = decimatedLen c p n
  int16 : AllInt16 t.lowpassed
  phase : t.boxcar.prevIndex = nextPhase c p n
  fresh : c.rateOut < c.rateOut2 → t.resample = .empty

include fits ready in
theorem decimated_gives : (decimate machine c s >>= squelch fl c).Gives (Decimated c n p) := by
  have before := decimate_gives c s n p ready.length (by rw [ready.length]; exact fits) ready.int16
    ready.phase ready.below
  refine before.bind ?_
  rintro t ⟨int16, length, phase, resample⟩
  have range := decimatedLen_range (n := n) ready.below
  refine (squelch_gives fl c t (by omega) int16).mono ?_
  rintro u ⟨still, same, boxcar, apart⟩
  refine ⟨same.trans length, still, by rw [boxcar, phase], fun up => ?_⟩
  rw [apart, resample, ready.fresh up]

/-- The samples left of a buffer are whole, unless they are fewer than those received. -/
theorem decimatedLen_even (below : p < boxcarWidth c.downsample) :
    decimatedLen c p n % 2 = 0 ∨ decimatedLen c p n < 2 * n := by
  have range := decimatedLen_range (n := n) below
  rw [decimatedLen] at range ⊢
  by_cases same : (if c.downsamplePasses ≠ 0 then (2 * n : Int) >>> c.downsamplePasses.toNat
      else 2 * ((p + n) / boxcarWidth c.downsample : Nat)) = 2 * n
  · left
    rw [same]
    omega
  · right
    omega

include valid fits ready in
theorem fullDemod_exact_iff : (fullDemod fl c s).exact = true ↔ c.Safe (decimatedLen c p n) := by
  obtain ⟨exactly, length, int16, _, fresh⟩ := decimated_gives fl fits ready
  have range := decimatedLen_range (n := n) ready.below
  have even := decimatedLen_even (n := n) ready.below
  rw [fullDemod, ← bind_assoc, exact_bind, exactly, Bool.true_and]
  generalize (decimate machine c s >>= squelch fl c).value = t at length int16 fresh
  rw [← length] at range even ⊢
  rw [exact_bind, Bool.and_eq_true, modeDemod_exact_iff fl c t (by omega) (by omega) int16]
  by_cases raw : c.mode = .raw
  · rw [if_pos raw]
    constructor
    · rintro ⟨fm, _⟩
      exact ⟨fm, fun cooked => absurd raw cooked, fun cooked => absurd raw cooked⟩
    · intro safe
      exact ⟨safe.fm, rfl⟩
  · have results := modeDemod_length fl c t raw
    have kept := modeDemod_untouched fl c t
    rw [if_neg raw, postProcess_exact_iff valid _ (by rw [results]; omega)
      (by rw [results]; omega) (fun up => by rw [kept.resample, fresh up]), results]
    constructor
    · rintro ⟨fm, dc, up⟩
      exact ⟨fm, fun _ => dc, fun _ => up⟩
    · intro safe
      exact ⟨safe.fm, safe.dc raw, safe.up raw⟩

include valid fits ready in
/-- A buffer that went well leaves the demodulator ready for the next one. -/
theorem fullDemod_ready (safe : c.Safe (decimatedLen c p n)) {src : List Int}
    (bytes : ∀ x ∈ src, -127 ≤ x ∧ x ≤ 128) (count : src.length = 2 * n) :
    Ready c n (nextPhase c p n) (receive src (fullDemod fl c s).value) := by
  obtain ⟨_, length, int16, phase, fresh⟩ := decimated_gives fl fits ready
  have value : (fullDemod fl c s).value =
      (modeDemod fl c (decimate machine c s >>= squelch fl c).value >>= fun s =>
        if c.mode = .raw then pure s else postProcess c s).value := rfl
  rw [value]
  generalize (decimate machine c s >>= squelch fl c).value = t at length int16 phase fresh
  have kept := modeDemod_untouched fl c t
  have after : AllInt16 (modeDemod fl c t >>= fun s =>
      if c.mode = .raw then pure s else postProcess c s).value.lowpassed ∧
      (modeDemod fl c t >>= fun s =>
        if c.mode = .raw then pure s else postProcess c s).value.boxcar = t.boxcar ∧
      (c.rateOut < c.rateOut2 → (modeDemod fl c t >>= fun s =>
        if c.mode = .raw then pure s else postProcess c s).value.resample = .empty) := by
    rw [value_bind]
    by_cases raw : c.mode = .raw
    · rw [if_pos raw, value_pure, kept.lowpassed, kept.boxcar, kept.resample]
      exact ⟨int16, rfl, fresh⟩
    · obtain ⟨lowpassed, boxcar, resample⟩ := postProcess_keeps valid (modeDemod fl c t).value
      rw [if_neg raw, lowpassed, boxcar, kept.lowpassed, kept.boxcar]
      refine ⟨int16, rfl, fun up => ?_⟩
      -- a resampler to a higher rate has stayed empty, as there was no result for it
      have none := safe.up raw up
      rw [resultLength, ← length, ← modeDemod_length fl c t raw] at none
      rw [resample none, kept.resample, fresh up]
  obtain ⟨still, boxcar, empty⟩ := after
  refine ⟨?_, still.memcpy bytes, ?_, nextPhase_lt n ready.below, empty⟩
  · change (src.length : Int) = _
    rw [count, Int.natCast_mul]
    rfl
  · rw [← phase, ← boxcar]
    rfl

end Buffer

/-! ### Every buffer -/

/-- The phase of the boxcar before the buffer with index `k`. -/
def phaseAt (c : Setup) (n p : Nat) : Nat → Nat
  | 0 => p
  | k + 1 => phaseAt c n (nextPhase c p n) k

theorem demodThread_exact_iff (fl : Floats) (valid : c.Valid) (offsetTuning : Bool) {n p : Nat}
    (fits : 2 * (n : Int) ≤ maximumBufLength) (bufs : List (List UInt8))
    (each : ∀ buf ∈ bufs, buf.length = 2 * n) (s : Demod)
    (ready : ∀ src : List Int, (∀ x ∈ src, -127 ≤ x ∧ x ≤ 128) → src.length = 2 * n →
      Ready c n p (receive src s)) :
    (demodThread fl c offsetTuning bufs s).exact = true ↔
      ∀ k < bufs.length, c.Safe (decimatedLen c (phaseAt c n p k) n) := by
  induction bufs generalizing s p with
  | nil => exact iff_of_true rfl fun k none => absurd none (Nat.not_lt_zero k)
  | cons buf rest ih =>
    have count : (buf16 offsetTuning buf).length = 2 * n := by
      rw [buf16_length, each buf List.mem_cons_self]
    have now := ready (buf16 offsetTuning buf) (fun x member => mem_buf16 member) count
    -- a safe buffer leaves the state ready for the next one, which starts at its own phase
    rw [demodThread, exact_bind, Bool.and_eq_true, fullDemod_exact_iff fl valid fits now]
    constructor
    · rintro ⟨safe, later⟩ k inside
      cases k with
      | zero => exact safe
      | succ k =>
        rw [ih (fun buf member => each buf (List.mem_cons_of_mem _ member)) _
          (fun src bytes count => fullDemod_ready fl valid fits now safe bytes count)] at later
        exact later k (Nat.lt_of_succ_lt_succ inside)
    · intro safe
      have first := safe 0 (Nat.succ_pos _)
      refine ⟨first, ?_⟩
      rw [ih (fun buf member => each buf (List.mem_cons_of_mem _ member)) _
        (fun src bytes count => fullDemod_ready fl valid fits now first bytes count)]
      intro k inside
      exact safe (k + 1) (Nat.succ_lt_succ inside)

end RtlSdr.Fm
