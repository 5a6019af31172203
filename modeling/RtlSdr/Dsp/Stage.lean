import RtlSdr.Dsp.Plan
import RtlSdr.Lib.DelayLine

/-!
# One decimating stage (`struct dsp_stage`)

A stage is a pair of circular delay lines with a tap count, a decimation counter and a
write position. The structure carries what `stage_init` establishes, so that no
operation can leave the lines, and the `int` fields stay far below their limits.
-/
namespace RtlSdr

theorem and_mask (size mask x : Nat) (power : ∃ k ≤ 31, size = 2 ^ k) (masked : mask = size - 1) :
    x &&& mask = x % size := by
  obtain ⟨k, _, rfl⟩ := power
  rw [masked, Nat.and_two_pow_sub_one_eq_mod]

/-- `struct dsp_stage`. -/
structure Stage (F : Type) where
  coeffs : List F
  delayI : List F
  delayQ : List F
  numTaps : Nat
  bufSize : Nat
  bufMask : Nat
  decimation : Nat
  counter : Nat
  wp : Nat
  taps_sized : coeffs.length = numTaps
  i_sized : delayI.length = bufSize
  q_sized : delayQ.length = bufSize
  masked : bufMask = bufSize - 1
  power : ∃ k ≤ 31, bufSize = 2 ^ k
  fits : numTaps ≤ bufSize
  inside : wp < bufSize
  counting : counter < decimation

section

variable {F : Type}

/-- Store one sample at the write position and advance it. -/
def Stage.write (st : Stage F) (x : F × F) : Stage F :=
  { st with
    delayI := st.delayI.set st.wp x.1
    delayQ := st.delayQ.set st.wp x.2
    wp := (st.wp + 1) &&& st.bufMask
    i_sized := by rw [List.length_set, st.i_sized]
    q_sized := by rw [List.length_set, st.q_sized]
    inside := by
      rw [and_mask st.bufSize st.bufMask _ st.power st.masked]
      exact Nat.mod_lt _ (Nat.zero_lt_of_lt st.inside) }

def Stage.count (st : Stage F) (counter : Nat) (counting : counter < st.decimation) : Stage F :=
  { st with counter, counting }

/-- `(wp - 1 - j) & mask` on signed 32-bit integers. -/
def tapIndex (wp mask j : Nat) : Nat :=
  (BitVec.ofInt 32 ((wp : Int) - 1 - j) &&& BitVec.ofNat 32 mask).toNat

/-- The masked index is the circular one, also when it starts out negative. -/
theorem tapIndex_eq (st : Stage F) (j : Nat) :
    tapIndex st.wp st.bufMask j = DelayLine.slot st.bufSize st.wp j := by
  obtain ⟨k, small, size⟩ := st.power
  have le : 2 ^ k ≤ 2 ^ 31 := Nat.pow_le_pow_right (by decide) small
  have mask : (BitVec.ofNat 32 (2 ^ k - 1)).toNat = 2 ^ k - 1 := by
    rw [BitVec.toNat_ofNat]
    exact Nat.mod_eq_of_lt (by omega)
  have divides : ((2 ^ k : Nat) : Int) ∣ ((2 ^ 32 : Nat) : Int) :=
    Int.natCast_dvd_natCast.mpr (Nat.pow_dvd_pow 2 (by omega))
  generalize index : (st.wp : Int) - 1 - j = z
  have word : 0 ≤ z % ((2 ^ 32 : Nat) : Int) := Int.emod_nonneg _ (by decide)
  have residue : (z % ((2 ^ 32 : Nat) : Int)).toNat % 2 ^ k = (z % ((2 ^ k : Nat) : Int)).toNat := by
    rw [← Int.emod_emod_of_dvd z divides, Int.toNat_emod word (Int.natCast_nonneg _),
      Int.toNat_natCast]
  rw [tapIndex, DelayLine.slot, index, BitVec.toNat_and, BitVec.toNat_ofInt, st.masked, size, mask,
    Nat.and_two_pow_sub_one_eq_mod, residue]

end

section

variable {F : Type} [CFloat F]

/-- `sum += coeffs[j] * x(j)` for both components, in tap order. -/
def tapSum (numTaps : Nat) (coeffs : List F) (x : Nat → F × F) : F × F :=
  (List.range numTaps).foldl
    (fun sum j => (sum.1 + coeffs.getD j 0.0 * (x j).1, sum.2 + coeffs.getD j 0.0 * (x j).2))
    (0.0, 0.0)

def stageFir (st : Stage F) : F × F :=
  tapSum st.numTaps st.coeffs fun j =>
    (st.delayI.getD (tapIndex st.wp st.bufMask j) 0.0,
      st.delayQ.getD (tapIndex st.wp st.bufMask j) 0.0)

/-- `stage_run`: the filtered sample when the decimation counter fires. -/
def stageRun (st : Stage F) (x : F × F) : Stage F × Option (F × F) :=
  let st := st.write x
  if fires : st.counter + 1 ≥ st.decimation then
    (st.count 0 (Nat.zero_lt_of_lt st.counting), some (stageFir st))
  else (st.count (st.counter + 1) (Nat.lt_of_not_le fires), none)

/-! ### Creation -/

/-- `while (p < n) p <<= 1`. -/
def pow2Loop (n : Nat) : Nat → Nat → Nat
  | 0, p => p
  | fuel + 1, p => if p < n then pow2Loop n fuel (p <<< 1) else p

/-- `next_pow2`; every round doubles `p`, so `n` rounds are enough. -/
def nextPow2 (n : Nat) : Nat := pow2Loop n n 1

theorem pow2Loop_spec (n fuel k : Nat) (enough : n ≤ 2 ^ k * 2 ^ fuel) :
    ∃ l, k ≤ l ∧ pow2Loop n fuel (2 ^ k) = 2 ^ l ∧ n ≤ 2 ^ l ∧ (l = k ∨ 2 ^ l < 2 * n) := by
  induction fuel generalizing k with
  | zero => exact ⟨k, Nat.le_refl k, rfl, by simpa using enough, .inl rfl⟩
  | succ fuel ih =>
    rw [pow2Loop]
    by_cases more : 2 ^ k < n
    · have double : 2 ^ k <<< 1 = 2 ^ (k + 1) := by
        rw [Nat.shiftLeft_eq, Nat.pow_one, Nat.pow_succ]
      rw [if_pos more, double]
      obtain ⟨l, above, result, large, tight⟩ := ih (k + 1) (by
        rw [Nat.pow_succ, Nat.mul_assoc, ← Nat.pow_succ']
        exact enough)
      refine ⟨l, Nat.le_of_succ_le above, result, large, .inr ?_⟩
      rcases tight with rfl | tight
      · rw [Nat.pow_succ]
        omega
      · exact tight
    · rw [if_neg more]
      exact ⟨k, Nat.le_refl k, rfl, Nat.le_of_not_lt more, .inl rfl⟩

theorem nextPow2_spec (n : Nat) :
    ∃ k, nextPow2 n = 2 ^ k ∧ n ≤ 2 ^ k ∧ (k = 0 ∨ 2 ^ k < 2 * n) := by
  obtain ⟨k, _, result, large, tight⟩ := pow2Loop_spec n n 0 (by
    rw [Nat.pow_zero, Nat.one_mul]
    exact Nat.le_of_lt Nat.lt_two_pow_self)
  exact ⟨k, result, large, tight⟩

end

section

variable {F D : Type} [CDouble D F]

def mPi : D := 3.14159265358979323846

def blackmanHarris (n : Int) (N : Int) : D :=
  let t : D := 2.0 * mPi * CDouble.ofInt n / CDouble.ofInt (N - 1)
  0.35875 - 0.48829 * CDouble.cos t + 0.14128 * CDouble.cos (CDouble.ofInt 2 * t) -
    0.01168 * CDouble.cos (CDouble.ofInt 3 * t)

/-- One windowed tap of `design_lowpass`, before the gain is normalised. -/
def lowpassTap (numTaps : Nat) (cutoff : D) (i : Nat) : D :=
  let k : Int := (i : Int) - ((numTaps - 1) / 2 : Nat)
  let sinc : D :=
    if k = 0 then 2.0 * cutoff
    else CDouble.sin (2.0 * mPi * cutoff * CDouble.ofInt k) / (mPi * CDouble.ofInt k)
  sinc * blackmanHarris i numTaps

/-- `design_lowpass`, once its scratch array is allocated. -/
def designLowpass (numTaps : Nat) (cutoff : D) : List F :=
  let tmp := (List.range numTaps).map (lowpassTap numTaps cutoff)
  let sum := tmp.foldl (· + ·) 0.0
  let tmp := if CDouble.bne sum 0.0 then tmp.map (· / sum) else tmp
  tmp.map CDouble.toFloat

theorem designLowpass_length (numTaps : Nat) (cutoff : D) :
    (designLowpass numTaps cutoff : List F).length = numTaps := by
  simp only [designLowpass]
  split_ifs <;> simp

variable [CFloat F]

/-- `stage_init`, once its arrays are allocated. -/
def stageInit (plan : PlanStage D) : Stage F :=
  { decimation := plan.factor
    numTaps := plan.taps
    bufSize := nextPow2 plan.taps
    bufMask := nextPow2 plan.taps - 1
    counter := 0
    wp := 0
    coeffs := if plan.taps = 1 then [1.0] else designLowpass plan.taps plan.cutoff
    delayI := List.replicate (nextPow2 plan.taps) 0.0
    delayQ := List.replicate (nextPow2 plan.taps) 0.0
    taps_sized := by
      split_ifs with single
      · exact single.symm
      · exact designLowpass_length _ _
    i_sized := List.length_replicate
    q_sized := List.length_replicate
    masked := rfl
    power := by
      obtain ⟨k, result, _, tight⟩ := nextPow2_spec plan.taps
      refine ⟨k, ?_, result⟩
      by_contra large
      have huge : 2 ^ 31 ≤ 2 ^ k := Nat.pow_le_pow_right (by decide) (by omega)
      have limit := plan.taps_le
      unfold maxTaps at limit
      omega
    fits := by
      obtain ⟨k, result, large, _⟩ := nextPow2_spec plan.taps
      rw [result]
      exact large
    inside := by
      obtain ⟨k, result, _, _⟩ := nextPow2_spec plan.taps
      rw [result]
      exact Nat.two_pow_pos k
    counting := plan.factor_pos }

end

/-! ### The delay lines follow the stream -/

section

variable {F : Type} [CFloat F]

/-- Silence: what the lines hold before the first sample. -/
def silence : F × F := (0.0, 0.0)

/-- The stage has been fed exactly `past`. -/
structure Stage.Tracks (st : Stage F) (past : List (F × F)) : Prop where
  lineI : DelayLine.Tracks 0.0 st.delayI st.wp (past.map Prod.fst)
  lineQ : DelayLine.Tracks 0.0 st.delayQ st.wp (past.map Prod.snd)
  counted : st.counter = past.length % st.decimation

theorem Stage.tracks_fresh {D : Type} [CDouble D F] (plan : PlanStage D) :
    (stageInit plan : Stage F).Tracks [] where
  lineI := DelayLine.tracks_fresh _ _ _
  lineQ := DelayLine.tracks_fresh _ _ _
  counted := (Nat.zero_mod _).symm

variable (st : Stage F) (past : List (F × F))

theorem stageFir_eq (lineI : DelayLine.Tracks 0.0 st.delayI st.wp (past.map Prod.fst))
    (lineQ : DelayLine.Tracks 0.0 st.delayQ st.wp (past.map Prod.snd)) :
    stageFir st = tapSum st.numTaps st.coeffs (DelayLine.ago silence past) := by
  unfold stageFir tapSum
  apply List.foldl_ext
  intro sum j member
  have recent : j < st.bufSize := Nat.lt_of_lt_of_le (List.mem_range.mp member) st.fits
  have i := lineI j (by rw [st.i_sized]; exact recent)
  have q := lineQ j (by rw [st.q_sized]; exact recent)
  rw [st.i_sized] at i
  rw [st.q_sized] at q
  have left : DelayLine.ago 0.0 (past.map Prod.fst) j = (DelayLine.ago silence past j).1 :=
    DelayLine.ago_map Prod.fst silence past j
  have right : DelayLine.ago 0.0 (past.map Prod.snd) j = (DelayLine.ago silence past j).2 :=
    DelayLine.ago_map Prod.snd silence past j
  simp only [tapIndex_eq, i, q, left, right]

theorem Stage.write_lines (x : F × F) (tracks : st.Tracks past) :
    DelayLine.Tracks 0.0 (st.write x).delayI (st.write x).wp ((past ++ [x]).map Prod.fst) ∧
      DelayLine.Tracks 0.0 (st.write x).delayQ (st.write x).wp ((past ++ [x]).map Prod.snd) := by
  have i := tracks.lineI.push 0.0 st.delayI st.wp _ x.1 (by rw [st.i_sized]; exact st.inside)
  have q := tracks.lineQ.push 0.0 st.delayQ st.wp _ x.2 (by rw [st.q_sized]; exact st.inside)
  rw [st.i_sized] at i
  rw [st.q_sized] at q
  have position : (st.write x).wp = (st.wp + 1) % st.bufSize :=
    and_mask st.bufSize st.bufMask _ st.power st.masked
  rw [List.map_append, List.map_append, position]
  exact ⟨i, q⟩

theorem counter_next (decimation length : Nat) (positive : 0 < decimation) :
    (length + 1) % decimation =
      if length % decimation + 1 = decimation then 0 else length % decimation + 1 := by
  rw [← DelayLine.next_eq decimation (length % decimation) (Nat.mod_lt _ positive),
    Nat.mod_add_mod]

/-- One sample: the stage tracks it, and answers with the FIR over the whole past
exactly when the sample completes a block. -/
theorem stageRun_tracks (x : F × F) (tracks : st.Tracks past) :
    (stageRun st x).1.Tracks (past ++ [x]) ∧
      (stageRun st x).2 =
        if (past.length + 1) % st.decimation = 0 then
          some (tapSum st.numTaps st.coeffs (DelayLine.ago silence (past ++ [x])))
        else none := by
  obtain ⟨lineI, lineQ⟩ := st.write_lines past x tracks
  have positive : 0 < st.decimation := Nat.zero_lt_of_lt st.counting
  have next := counter_next st.decimation past.length positive
  rw [← tracks.counted] at next
  have bound := st.counting
  unfold stageRun
  by_cases fires : st.counter + 1 ≥ st.decimation
  · -- the block is complete
    have last : st.counter + 1 = st.decimation := by omega
    rw [if_pos last] at next
    simp only [dif_pos (show (st.write x).counter + 1 ≥ (st.write x).decimation from fires)]
    refine ⟨⟨lineI, lineQ, ?_⟩, ?_⟩
    · rw [List.length_append, List.length_singleton]
      exact next.symm
    · rw [if_pos next, stageFir_eq _ _ lineI lineQ]
      rfl
  · have goes : st.counter + 1 ≠ st.decimation := by omega
    rw [if_neg goes] at next
    simp only [dif_neg (show ¬(st.write x).counter + 1 ≥ (st.write x).decimation from fires)]
    refine ⟨⟨lineI, lineQ, ?_⟩, ?_⟩
    · rw [List.length_append, List.length_singleton]
      exact next.symm
    · rw [if_neg (by omega)]

theorem stageRun_fixed (x : F × F) :
    (stageRun st x).1.coeffs = st.coeffs ∧ (stageRun st x).1.numTaps = st.numTaps ∧
      (stageRun st x).1.bufSize = st.bufSize ∧ (stageRun st x).1.decimation = st.decimation := by
  unfold stageRun
  simp only
  split_ifs <;> exact ⟨rfl, rfl, rfl, rfl⟩

end

end RtlSdr
