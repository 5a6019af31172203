import RtlSdr.Fm.Filters
import RtlSdr.Power.FixFft
import RtlSdr.Power.Plan

/-!
# The scan of one piece

Each sample is added to its group in place, so that the groups move to the front of the buffer and
zeros follow. A last window that is longer than what is left of the groups takes a partial sum and
the zeros for samples. As in `fix_fft`, an element is a complex one.
-/
namespace RtlSdr.Power

open Checked

/-! ### The filters -/

/-- The last six samples of `fifth_order`. -/
structure Fifth where
  a : Int
  b : Int
  c : Int
  d : Int
  e : Int
  f : Int
  data : Nat → Int

/-- One round of the loop of `fifth_order`, for `i` of the source. -/
def fifthRound (n i : Nat) (s : Fifth) : Checked Fifth := do
  let e ← fetch n s.data (i / 2 - 1)
  let f ← fetch n s.data (i / 2)
  let y ← wrapping 16 ((s.c + (s.d + e) * 5 + (s.e + s.f) * 10 + f) >>> (4 : Nat))
  let data ← store n s.data (i / 4) y
  pure ⟨s.c, s.d, s.e, s.f, e, f, data⟩

/-- For half of interleaved data. -/
def fifthOrder (n : Nat) (data : Nat → Int) (length : Int) : Checked (Nat → Int) := do
  let a ← fetch n data 0
  let b ← fetch n data 1
  let c ← fetch n data 2
  let d ← fetch n data 3
  let e ← fetch n data 4
  let f ← fetch n data 5
  let data ← store n data 0 (← wrapping 16 (((a + b) * 10 + (c + d) * 5 + d + f) >>> (4 : Nat)))
  let data ← store n data 1 (← wrapping 16 (((b + c) * 10 + (a + d) * 5 + e + f) >>> (4 : Nat)))
  let data ← store n data 2 (← wrapping 16 ((a + (b + e) * 5 + (c + d) * 10 + f) >>> (4 : Nat)))
  let done ← forStep 12 length.toNat 4 (fifthRound n) ⟨a, b, c, d, e, f, data⟩
  pure done.data

/-- `hist` and the data of `generic_fir`. -/
structure Fir where
  hist : Nat → Int
  data : Nat → Int

def firRound (n : Nat) (fir : List Int) (d : Nat) (s : Fir) : Checked Fir := do
  let temp ← fetch n s.data (d / 2)
  let sum ← wrapping 32 ((s.hist 0 + s.hist 8) * fir.getD 1 0 +
    (s.hist 1 + s.hist 7) * fir.getD 2 0 + (s.hist 2 + s.hist 6) * fir.getD 3 0 +
    (s.hist 3 + s.hist 5) * fir.getD 4 0 + s.hist 4 * fir.getD 5 0)
  let y ← wrapping 16 (sum >>> (15 : Nat))
  let data ← store n s.data (d / 2) y
  pure ⟨fun i => if i < 8 then s.hist (i + 1) else temp, data⟩

def genericFir (n : Nat) (data : Nat → Int) (length : Int) (fir : List Int) :
    Checked (Nat → Int) := do
  let _ ← fetch n data 8
  let done ← forStep 18 length.toNat 2 (firRound n fir) ⟨data, data⟩
  pure done.data

/-- A filter for either half of interleaved data. -/
def eachHalf (filter : (Nat → Int) → Int → Checked (Nat → Int)) (iq : Iq) (length : Int) :
    Checked Iq := do
  let re ← filter (fun k => (iq k).1) length
  let im ← filter (fun k => (iq k).2) (length - 1)
  pure fun k => (re k, im k)

def downsampleIq (n : Nat) (iq : Iq) (length : Int) : Checked Iq :=
  eachHalf (fifthOrder n) iq length

/-- The recursive passes and the droop compensation. -/
def recursivePasses (n : Nat) (compFirSize bufLen : Int) (passes : Nat) (iq : Iq) : Checked Iq := do
  let iq ← forRange (fun j iq => downsampleIq n iq (bufLen >>> j)) passes iq
  if compFirSize = 9 ∧ passes ≤ 10 then
    eachHalf (fun data length => genericFir n data length (Fm.cic9Tables.getD passes [])) iq
      (bufLen >>> passes)
  else pure iq

/-- The sum of every second element, in a `long`. -/
def dcSum (n : Nat) (data : Nat → Int) (length : Int) : Checked Int :=
  forStep 0 length.toNat 2 (fun i sum => do
    let x ← fetch n data (i / 2)
    pure (sum + x)) 0

/-- For half of interleaved data. -/
def removeDc (n : Nat) (data : Nat → Int) (length : Int) : Checked (Nat → Int) := do
  let sum ← dcSum n data length
  let ave ← wrapping 16 (← divide sum length)
  if ave = 0 then pure data
  else forStep 0 length.toNat 2 (fun i data => do
    let x ← wrapping 16 ((← fetch n data (i / 2)) - ave)
    store n data (i / 2) x) data

/-! ### The scan -/

/-- The variables of the loop that sums up the capture. -/
structure Boxcar where
  j : Nat
  j2 : Nat
  iq : Iq

def boxcarRound (n ds : Nat) (s : Boxcar) : Checked Boxcar := do
  let x ← fetch n s.iq s.j
  let y ← fetch n s.iq s.j2
  let iq ← store n s.iq s.j2 (← wrapping 16 (y.1 + x.1), ← wrapping 16 (y.2 + x.2))
  let iq ← store n iq s.j (0, 0)
  pure ⟨s.j + 1, if (s.j + 1) % ds = 0 then s.j2 + 1 else s.j2, iq⟩

def boxcarSum (n ds : Nat) (iq : Iq) : Checked Boxcar :=
  whileLoop (fun s => s.j < n) (boxcarRound n ds) n ⟨1, 0, iq⟩

/-- The options of the scan, and the tables that `main` sets up. -/
structure Scan where
  boxcar : Bool
  compFirSize : Int
  peakHold : Bool
  windowCoefs : Nat → Int
  wave : Wave

/-- `fft_buf` as the capture is put into it. -/
def captured (buf8 : Nat → UInt8 × UInt8) (k : Nat) : Int × Int :=
  ((buf8 k).1.toNat - 127, (buf8 k).2.toNat - 127)

/-- The number of complex elements of a capture. -/
def TuningState.elements (ts : TuningState) : Nat := (ts.bufLen / 2).toNat

/-- `fft_buf` after the downsampling. -/
def downsampled (c : Scan) (ts : TuningState) (buf8 : Nat → UInt8 × UInt8) : Checked Iq :=
  if c.boxcar ∧ ts.downsample > 1 then do
    let done ← boxcarSum ts.elements ts.downsample.toNat (captured buf8)
    pure done.iq
  else if ts.downsamplePasses ≠ 0 then
    recursivePasses ts.elements c.compFirSize ts.bufLen ts.downsamplePasses (captured buf8)
  else pure (captured buf8)

/-- The product with the window function. -/
def windowRound (c : Scan) (n offset j : Nat) (iq : Iq) : Checked Iq := do
  let x ← fetch n iq (offset + j)
  let re ← wrapping 32 (x.1 * c.windowCoefs j)
  let im ← wrapping 32 (x.2 * c.windowCoefs j)
  store n iq (offset + j) (← wrapping 16 re, ← wrapping 16 im)

/-- Real part of `n` times its conjugate. -/
def realConj (x : Int × Int) : Int := x.1 * x.1 + x.2 * x.2

/-- `avg` with one more transform. -/
def averaged (peakHold : Bool) (avg : Nat → Int) (offset binLen : Nat) (iq : Iq) (j : Nat) : Int :=
  if j < binLen then
    if peakHold then max (realConj (iq (offset + j))) (avg j)
    else avg j + realConj (iq (offset + j))
  else avg j

/-- `fix_fft(fft_buf+offset, bin_e)`. -/
def fixFftAt (c : Scan) (n offset binE : Nat) (iq : Iq) : Checked Iq := do
  -- the last element of the window is inside the buffer
  let _ ← fetch n iq (offset + 2 ^ binE - 1)
  let result ← fixFft c.wave binE fun k => iq (offset + k)
  pure fun k => if offset ≤ k ∧ k < offset + 2 ^ binE then result.1 (k - offset) else iq k

/-- The transform of the window at `offset`. -/
def fftWindow (c : Scan) (n offset : Nat) (s : TuningState × Iq) : Checked (TuningState × Iq) := do
  let iq ← forRange (windowRound c n offset) (2 ^ s.1.binE) s.2
  let iq ← fixFftAt c n offset s.1.binE iq
  pure ({ s.1 with
    avg := averaged c.peakHold s.1.avg offset (2 ^ s.1.binE) iq
    samples := s.1.samples + s.1.downsample }, iq)

/-- The scan of one piece with more than one bin. -/
def scanTune (c : Scan) (ts : TuningState) (buf8 : Nat → UInt8 × UInt8) : Checked TuningState := do
  let iq ← downsampled c ts buf8
  let length ← divide ts.bufLen ts.downsample
  let iq ← eachHalf (removeDc ts.elements) iq length
  let done ← forStep 0 length.toNat (2 * 2 ^ ts.binE)
    (fun offset => fftWindow c ts.elements (offset / 2)) (ts, iq)
  pure done.1

/-- The number of rounds of the loop over the windows. -/
def TuningState.windows (ts : TuningState) : Nat :=
  ((ts.bufLen.tdiv ts.downsample).toNat + 2 * 2 ^ ts.binE - 1) / (2 * 2 ^ ts.binE)

/-! ### What the sums hold -/

/-- The samples of group `x` among the first `k`. -/
def groupSum (cap : Iq) (ds k x : Nat) : Int × Int :=
  ∑ s ∈ Finset.range k, if s / ds = x then cap s else 0

theorem groupSum_succ (cap : Iq) (ds k x : Nat) :
    groupSum cap ds (k + 1) x = groupSum cap ds k x + if k / ds = x then cap k else 0 :=
  Finset.sum_range_succ _ k

variable {x k ds n : Nat}

theorem groupSum_none (cap : Iq) (before : k ≤ ds * x) : groupSum cap ds k x = 0 := by
  apply Finset.sum_eq_zero
  intro s early
  rw [if_neg]
  rintro rfl
  have start := Nat.mul_div_le s ds
  have early := Finset.mem_range.mp early
  omega

theorem groupSum_part (cap : Iq) {m : Nat} (part : m ≤ ds) :
    groupSum cap ds (ds * x + m) x = ∑ t ∈ Finset.range m, cap (ds * x + t) := by
  induction m with
  | zero => exact groupSum_none cap (Nat.le_refl _)
  | succ m ih =>
    have group : (ds * x + m) / ds = x := by
      rw [Nat.mul_add_div (by omega), Nat.div_eq_of_lt part, Nat.add_zero]
    rw [← Nat.add_assoc, groupSum_succ, ih (by omega), if_pos group, Finset.sum_range_succ]

theorem groupSum_whole (cap : Iq) (some : 0 < ds) (whole : ds * x + ds ≤ k) :
    groupSum cap ds k x = ∑ t ∈ Finset.range ds, cap (ds * x + t) := by
  induction k, whole using Nat.le_induction with
  | base => exact groupSum_part cap (Nat.le_refl ds)
  | succ k whole ih =>
    have later : k / ds ≠ x := by
      rintro rfl
      have start := Nat.lt_mul_div_succ k some
      rw [Nat.mul_add, Nat.mul_one] at start
      omega
    rw [groupSum_succ, ih, if_neg later, add_zero]

/-- Both components as 16 bit numbers. -/
def word (x : Int × Int) : Int × Int := (x.1.bmod (2 ^ 16), x.2.bmod (2 ^ 16))

theorem word_add (x y : Int × Int) : word (word x + y) = word (x + y) :=
  Prod.ext (Int.bmod_add_bmod ..) (Int.bmod_add_bmod ..)

/-- The array when the samples before `k` are added to their groups. -/
structure Summed (cap : Iq) (ds k : Nat) (s : Boxcar) : Prop where
  next : s.j = k
  group : s.j2 = k / ds
  array : ∀ x, s.iq x = if x < k then word (groupSum cap ds k x) else cap x

theorem Summed.round {cap : Iq} {s : Boxcar} (summed : Summed cap ds k s) (some : 1 ≤ k)
    (many : 2 ≤ ds) : Summed cap ds (k + 1) (boxcarRound n ds s).value := by
  obtain ⟨j, j2, iq⟩ := s
  obtain ⟨next, group, array⟩ := summed
  change j = k at next
  change j2 = k / ds at group
  change ∀ x, iq x = _ at array
  subst next group
  have earlier : j / ds < j := Nat.div_lt_self some many
  have sum : (iq (j / ds)).1 + (iq j).1 = (word (groupSum cap ds j (j / ds)) + cap j).1 ∧
      (iq (j / ds)).2 + (iq j).2 = (word (groupSum cap ds j (j / ds)) + cap j).2 := by
    rw [array (j / ds), array j, if_pos earlier, if_neg (Nat.lt_irrefl j)]
    exact ⟨rfl, rfl⟩
  refine ⟨rfl, ?_, ?_⟩
  · change (if (j + 1) % ds = 0 then j / ds + 1 else j / ds) = (j + 1) / ds
    rw [Nat.succ_div]
    split_ifs with whole divides divides
    · rfl
    · exact absurd (Nat.dvd_of_mod_eq_zero whole) divides
    · exact absurd (Nat.mod_eq_zero_of_dvd divides) whole
    · rfl
  · intro x
    change Function.update (Function.update iq (j / ds)
      (word ((iq (j / ds)).1 + (iq j).1, (iq (j / ds)).2 + (iq j).2))) j (0, 0) x = _
    rw [sum.1, sum.2, word_add]
    by_cases here : x = j
    · -- The sample itself is cleared, and no sample of the group at its place has come up yet.
      subst here
      have none : groupSum cap ds (x + 1) x = 0 := by
        apply groupSum_none
        have double := Nat.mul_le_mul_right x many
        omega
      rw [Function.update_self, if_pos (Nat.lt_succ_self x), none]
      rfl
    · rw [Function.update_of_ne here, groupSum_succ]
      by_cases target : x = j / ds
      · rw [target, Function.update_self, if_pos (by omega), if_pos rfl]
      · have same : x < j + 1 ↔ x < j := by omega
        rw [Function.update_of_ne target, if_neg (Ne.symm target), add_zero, array]
        simp only [same]

theorem boxcarSum_summed (cap : Iq) (some : 1 ≤ n) (many : 2 ≤ ds)
    (fits : ∀ k, word (cap k) = cap k) : Summed cap ds n (boxcarSum n ds cap).value := by
  have start : Summed cap ds 1 ⟨1, 0, cap⟩ := by
    refine ⟨rfl, (Nat.div_eq_of_lt many).symm, ?_⟩
    intro x
    by_cases first : x < 1
    · obtain rfl : x = 0 := by omega
      have alone : groupSum cap ds 1 0 = cap 0 := by
        rw [groupSum_succ, Nat.zero_div, if_pos rfl]
        exact zero_add _
      rw [if_pos first, alone, fits]
    · rw [if_neg first]
  refine whileLoop_reaches (fun k s => 1 ≤ k ∧ Summed cap ds k s) n ?_ ?_ n 1 (by omega) some _
    ⟨Nat.le_refl 1, start⟩ |>.2
  · rintro k before s ⟨positive, summed⟩
    refine ⟨decide_eq_true ?_, by omega, summed.round positive many⟩
    rw [summed.next]
    exact before
  · rintro s ⟨_, summed⟩
    refine decide_eq_false ?_
    rw [summed.next]
    exact Nat.lt_irrefl n

theorem captured_within (buf8 : Nat → UInt8 × UInt8) (k : Nat) :
    (-127 ≤ (captured buf8 k).1 ∧ (captured buf8 k).1 ≤ 128) ∧
      -127 ≤ (captured buf8 k).2 ∧ (captured buf8 k).2 ≤ 128 := by
  have re := (buf8 k).1.toNat_lt
  have im := (buf8 k).2.toNat_lt
  unfold captured
  omega

theorem word_of_within {x : Int × Int} (re : -32768 ≤ x.1 ∧ x.1 ≤ 32767)
    (im : -32768 ≤ x.2 ∧ x.2 ≤ 32767) : word x = x :=
  Prod.ext (Int.bmod_eq_of_le (m := 2 ^ 16) (by omega) (by omega))
    (Int.bmod_eq_of_le (m := 2 ^ 16) (by omega) (by omega))

theorem word_captured (buf8 : Nat → UInt8 × UInt8) (k : Nat) :
    word (captured buf8 k) = captured buf8 k := by
  obtain ⟨re, im⟩ := captured_within buf8 k
  exact word_of_within (by omega) (by omega)

variable {c : Scan} {ts : TuningState}

theorem downsampled_word (boxcar : c.boxcar = true) (passes : ts.downsamplePasses = 0)
    (factor : ts.downsample = ds) (some : 0 < ds) (buf8 : Nat → UInt8 × UInt8)
    (inside : x < ts.elements) :
    (downsampled c ts buf8).value x = word (groupSum (captured buf8) ds ts.elements x) := by
  unfold downsampled
  rw [factor]
  by_cases many : (ds : Int) > 1
  · rw [if_pos ⟨boxcar, many⟩, value_bind]
    have summed := boxcarSum_summed (captured buf8) (by omega : 1 ≤ ts.elements) (by omega : 2 ≤ ds)
      (word_captured buf8)
    change (boxcarSum ts.elements ds (captured buf8)).value.iq x = _
    rw [summed.array, if_pos inside]
  · obtain rfl : ds = 1 := by omega
    rw [if_neg (fun both => many both.2), if_neg (not_not.mpr passes),
      groupSum_whole _ Nat.one_pos (by omega), Finset.sum_range_one, Nat.one_mul, Nat.add_zero,
      word_captured]
    rfl

/-! ### The rounds of the scan -/

/-- `fft_buf` when the windows begin. -/
def prepared (c : Scan) (ts : TuningState) (buf8 : Nat → UInt8 × UInt8) : Iq :=
  (eachHalf (removeDc ts.elements) (downsampled c ts buf8).value
    (ts.bufLen.tdiv ts.downsample)).value

/-- The averages and `fft_buf` before the window `w`. -/
def beforeWindow (c : Scan) (ts : TuningState) (buf8 : Nat → UInt8 × UInt8) (w : Nat) :
    TuningState × Iq :=
  (forRange (fun r => fftWindow c ts.elements ((0 + 2 * 2 ^ ts.binE * r) / 2)) w
    (ts, prepared c ts buf8)).value

/-- `fft_buf` before the product of element `j` of the window `w`. -/
def beforeProduct (c : Scan) (ts : TuningState) (buf8 : Nat → UInt8 × UInt8) (w j : Nat) : Iq :=
  (forRange (windowRound c ts.elements (2 ^ ts.binE * w)) j (beforeWindow c ts buf8 w).2).value

/-- The scan goes through these states. -/
theorem scanTune_value (c : Scan) (ts : TuningState) (buf8 : Nat → UInt8 × UInt8) :
    (scanTune c ts buf8).value = (beforeWindow c ts buf8 ts.windows).1 := rfl

theorem windowRound_other (c : Scan) (n offset j : Nat) (iq : Iq) (other : x ≠ offset + j) :
    (windowRound c n offset j iq).value x = iq x :=
  Function.update_of_ne other _ _

theorem windowRounds_behind (c : Scan) (n offset j : Nat) (iq : Iq) (behind : offset + j ≤ x) :
    (forRange (windowRound c n offset) j iq).value x = iq x := by
  have kept := forRange_reaches (fun i now => ∀ x, offset + i ≤ x → now x = iq x)
    (windowRound c n offset) j ?_ iq (fun _ _ => rfl)
  · exact kept x behind
  · intro i _ now before x behind
    rw [windowRound_other c n offset i now (by omega), before x (by omega)]

theorem fftWindow_behind (c : Scan) (n offset : Nat) (s : TuningState × Iq)
    (behind : offset + 2 ^ s.1.binE ≤ x) : (fftWindow c n offset s).value.2 x = s.2 x := by
  change (if offset ≤ x ∧ x < offset + 2 ^ s.1.binE then _
    else (forRange (windowRound c n offset) (2 ^ s.1.binE) s.2).value x) = _
  rw [if_neg (by omega), windowRounds_behind c n offset _ s.2 behind]

theorem beforeWindow_behind (c : Scan) (ts : TuningState) (buf8 : Nat → UInt8 × UInt8) (w : Nat) :
    (beforeWindow c ts buf8 w).1.binE = ts.binE ∧
      ∀ x, 2 ^ ts.binE * w ≤ x → (beforeWindow c ts buf8 w).2 x = prepared c ts buf8 x := by
  refine forRange_reaches (fun w (s : TuningState × Iq) => s.1.binE = ts.binE ∧
    ∀ x, 2 ^ ts.binE * w ≤ x → s.2 x = prepared c ts buf8 x) _ w ?_ _ ⟨rfl, fun _ _ => rfl⟩
  rintro w _ s ⟨same, before⟩
  refine ⟨same, fun x behind => ?_⟩
  have offset : (0 + 2 * 2 ^ ts.binE * w) / 2 = 2 ^ ts.binE * w := by
    rw [Nat.zero_add, Nat.mul_assoc, Nat.mul_div_cancel_left _ Nat.two_pos]
  rw [Nat.mul_succ] at behind
  rw [offset, fftWindow_behind c _ _ s (by rw [same]; exact behind),
    before x ((Nat.le_add_right _ _).trans behind)]

/-- The loop multiplies what was there when the windows began. -/
theorem beforeProduct_here (c : Scan) (ts : TuningState) (buf8 : Nat → UInt8 × UInt8) (w j : Nat) :
    beforeProduct c ts buf8 w j (2 ^ ts.binE * w + j) =
      prepared c ts buf8 (2 ^ ts.binE * w + j) := by
  rw [beforeProduct, windowRounds_behind _ _ _ _ _ (Nat.le_refl _),
    (beforeWindow_behind c ts buf8 w).2 _ (Nat.le_add_right _ _)]

end RtlSdr.Power
