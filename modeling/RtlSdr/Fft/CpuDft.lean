import RtlSdr.Fft.Cpu
import RtlSdr.Lib.CooleyTukey
import Mathlib.Analysis.SpecialFunctions.Trigonometric.Basic

/-!
# The CPU backend computes the discrete Fourier transform

With exact arithmetic and exact tables, the interleaved components are the parts of an array of
complex numbers. The reordering of the source is the exchange by reversed indices, and its loops are
the rounds of Cooley and Tukey.
-/
namespace RtlSdr.FftCpu

open BitReversal CooleyTukey

/-- Element `k` of the complex array at `base`. -/
def complexAt (mem : Nat → ℝ) (base k : Nat) : ℂ :=
  ⟨load mem base (2 * k), load mem base (2 * k + 1)⟩

/-- The root of unity of the transform. -/
noncomputable def root (n : Nat) : ℂ := Complex.exp (-2 * Real.pi * Complex.I / n)

/-- Tables without rounding. -/
structure CpuPlan.Exact (plan : CpuPlan ℝ) : Prop where
  real : ∀ i < plan.nfft / 2, plan.twiddleR[i]? = some (root plan.nfft ^ i).re
  imaginary : ∀ i < plan.nfft / 2, plan.twiddleI[i]? = some (root plan.nfft ^ i).im

/-! ### Complex elements in memory -/

theorem load_store {F : Type} (mem : Nat → F) (base i k : Nat) (value : F) :
    load (store mem base i value) base k = if k = i then value else load mem base k := by
  unfold load store
  rw [Function.update_apply]
  by_cases same : k = i
  · rw [if_pos same, same, if_pos rfl]
  · rw [if_neg same, if_neg (by omega)]

theorem complexAt_store (mem : Nat → ℝ) (base i : Nat) (x y : ℝ) :
    complexAt (store (store mem base (2 * i) x) base (2 * i + 1) y) base =
      Function.update (complexAt mem base) i ⟨x, y⟩ := by
  funext k
  rw [complexAt, load_store, load_store, load_store, load_store, if_neg (by omega)]
  by_cases same : k = i
  · rw [same, Function.update_self, if_pos rfl, if_pos rfl]
  · rw [Function.update_of_ne same, if_neg (by omega), if_neg (by omega), if_neg (by omega)]
    rfl

/-- Memory with an array of complex numbers at `base`, and as it was outside the first `n` of
them. -/
structure Holds (before : Nat → ℝ) (base n : Nat) (a : Nat → ℂ) (mem : Nat → ℝ) : Prop where
  elements : complexAt mem base = a
  outside : ∀ address, address < base ∨ base + 8 * n ≤ address → mem address = before address

variable {before mem : Nat → ℝ} {a : Nat → ℂ} {base n out : Nat} {plan : CpuPlan ℝ}

theorem Holds.store (holds : Holds before base n a mem) (i : Nat) (inside : i < n) (x y : ℝ) :
    Holds before base n (Function.update a i ⟨x, y⟩)
      (store (store mem base (2 * i) x) base (2 * i + 1) y) := by
  constructor
  · rw [complexAt_store, holds.elements]
  · intro address away
    unfold FftCpu.store
    rw [Function.update_of_ne (by omega), Function.update_of_ne (by omega)]
    exact holds.outside address away

theorem Holds.loads (holds : Holds before base n a mem) (k : Nat) :
    load mem base (2 * k) = (a k).re ∧ load mem base (2 * k + 1) = (a k).im := by
  rw [← holds.elements]
  exact ⟨rfl, rfl⟩

theorem Holds.swap (holds : Holds before base n a mem) (i j : Nat) (first : i < n)
    (second : j < n) : Holds before base n (BitReversal.exchange a i j) (swap mem base i j) := by
  obtain ⟨realI, imaginaryI⟩ := holds.loads i
  obtain ⟨realJ, imaginaryJ⟩ := holds.loads j
  have moved : load (FftCpu.store mem base (2 * i) (load mem base (2 * j))) base (2 * j + 1) =
      load mem base (2 * j + 1) := by
    rw [load_store, if_neg (by omega)]
  have stored := (holds.store i first (a j).re (a j).im).store j second (a i).re (a i).im
  unfold FftCpu.swap
  simp only
  rw [moved, realI, imaginaryI, realJ, imaginaryJ]
  exact stored

/-! ### The reordering -/

theorem carry_rev (m i : Nat) :
    (carry (rev m i) (2 ^ m >>> 1)).1 + (carry (rev m i) (2 ^ m >>> 1)).2 = rev m (i + 1) := by
  induction m generalizing i with
  | zero =>
    have nothing : ¬(2 ^ 0 >>> 1 ≥ 1 ∧ rev 0 i ≥ 2 ^ 0 >>> 1) := fun both =>
      absurd both.1 (by decide)
    rw [carry, if_neg nothing]
    rfl
  | succ m ih =>
    have half : 2 ^ (m + 1) >>> 1 = 2 ^ m := by
      rw [Nat.shiftRight_one, Nat.pow_succ, Nat.mul_div_cancel _ (by decide)]
    have positive := Nat.two_pow_pos m
    rw [half]
    rcases Nat.even_or_odd' i with ⟨k, rfl | rfl⟩
    · -- the highest bit is clear, and is set
      have below := rev_lt m k
      rw [rev_double, rev_double_succ, carry, if_neg (by omega), Nat.add_comm]
    · -- it is set, is cleared and carries
      have next : 2 * k + 1 + 1 = 2 * (k + 1) := by omega
      rw [next, rev_double, rev_double_succ, carry, if_pos (by omega), Nat.add_sub_cancel_left]
      exact ih k

theorem Holds.bitReverse {m : Nat} (holds : Holds before base n a mem) (size : n = 2 ^ m) :
    Holds before base n (exchangeAll (rev m) n a) (bitReverse mem base n) := by
  subst size
  have done := List.foldl_range_invariant
    (fun i (s : (Nat → ℝ) × Nat) =>
      Holds before base (2 ^ m) (exchangeAll (rev m) i a) s.1 ∧ s.2 = rev m i)
    (bitReverseStep base (2 ^ m)) (mem, 0) (2 ^ m)
    ⟨holds, (rev_zero m).symm⟩
    (by
      rintro i inside ⟨mem, j⟩ ⟨now, counter⟩
      change j = rev m i at counter
      subst counter
      refine ⟨?_, carry_rev m i⟩
      rw [exchangeAll_succ]
      change Holds before base (2 ^ m) _
        (if rev m i > i then FftCpu.swap mem base i (rev m i) else mem)
      by_cases forward : rev m i > i
      · rw [if_pos forward, if_pos forward]
        exact now.swap i (rev m i) inside (rev_lt m i)
      · rw [if_neg forward, if_neg forward]
        exact now)
  exact done.1

/-! ### The butterflies -/

noncomputable def factor (plan : CpuPlan ℝ) (half j : Nat) : ℂ :=
  let tIdx := j * plan.nfft / (half * 2)
  ⟨plan.twiddleR.getD tIdx default, plan.twiddleI.getD tIdx default⟩

theorem Holds.butterfly (holds : Holds before out n a mem) (plan : CpuPlan ℝ) (half i j : Nat)
    (some : 0 < half) (inside : i + j + half < n) :
    Holds before out n (CooleyTukey.butterfly (factor plan half j) (i + j) (i + j + half) a)
      (butterfly plan out half i mem j) := by
  obtain ⟨real0, imaginary0⟩ := holds.loads (i + j)
  obtain ⟨real1, imaginary1⟩ := holds.loads (i + j + half)
  have stored := (holds.store (i + j + half) inside
    (a (i + j) - factor plan half j * a (i + j + half)).re
    (a (i + j) - factor plan half j * a (i + j + half)).im).store (i + j) (by omega)
    (a (i + j) + factor plan half j * a (i + j + half)).re
    (a (i + j) + factor plan half j * a (i + j + half)).im
  unfold FftCpu.butterfly
  extract_lets tIdx wr wi i0 i1 tr ti mem1 mem2 mem3
  have cell0 : i0 = 2 * (i + j) := Nat.mul_comm _ _
  have cell1 : i1 = 2 * (i + j + half) := Nat.mul_comm _ _
  rw [← cell0, ← cell1] at stored
  rw [← cell0] at real0 imaginary0
  rw [← cell1] at real1 imaginary1
  have realT : tr = (factor plan half j * a (i + j + half)).re := by
    simp only [tr, real1, imaginary1, Complex.mul_re]
    rfl
  have imaginaryT : ti = (factor plan half j * a (i + j + half)).im := by
    simp only [ti, real1, imaginary1, Complex.mul_im]
    rfl
  -- what is loaded between the stores is still as it was
  have second : load mem1 out (i0 + 1) = (a (i + j)).im := by
    rw [load_store, if_neg (by omega), imaginary0]
  have third : load mem2 out i0 = (a (i + j)).re := by
    rw [load_store, if_neg (by omega), load_store, if_neg (by omega), real0]
  have fourth : load mem3 out (i0 + 1) = (a (i + j)).im := by
    rw [load_store, if_neg (by omega), load_store, if_neg (by omega), second]
  simp only [mem3, mem2, mem1] at second third fourth ⊢
  rw [fourth, third, second, real0, realT, imaginaryT]
  exact stored

theorem factor_eq (exact : plan.Exact) {d r : Nat} (size : plan.log2n = d + 1 + r) (j : Nat)
    (inside : j < 2 ^ r) : factor plan (2 ^ r) j = root plan.nfft ^ (j * 2 ^ d) := by
  have length : plan.nfft = 2 ^ d * (2 ^ r * 2) := by
    rw [plan.nfft_eq, size]
    ring
  have index : j * plan.nfft / (2 ^ r * 2) = j * 2 ^ d := by
    rw [length, ← Nat.mul_assoc, Nat.mul_div_cancel _ (by positivity)]
  have within : j * 2 ^ d < plan.nfft / 2 := by
    rw [length, ← Nat.mul_assoc, Nat.mul_div_cancel _ Nat.two_pos, Nat.mul_comm (2 ^ d)]
    exact Nat.mul_lt_mul_of_pos_right inside (Nat.two_pow_pos d)
  unfold factor
  simp only [index, List.getD_eq_getElem?_getD, exact.real _ within, exact.imaginary _ within,
    Option.getD_some]

theorem Holds.butterflies (holds : Holds before out plan.nfft a mem) {d r : Nat}
    (size : plan.log2n = d + 1 + r) :
    Holds before out plan.nfft (CooleyTukey.round (factor plan (2 ^ r)) (2 ^ r) (2 ^ d) a)
      (butterflies plan out (2 ^ r) mem) := by
  have positive := Nat.two_pow_pos r
  have length : plan.nfft = 2 ^ r * 2 * 2 ^ d := by
    rw [plan.nfft_eq, size]
    ring
  have count : (plan.nfft + (2 ^ r * 2 - 1)) / (2 ^ r * 2) = 2 ^ d := by
    rw [length, Nat.mul_add_div (by omega), Nat.div_eq_of_lt (by omega), Nat.add_zero]
  unfold FftCpu.butterflies strided
  rw [count, List.foldl_map]
  apply List.foldl_rel (r := Holds before out plan.nfft) holds
  intro b block a mem holds
  rw [Nat.mul_comm 2 (2 ^ r)]
  apply List.foldl_rel (r := Holds before out plan.nfft) holds
  intro j counted a mem holds
  apply holds.butterfly plan (2 ^ r) _ j positive
  -- the last element of block `b`
  have last := Nat.mul_le_mul_left (2 ^ r * 2) (Nat.succ_le_of_lt (List.mem_range.mp block))
  rw [Nat.mul_succ, ← length] at last
  have small := List.mem_range.mp counted
  omega

/-! ### The transform -/

theorem root_half (m : Nat) : root (2 ^ (m + 1)) ^ 2 ^ m = -1 := by
  have nonzero : (2 : ℂ) ^ m ≠ 0 := pow_ne_zero m two_ne_zero
  have angle : ((2 ^ m : Nat) : ℂ) * (-2 * Real.pi * Complex.I / (2 ^ (m + 1) : Nat)) =
      -(Real.pi * Complex.I) := by
    push_cast
    rw [pow_succ]
    field_simp
  rw [root, ← Complex.exp_nat_mul, angle, Complex.exp_neg, Complex.exp_pi_mul_I, inv_neg, inv_one]

/-- After `r` passes of the outer loop the blocks of stage `r` are laid out. -/
theorem Holds.transform {x : Nat → ℂ} (holds : Holds before out plan.nfft a mem)
    (exact : plan.Exact) (laid : Laid (root plan.nfft) plan.log2n 0 x a) :
    ∃ a', Holds before out plan.nfft a' (transform plan out mem) ∧
      Laid (root plan.nfft) 0 plan.log2n x a' := by
  have done := List.foldl_range_invariant
    (fun r (s : (Nat → ℝ) × Nat) => s.2 = 2 ^ r ∧ ∃ a', Holds before out plan.nfft a' s.1 ∧
      Laid (root plan.nfft) (plan.log2n - r) r x a')
    (fun s _ => (FftCpu.butterflies plan out s.2 s.1, s.2 <<< 1)) (mem, 1) plan.log2n
    ⟨rfl, a, holds, laid⟩
    (by
      rintro r inside ⟨mem, step⟩ ⟨doubled, a', now, blocks⟩
      change step = 2 ^ r at doubled
      subst doubled
      obtain ⟨d, left⟩ : ∃ d, plan.log2n - r = d + 1 := ⟨plan.log2n - r - 1, by omega⟩
      have size : plan.log2n = d + 1 + r := by omega
      have half : root plan.nfft ^ 2 ^ (d + r) = -1 := by
        rw [plan.nfft_eq, size, Nat.add_right_comm]
        exact root_half (d + r)
      rw [left] at blocks
      refine ⟨?_, _, now.butterflies size, ?_⟩
      · rw [Nat.shiftLeft_eq, Nat.pow_one, Nat.pow_succ]
      · rw [show plan.log2n - (r + 1) = d by omega]
        exact blocks.round half _ (factor_eq exact size))
  obtain ⟨_, a', now, blocks⟩ := done
  rw [Nat.sub_self] at blocks
  exact ⟨a', now, blocks⟩

theorem complexAt_memcpy (mem : Nat → ℝ) (input out n k : Nat) (inside : k < n) :
    complexAt (memcpy mem out input (n * 2)) out k = complexAt mem input k := by
  unfold complexAt load memcpy
  rw [if_pos (by omega), if_pos (by omega), Nat.add_sub_cancel_left, Nat.add_sub_cancel_left]

theorem holds_input (mem : Nat → ℝ) (input out n : Nat) :
    ∃ x, Holds mem out n x (if input ≠ out then memcpy mem out input (n * 2) else mem) ∧
      ∀ k < n, x k = complexAt mem input k := by
  by_cases same : input = out
  · rw [if_neg (not_not_intro same), same]
    exact ⟨_, ⟨rfl, fun _ _ => rfl⟩, fun _ _ => rfl⟩
  · rw [if_pos same]
    refine ⟨_, ⟨rfl, ?_⟩, fun k inside => complexAt_memcpy mem input out n k inside⟩
    intro address away
    rw [memcpy, if_neg (by omega)]

/-- In exact arithmetic and with exact tables, `fft_execute` on one array or two that are apart
leaves in the output the transform of the input, and stores to nothing else. -/
theorem fft_execute_dft (plan : CpuPlan ℝ) (exact : plan.Exact) (mem : Nat → ℝ) (input out : Nat)
    (there : input ≠ 0 ∧ out ≠ 0)
    (apart : input = out ∨ input + 8 * plan.nfft ≤ out ∨ out + 8 * plan.nfft ≤ input) :
    ∃ mem', fftExecute (some plan) mem input out = some mem' ∧
      (∀ k < plan.nfft, complexAt mem' out k =
        ∑ j ∈ Finset.range plan.nfft, complexAt mem input j *
          Complex.exp (-2 * Real.pi * Complex.I / plan.nfft) ^ (j * k)) ∧
      (input ≠ out → ∀ k < plan.nfft, complexAt mem' input k = complexAt mem input k) ∧
      ∀ address, address < out ∨ out + 8 * plan.nfft ≤ address → mem' address = mem address := by
  have accepted := (arrays_apart_iff input out plan.nfft).mpr ⟨there, apart⟩
  obtain ⟨x, start, elements⟩ := holds_input mem input out plan.nfft
  have laid : Laid (root plan.nfft) plan.log2n 0 x (exchangeAll (rev plan.log2n) plan.nfft x) := by
    apply laid_reversed
    rw [plan.nfft_eq]
    exact exchangeAll_rev plan.log2n x
  obtain ⟨a, holds, blocks⟩ := (start.bitReverse plan.nfft_eq).transform exact laid
  refine ⟨_, by rw [fftExecute]; exact if_neg accepted, ?_, ?_, holds.outside⟩
  · intro k inside
    have transformed := blocks.dft k (plan.nfft_eq ▸ inside)
    rw [← holds.elements, ← plan.nfft_eq] at transformed
    rw [transformed]
    apply Finset.sum_congr rfl
    intro j counted
    rw [elements j (Finset.mem_range.mp counted), root]
  · intro different k inside
    unfold complexAt load
    rw [holds.outside _ (by omega), holds.outside _ (by omega)]

/-- A plan of `2 ^ (m + 1)` elements whose tables are filled as in `fft_plan_create`, with the
number π and without rounding. -/
noncomputable def exactPlan (m : Nat) : CpuPlan ℝ where
  nfft := 2 ^ (m + 1)
  log2n := m + 1
  window := List.replicate (2 ^ (m + 1)) 1
  twiddleR := (List.range (2 ^ (m + 1) / 2)).map fun i : Nat =>
    Real.cos (-2 * Real.pi * i / (2 ^ (m + 1) : Nat))
  twiddleI := (List.range (2 ^ (m + 1) / 2)).map fun i : Nat =>
    Real.sin (-2 * Real.pi * i / (2 ^ (m + 1) : Nat))
  nfft_eq := rfl
  nfft_ge := Nat.le_self_pow (Nat.succ_ne_zero m) 2
  window_length := List.length_replicate
  twiddleR_length := by rw [List.length_map, List.length_range]
  twiddleI_length := by rw [List.length_map, List.length_range]

theorem root_pow (n i : Nat) :
    root n ^ i = ⟨Real.cos (-2 * Real.pi * i / n), Real.sin (-2 * Real.pi * i / n)⟩ := by
  have angle : (i : ℂ) * (-2 * Real.pi * Complex.I / n) =
      ((-2 * Real.pi * i / n : ℝ) : ℂ) * Complex.I := by
    push_cast
    ring
  rw [root, ← Complex.exp_nat_mul, angle]
  apply Complex.ext
  · exact Complex.exp_ofReal_mul_I_re _
  · exact Complex.exp_ofReal_mul_I_im _

theorem exactPlan_exact (m : Nat) : (exactPlan m).Exact := by
  constructor
  all_goals
    intro i inside
    change i < 2 ^ (m + 1) / 2 at inside
    rw [root_pow]
    simp only [exactPlan, List.getElem?_map, List.getElem?_range inside, Option.map_some]

/-- Four elements, from one array to another. -/
theorem fft_execute_dft_four :
    ∃ mem', fftExecute (some (exactPlan 1)) (fun address => (address : ℝ)) 8 64 = some mem' ∧
      ∀ k < 4, complexAt mem' 64 k =
        ∑ j ∈ Finset.range 4, complexAt (fun address => (address : ℝ)) 8 j *
          Complex.exp (-2 * Real.pi * Complex.I / (4 : Nat)) ^ (j * k) := by
  obtain ⟨mem', executed, elements, _⟩ := fft_execute_dft (exactPlan 1) (exactPlan_exact 1)
    (fun address => (address : ℝ)) 8 64 (by decide) (.inr (.inl (by decide)))
  exact ⟨mem', executed, elements⟩

end RtlSdr.FftCpu
