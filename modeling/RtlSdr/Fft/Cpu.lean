import RtlSdr.Dsp.Stage

/-!
# The CPU backend of the FFT (`fft_cpu.c`)

A plan holds the window and the first half of the powers of the root of unity. `fft_execute`
reorders interleaved components in place and joins blocks of doubling size. Memory is a function
from byte addresses to the `float` stored there, so that the two arrays of a call may overlap.
-/
namespace RtlSdr.FftCpu

/-! ### Plans -/

def fftMaxNfft : Int := 16384

section

variable {F D : Type} [CDouble D F]

def bhCoeff (n N : Int) : D :=
  let a0 : D := 0.35875
  let a1 : D := 0.48829
  let a2 : D := 0.14128
  let a3 : D := 0.01168
  let x : D := 2.0 * mPi * CDouble.ofInt n / CDouble.ofInt (N - 1)
  a0 - a1 * CDouble.cos x + a2 * CDouble.cos (2.0 * x) - a3 * CDouble.cos (3.0 * x)

end

def isPow2 (n : Int) : Bool := n > 0 && n.toNat &&& (n.toNat - 1) == 0

/-- `log2_int`: the loop shifts before it tests. -/
def log2Int (n : Nat) : Nat :=
  if n >>> 1 = 0 then 0 else log2Int (n >>> 1) + 1
termination_by n
decreasing_by
  rw [Nat.shiftRight_one] at *
  omega

theorem log2Int_two_pow (m : Nat) : log2Int (2 ^ m) = m := by
  induction m with
  | zero =>
    rw [log2Int, if_pos (by decide)]
  | succ m ih =>
    have half : 2 ^ (m + 1) >>> 1 = 2 ^ m := by
      rw [Nat.shiftRight_one, Nat.pow_succ, Nat.mul_div_cancel _ (by decide)]
    rw [log2Int, half, if_neg (Nat.ne_of_gt (Nat.two_pow_pos m)), ih]

theorem isPow2_iff (n : Int) : isPow2 n = true ↔ ∃ m : Nat, n = 2 ^ m := by
  unfold isPow2
  rw [Bool.and_eq_true, decide_eq_true_iff, beq_iff_eq]
  constructor
  · rintro ⟨positive, power⟩
    obtain ⟨m, same⟩ := (Nat.and_sub_one_eq_zero_iff_isPowerOfTwo (by omega)).mp power
    refine ⟨m, ?_⟩
    rw [← Int.toNat_of_nonneg (Int.le_of_lt positive), same, Int.natCast_pow]
    rfl
  · rintro ⟨m, rfl⟩
    have natural : ((2 : Int) ^ m).toNat = 2 ^ m := by
      have cast := Int.natCast_pow 2 m
      change _ = (2 : Int) ^ m at cast
      rw [← cast, Int.toNat_natCast]
    refine ⟨Int.pow_pos (by decide), ?_⟩
    rw [natural]
    exact (Nat.and_sub_one_eq_zero_iff_isPowerOfTwo (Nat.ne_of_gt (Nat.two_pow_pos m))).mpr ⟨m, rfl⟩

/-- `struct fft_plan`, with what `fft_plan_create` establishes. -/
structure CpuPlan (F : Type) where
  nfft : Nat
  log2n : Nat
  window : List F
  twiddleR : List F
  twiddleI : List F
  nfft_eq : nfft = 2 ^ log2n
  nfft_ge : 2 ≤ nfft
  window_length : window.length = nfft
  twiddleR_length : twiddleR.length = nfft / 2
  twiddleI_length : twiddleI.length = nfft / 2

theorem two_pow_log2Int {n : Nat} (power : isPow2 n = true) : n = 2 ^ log2Int n := by
  obtain ⟨m, same⟩ := (isPow2_iff n).mp power
  have natural : n = 2 ^ m := by exact_mod_cast same
  rw [natural, log2Int_two_pow]

section

variable {F D : Type} [CDouble D F]

/-- The argument of the table entry `i`. -/
def twiddleAngle (nfft i : Nat) : D := -2.0 * mPi * CDouble.ofInt i / CDouble.ofInt nfft

/-- `fft_plan_create`; `allocates k` says whether the allocation `k` succeeds, of the plan, its two
tables and the window. -/
def fftPlanCreate (D : Type) [CDouble D F] (allocates : Nat → Bool) (nfft : Int) :
    Option (CpuPlan F) :=
  if size : nfft < 2 ∨ nfft > fftMaxNfft ∨ isPow2 nfft = false then none
  else if !allocates 0 then none
  else if !allocates 1 || !allocates 2 || !allocates 3 then none
  else
    let len := nfft.toNat / 2
    some
      { nfft := nfft.toNat
        log2n := log2Int nfft.toNat
        twiddleR := (List.range len).map fun i =>
          CDouble.toFloat (CDouble.cos (twiddleAngle nfft.toNat i : D))
        twiddleI := (List.range len).map fun i =>
          CDouble.toFloat (CDouble.sin (twiddleAngle nfft.toNat i : D))
        window := (List.range nfft.toNat).map fun i =>
          CDouble.toFloat (bhCoeff i nfft : D)
        nfft_eq := by
          simp only [not_or, Bool.not_eq_false] at size
          apply two_pow_log2Int
          rw [Int.toNat_of_nonneg (by omega)]
          exact size.2.2
        nfft_ge := by omega
        window_length := by simp
        twiddleR_length := by simp [len]
        twiddleI_length := by simp [len] }

end

/-! ### Arrays of components -/

section

variable {F : Type}

/-- Cell `k` of the array at `base`; a `float` takes four bytes. -/
def load (mem : Nat → F) (base k : Nat) : F := mem (base + 4 * k)

def store (mem : Nat → F) (base k : Nat) (value : F) : Nat → F :=
  Function.update mem (base + 4 * k) value

/-- `memcpy` of `count` cells that do not overlap. -/
def memcpy (mem : Nat → F) (dst src count : Nat) : Nat → F :=
  fun address =>
    if dst ≤ address ∧ address < dst + 4 * count then mem (src + (address - dst)) else mem address

/-! ### The reordering -/

/-- The inner loop of `bit_reverse`: carry from the highest bit downwards. -/
def carry (j m : Nat) : Nat × Nat :=
  if m ≥ 1 ∧ j ≥ m then carry (j - m) (m >>> 1) else (j, m)
termination_by m
decreasing_by
  rw [Nat.shiftRight_one]
  omega

/-- The exchange of the complex elements `i` and `j`. -/
def swap (mem : Nat → F) (data i j : Nat) : Nat → F :=
  let tr := load mem data (2 * i)
  let ti := load mem data (2 * i + 1)
  let mem := store mem data (2 * i) (load mem data (2 * j))
  let mem := store mem data (2 * i + 1) (load mem data (2 * j + 1))
  let mem := store mem data (2 * j) tr
  store mem data (2 * j + 1) ti

/-- One pass of the loop of `bit_reverse`. -/
def bitReverseStep (data n : Nat) (s : (Nat → F) × Nat) (i : Nat) : (Nat → F) × Nat :=
  let (mem, j) := s
  let mem := if j > i then swap mem data i j else mem
  let (j, m) := carry j (n >>> 1)
  (mem, j + m)

def bitReverse (mem : Nat → F) (data n : Nat) : Nat → F :=
  ((List.range n).foldl (bitReverseStep data n) (mem, 0)).1

/-! ### The butterflies -/

variable [Add F] [Sub F] [Mul F] [Inhabited F]

/-- The body of the three loops of `fft_execute`. -/
def butterfly (plan : CpuPlan F) (out half i : Nat) (mem : Nat → F) (j : Nat) : Nat → F :=
  let tIdx := j * plan.nfft / (half * 2)
  let wr := plan.twiddleR.getD tIdx default
  let wi := plan.twiddleI.getD tIdx default
  let i0 := (i + j) * 2
  let i1 := (i + j + half) * 2
  let tr := wr * load mem out i1 - wi * load mem out (i1 + 1)
  let ti := wr * load mem out (i1 + 1) + wi * load mem out i1
  let mem := store mem out i1 (load mem out i0 - tr)
  let mem := store mem out (i1 + 1) (load mem out (i0 + 1) - ti)
  let mem := store mem out i0 (load mem out i0 + tr)
  store mem out (i0 + 1) (load mem out (i0 + 1) + ti)

/-- The values of a loop variable from 0 to below `n`, by `stride`. -/
def strided (n stride : Nat) : List Nat :=
  (List.range ((n + (stride - 1)) / stride)).map fun b => stride * b

def butterflies (plan : CpuPlan F) (out half : Nat) (mem : Nat → F) : Nat → F :=
  (strided plan.nfft (half * 2)).foldl
    (fun mem i => (List.range half).foldl (butterfly plan out half i) mem) mem

/-- The outer loop, which doubles `step` in each pass. -/
def transform (plan : CpuPlan F) (out : Nat) (mem : Nat → F) : Nat → F :=
  ((List.range plan.log2n).foldl
    (fun (s : (Nat → F) × Nat) _ => (butterflies plan out s.2 s.1, s.2 <<< 1)) (mem, 1)).1

/-- The check of the arguments is that neither is null and that the arrays are the same or
apart. -/
theorem arrays_apart_iff (input out n : Nat) :
    ¬(input = 0 ∨ out = 0 ∨ input ≠ out ∧
        (if input > out then input - out else out - input) < n * 2 * 4) ↔
      (input ≠ 0 ∧ out ≠ 0) ∧ (input = out ∨ input + 8 * n ≤ out ∨ out + 8 * n ≤ input) := by
  split_ifs <;> omega

/-- `fft_execute`; it returns -1 before it stores anything. -/
def fftExecute (plan : Option (CpuPlan F)) (mem : Nat → F) (input out : Nat) : Option (Nat → F) :=
  match plan with
  | none => none
  | some plan =>
    if input = 0 ∨ out = 0 ∨ input ≠ out ∧
        (if input > out then input - out else out - input) < plan.nfft * 2 * 4 then none
    else
      let mem := if input ≠ out then memcpy mem out input (plan.nfft * 2) else mem
      some (transform plan out (bitReverse mem out plan.nfft))

end

end RtlSdr.FftCpu
