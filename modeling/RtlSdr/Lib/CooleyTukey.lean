import RtlSdr.Lib.BitReversal
import Mathlib.Algebra.BigOperators.Intervals
import Mathlib.Algebra.BigOperators.Ring.Finset
import Mathlib.Tactic.Ring

/-!
# The discrete Fourier transform in place

Decimation in time over a commutative ring: the elements stand in the order of their reversed
indices, and each round joins neighbouring blocks by butterflies. After `r` rounds a block of
`2 ^ r` elements is the transform of every `2 ^ d`-th element of the input of `2 ^ (d + r)`.
-/
namespace CooleyTukey

open BitReversal

variable {R : Type} [CommRing R]

/-- The transform of `n` elements at the powers of `w`. -/
def dft (w : R) (n : Nat) (x : Nat → R) (k : Nat) : R :=
  ∑ j ∈ Finset.range n, x j * w ^ (j * k)

/-! ### Joining two transforms -/

variable (w : R) (d r : Nat)

theorem dft_double (n : Nat) (x : Nat → R) (k : Nat) :
    dft w (2 * n) x k =
      dft (w ^ 2) n (fun j => x (2 * j)) k + w ^ k * dft (w ^ 2) n (fun j => x (2 * j + 1)) k := by
  unfold dft
  induction n with
  | zero => simp
  | succ n ih =>
    rw [Nat.mul_succ, Finset.sum_range_succ, Finset.sum_range_succ, ih, Finset.sum_range_succ,
      Finset.sum_range_succ, mul_add]
    ring

theorem dft_periodic (n : Nat) (x : Nat → R) (k : Nat) (root : w ^ n = 1) :
    dft w n x (k + n) = dft w n x k := by
  apply Finset.sum_congr rfl
  intro j _
  rw [Nat.mul_add, pow_add, Nat.mul_comm j n, pow_mul w n j, root, one_pow, mul_one]

theorem dft_double_upper (n : Nat) (x : Nat → R) (k : Nat) (half : w ^ n = -1) :
    dft w (2 * n) x (k + n) =
      dft (w ^ 2) n (fun j => x (2 * j)) k - w ^ k * dft (w ^ 2) n (fun j => x (2 * j + 1)) k := by
  have root : (w ^ 2) ^ n = 1 := by
    rw [← pow_mul, Nat.mul_comm, pow_mul, half]
    ring
  rw [dft_double, dft_periodic _ _ _ _ root, dft_periodic _ _ _ _ root, pow_add, half]
  ring

/-! ### Blocks -/

/-- Element `j` of block `b` after `r` rounds, with `d` more to come. -/
def stage (w : R) (d r : Nat) (x : Nat → R) (b j : Nat) : R :=
  dft (w ^ 2 ^ d) (2 ^ r) (fun t => x (rev d b + t * 2 ^ d)) j

theorem stage_zero (x : Nat → R) (b : Nat) : stage w d 0 x b 0 = x (rev d b) := by
  simp [stage, dft]

theorem stage_last (x : Nat → R) (j : Nat) : stage w 0 r x 0 j = dft w (2 ^ r) x j := by
  simp [stage, rev]

/-- A block takes its even elements from one of the two blocks it is made of, and its odd elements
from the other. -/
theorem stage_parts (x : Nat → R) (b j : Nat) :
    dft ((w ^ 2 ^ d) ^ 2) (2 ^ r) (fun t => x (rev d b + 2 * t * 2 ^ d)) j =
        stage w (d + 1) r x (2 * b) j ∧
      dft ((w ^ 2 ^ d) ^ 2) (2 ^ r) (fun t => x (rev d b + (2 * t + 1) * 2 ^ d)) j =
        stage w (d + 1) r x (2 * b + 1) j := by
  have square : (w ^ 2 ^ d) ^ 2 = w ^ 2 ^ (d + 1) := by rw [← pow_mul, ← Nat.pow_succ]
  rw [square, stage, stage, rev_double, rev_double_succ]
  constructor
  · congr 1
    funext t
    congr 1
    ring
  · congr 1
    funext t
    congr 1
    ring

theorem stage_succ (x : Nat → R) (b j : Nat) :
    stage w d (r + 1) x b j =
      stage w (d + 1) r x (2 * b) j + w ^ (j * 2 ^ d) * stage w (d + 1) r x (2 * b + 1) j := by
  obtain ⟨even, odd⟩ := stage_parts w d r x b j
  rw [stage, Nat.pow_succ', dft_double, even, odd, ← pow_mul, Nat.mul_comm j]

theorem stage_succ_upper (x : Nat → R) (b j : Nat) (half : w ^ 2 ^ (d + r) = -1) :
    stage w d (r + 1) x b (j + 2 ^ r) =
      stage w (d + 1) r x (2 * b) j - w ^ (j * 2 ^ d) * stage w (d + 1) r x (2 * b + 1) j := by
  obtain ⟨even, odd⟩ := stage_parts w d r x b j
  have half' : (w ^ 2 ^ d) ^ 2 ^ r = -1 := by rw [← pow_mul, ← Nat.pow_add, half]
  rw [stage, Nat.pow_succ', dft_double_upper _ _ _ _ half', even, odd, ← pow_mul, Nat.mul_comm j]

/-! ### The butterflies of a round -/

/-- Replace `a i0` and `a i1` by their join with the factor `t`. -/
def butterfly (t : R) (i0 i1 : Nat) (a : Nat → R) : Nat → R :=
  Function.update (Function.update a i1 (a i0 - t * a i1)) i0 (a i0 + t * a i1)

/-- Join the two halves of the block at `i`. -/
def join (twiddle : Nat → R) (half i : Nat) (a : Nat → R) : Nat → R :=
  (List.range half).foldl (fun a j => butterfly (twiddle j) (i + j) (i + j + half) a) a

def round (twiddle : Nat → R) (half count : Nat) (a : Nat → R) : Nat → R :=
  (List.range count).foldl (fun a b => join twiddle half (2 * half * b) a) a

/-- What the first `j` butterflies of a block have done. -/
structure Joined (twiddle : Nat → R) (half i : Nat) (a : Nat → R) (j : Nat) (b : Nat → R) :
    Prop where
  lower : ∀ k < j, b (i + k) = a (i + k) + twiddle k * a (i + k + half)
  upper : ∀ k < j, b (i + k + half) = a (i + k) - twiddle k * a (i + k + half)
  open_ : ∀ k < half, j ≤ k → b (i + k) = a (i + k) ∧ b (i + k + half) = a (i + k + half)
  outside : ∀ k, k < i ∨ i + 2 * half ≤ k → b k = a k

theorem Joined.step {twiddle : Nat → R} {half i : Nat} {a : Nat → R} {j : Nat} {b : Nat → R}
    (joined : Joined twiddle half i a j b) (inside : j < half) :
    Joined twiddle half i a (j + 1) (butterfly (twiddle j) (i + j) (i + j + half) b) := by
  obtain ⟨first, second⟩ := joined.open_ j inside le_rfl
  have other (k : Nat) (low : k ≠ i + j) (high : k ≠ i + j + half) :
      butterfly (twiddle j) (i + j) (i + j + half) b k = b k := by
    rw [butterfly, Function.update_of_ne low, Function.update_of_ne high]
  refine ⟨?_, ?_, ?_, ?_⟩
  · intro k before
    by_cases now : k = j
    · rw [now, butterfly, Function.update_self, first, second]
    · rw [other _ (by omega) (by omega)]
      exact joined.lower k (by omega)
  · intro k before
    by_cases now : k = j
    · rw [now, butterfly, Function.update_of_ne (by omega), Function.update_self, first, second]
    · rw [other _ (by omega) (by omega)]
      exact joined.upper k (by omega)
  · intro k small later
    rw [other _ (by omega) (by omega), other _ (by omega) (by omega)]
    exact joined.open_ k small (by omega)
  · intro k away
    rw [other _ (by omega) (by omega)]
    exact joined.outside k away

theorem join_joined (twiddle : Nat → R) (half i : Nat) (a : Nat → R) :
    Joined twiddle half i a half (join twiddle half i a) := by
  apply List.foldl_range_invariant (Joined twiddle half i a)
  · refine ⟨?_, ?_, ?_, ?_⟩
    · intro k before
      exact absurd before (Nat.not_lt_zero k)
    · intro k before
      exact absurd before (Nat.not_lt_zero k)
    · intro k _ _
      exact ⟨rfl, rfl⟩
    · intro k _
      rfl
  · intro j inside b joined
    exact joined.step inside

/-- What a round does to the blocks. -/
structure Rounded (twiddle : Nat → R) (half : Nat) (a : Nat → R) (count : Nat) (b : Nat → R) :
    Prop where
  lower : ∀ c < count, ∀ k < half, b (2 * half * c + k) =
    a (2 * half * c + k) + twiddle k * a (2 * half * c + k + half)
  upper : ∀ c < count, ∀ k < half, b (2 * half * c + k + half) =
    a (2 * half * c + k) - twiddle k * a (2 * half * c + k + half)
  beyond : ∀ k, 2 * half * count ≤ k → b k = a k

theorem round_rounded (twiddle : Nat → R) (half count : Nat) (a : Nat → R) :
    Rounded twiddle half a count (round twiddle half count a) := by
  apply List.foldl_range_invariant (Rounded twiddle half a)
  · refine ⟨?_, ?_, ?_⟩
    · intro c before
      exact absurd before (Nat.not_lt_zero c)
    · intro c before
      exact absurd before (Nat.not_lt_zero c)
    · intro k _
      rfl
  · intro now _ b rounded
    have joined := join_joined twiddle half (2 * half * now) b
    -- the blocks before end where this one begins
    have before (c : Nat) (earlier : c < now) : 2 * half * c + 2 * half ≤ 2 * half * now := by
      rw [← Nat.mul_succ]
      exact Nat.mul_le_mul_left _ earlier
    refine ⟨?_, ?_, ?_⟩
    · intro c counted k small
      by_cases here : c = now
      · rw [here, joined.lower k small, rounded.beyond _ (by omega), rounded.beyond _ (by omega)]
      · have earlier := before c (by omega)
        rw [joined.outside _ (.inl (by omega))]
        exact rounded.lower c (by omega) k small
    · intro c counted k small
      by_cases here : c = now
      · rw [here, joined.upper k small, rounded.beyond _ (by omega), rounded.beyond _ (by omega)]
      · have earlier := before c (by omega)
        rw [joined.outside _ (.inl (by omega))]
        exact rounded.upper c (by omega) k small
    · intro k away
      rw [Nat.mul_succ] at away
      rw [joined.outside k (.inr away)]
      exact rounded.beyond k (by omega)

/-! ### All rounds -/

/-- The blocks of a stage, laid out one after the other. -/
def Laid (w : R) (d r : Nat) (x a : Nat → R) : Prop :=
  ∀ b < 2 ^ d, ∀ j < 2 ^ r, a (2 ^ r * b + j) = stage w d r x b j

/-- A round takes one stage to the next. -/
theorem Laid.round {w : R} {d r : Nat} {x a : Nat → R} (laid : Laid w (d + 1) r x a)
    (half : w ^ 2 ^ (d + r) = -1) (twiddle : Nat → R)
    (powers : ∀ j < 2 ^ r, twiddle j = w ^ (j * 2 ^ d)) :
    Laid w d (r + 1) x (round twiddle (2 ^ r) (2 ^ d) a) := by
  have rounded := round_rounded twiddle (2 ^ r) (2 ^ d) a
  intro b block j inside
  -- the two blocks of the stage before
  have first (k : Nat) (small : k < 2 ^ r) :
      a (2 * 2 ^ r * b + k) = stage w (d + 1) r x (2 * b) k := by
    rw [← laid (2 * b) (by rw [Nat.pow_succ]; omega) k small]
    congr 2
    ring
  have second (k : Nat) (small : k < 2 ^ r) :
      a (2 * 2 ^ r * b + k + 2 ^ r) = stage w (d + 1) r x (2 * b + 1) k := by
    rw [← laid (2 * b + 1) (by rw [Nat.pow_succ]; omega) k small]
    congr 1
    ring
  rw [Nat.pow_succ']
  by_cases lower : j < 2 ^ r
  · rw [rounded.lower b block j lower, first j lower, second j lower, powers j lower, stage_succ]
  · obtain ⟨k, rfl⟩ := Nat.exists_eq_add_of_le (Nat.le_of_not_lt lower)
    have small : k < 2 ^ r := by
      rw [Nat.pow_succ] at inside
      omega
    rw [Nat.add_comm (2 ^ r) k, ← Nat.add_assoc, rounded.upper b block k small, first k small,
      second k small, powers k small, stage_succ_upper w d r x b k half]

theorem laid_reversed (m : Nat) (x a : Nat → R) (reversed : ∀ k < 2 ^ m, a k = x (rev m k)) :
    Laid w m 0 x a := by
  intro b inside j small
  rw [Nat.pow_zero, Nat.lt_one_iff] at small
  rw [small, Nat.pow_zero, Nat.one_mul, Nat.add_zero, reversed b inside, stage_zero]

theorem Laid.dft {w : R} {m : Nat} {x a : Nat → R} (laid : Laid w 0 m x a) (k : Nat)
    (inside : k < 2 ^ m) : a k = dft w (2 ^ m) x k := by
  have whole := laid 0 (Nat.two_pow_pos 0) k inside
  rw [Nat.mul_zero, Nat.zero_add, stage_last] at whole
  exact whole

end CooleyTukey
