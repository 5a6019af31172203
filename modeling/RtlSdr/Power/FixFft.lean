import RtlSdr.Lib.BitReversal
import RtlSdr.Lib.Butterflies
import Mathlib.Analysis.SpecialFunctions.Trigonometric.Basic

/-!
# The fixed point transform of rtl_power

`fix_fft` brings the elements into bit reversed order and then joins blocks pass by pass, and halves
its data in every pass. A butterfly is exact when its two results fit. An element of `iq` is a
complex one here: element `k` stands for `iq[2*k]` and `iq[2*k+1]`.
-/
namespace RtlSdr.Power

open Checked BitReversal Butterflies

/-! ### The source -/

abbrev Iq := Nat → Int × Int

/-- `LOG2_N_WAVE` and `Sinewave`. -/
structure Wave where
  log2NWave : Nat
  sinewave : Nat → Int

def Wave.nWave (s : Wave) : Nat := 2 ^ s.log2NWave

/-- An element of `Sinewave`. -/
def Wave.load (s : Wave) (i : Nat) : Checked Int := ⟨s.sinewave i, i < s.nWave * 3 / 4⟩

/-- Element `k` of an array of `n` elements. -/
def fetch {α : Type} (n : Nat) (a : Nat → α) (k : Nat) : Checked α := ⟨a k, k < n⟩

def store {α : Type} (n : Nat) (a : Nat → α) (k : Nat) (x : α) : Checked (Nat → α) :=
  ⟨Function.update a k x, k < n⟩

/-- `x >> 1`. -/
def halved (x : Int) : Int := x >>> (1 : Nat)

/-- Fixed point multiply and scale. -/
def fixMpy (a b : Int) : Checked Int := do
  let product ← wrapping 32 (a * b)
  let c := product >>> (14 : Nat)
  let b ← wrapping 16 (c % 2)
  wrapping 16 (halved c + b)

/-- `do l >>= 1; while (mr + l > nn)`. -/
def firstClear (mr nn l : Nat) : Checked Nat :=
  whileLoop (fun l => mr + l > nn) (fun l => pure (l >>> 1)) l (l >>> 1)

/-- The variables of the loop that reorders the data. -/
structure Reorder where
  mr : Nat
  iq : Iq

def reorderRound (n m : Nat) (s : Reorder) : Checked Reorder := do
  let l ← firstClear s.mr (n - 1) n
  let mr := (s.mr &&& (l - 1)) + l
  if mr ≤ m then
    pure ⟨mr, s.iq⟩
  else do
    let t ← fetch n s.iq m
    let u ← fetch n s.iq mr
    let iq ← store n s.iq m u
    let iq ← store n iq mr t
    pure ⟨mr, iq⟩

def reorder (n : Nat) (iq : Iq) : Checked Reorder :=
  forRange (fun i => reorderRound n (i + 1)) (n - 1) ⟨0, iq⟩

/-- `wr` and `wi`, shifted. -/
def twiddle (s : Wave) (m k : Nat) : Checked (Int × Int) := do
  let j := m <<< k
  let wr ← s.load (j + s.nWave / 4)
  let sine ← s.load j
  let wi ← wrapping 16 (-sine)
  pure (halved wr, halved wi)

/-- `tr` and `ti`. -/
def rotate (w x : Int × Int) : Checked (Int × Int) := do
  let tr ← wrapping 16 ((← fixMpy w.1 x.1) - (← fixMpy w.2 x.2))
  let ti ← wrapping 16 ((← fixMpy w.1 x.2) + (← fixMpy w.2 x.1))
  pure (tr, ti)

def flyRound (n l : Nat) (w : Int × Int) (i : Nat) (iq : Iq) : Checked Iq := do
  let t ← rotate w (← fetch n iq (i + l))
  let q ← fetch n iq i
  let qr := halved q.1
  let qi := halved q.2
  let iq ← store n iq (i + l) (← wrapping 16 (qr - t.1), ← wrapping 16 (qi - t.2))
  store n iq i (← wrapping 16 (qr + t.1), ← wrapping 16 (qi + t.2))

def pass (s : Wave) (n l k : Nat) (iq : Iq) : Checked Iq :=
  forRange (fun m iq => do
    let w ← twiddle s m k
    forStep m n (l <<< 1) (flyRound n l w) iq) l iq

/-- The variables of the loop over the passes. -/
structure Pass where
  l : Nat
  k : Nat
  iq : Iq

def passRound (s : Wave) (n : Nat) (p : Pass) : Checked Pass := do
  let iq ← pass s n p.l p.k p.iq
  -- after the last pass of the full table `k` is -1 in the source; it is not used then
  pure ⟨p.l <<< 1, p.k - 1, iq⟩

/-- The array after `fix_fft`, and what it returns. -/
def fixFft (s : Wave) (m : Nat) (iq : Iq) : Checked (Iq × Int) :=
  let n := 1 <<< m
  if n > s.nWave then pure (iq, -1)
  else do
    let ordered ← reorder n iq
    let done ← whileLoop (fun p : Pass => p.l < n) (passRound s n) n
      ⟨1, s.log2NWave - 1, ordered.iq⟩
    pure (done.iq, 0)

/-- `round` of the mathematics library. -/
noncomputable def cRound (x : ℝ) : Int := if x < 0 then -round (-x) else round x

/-- The angle of entry `i` of a table. -/
noncomputable def angle (size i : Nat) : ℝ := (i * 2 : Nat) * Real.pi / (2 ^ size : Nat)

noncomputable def sineTable (size : Nat) : Wave where
  log2NWave := size
  sinewave i := cRound ((32767 : Nat) * Real.sin (angle size i))

/-! ### The order of the elements -/

theorem firstClear_loop (m i fuel : Nat) (inside : i + 1 < 2 ^ m) (enough : m ≤ fuel) :
    ∃ t < m, whileLoop (fun l => decide (rev m i + l > 2 ^ m - 1)) (fun l => pure (l >>> 1)) fuel
        (2 ^ m >>> 1) = pure (2 ^ t) ∧ rev m i % 2 ^ t + 2 ^ t = rev m (i + 1) := by
  induction m generalizing i fuel with
  | zero => exact absurd inside (by omega)
  | succ m ih =>
    have half : 2 ^ (m + 1) >>> 1 = 2 ^ m := by
      rw [Nat.shiftRight_one, Nat.pow_succ, Nat.mul_div_cancel _ (by decide)]
    have double : 2 ^ (m + 1) = 2 * 2 ^ m := Nat.pow_succ'
    have positive := Nat.two_pow_pos m
    rw [half]
    obtain ⟨k, rfl | rfl⟩ : ∃ k, i = 2 * k ∨ i = 2 * k + 1 := ⟨i / 2, by omega⟩
    · -- The highest bit is clear.
      have below := rev_lt m k
      have stop : decide (rev (m + 1) (2 * k) + 2 ^ m > 2 ^ (m + 1) - 1) = false := by
        rw [rev_double]
        exact decide_eq_false (by omega)
      refine ⟨m, Nat.lt_succ_self m, ?_, ?_⟩
      · rw [whileLoop_stop]
        exact stop
      · rw [rev_double, rev_double_succ, Nat.mod_eq_of_lt below, Nat.add_comm]
    · -- It is set: the rest is the loop for one bit less.
      have below : k + 1 < 2 ^ m := by omega
      obtain ⟨fuel, rfl⟩ : ∃ f, fuel = f + 1 := ⟨fuel - 1, by omega⟩
      obtain ⟨t, small, stops, next⟩ := ih k fuel below (by omega)
      have same : (fun l => decide (rev (m + 1) (2 * k + 1) + l > 2 ^ (m + 1) - 1)) =
          fun l => decide (rev m k + l > 2 ^ m - 1) := by
        funext l
        rw [rev_double_succ]
        exact decide_eq_decide.mpr (by omega)
      refine ⟨t, by omega, ?_, ?_⟩
      · have go : decide (rev m k + 2 ^ m > 2 ^ m - 1) = true := decide_eq_true (by omega)
        rw [same, whileLoop_go, pure_bind, stops]
        exact go
      · have low : 2 ^ m % 2 ^ t = 0 := Nat.mod_eq_zero_of_dvd (Nat.pow_dvd_pow 2 small.le)
        have again : rev (m + 1) (2 * k + 1 + 1) = rev m (k + 1) := rev_double m (k + 1)
        rw [again, ← next, rev_double_succ, Nat.add_mod, low, Nat.zero_add, Nat.mod_mod]

theorem firstClear_rev (m i : Nat) (inside : i + 1 < 2 ^ m) :
    (firstClear (rev m i) (2 ^ m - 1) (2 ^ m)).Gives
      fun l => (rev m i &&& (l - 1)) + l = rev m (i + 1) := by
  obtain ⟨t, _, stops, next⟩ :=
    firstClear_loop m i (2 ^ m) inside Nat.lt_two_pow_self.le
  rw [firstClear, stops]
  apply gives_pure
  rw [Nat.and_two_pow_sub_one_eq_mod, next]

theorem fetch_gives {n k : Nat} (iq : Iq) (inside : k < n) : (fetch n iq k).Gives (· = iq k) :=
  ⟨decide_eq_true inside, rfl⟩

theorem store_gives {n k : Nat} (iq : Iq) (x : Int × Int) (inside : k < n) :
    (store n iq k x).Gives (· = Function.update iq k x) :=
  ⟨decide_eq_true inside, rfl⟩

theorem reorderRound_gives (m i : Nat) (iq : Iq) (inside : i + 1 < 2 ^ m) :
    (reorderRound (2 ^ m) (i + 1) ⟨rev m i, exchangeAll (rev m) (i + 1) iq⟩).Gives
      (· = ⟨rev m (i + 1), exchangeAll (rev m) (i + 1 + 1) iq⟩) := by
  refine (firstClear_rev m i inside).bind fun l next => ?_
  rw [next, exchangeAll_succ (rev m) (i + 1)]
  refine gives_ite (fun small => ?_) fun large => ?_
  · rw [if_neg (by omega)]
    exact gives_pure rfl
  · rw [if_pos (by omega)]
    refine (fetch_gives _ inside).pass ?_
    refine (fetch_gives _ (rev_lt m (i + 1))).pass ?_
    refine (store_gives _ _ inside).pass ?_
    refine (store_gives _ _ (rev_lt m (i + 1))).pass ?_
    exact gives_pure rfl

theorem reorder_gives (m : Nat) (iq : Iq) :
    (reorder (2 ^ m) iq).Gives fun s => ∀ k < 2 ^ m, s.iq k = iq (rev m k) := by
  have start : (⟨0, iq⟩ : Reorder) = ⟨rev m 0, exchangeAll (rev m) (0 + 1) iq⟩ := by
    rw [exchangeAll_succ, rev_zero, if_neg (Nat.lt_irrefl 0)]
    rfl
  have loop := forRange_gives (fun i s => s = ⟨rev m i, exchangeAll (rev m) (i + 1) iq⟩)
    (fun i => reorderRound (2 ^ m) (i + 1)) (2 ^ m - 1) ?_ ⟨0, iq⟩ start
  · refine loop.mono ?_
    rintro s rfl k inside
    have all : 2 ^ m - 1 + 1 = 2 ^ m := Nat.sub_add_cancel (Nat.two_pow_pos m)
    rw [all]
    exact exchangeAll_rev m iq k inside
  · rintro i inside s rfl
    exact reorderRound_gives m i iq (by omega)

/-! ### A butterfly in unbounded integers -/

/-- `FIX_MPY` in unbounded integers. -/
def scaled (a b : Int) : Int :=
  halved ((a * b) >>> (14 : Nat)) + ((a * b) >>> (14 : Nat)) % 2

/-- `tr` and `ti` in unbounded integers. -/
def turned (w x : Int × Int) : Int × Int :=
  (scaled w.1 x.1 - scaled w.2 x.2, scaled w.1 x.2 + scaled w.2 x.1)

/-- The elements `i` and `j` after the butterfly, in unbounded integers. -/
def fly (w x y : Int × Int) : (Int × Int) × (Int × Int) :=
  ((halved x.1 + (turned w y).1, halved x.2 + (turned w y).2),
    (halved x.1 - (turned w y).1, halved x.2 - (turned w y).2))

theorem halved_eq (x : Int) : halved x = x / 2 := Int.shiftRight_eq_div_pow x 1

theorem scaled_near (a b : Int) :
    -16384 ≤ 32768 * scaled a b - a * b ∧ 32768 * scaled a b - a * b ≤ 16384 := by
  have first : (a * b) >>> (14 : Nat) = a * b / 16384 := Int.shiftRight_eq_div_pow (a * b) 14
  rw [scaled, halved_eq, first]
  generalize a * b = c
  omega

/-- A component that has the magnitude of at most `bound`. -/
def Within (bound : Int) (x : Int × Int) : Prop :=
  (-bound ≤ x.1 ∧ x.1 ≤ bound) ∧ -bound ≤ x.2 ∧ x.2 ≤ bound

section

variable {a b : Int} (factor : -16385 ≤ a ∧ a ≤ 16385) (small : -32000 ≤ b ∧ b ≤ 32000)
include factor small

theorem mul_within : -(16385 * 32000) ≤ a * b ∧ a * b ≤ 16385 * 32000 := by
  rw [← abs_le] at factor small ⊢
  rw [abs_mul]
  exact mul_le_mul factor small (abs_nonneg b) (by decide)

theorem scaled_within : -16001 ≤ scaled a b ∧ scaled a b ≤ 16001 := by
  have product := mul_within factor small
  have near := scaled_near a b
  omega

theorem fixMpy_gives : (fixMpy a b).Gives (· = scaled a b) := by
  have product := mul_within factor small
  have result := scaled_within factor small
  refine (wrapping32_gives (by omega) (by omega)).pass ?_
  refine (wrapping16_gives (x := (a * b) >>> (14 : Nat) % 2) (by omega) (by omega)).pass ?_
  exact wrapping16_gives (by unfold scaled at result; omega) (by unfold scaled at result; omega)

end

theorem rotate_gives {w x : Int × Int} (factor : Within 16385 w) (small : Within 32000 x) :
    (rotate w x).Gives (· = turned w x) := by
  obtain ⟨re, im⟩ := factor
  obtain ⟨x₁, x₂⟩ := small
  have rr := scaled_within re x₁
  have ii := scaled_within im x₂
  have ri := scaled_within re x₂
  have ir := scaled_within im x₁
  refine (fixMpy_gives re x₁).pass ?_
  refine (fixMpy_gives im x₂).pass ?_
  refine (wrapping16_gives (by omega) (by omega)).pass ?_
  refine (fixMpy_gives re x₂).pass ?_
  refine (fixMpy_gives im x₁).pass ?_
  refine (wrapping16_gives (by omega) (by omega)).pass ?_
  exact gives_pure rfl

theorem flyRound_gives {n l i : Nat} {w : Int × Int} {iq : Iq} (inside : i + l < n) (some : 0 < l)
    (factor : Within 16385 w) (second : Within 32000 (iq (i + l)))
    (upper : Within 32000 (fly w (iq i) (iq (i + l))).1)
    (lower : Within 32000 (fly w (iq i) (iq (i + l))).2) :
    (flyRound n l w i iq).Gives (· = replace l (fly w) i iq) := by
  obtain ⟨⟨u₁, u₂⟩, u₃, u₄⟩ := upper
  obtain ⟨⟨l₁, l₂⟩, l₃, l₄⟩ := lower
  dsimp only [fly] at u₁ u₂ u₃ u₄ l₁ l₂ l₃ l₄
  refine (fetch_gives iq inside).pass ?_
  refine (rotate_gives factor second).pass ?_
  refine (fetch_gives iq (by omega : i < n)).pass ?_
  refine (wrapping16_gives (by omega) (by omega)).pass ?_
  refine (wrapping16_gives (by omega) (by omega)).pass ?_
  refine (store_gives iq _ inside).pass ?_
  refine (wrapping16_gives (by omega) (by omega)).pass ?_
  refine (wrapping16_gives (by omega) (by omega)).pass ?_
  exact store_gives _ _ (by omega)

end RtlSdr.Power
