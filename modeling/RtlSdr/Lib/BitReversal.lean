import Mathlib.Algebra.Group.Nat.Defs
import Mathlib.Logic.Function.Basic
import Mathlib.Tactic.SplitIfs

/-!
# Bit reversal in place

`rev m i` reads the lowest `m` bits of `i` backwards. A loop that exchanges every element with the
one at its image, once, permutes an array by any involution; bit reversal is one.
-/

/-- A loop over `0 … n - 1` by its invariant. -/
theorem List.foldl_range_invariant {σ : Type} (P : Nat → σ → Prop) (body : σ → Nat → σ) (start : σ)
    (n : Nat) (initial : P 0 start) (step : ∀ i < n, ∀ s, P i s → P (i + 1) (body s i)) :
    P n ((List.range n).foldl body start) := by
  induction n with
  | zero => exact initial
  | succ n ih =>
    rw [List.range_succ, List.foldl_append, List.foldl_cons, List.foldl_nil]
    apply step n (Nat.lt_succ_self n)
    apply ih
    intro i inside
    exact step i (Nat.lt_succ_of_lt inside)

namespace BitReversal

/-! ### Reversing bits -/

/-- The lowest bit becomes the highest of `m`. -/
def rev : Nat → Nat → Nat
  | 0, _ => 0
  | m + 1, i => i % 2 * 2 ^ m + rev m (i / 2)

variable (m i : Nat)

@[simp] theorem rev_zero : rev m 0 = 0 := by
  induction m with
  | zero => rfl
  | succ m ih => rw [rev, Nat.zero_mod, Nat.zero_mul, Nat.zero_div, ih]

theorem rev_double : rev (m + 1) (2 * i) = rev m i := by
  rw [rev, Nat.mul_mod_right, Nat.zero_mul, Nat.zero_add, Nat.mul_div_cancel_left i (by omega)]

theorem rev_double_succ : rev (m + 1) (2 * i + 1) = 2 ^ m + rev m i := by
  have low : (2 * i + 1) % 2 = 1 := by omega
  have high : (2 * i + 1) / 2 = i := by omega
  rw [rev, low, high, Nat.one_mul]

theorem rev_lt : rev m i < 2 ^ m := by
  induction m generalizing i with
  | zero => exact Nat.one_pos
  | succ m ih =>
    have rest := ih (i / 2)
    have bit : i % 2 * 2 ^ m ≤ 1 * 2 ^ m := Nat.mul_le_mul_right _ (by omega)
    rw [rev, Nat.pow_succ]
    omega

theorem rev_high (inside : i < 2 ^ (m + 1)) :
    rev (m + 1) i = 2 * rev m (i % 2 ^ m) + i / 2 ^ m := by
  induction m generalizing i with
  | zero =>
    have bit : i = 0 ∨ i = 1 := by omega
    rcases bit with rfl | rfl <;> rfl
  | succ m ih =>
    have half : i / 2 < 2 ^ (m + 1) := by
      rw [Nat.pow_succ] at inside
      omega
    have low : i % 2 ^ (m + 1) % 2 = i % 2 := by
      exact Nat.mod_mod_of_dvd i ⟨2 ^ m, Nat.pow_succ'⟩
    have rest : i % 2 ^ (m + 1) / 2 = i / 2 % 2 ^ m := by
      rw [Nat.pow_succ, Nat.mul_comm, Nat.mod_mul_right_div_self]
    have top : i / 2 / 2 ^ m = i / 2 ^ (m + 1) := by
      rw [Nat.div_div_eq_div_mul, ← Nat.pow_succ']
    rw [rev, ih (i / 2) half, rev, low, rest, top, Nat.pow_succ, Nat.mul_add]
    rw [← Nat.mul_assoc (i % 2), Nat.mul_comm 2 (i % 2 * 2 ^ m), Nat.add_assoc]

theorem rev_rev (inside : i < 2 ^ m) : rev m (rev m i) = i := by
  induction m generalizing i with
  | zero =>
    rw [Nat.pow_zero, Nat.lt_one_iff] at inside
    rw [inside]
    rfl
  | succ m ih =>
    have half : i / 2 < 2 ^ m := by
      rw [Nat.pow_succ] at inside
      omega
    have rest := rev_lt m (i / 2)
    have parts : rev (m + 1) i = rev m (i / 2) + 2 ^ m * (i % 2) := by
      rw [rev, Nat.add_comm, Nat.mul_comm]
    rw [rev_high m _ (rev_lt (m + 1) i), parts, Nat.add_mul_mod_self_left,
      Nat.mod_eq_of_lt rest, ih _ half, Nat.add_mul_div_left _ _ (Nat.two_pow_pos m),
      Nat.div_eq_of_lt rest]
    omega

/-! ### Exchanging in place -/

variable {α : Type}

def exchange (a : Nat → α) (i j : Nat) : Nat → α :=
  Function.update (Function.update a i (a j)) j (a i)

/-- Exchange each index with a larger image. -/
def exchangeAll (image : Nat → Nat) (n : Nat) (a : Nat → α) : Nat → α :=
  (List.range n).foldl (fun a i => if image i > i then exchange a i (image i) else a) a

theorem exchangeAll_succ (image : Nat → Nat) (n : Nat) (a : Nat → α) :
    exchangeAll image (n + 1) a =
      if image n > n then exchange (exchangeAll image n a) n (image n)
      else exchangeAll image n a := by
  rw [exchangeAll, List.range_succ, List.foldl_append]
  rfl

/-- After index `i - 1` the pairs with an index below `i` are exchanged. -/
theorem exchangeAll_eq (image : Nat → Nat) (n : Nat) (a : Nat → α)
    (inside : ∀ i < n, image i < n) (involution : ∀ i < n, image (image i) = i) :
    ∀ k < n, exchangeAll image n a k = a (image k) := by
  have done := List.foldl_range_invariant
    (fun i b => ∀ k < n, b k = if min k (image k) < i then a (image k) else a k)
    (fun a i => if image i > i then exchange a i (image i) else a) a n
    (by
      intro k _
      rw [if_neg (Nat.not_lt_zero _)])
    (by
      intro i counted b now k small
      have here := now k small
      have own := now i counted
      have back := involution i counted
      have back' := involution k small
      by_cases forward : image i > i
      · rw [if_pos forward]
        have other := now (image i) (inside i counted)
        rw [back, if_neg (by omega)] at other
        rw [if_neg (by omega)] at own
        unfold exchange
        by_cases second : k = image i
        · rw [second, Function.update_self, back, if_pos (by omega), own]
        · rw [Function.update_of_ne second]
          by_cases first : k = i
          · rw [first, Function.update_self, if_pos (by omega), other]
          · -- neither of the pair: the bound moves past nothing
            have apart : image k ≠ i := by
              intro same
              rw [same] at back'
              exact second back'.symm
            rw [Function.update_of_ne first, here]
            split_ifs <;> first | rfl | omega
      · rw [if_neg forward, here]
        by_cases first : k = i
        · -- an index that is its own image
          subst first
          by_cases fixed : image k = k
          · rw [fixed]
            split_ifs <;> rfl
          · rw [if_pos (by omega), if_pos (by omega)]
        · by_cases second : image k = i
          · rw [second] at back'
            rw [if_pos (by omega), if_pos (by omega)]
          · split_ifs <;> first | rfl | omega)
  intro k small
  rw [exchangeAll, done k small, if_pos (by omega)]

theorem exchangeAll_rev (a : Nat → α) :
    ∀ k < 2 ^ m, exchangeAll (rev m) (2 ^ m) a k = a (rev m k) :=
  exchangeAll_eq (rev m) (2 ^ m) a (fun i _ => rev_lt m i) (rev_rev m)

end BitReversal
