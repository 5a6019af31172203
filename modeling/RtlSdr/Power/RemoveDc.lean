import RtlSdr.Power.FifthOrder

/-!
# The DC offset

`remove_dc` adds up every second element, but divides the sum by the number of all elements. So it
subtracts half of the mean, and what is left has a mean of zero only where it was so before, but for
two exceptions.
-/
namespace RtlSdr.Power

open Checked

/-- The values of an `int16_t`. -/
def IsInt16 (x : Int) : Prop := -32768 ≤ x ∧ x ≤ 32767

def total (data : Nat → Int) (m : Nat) : Int := ∑ k ∈ Finset.range m, data k

theorem int16_eq {x : Int} (fits : IsInt16 x) : int16 x = x :=
  Int.bmod_eq_of_le (m := 2 ^ 16) (by have := fits.1; omega) (by have := fits.2; omega)

theorem dcSum_value (n : Nat) (data : Nat → Int) (length : Int) :
    (dcSum n data length).value = total data ((length.toNat + 1) / 2) := by
  have sum := forRange_reaches (fun r sum => sum = total data r)
    (fun r sum => (fetch n data ((0 + 2 * r) / 2) >>= fun x => pure (sum + x) : Checked Int))
    ((length.toNat - 0 + 2 - 1) / 2) ?_ 0 rfl
  · exact sum
  · rintro r _ sum rfl
    have place : (0 + 2 * r) / 2 = r := by omega
    change total data r + data ((0 + 2 * r) / 2) = total data (r + 1)
    rw [place, total, total, Finset.sum_range_succ]

/-- The average that `remove_dc` computes. -/
def average (data : Nat → Int) (length : Int) : Int :=
  int16 ((total data ((length.toNat + 1) / 2)).tdiv length)

/-- An average of zero is not subtracted, which is the same. -/
theorem removeDc_value (n : Nat) (data : Nat → Int) (length : Int) {k : Nat}
    (fits : IsInt16 (data k)) :
    (removeDc n data length).value k =
      if k < (length.toNat + 1) / 2 then int16 (data k - average data length) else data k := by
  have ave : (wrapping 16 (divide (dcSum n data length).value length).value).value =
      average data length := by
    rw [dcSum_value]
    rfl
  unfold removeDc
  simp only [value_bind, ave]
  by_cases zero : average data length = 0
  · rw [if_pos zero, zero]
    change data k = _
    rw [Int.sub_zero, int16_eq fits, ite_self]
  · rw [if_neg zero]
    have loop := forRange_reaches
      (fun r now => ∀ k, now k = if k < r then int16 (data k - average data length) else data k)
      (fun r now => (fetch n now ((0 + 2 * r) / 2) >>= fun x =>
        wrapping 16 (x - average data length) >>= fun x =>
          store n now ((0 + 2 * r) / 2) x : Checked (Nat → Int)))
      ((length.toNat - 0 + 2 - 1) / 2) ?_ data (fun k => (if_neg (Nat.not_lt_zero k)).symm)
    · exact loop k
    · intro r _ now before k
      have place : (0 + 2 * r) / 2 = r := by omega
      change Function.update now ((0 + 2 * r) / 2)
        (int16 (now ((0 + 2 * r) / 2) - average data length)) k = _
      rw [place]
      by_cases here : k = r
      · subst here
        rw [Function.update_self, before, if_neg (Nat.lt_irrefl k), if_pos (Nat.lt_succ_self k)]
      · have same : k < r + 1 ↔ k < r := by omega
        rw [Function.update_of_ne here, before]
        simp only [same]

/-! ### The sum that is left -/

theorem natAbs_sub_mul_tdiv (sum : Int) {m length : Nat} (room : m ≤ length) :
    (sum - m * sum.tdiv length).natAbs = sum.natAbs - m * (sum.natAbs / length) := by
  have below (s : Nat) : m * (s / length) ≤ s :=
    (Nat.mul_le_mul_right _ room).trans (Nat.mul_div_le s length)
  obtain ⟨s, rfl | rfl⟩ := Int.eq_nat_or_neg sum
  · rw [← Int.ofNat_tdiv, ← Int.natCast_mul, Int.natAbs_natCast]
    have := below s
    omega
  · rw [Int.neg_tdiv, ← Int.ofNat_tdiv, Int.mul_neg, ← Int.natCast_mul, Int.natAbs_neg,
      Int.natAbs_natCast]
    have := below s
    omega

theorem tdiv_isInt16 {sum : Int} {m length : Nat} (room : m ≤ length)
    (low : -32768 * (m : Int) ≤ sum) (high : sum ≤ 32767 * m) : IsInt16 (sum.tdiv length) := by
  have quotient (s bound : Nat) (most : s ≤ bound * m) : s / length ≤ bound := by
    apply Nat.div_le_of_le_mul
    rw [Nat.mul_comm]
    exact most.trans (Nat.mul_le_mul_left bound room)
  obtain ⟨s, rfl | rfl⟩ := Int.eq_nat_or_neg sum
  · have small := quotient s 32767 (by omega)
    rw [← Int.ofNat_tdiv]
    generalize s / length = q at small
    exact ⟨by omega, by omega⟩
  · have small := quotient s 32768 (by omega)
    rw [Int.neg_tdiv, ← Int.ofNat_tdiv]
    generalize s / length = q at small
    exact ⟨by omega, by omega⟩

/-- Divided by twice the number of samples, the sum is not reduced below their number. -/
theorem even_left_iff (s : Nat) {m : Nat} (some : 0 < m) : s - m * (s / (2 * m)) < m ↔ s < m := by
  have split := Nat.div_add_mod s (2 * m)
  rw [Nat.mul_assoc] at split
  have remainder := Nat.mod_lt s (show 0 < 2 * m by omega)
  rcases Nat.eq_zero_or_pos (s / (2 * m)) with none | reached
  · rw [none] at split ⊢
    omega
  · have full := Nat.mul_le_mul_left m reached
    omega

/-- One less in the divisor makes a difference for one sum, and for a single sample. -/
theorem odd_left_iff (s : Nat) {m : Nat} (some : 0 < m) :
    s - m * (s / (2 * m - 1)) < m ↔ s < m ∨ s = 2 * m - 1 ∨ m = 1 := by
  obtain ⟨p, rfl⟩ := Nat.exists_eq_add_of_le' some
  have divisor : 2 * (p + 1) - 1 = 2 * p + 1 := by omega
  rw [divisor]
  have split := Nat.div_add_mod s (2 * p + 1)
  have remainder := Nat.mod_lt s (show 0 < 2 * p + 1 by omega)
  generalize s / (2 * p + 1) = q at split ⊢
  generalize s % (2 * p + 1) = r at split remainder
  have product : (2 * p + 1) * q = 2 * (p * q) + q := by ring
  have subtracted : (p + 1) * q = p * q + q := by ring
  rw [product] at split
  rw [subtracted]
  obtain rfl | rfl | many : q = 0 ∨ q = 1 ∨ 2 ≤ q := by omega
  · omega
  · omega
  · have full := Nat.mul_le_mul_left p many
    rcases Nat.eq_zero_or_pos p with rfl | positive
    · omega
    · omega

theorem removeDc_total (n : Nat) (data : Nat → Int) {m length : Nat}
    (fits : ∀ k < m, IsInt16 (data k)) (room : m ≤ length) (half : (length + 1) / 2 = m)
    (exactly : ∀ k < m, IsInt16 (data k - (total data m).tdiv length)) :
    (total (removeDc n data length).value m).natAbs =
      (total data m).natAbs - m * ((total data m).natAbs / length) := by
  have bounds : -32768 * (m : Int) ≤ total data m ∧ total data m ≤ 32767 * m := by
    clear exactly half room
    induction m with
    | zero => exact ⟨le_refl _, le_refl _⟩
    | succ m ih =>
      have last := fits m (Nat.lt_succ_self m)
      have earlier := ih fun k inside => fits k (Nat.lt_succ_of_lt inside)
      rw [total, Finset.sum_range_succ, ← total]
      unfold IsInt16 at last
      push_cast
      omega
  have ave : average data length = (total data m).tdiv length := by
    rw [average, Int.toNat_natCast, half, int16_eq (tdiv_isInt16 room bounds.1 bounds.2)]
  have subtracted : total (removeDc n data length).value m =
      total data m - m * (total data m).tdiv length := by
    calc total (removeDc n data length).value m
        = ∑ k ∈ Finset.range m, (data k - (total data m).tdiv length) := by
          apply Finset.sum_congr rfl
          intro k inside
          have inside := Finset.mem_range.mp inside
          rw [removeDc_value n data length (fits k inside), Int.toNat_natCast, half,
            if_pos inside, ave, int16_eq (exactly k inside)]
      _ = total data m - m * (total data m).tdiv length := by
          rw [Finset.sum_sub_distrib, Finset.sum_const, Finset.card_range, nsmul_eq_mul]
          rfl
  rw [subtracted, natAbs_sub_mul_tdiv _ room]

/-- Exactly when the mean is zero after `remove_dc`, in the two calls of a scan, where the
subtraction does not overflow. -/
theorem removeDc_mean_iff (n m : Nat) (iq : Iq) (some : 0 < m)
    (fits : ∀ k < m, IsInt16 (iq k).1 ∧ IsInt16 (iq k).2) :
    ((∀ k < m, IsInt16 ((iq k).1 - (total (fun i => (iq i).1) m).tdiv (2 * m))) →
      ((total (fun k => ((eachHalf (removeDc n) iq (2 * m)).value k).1) m).natAbs < m ↔
        (total (fun k => (iq k).1) m).natAbs < m)) ∧
    ((∀ k < m, IsInt16 ((iq k).2 - (total (fun i => (iq i).2) m).tdiv (2 * m - 1))) →
      ((total (fun k => ((eachHalf (removeDc n) iq (2 * m)).value k).2) m).natAbs < m ↔
        (total (fun k => (iq k).2) m).natAbs < m ∨
          (total (fun k => (iq k).2) m).natAbs = 2 * m - 1 ∨ m = 1)) := by
  have even : (2 * (m : Int)) = (2 * m : Nat) := by push_cast; rfl
  have odd : (2 * (m : Int)) - 1 = (2 * m - 1 : Nat) := by omega
  constructor
  · intro exactly
    change (total (removeDc n (fun k => (iq k).1) (2 * m)).value m).natAbs < m ↔ _
    rw [even] at exactly ⊢
    rw [removeDc_total n _ (fun k inside => (fits k inside).1) (by omega) (by omega) exactly]
    exact even_left_iff _ some
  · intro exactly
    change (total (removeDc n (fun k => (iq k).2) (2 * m - 1)).value m).natAbs < m ↔ _
    rw [odd] at exactly ⊢
    rw [removeDc_total n _ (fun k inside => (fits k inside).2) (by omega) (by omega) exactly]
    exact odd_left_iff _ some

/-- Two pairs of samples without a mean. -/
theorem removeDc_mean_balanced :
    (total (fun k => ((eachHalf (removeDc 2) (fun k => if k = 0 then (5, 7) else (-5, -8)) 4).value
      k).1) 2).natAbs < 2 := by
  refine ((removeDc_mean_iff 2 2 (fun k => if k = 0 then (5, 7) else (-5, -8)) (by decide) ?_).1
    ?_).mpr (by decide)
  · intro k _
    split_ifs <;> exact ⟨⟨by decide, by decide⟩, by decide, by decide⟩
  · intro k _
    split_ifs <;> exact ⟨by decide, by decide⟩

/-- Two pairs of samples with a mean of 100: half of it is left. -/
theorem removeDc_halved :
    ((eachHalf (removeDc 2) (fun _ => (100, 100)) 4).value 0).1 = 50 ∧
      (total (fun k => ((eachHalf (removeDc 2) (fun _ => (100, 100)) 4).value k).1) 2).natAbs =
        100 ∧
      (total (fun k => ((eachHalf (removeDc 2) (fun _ => (100, 100)) 4).value k).2) 2).natAbs =
        68 := by
  decide

end RtlSdr.Power
