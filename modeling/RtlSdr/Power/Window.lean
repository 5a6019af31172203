import RtlSdr.Power.RemoveDc
import RtlSdr.Power.Whole

/-!
# The window function in 16 bits

Since the average that the scan subtracts is half of what it should be, a sample deviates by up to
about 192: a coefficient of 256 is too much already without downsampling. From 129 samples in a
group on, a sum of 16384 is in reach for each group, and no coefficient above one fits.
-/
namespace RtlSdr.Power

open Checked

/-! ### Groups of samples -/

/-- The samples of group `x` among the first `n`, in groups of `d`. -/
def part (f : Nat → Int) (d n x : Nat) : Int := ∑ s ∈ Finset.range n, if s / d = x then f s else 0

def size (d n x : Nat) : Int := part (fun _ => 1) d n x

variable {f : Nat → Int} {d x n j : Nat} {length count : Int} {c : Scan} {ts : TuningState}

theorem part_bounds (bounds : ∀ s, -127 ≤ f s ∧ f s ≤ 128) (d n x : Nat) :
    -127 * size d n x ≤ part f d n x ∧ part f d n x ≤ 128 * size d n x := by
  rw [size, part, part, Finset.mul_sum, Finset.mul_sum]
  constructor
  all_goals
    apply Finset.sum_le_sum
    intro s _
    have sample := bounds s
    split_ifs <;> omega

theorem part_whole (f : Nat → Int) (some : 0 < d) (whole : d * x + d ≤ n) :
    part f d n x = ∑ t ∈ Finset.range d, f (d * x + t) := by
  have both := groupSum_whole (fun s => (f s, 0)) some whole
  have first := congrArg Prod.fst both
  rw [groupSum, Prod.fst_sum, Prod.fst_sum] at first
  rw [part, ← first]
  apply Finset.sum_congr rfl
  intro s _
  split_ifs <;> rfl

theorem size_whole (some : 0 < d) (whole : d * x + d ≤ n) : size d n x = d := by
  rw [size, part_whole _ some whole, Finset.sum_const, Finset.card_range, nsmul_eq_mul, mul_one]

theorem size_nonneg (d n x : Nat) : 0 ≤ size d n x := by
  rw [size, part]
  apply Finset.sum_nonneg
  intro s _
  split_ifs <;> decide

theorem size_le (some : 0 < d) (n x : Nat) : size d n x ≤ d := by
  have more : size d n x ≤ size d (max n (d * x + d)) x := by
    rw [size, size, part, part]
    apply Finset.sum_le_sum_of_subset_of_nonneg
    · exact Finset.range_subset_range.mpr (le_max_left _ _)
    · intro s _ _
      split_ifs <;> decide
  rwa [size_whole some (le_max_right _ _)] at more

theorem total_part (f : Nat → Int) (some : 0 < d) (n groups : Nat) :
    total (part f d n) groups = ∑ s ∈ Finset.range (min (d * groups) n), f s := by
  have inside : {s ∈ Finset.range n | s / d < groups} = Finset.range (min (d * groups) n) := by
    ext s
    rw [Finset.mem_filter, Finset.mem_range, Finset.mem_range, Nat.div_lt_iff_lt_mul some,
      Nat.mul_comm groups, lt_min_iff, and_comm]
  calc total (part f d n) groups
      = ∑ s ∈ Finset.range n, ∑ x ∈ Finset.range groups, if s / d = x then f s else 0 :=
        Finset.sum_comm
    _ = ∑ s ∈ Finset.range n, if s / d < groups then f s else 0 := by
        apply Finset.sum_congr rfl
        intro s _
        rw [Finset.sum_ite_eq]
        simp only [Finset.mem_range]
    _ = ∑ s ∈ Finset.range (min (d * groups) n), f s := by rw [← Finset.sum_filter, inside]

theorem total_size (some : 0 < d) (n groups : Nat) :
    total (size d n) groups = (min (d * groups) n : Nat) := by
  have count := total_part (fun _ => 1) some n groups
  rw [Finset.sum_const, Finset.card_range, nsmul_eq_mul, mul_one] at count
  exact count

theorem total_others (f : Nat → Int) {groups k : Nat} (inside : k < groups) :
    total f groups - f k = ∑ x ∈ (Finset.range groups).erase k, f x := by
  rw [total, ← Finset.add_sum_erase _ _ (Finset.mem_range.mpr inside), add_sub_cancel_left]

theorem total_others_bounds (bounds : ∀ s, -127 ≤ f s ∧ f s ≤ 128) (d n : Nat) {groups k : Nat}
    (inside : k < groups) :
    -127 * (total (size d n) groups - size d n k) ≤
        total (part f d n) groups - part f d n k ∧
      total (part f d n) groups - part f d n k ≤
        128 * (total (size d n) groups - size d n k) := by
  rw [total_others _ inside, total_others _ inside, Finset.mul_sum, Finset.mul_sum]
  exact ⟨Finset.sum_le_sum fun x _ => (part_bounds bounds d n x).1,
    Finset.sum_le_sum fun x _ => (part_bounds bounds d n x).2⟩

/-! ### The largest deviation from the average -/

theorem tdiv_le_add {a b k : Int} (positive : 0 < length) (more : 0 ≤ k)
    (near : a ≤ b + length * k) : a.tdiv length ≤ b.tdiv length + k := by
  have shift : (b + length * k).tdiv length ≤ b.tdiv length + k := by
    rw [Int.tdiv_eq_ediv, Int.tdiv_eq_ediv, Int.add_mul_ediv_left _ _ (ne_of_gt positive),
      Int.sign_eq_one_of_pos positive]
    have grows : 0 ≤ length * k := mul_nonneg positive.le more
    have divides : length ∣ b → length ∣ b + length * k := fun known =>
      dvd_add known (dvd_mul_right _ _)
    split_ifs with left right right
    · omega
    · omega
    · rcases right with nonneg | divisible
      · exact absurd (.inl (by omega)) left
      · exact absurd (.inr (divides divisible)) left
    · omega
  exact (Int.tdiv_le_tdiv positive near).trans shift

theorem tdiv_within {a k : Int} (positive : 0 < length) (more : 0 ≤ k) (low : -(length * k) ≤ a)
    (high : a ≤ length * k) : -k ≤ a.tdiv length ∧ a.tdiv length ≤ k := by
  have upper := tdiv_le_add (b := 0) positive more (by omega : a ≤ 0 + length * k)
  have lower := tdiv_le_add (a := 0) positive more (by omega : 0 ≤ a + length * k)
  rw [Int.zero_tdiv] at upper lower
  omega

/-- The largest deviation of a group of `d` samples from the average, if there are `count` samples
and the sum is divided by `length`: this group is the loudest it can be, and the others the
opposite. -/
def peak (d count length : Int) : Int := 128 * d - (128 * d - 127 * (count - d)).tdiv length

theorem deviation_le {x sum d m : Int} (least : -127 * (count - m) ≤ sum - x) (most : x ≤ 128 * m)
    (size : m ≤ d) (long : 2 ≤ length) : x - sum.tdiv length ≤ peak d count length := by
  have gap : 128 * (d - m) ≤ 128 * d - x := by linarith
  have room : 127 * (d - m) ≤ (length - 1) * (128 * d - x) := by
    nlinarith
  have near : 128 * d - 127 * (count - d) ≤ sum + length * (128 * d - x) := by
    nlinarith
  have quotient := tdiv_le_add (by omega) (by omega) near
  rw [peak]
  omega

theorem le_deviation {x sum d m : Int} (most : sum - x ≤ 128 * (count - m)) (least : -127 * m ≤ x)
    (size : m ≤ d) (some : 0 ≤ m) (long : 3 ≤ length) (enough : count ≤ d * length) :
    -peak d count length ≤ x - sum.tdiv length := by
  have near : 128 * d - 127 * (count - d) ≤ -sum + length * (128 * d + x) := by
    nlinarith
  have quotient := tdiv_le_add (by omega) (by omega) near
  rw [Int.neg_tdiv] at quotient
  rw [peak]
  omega

/-! ### The products -/

/-- The product is one of 32 bits first, which makes no difference. -/
theorem windowRound_here (c : Scan) (n offset j : Nat) (iq : Iq) :
    (windowRound c n offset j iq).value (offset + j) =
      (int16 ((iq (offset + j)).1 * c.windowCoefs j),
        int16 ((iq (offset + j)).2 * c.windowCoefs j)) := by
  have narrow (x : Int) : (x.bmod (2 ^ 32)).bmod (2 ^ 16) = x.bmod (2 ^ 16) :=
    Int.bmod_bmod_of_dvd (by decide)
  refine (Function.update_self _ _ _).trans ?_
  exact Prod.ext (narrow _) (narrow _)

/-- Whatever is captured, each product that the rounds of the scan store is the product. -/
def ProductsExact (c : Scan) (ts : TuningState) : Prop :=
  ∀ buf8, (scanTune c ts buf8).value = (beforeWindow c ts buf8 ts.windows).1 ∧
    ∀ w < ts.windows, ∀ j < 2 ^ ts.binE,
    (windowRound c ts.elements (2 ^ ts.binE * w) j (beforeProduct c ts buf8 w j)).value
        (2 ^ ts.binE * w + j) =
      ((beforeProduct c ts buf8 w j (2 ^ ts.binE * w + j)).1 * c.windowCoefs j,
        (beforeProduct c ts buf8 w j (2 ^ ts.binE * w + j)).2 * c.windowCoefs j)

theorem int16_isInt16 (x : Int) : IsInt16 (int16 x) := by
  have low : -32768 ≤ int16 x := Int.le_bmod (by decide)
  have high : int16 x < 32768 := Int.bmod_lt (by decide)
  exact ⟨low, by omega⟩

theorem int16_eq_iff {x : Int} : int16 x = x ↔ IsInt16 x :=
  ⟨fun same => same ▸ int16_isInt16 x, int16_eq⟩

theorem productsExact_iff (c : Scan) (ts : TuningState) :
    ProductsExact c ts ↔ ∀ buf8, ∀ w < ts.windows, ∀ j < 2 ^ ts.binE,
      IsInt16 ((prepared c ts buf8 (2 ^ ts.binE * w + j)).1 * c.windowCoefs j) ∧
        IsInt16 ((prepared c ts buf8 (2 ^ ts.binE * w + j)).2 * c.windowCoefs j) := by
  unfold ProductsExact
  simp only [scanTune_value, true_and, windowRound_here, beforeProduct_here, Prod.mk.injEq,
    int16_eq_iff]

/-! ### What is multiplied -/

def reOf (buf8 : Nat → UInt8 × UInt8) (s : Nat) : Int := (captured buf8 s).1
def imOf (buf8 : Nat → UInt8 × UInt8) (s : Nat) : Int := (captured buf8 s).2

theorem groupSum_eq_part (buf8 : Nat → UInt8 × UInt8) (d n x : Nat) :
    groupSum (captured buf8) d n x = (part (reOf buf8) d n x, part (imOf buf8) d n x) := by
  have pick (p : Prop) [Decidable p] (y : Int × Int) :
      (if p then y else 0) = (if p then y.1 else 0, if p then y.2 else 0) := by
    split_ifs <;> rfl
  apply Prod.ext
  · rw [groupSum, Prod.fst_sum]
    exact Finset.sum_congr rfl fun s _ => congrArg Prod.fst (pick _ _)
  · rw [groupSum, Prod.snd_sum]
    exact Finset.sum_congr rfl fun s _ => congrArg Prod.snd (pick _ _)

/-- One component of `fft_buf` when the windows begin, from its samples. -/
def cleaned (f : Nat → Int) (d n : Nat) (length : Int) (x : Nat) : Int :=
  if x < (length.toNat + 1) / 2 then
    int16 (int16 (part f d n x) - average (fun k => int16 (part f d n k)) length)
  else int16 (part f d n x)

theorem removeDc_cleaned (n d : Nat) (f data : Nat → Int) (half : (length.toNat + 1) / 2 ≤ n)
    (same : ∀ x < n, data x = int16 (part f d n x)) (inside : x < n) :
    (removeDc n data length).value x = cleaned f d n length x := by
  have ave : average data length = average (fun k => int16 (part f d n k)) length := by
    have sums : total data ((length.toNat + 1) / 2) =
        total (fun k => int16 (part f d n k)) ((length.toNat + 1) / 2) := by
      apply Finset.sum_congr rfl
      intro k member
      exact same k (by have := Finset.mem_range.mp member; omega)
    rw [average, average, sums]
  rw [removeDc_value n data length (by rw [same x inside]; exact int16_isInt16 _), cleaned, ave,
    same x inside]

/-! ### Groups of up to 128 samples -/

/-- What a scan has to do with one component: `n` samples in groups of `d`, of which `count` are in
the groups that the average is taken of, with the divisor `length`. -/
structure Shape (d n length : Nat) (count : Int) : Prop where
  some : 1 ≤ d
  few : d ≤ 128
  long : 3 ≤ length
  counted : total (size d n) ((length + 1) / 2) = count
  most : 4 * count ≤ 3 * (d * length)
  enough : 3 * d ≤ count

section

variable {d n length : Nat} {count : Int} (shape : Shape d n length count)
include shape

theorem Shape.peak_bounds : 128 * d ≤ peak d count length ∧ peak d count length ≤ 224 * d := by
  have long := shape.long
  have enough := shape.enough
  have most := shape.most
  have scaled : (length : Int) * (96 * d) = 96 * (d * length) := by ring
  have below : (128 * d - 127 * (count - d)).tdiv length ≤ (0 : Int).tdiv length + 0 :=
    tdiv_le_add (by omega) (le_refl _) (by omega)
  have above := (tdiv_within (a := 128 * d - 127 * (count - d)) (k := 96 * d)
    (by omega : (0 : Int) < length) (by omega) (by omega) (by omega)).1
  rw [Int.zero_tdiv] at below
  rw [peak]
  omega

variable {f : Nat → Int} (bounds : ∀ s, -127 ≤ f s ∧ f s ≤ 128)
include bounds

theorem Shape.int16_part : (fun x => int16 (part f d n x)) = part f d n := by
  funext x
  have sums := part_bounds bounds d n x
  have small := size_le shape.some n x
  have few := shape.few
  exact int16_eq ⟨by omega, by omega⟩

theorem Shape.average_part : average (part f d n) length =
    (total (part f d n) ((length + 1) / 2)).tdiv length := by
  have few := shape.few
  have long := shape.long
  have small := shape.most
  have sums : -127 * count ≤ total (part f d n) ((length + 1) / 2) ∧
      total (part f d n) ((length + 1) / 2) ≤ 128 * count := by
    rw [← shape.counted, total, total, Finset.mul_sum, Finset.mul_sum]
    exact ⟨Finset.sum_le_sum fun x _ => (part_bounds bounds d n x).1,
      Finset.sum_le_sum fun x _ => (part_bounds bounds d n x).2⟩
  have scaled : (length : Int) * (96 * d) = 96 * (d * length) := by ring
  have quotient := tdiv_within (a := total (part f d n) ((length + 1) / 2)) (k := 96 * d)
    (by omega : (0 : Int) < length) (by omega) (by omega) (by omega)
  rw [average, Int.toNat_natCast, int16_eq ⟨by omega, by omega⟩]

theorem Shape.cleaned_eq (x : Nat) : cleaned f d n length x =
    if x < (length + 1) / 2 then
      int16 (part f d n x - (total (part f d n) ((length + 1) / 2)).tdiv length)
    else part f d n x := by
  have words := shape.int16_part bounds
  have word : int16 (part f d n x) = part f d n x := congrFun words x
  rw [cleaned, Int.toNat_natCast, words, word, shape.average_part bounds]

theorem Shape.cleaned_within (x : Nat) :
    -peak d count length ≤ cleaned f d n length x ∧
      cleaned f d n length x ≤ peak d count length := by
  obtain ⟨low, high⟩ := part_bounds bounds d n x
  have small := size_le shape.some n x
  have nonneg := size_nonneg d n x
  have few := shape.few
  have long := shape.long
  obtain ⟨floor, ceiling⟩ := shape.peak_bounds
  rw [shape.cleaned_eq bounds]
  split_ifs with inside
  · obtain ⟨others_low, others_high⟩ := total_others_bounds bounds d n inside
    rw [shape.counted] at others_low others_high
    have enough : count ≤ d * length := by
      have most := shape.most
      have positive : (0 : Int) ≤ d * length := by positivity
      omega
    have upper := deviation_le others_low high small (by omega : (2 : Int) ≤ length)
    have lower := le_deviation others_high low small nonneg (by omega : (3 : Int) ≤ length) enough
    rw [int16_eq ⟨by omega, by omega⟩]
    exact ⟨lower, upper⟩
  · omega

end

/-- One group as loud as can be, and the others the opposite. -/
def loudest (d j s : Nat) : Int := if s / d = j then 128 else -127

theorem loudest_bounds (d j s : Nat) : -127 ≤ loudest d j s ∧ loudest d j s ≤ 128 := by
  unfold loudest
  split_ifs <;> decide

theorem part_loudest (d n j x : Nat) :
    part (loudest d j) d n x = (if x = j then 128 else -127) * size d n x := by
  rw [size, part, part, Finset.mul_sum]
  apply Finset.sum_congr rfl
  intro s _
  by_cases here : s / d = x
  · rw [if_pos here, if_pos here, loudest, here, mul_one]
  · rw [if_neg here, if_neg here, mul_zero]

theorem Shape.cleaned_loudest {length : Nat} (shape : Shape d n length count)
    (group : j < (length + 1) / 2) (whole : d * j + d ≤ n) :
    cleaned (loudest d j) d n length j = peak d count length := by
  have few := shape.few
  have full := size_whole shape.some whole
  obtain ⟨floor, ceiling⟩ := shape.peak_bounds
  have loud : part (loudest d j) d n j = 128 * d := by rw [part_loudest, if_pos rfl, full]
  have others : total (part (loudest d j) d n) ((length + 1) / 2) - part (loudest d j) d n j =
      -127 * (total (size d n) ((length + 1) / 2) - size d n j) := by
    rw [total_others _ group, total_others _ group, Finset.mul_sum]
    apply Finset.sum_congr rfl
    intro x member
    rw [part_loudest, if_neg (Finset.ne_of_mem_erase member)]
  rw [loud, shape.counted, full] at others
  have sum : total (part (loudest d j) d n) ((length + 1) / 2) = 128 * d - 127 * (count - d) := by
    linarith
  rw [shape.cleaned_eq (loudest_bounds d j), if_pos group, loud, sum, ← peak,
    int16_eq ⟨by omega, by omega⟩]

/-! ### Larger groups -/

/-- In group `j` the first 129 samples are as large as can be, and in group `i` as small. -/
def opposed (d i j s : Nat) : Int :=
  if s % d < 129 then if s / d = j then 128 else if s / d = i then -127 else 0 else 0

theorem opposed_bounds (d i j s : Nat) : -127 ≤ opposed d i j s ∧ opposed d i j s ≤ 128 := by
  unfold opposed
  split_ifs <;> decide

theorem part_opposed_other {i : Nat} (different : x ≠ i ∧ x ≠ j) :
    part (opposed d i j) d n x = 0 := by
  apply Finset.sum_eq_zero
  intro s _
  by_cases here : s / d = x
  · rw [if_pos here, opposed, here, if_neg different.2, if_neg different.1, ite_self]
  · rw [if_neg here]

theorem part_opposed {i : Nat} (large : 129 ≤ d) (whole : d * x + d ≤ n) :
    part (opposed d i j) d n x = 129 * if x = j then 128 else if x = i then -127 else 0 := by
  have sample (t : Nat) (inside : t < d) : opposed d i j (d * x + t) =
      if t < 129 then if x = j then 128 else if x = i then -127 else 0 else 0 := by
    rw [opposed, Nat.mul_add_mod, Nat.mod_eq_of_lt inside, Nat.mul_add_div (by omega),
      Nat.div_eq_of_lt inside, Nat.add_zero]
  have first : {t ∈ Finset.range d | t < 129} = Finset.range 129 := by
    ext t
    simp only [Finset.mem_filter, Finset.mem_range]
    omega
  rw [part_whole _ (by omega) whole, Finset.sum_congr rfl fun t member =>
    sample t (Finset.mem_range.mp member), ← Finset.sum_filter, first, Finset.sum_const,
    Finset.card_range, nsmul_eq_mul]
  rfl

/-- The average is next to nothing, and more than half of the range is left. -/
theorem cleaned_opposed {length i : Nat} (large : 129 ≤ d) (different : i ≠ j) (long : 3 ≤ length)
    (first : i < (length + 1) / 2) (second : j < (length + 1) / 2) (wholeFirst : d * i + d ≤ n)
    (wholeSecond : d * j + d ≤ n) : 16384 ≤ cleaned (opposed d i j) d n length j := by
  have low : part (opposed d i j) d n i = -16383 := by
    rw [part_opposed large wholeFirst, if_neg different, if_pos rfl]
    rfl
  have high : part (opposed d i j) d n j = 16512 := by
    rw [part_opposed large wholeSecond, if_pos rfl]
    rfl
  have sum : total (fun x => int16 (part (opposed d i j) d n x)) ((length + 1) / 2) = 129 := by
    rw [total, Finset.sum_eq_add_of_mem i j (Finset.mem_range.mpr first)
      (Finset.mem_range.mpr second) different, low, high]
    · rfl
    · intro x _ other
      rw [part_opposed_other other]
      rfl
  have quotient : (129 : Int).tdiv length ≤ 43 ∧ 0 ≤ (129 : Int).tdiv length := by
    have bound : 129 / length ≤ 43 := by
      apply Nat.div_le_of_le_mul
      omega
    rw [show (129 : Int) = (129 : Nat) from rfl, ← Int.ofNat_tdiv]
    generalize 129 / length = q at bound
    omega
  have ave : average (fun x => int16 (part (opposed d i j) d n x)) length =
      (129 : Int).tdiv length := by
    rw [average, Int.toNat_natCast, sum, int16_eq ⟨by omega, by omega⟩]
  rw [cleaned, Int.toNat_natCast, if_pos second, ave, high, show int16 16512 = 16512 from rfl,
    int16_eq ⟨by omega, by omega⟩]
  omega

/-! ### Captures -/

/-- The capture with these samples in both components. -/
def captureOf (f : Nat → Int) (s : Nat) : UInt8 × UInt8 :=
  (UInt8.ofNat (f s + 127).toNat, UInt8.ofNat (f s + 127).toNat)

theorem captured_captureOf (bounds : ∀ s, -127 ≤ f s ∧ f s ≤ 128) :
    reOf (captureOf f) = f ∧ imOf (captureOf f) = f := by
  have sample (s : Nat) : ((UInt8.ofNat (f s + 127).toNat).toNat : Int) - 127 = f s := by
    obtain ⟨low, high⟩ := bounds s
    have byte : (f s + 127).toNat < UInt8.size := by
      rw [UInt8.size]
      omega
    rw [UInt8.toNat_ofNat_of_lt' byte]
    omega
  exact ⟨funext sample, funext sample⟩

/-! ### The sizes of a scan -/

section

variable {ts : TuningState} {d n q : Nat} (sizes : Sizes ts d n q)
include sizes

theorem Sizes.group_whole {j : Nat} (place : j < 2 ^ ts.binE) : d * j + d ≤ n := by
  have window := sizes.capture
  have groups : d * (j + 1) ≤ d * 2 ^ ts.binE := Nat.mul_le_mul_left d place
  rw [Nat.mul_succ] at groups
  rw [Nat.mul_assoc, Nat.mul_comm _ d] at window
  omega

theorem Sizes.half_le : (q + 1) / 2 ≤ n := by
  obtain ⟨below, _⟩ := sizes.product
  have window := sizes.window_le
  have bins := Nat.two_pow_pos ts.binE
  rcases Nat.lt_or_ge d 2 with one | more
  · obtain rfl : d = 1 := by have := sizes.positive; omega
    omega
  · have double := Nat.mul_le_mul_right q more
    omega

theorem Sizes.cell_lt {w j : Nat} (inside : w < ts.windows) (place : j < 2 ^ ts.binE) :
    2 ^ ts.binE * w + j < n := by
  have visited := sizes.visited inside
  have window := sizes.window_le
  obtain ⟨below, _⟩ := sizes.product
  rw [Nat.mul_assoc] at visited
  rcases Nat.lt_or_ge d 2 with one | more
  · -- without downsampling the windows divide the capture
    obtain rfl : d = 1 := by have := sizes.positive; omega
    have whole : 2 ^ ts.binE ∣ n := by
      have capture := sizes.capture
      rcases Nat.le_total ts.binE 13 with few | many
      · have fits := Nat.pow_le_pow_right Nat.two_pos few
        obtain rfl : n = 2 ^ 13 := by omega
        exact Nat.pow_dvd_pow 2 few
      · have fits := Nat.pow_le_pow_right Nat.two_pos many
        obtain rfl : n = 2 ^ ts.binE := by omega
        exact Nat.dvd_refl _
    obtain ⟨windows, rfl⟩ := whole
    have before : w < windows := by
      have : 2 ^ ts.binE * w < 2 ^ ts.binE * windows := by omega
      exact Nat.lt_of_mul_lt_mul_left this
    have last := Nat.mul_le_mul_left (2 ^ ts.binE) before
    rw [Nat.mul_succ] at last
    omega
  · have double := Nat.mul_le_mul_right q more
    omega

theorem Sizes.many (few : d ≤ 128) : 128 ≤ q := by
  have capture := sizes.capture
  rw [sizes.quotient, Nat.le_div_iff_mul_le sizes.positive]
  omega

theorem Sizes.shape (few : d ≤ 128) {length : Nat} (long : 5 ≤ length) :
    Shape d n length (min (d * ((length + 1) / 2)) n : Nat) := by
  have positive := sizes.positive
  have capture := sizes.capture
  have groups : d * (2 * ((length + 1) / 2)) ≤ d * (length + 1) := Nat.mul_le_mul_left d (by omega)
  have two : d * 2 ≤ d * length := Nat.mul_le_mul_left d (by omega)
  have three : d * 3 ≤ d * ((length + 1) / 2) := Nat.mul_le_mul_left d (by omega)
  have twice : d * (2 * ((length + 1) / 2)) = 2 * (d * ((length + 1) / 2)) := by ring
  rw [Nat.mul_succ, twice] at groups
  refine ⟨positive, few, by omega, total_size positive n _, ?_, ?_⟩
  · rw [← Nat.cast_mul]
    generalize d * ((length + 1) / 2) = before at *
    generalize d * length = all at *
    omega
  · generalize d * ((length + 1) / 2) = before at *
    omega

end

/-! ### The coefficients that fit -/

/-- The largest deviation in a component that `remove_dc` is called for with this length. The groups
that the average is taken of may go beyond the capture. -/
def TuningState.peak (ts : TuningState) (length : Int) : Int :=
  Power.peak ts.downsample (min (ts.downsample * ((length + 1) / 2)) ts.elements) length

/-- The product of each coefficient with the largest deviations fits. From 129 samples in a group
on, a group can have a deviation of half the range. -/
def Quiet (c : Scan) (ts : TuningState) : Prop :=
  ∀ j < 2 ^ ts.binE,
    if ts.downsample ≤ 128 then
      c.windowCoefs j * ts.peak (ts.bufLen.tdiv ts.downsample) ≤ 32767 ∧
        c.windowCoefs j * ts.peak (ts.bufLen.tdiv ts.downsample - 1) ≤ 32767
    else c.windowCoefs j ≤ 1

theorem cleaned_isInt16 (f : Nat → Int) (d n : Nat) (length : Int) (x : Nat) :
    IsInt16 (cleaned f d n length x) := by
  unfold cleaned
  split_ifs <;> exact int16_isInt16 _

theorem product_isInt16 {x bound coef : Int} (nonneg : 0 ≤ coef) (fits : coef * bound ≤ 32767)
    (low : -bound ≤ x) (high : x ≤ bound) : IsInt16 (x * coef) := by
  have upper := mul_le_mul_of_nonneg_right high nonneg
  have lower := mul_le_mul_of_nonneg_right low nonneg
  rw [neg_mul] at lower
  rw [mul_comm] at fits
  exact ⟨by omega, by omega⟩

section

variable {ts : TuningState} {d n q : Nat} (sizes : Sizes ts d n q)
include sizes

theorem Sizes.length_pred : ts.bufLen.tdiv ts.downsample - 1 = (q - 1 : Nat) := by
  have window := sizes.window_le
  have bins := Nat.two_pow_pos ts.binE
  rw [sizes.length]
  omega

theorem Sizes.peak_eq (length : Nat) :
    ts.peak length = peak d (min (d * ((length + 1) / 2)) n : Nat) length := by
  rw [TuningState.peak, sizes.factor, sizes.samples]
  push_cast
  rfl

variable {c : Scan} (boxcar : c.boxcar = true) (passes : ts.downsamplePasses = 0)
include boxcar passes

theorem Sizes.prepared_eq (buf8 : Nat → UInt8 × UInt8) {x : Nat} (inside : x < n) :
    prepared c ts buf8 x =
      (cleaned (reOf buf8) d n q x, cleaned (imOf buf8) d n (q - 1 : Nat) x) := by
  have half := sizes.half_le
  have sums (x : Nat) (inside : x < n) : (downsampled c ts buf8).value x =
      (int16 (part (reOf buf8) d n x), int16 (part (imOf buf8) d n x)) := by
    rw [downsampled_word boxcar passes sizes.factor sizes.positive buf8
      (by rw [sizes.samples]; exact inside), sizes.samples, groupSum_eq_part]
    rfl
  rw [prepared, sizes.samples, ← sizes.length_pred, ← sizes.length]
  apply Prod.ext
  · exact removeDc_cleaned n d _ _ (by rw [sizes.length]; exact half)
      (fun x inside => congrArg Prod.fst (sums x inside)) inside
  · exact removeDc_cleaned n d _ _ (by rw [sizes.length]; omega)
      (fun x inside => congrArg Prod.snd (sums x inside)) inside

theorem Sizes.productsExact_of_quiet (nonneg : ∀ j, 0 ≤ c.windowCoefs j) (quiet : Quiet c ts) :
    ProductsExact c ts := by
  rw [productsExact_iff]
  intro buf8 w inside j place
  have fits := quiet j place
  have re (s : Nat) := (captured_within buf8 s).1
  have im (s : Nat) := (captured_within buf8 s).2
  rw [sizes.prepared_eq boxcar passes buf8 (sizes.cell_lt inside place)]
  rw [sizes.factor] at fits
  split_ifs at fits with few
  · have few : d ≤ 128 := by omega
    have many := sizes.many few
    obtain ⟨lowRe, highRe⟩ :=
      (sizes.shape few (by omega : 5 ≤ q)).cleaned_within re (2 ^ ts.binE * w + j)
    obtain ⟨lowIm, highIm⟩ :=
      (sizes.shape few (by omega : 5 ≤ q - 1)).cleaned_within im (2 ^ ts.binE * w + j)
    rw [← sizes.factor, sizes.length_pred, sizes.length, sizes.peak_eq, sizes.peak_eq] at fits
    exact ⟨product_isInt16 (nonneg j) fits.1 lowRe highRe,
      product_isInt16 (nonneg j) fits.2 lowIm highIm⟩
  · -- nothing is multiplied by more than one
    have coef := nonneg j
    obtain zero | one : c.windowCoefs j = 0 ∨ c.windowCoefs j = 1 := by omega
    · rw [zero, mul_zero, mul_zero]
      exact ⟨⟨by decide, by decide⟩, by decide, by decide⟩
    · rw [one, mul_one, mul_one]
      exact ⟨cleaned_isInt16 .., cleaned_isInt16 ..⟩

theorem Sizes.quiet_of_productsExact (bins : 1 ≤ ts.binE) (exactly : ProductsExact c ts) :
    Quiet c ts := by
  rw [productsExact_iff] at exactly
  intro j place
  have window := sizes.window_le
  have two := Nat.pow_le_pow_right Nat.two_pos bins
  have first : 0 < ts.windows := by
    rw [TuningState.windows, sizes.length, Int.toNat_natCast]
    exact Nat.div_pos (by omega) (by omega)
  have whole := sizes.group_whole place
  have inside := sizes.cell_lt first place
  rw [Nat.mul_zero, Nat.zero_add] at inside
  have products (f : Nat → Int) (bounds : ∀ s, -127 ≤ f s ∧ f s ≤ 128) :
      IsInt16 (cleaned f d n q j * c.windowCoefs j) ∧
        IsInt16 (cleaned f d n (q - 1 : Nat) j * c.windowCoefs j) := by
    have fits := exactly (captureOf f) 0 first j place
    obtain ⟨re, im⟩ := captured_captureOf bounds
    rwa [Nat.mul_zero, Nat.zero_add, sizes.prepared_eq boxcar passes _ inside, re, im] at fits
  rw [sizes.factor]
  split_ifs with few
  · have few : d ≤ 128 := by omega
    have many := sizes.many few
    obtain ⟨re, im⟩ := products (loudest d j) (loudest_bounds d j)
    rw [(sizes.shape few (by omega)).cleaned_loudest (by omega) whole, mul_comm] at re im
    rw [← sizes.factor, sizes.length_pred, sizes.length, sizes.peak_eq, sizes.peak_eq]
    exact ⟨re.2, im.2⟩
  · -- another group of the first window balances this one
    obtain ⟨i, other, different⟩ : ∃ i < 2 ^ ts.binE, i ≠ j := by
      by_cases start : j = 0
      · exact ⟨1, by omega, by omega⟩
      · exact ⟨0, by omega, by omega⟩
    have half : 16384 ≤ cleaned (opposed d i j) d n q j := cleaned_opposed (by omega) different
      (by omega) (by omega) (by omega) (sizes.group_whole other) whole
    obtain ⟨⟨_, re⟩, _⟩ := products (opposed d i j) (opposed_bounds d i j)
    by_contra more
    have large : 16384 * 2 ≤ cleaned (opposed d i j) d n q j * c.windowCoefs j :=
      mul_le_mul half (by omega) (by decide) (by omega)
    omega

end

/-- `window_coefs` for the values of a window function. -/
noncomputable def coefficients (window : Nat → ℝ) (j : Nat) : Int := ⌊256 * window j⌋

/-- The products of a plan of the default mode are exact for every capture where its coefficients
are quiet. A piece of one bin has no window. -/
theorem windowProducts_exact_iff {D : Type} [DoubleArith D] [Sub D] (crop : D)
    (lower upper maxSize : Int) (plan : Plan)
    (built : (frequencyRange true crop lower upper maxSize).value = some plan)
    (c : Scan) (boxcar : c.boxcar = true) (window : Nat → ℝ)
    (values : ∀ j, 0 ≤ window j ∧ window j ≤ 1) (coefs : c.windowCoefs = coefficients window) :
    (0 < plan.tune.binE → ProductsExact c plan.tune) ↔
      (0 < plan.tune.binE → 0 < plan.tune.downsample → Quiet c plan.tune) := by
  have length := frequencyRange_bufLen built
  have passes := frequencyRange_passes built
  have nonneg (j : Nat) : 0 ≤ c.windowCoefs j := by
    rw [coefs, coefficients, Int.floor_nonneg]
    exact mul_nonneg (by norm_num) (values j).1
  refine imp_congr_right fun bins => ?_
  by_cases some : 0 < plan.tune.downsample
  · obtain ⟨d, n, q, sizes⟩ := exists_sizes length some
    exact ⟨fun exactly _ => sizes.quiet_of_productsExact boxcar passes bins exactly,
      fun quiet => sizes.productsExact_of_quiet boxcar passes nonneg (quiet some)⟩
  · have positive : 0 ≤ plan.tune.bufLen := by
      rw [length]
      exact le_max_of_le_right (by decide)
    have empty := windows_eq_zero positive (not_lt.mp some)
    refine ⟨fun _ positive => absurd positive some, fun _ buf8 => ⟨rfl, fun w inside => ?_⟩⟩
    rw [empty] at inside
    exact absurd inside (Nat.not_lt_zero w)

/-- The scan with half of the coefficients. -/
noncomputable def halfScan : Scan :=
  { defaultScan with windowCoefs := coefficients fun _ => 1 / (2 : Nat) }

/-- A range of 2 MHz is not downsampled. -/
theorem wide_shape : (frequencyRange true (0 : ℚ) 100000000 102000000 10000).value.map Plan.shape =
    some (8, 1, 16384) := by
  decide +kernel

/-- A window of one half leaves room for it. -/
theorem windowProducts_exact_half :
    ∃ plan, (frequencyRange true (0 : ℚ) 100000000 102000000 10000).value = some plan ∧
      0 < plan.tune.binE ∧ ProductsExact halfScan plan.tune := by
  obtain ⟨plan, built, binE, factor, length⟩ := exists_shape wide_shape
  have bins : 0 < plan.tune.binE := by rw [binE]; decide
  have coefs (j : Nat) : halfScan.windowCoefs j = 128 := by
    change ⌊256 * (1 / (2 : Nat) : ℝ)⌋ = 128
    norm_num
  refine ⟨plan, built, bins, ((windowProducts_exact_iff (0 : ℚ) 100000000 102000000 10000 plan built
    halfScan rfl (fun _ => 1 / (2 : Nat)) (fun _ => ⟨by norm_num, by norm_num⟩) rfl).mpr ?_) bins⟩
  intro _ _ j _
  rw [coefs, TuningState.peak, TuningState.peak, TuningState.elements, factor, length]
  decide

/-- The rectangle, which is the default window, on the same plan. With the bytes of sample 0 at 255
and all others at 0, the averages are -63, and the product is 191 * 256. -/
theorem windowProducts_wrapped :
    (frequencyRange true (0 : ℚ) 100000000 102000000 10000).exact = true ∧
    ∃ plan, (frequencyRange true (0 : ℚ) 100000000 102000000 10000).value = some plan ∧
      0 < plan.tune.binE ∧ plan.tune.downsample = 1 ∧
      defaultScan.windowCoefs = coefficients (fun _ => 1) ∧
      beforeProduct defaultScan plan.tune (captureOf (loudest 1 0)) 0 0 0 = (191, 191) ∧
      (windowRound defaultScan plan.tune.elements 0 0
        (beforeProduct defaultScan plan.tune (captureOf (loudest 1 0)) 0 0)).value 0 =
          (-16640, -16640) ∧
      ¬ProductsExact defaultScan plan.tune := by
  refine ⟨by decide +kernel, ?_⟩
  obtain ⟨plan, built, binE, factor, length⟩ := exists_shape wide_shape
  have passes := frequencyRange_passes built
  have sizes : Sizes plan.tune 1 8192 16384 := by
    refine ⟨factor, ?_, ?_, le_rfl, ?_, rfl⟩
    · rw [TuningState.elements, length]
      rfl
    · rw [length, factor]
      rfl
    · rw [binE]
      rfl
  have first := (sizes.shape (by decide) (by decide : 5 ≤ 16384)).cleaned_loudest (j := 0)
    (by decide) (by decide)
  have second := (sizes.shape (by decide) (by decide : 5 ≤ 16383)).cleaned_loudest (j := 0)
    (by decide) (by decide)
  have before : beforeProduct defaultScan plan.tune (captureOf (loudest 1 0)) 0 0 0 =
      (191, 191) := by
    have here := beforeProduct_here defaultScan plan.tune (captureOf (loudest 1 0)) 0 0
    obtain ⟨re, im⟩ := captured_captureOf (loudest_bounds 1 0)
    rw [Nat.mul_zero] at here
    rw [here, sizes.prepared_eq rfl passes _ (by decide), re, im, first, second]
    rfl
  have stored : (windowRound defaultScan plan.tune.elements 0 0
      (beforeProduct defaultScan plan.tune (captureOf (loudest 1 0)) 0 0)).value 0 =
        (-16640, -16640) := by
    refine (windowRound_here defaultScan _ 0 0 _).trans ?_
    rw [Nat.add_zero, before]
    rfl
  refine ⟨plan, built, by rw [binE]; decide, factor, ?_, before, stored, ?_⟩
  · funext j
    simp [defaultScan, coefficients]
  · intro exactly
    have inside : 0 < plan.tune.windows := by
      rw [TuningState.windows, sizes.length, binE]
      decide
    have same := (exactly (captureOf (loudest 1 0))).2 0 inside 0 (Nat.two_pow_pos _)
    rw [Nat.mul_zero, Nat.add_zero, stored, before] at same
    exact absurd same (by decide)

end RtlSdr.Power
