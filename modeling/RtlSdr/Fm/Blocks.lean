import RtlSdr.Fm.Filters
import Mathlib.Algebra.BigOperators.Group.List.Basic
import Mathlib.Tactic.Ring

/-!
# Block boundaries in rtl_fm

`low_pass`, `generic_fir` and `low_pass_real` take every sample in as it comes, so their output does
not depend on how the stream is cut. `fifth_order` takes two samples in each round but starts every
call with one: the last sample of a block never reaches the history.
-/
namespace RtlSdr.Fm

open Checked CArray Transducer

def IsInt16 (x : Int) : Prop := -32768 ≤ x ∧ x < 32768

instance (x : Int) : Decidable (IsInt16 x) := inferInstanceAs (Decidable (_ ∧ _))

/-- Sums may be cut off at any time: only the end result counts. -/
structure Words.Lawful (w : Words) : Prop where
  add : ∀ a b, w.int32 (w.int32 a + b) = w.int32 (a + b)
  narrow : ∀ a, w.int16 (w.int32 a) = w.int16 a
  zero : w.int32 0 = 0

theorem machine_lawful : machine.Lawful where
  add _ _ := Int.bmod_add_bmod
  narrow _ := Int.bmod_bmod_of_dvd ⟨65536, rfl⟩
  zero := rfl

theorem unbounded_lawful : unbounded.Lawful := ⟨fun _ _ => rfl, fun _ => rfl, rfl⟩

theorem int16_eq {x : Int} (fits : IsInt16 x) : machine.int16 x = x :=
  Int.bmod_eq_of_le fits.1 fits.2

theorem isInt16_int16 (x : Int) : IsInt16 (machine.int16 x) :=
  ⟨Int.le_bmod (by decide), Int.bmod_lt (by decide)⟩

theorem isInt16_zero : IsInt16 0 := by
  decide

theorem int32_eq {x : Int} (low : -2147483648 ≤ x) (high : x < 2147483648) : machine.int32 x = x :=
  Int.bmod_eq_of_le low high

/-! ### Calls on blocks -/

theorem pairs_interleave (xs : List (Int × Int)) : pairs (interleave xs) = xs := by
  induction xs with
  | nil => rfl
  | cons x xs ih => rw [interleave, pairs, ih]

/-- One call of `low_pass` on a block of complex samples. -/
def lowPassBlock (w : Words) (downsample : Int) (acc : Boxcar) (block : List (Int × Int)) :
    Boxcar × List (Int × Int) :=
  let call := (lowPass w downsample (2 * block.length) acc (layout 0 0 1 (interleave block))).value
  (call.1, pairs (gather call.2.1 1 0 call.2.2.toNat))

theorem lowPassBlock_eq (w : Words) (downsample : Int) (acc : Boxcar) (block : List (Int × Int)) :
    lowPassBlock w downsample acc block = run (lowPassStep w downsample) acc block := by
  obtain ⟨state, length, holds⟩ := lowPass_value w downsample acc block
    (layout 0 0 1 (interleave block)) (holds_layout 0 0 Int.one_pos _)
  have read := holds.gather
  rw [interleave_length] at read
  have count : (2 * ((run (lowPassStep w downsample) acc block).2.length : Int)).toNat =
      2 * (run (lowPassStep w downsample) acc block).2.length := by omega
  rw [lowPassBlock, length, count, read, pairs_interleave, state]

/-- One call of `low_pass_real` on a block of values. -/
def lowPassRealBlock (w : Words) (rateOut rateOut2 : Int) (acc : Resample) (block : List Int) :
    Resample × List Int :=
  let call := (lowPassReal w rateOut rateOut2 block.length acc (layout 0 0 1 block)).value
  (call.1, gather call.2.1 1 0 call.2.2.toNat)

theorem lowPassRealBlock_eq (w : Words) (rateOut rateOut2 : Int) (acc : Resample)
    (block : List Int) :
    lowPassRealBlock w rateOut rateOut2 acc block =
      run (lowPassRealStep w rateOut rateOut2) acc block := by
  obtain ⟨state, length, holds⟩ := lowPassReal_value w rateOut rateOut2 acc block
    (layout 0 0 1 block) (holds_layout 0 0 Int.one_pos _)
  rw [lowPassRealBlock, length, Int.toNat_natCast, holds.gather, state]

/-- The lengths full_demod gives for the two components of `n` complex samples. -/
def componentLength (base : Int) (n : Nat) : Int := 2 * n - base

/-- One call of `generic_fir` on the component at `base` of a block. -/
def firBlock (w : Words) (fir : List Int) (base : Int) (hist block : List Int) :
    List Int × List Int :=
  let call := (genericFir w (layout 0 base 2 block) base (componentLength base block.length)
    fir hist).value
  (call.2, gather call.1 2 base block.length)

theorem firStep_length (w : Words) (fir hist xs : List Int) :
    (run (firStep w fir) hist xs).2.length = xs.length := by
  induction xs generalizing hist with
  | nil => rfl
  | cons x xs ih =>
    rw [run_cons, List.length_append, ih, firStep, List.length_singleton, List.length_cons,
      Nat.add_comm]

theorem firBlock_eq (w : Words) (fir : List Int) (base : Int) (component : base = 0 ∨ base = 1)
    (hist block : List Int) : firBlock w fir base hist block = run (firStep w fir) hist block := by
  obtain ⟨state, holds, _⟩ := genericFir_value w fir (layout 0 base 2 block) base
    (componentLength base block.length) hist block (holds_layout 0 base (by decide) block)
    (by rw [componentLength]; omega)
  have read := holds.gather
  rw [firStep_length] at read
  rw [firBlock, state, read]

/-- One call of `fifth_order` on the component at `base` of a block. -/
def fifthBlock (w : Words) (base : Int) (hist : Taps) (block : List Int) : Taps × List Int :=
  let call := (fifthOrder w (layout 0 base 2 block) base (componentLength base block.length)
    hist).value
  (call.2, gather call.1 2 base (block.length / 2))

theorem fifthStep_length (w : Words) (taps : Taps) (xs : List (Int × Int)) :
    (run (fifthStep w) taps xs).2.length = xs.length := by
  induction xs generalizing taps with
  | nil => rfl
  | cons x xs ih =>
    rw [run_cons, List.length_append, ih, fifthStep, List.length_singleton, List.length_cons,
      Nat.add_comm]

theorem fifthCall_length (w : Words) (hist : Taps) (block : List Int) :
    (fifthCall w hist block).2.length = (block.length + 1) / 2 := by
  cases block with
  | nil => rfl
  | cons x rest =>
    rw [fifthCall, List.length_cons, fifthStep_length, pairs_length, List.length_cons]
    omega

theorem fifthBlock_eq (w : Words) (base : Int) (component : base = 0 ∨ base = 1) (hist : Taps)
    (block : List Int) (some : block ≠ []) (even : block.length % 2 = 0) :
    fifthBlock w base hist block = fifthCall w hist block := by
  obtain ⟨state, holds, _⟩ := fifthOrder_value w (layout 0 base 2 block) base
    (componentLength base block.length) hist block some (holds_layout 0 base (by decide) block)
    (by rw [componentLength]; omega)
  have read := holds.gather
  have half : (block.length + 1) / 2 = block.length / 2 := by omega
  rw [fifthCall_length, half] at read
  rw [fifthBlock, state, read]

/-! ### The sums of `low_pass` -/

section Sums

variable {w : Words} (lawful : w.Lawful) (downsample : Nat)

/-- The sums of both components, as an `int` keeps them. -/
def sums (w : Words) (xs : List (Int × Int)) : Boxcar :=
  ⟨w.int32 (xs.map Prod.fst).sum, w.int32 (xs.map Prod.snd).sum, xs.length⟩

include lawful in
theorem sums_add (xs : List (Int × Int)) (x : Int × Int) :
    (sums w xs).add w x = sums w (xs ++ [x]) := by
  rw [Boxcar.add, sums, sums, lawful.add, lawful.add, List.map_append, List.map_append,
    List.sum_append, List.sum_append, List.map_singleton, List.map_singleton, List.sum_singleton,
    List.sum_singleton, List.length_append, List.length_singleton, Int.natCast_add]
  rfl

include lawful in
theorem boxcar_unfinished (xs : List (Int × Int)) (short : xs.length < downsample) :
    run (lowPassStep w downsample) .empty xs = (sums w xs, []) := by
  induction xs using List.reverseRecOn with
  | nil => rw [run_nil, sums, List.map_nil, List.map_nil, List.sum_nil, lawful.zero]; rfl
  | append_singleton xs x ih =>
    rw [List.length_append, List.length_singleton] at short
    have more : (sums w (xs ++ [x])).prevIndex < downsample := by
      change ((xs ++ [x]).length : Int) < downsample
      rw [List.length_append, List.length_singleton]
      omega
    rw [run_concat, ih (by omega), lowPassStep, sums_add lawful, if_pos more]
    rfl

def windowSum (w : Words) (xs : List (Int × Int)) : Int × Int :=
  (w.int16 (xs.map Prod.fst).sum, w.int16 (xs.map Prod.snd).sum)

include lawful in
theorem boxcar_window (xs : List (Int × Int)) (full : xs.length = downsample)
    (positive : 0 < downsample) :
    run (lowPassStep w downsample) .empty xs = (.empty, [windowSum w xs]) := by
  obtain ⟨before, last, rfl⟩ : ∃ before last, xs = before ++ [last] := by
    refine ⟨xs.dropLast, xs.getLast ?_, (List.dropLast_append_getLast ?_).symm⟩ <;>
    · rintro rfl
      rw [List.length_nil] at full
      omega
  have length := full
  rw [List.length_append, List.length_singleton] at full
  have enough : ¬(sums w (before ++ [last])).prevIndex < downsample := by
    change ¬((before ++ [last]).length : Int) < downsample
    omega
  rw [run_concat, boxcar_unfinished lawful downsample before (by omega), lowPassStep,
    sums_add lawful, if_neg enough]
  simp only [sums, lawful.narrow, windowSum, List.nil_append]

include lawful in
theorem boxcar_stream (positive : 0 < downsample) (xs : List (Int × Int)) :
    (run (lowPassStep w downsample) .empty xs).2 =
      (List.range (xs.length / downsample)).map fun k =>
        windowSum w ((xs.drop (downsample * k)).take downsample) := by
  induction hn : xs.length using Nat.strongRecOn generalizing xs with
  | ind n ih =>
    subst hn
    by_cases short : xs.length < downsample
    · rw [boxcar_unfinished lawful downsample xs short, Nat.div_eq_of_lt short]
      rfl
    · have window : (xs.take downsample).length = downsample := by
        rw [List.length_take]
        omega
      have rest : (xs.drop downsample).length = xs.length - downsample := List.length_drop
      have later := ih _ (by omega) (xs.drop downsample) rfl
      have count : xs.length / downsample = (xs.drop downsample).length / downsample + 1 := by
        rw [rest, Nat.div_eq_sub_div positive (by omega)]
      have cut := run_append (lowPassStep w downsample) .empty (xs.take downsample)
        (xs.drop downsample)
      rw [List.take_append_drop, boxcar_window lawful downsample _ window positive] at cut
      rw [cut, later, count, List.range_succ_eq_map, List.map_cons, List.map_map,
        List.singleton_append]
      simp only [Nat.mul_zero, List.drop_zero, Function.comp_def, List.drop_drop, Nat.mul_succ,
        Nat.add_comm downsample]

end Sums

/-! ### The rate of `low_pass_real` -/

section Rate

variable {fast slow : Nat} (positive : 1 ≤ slow) (down : slow ≤ fast) (small : fast < 2 ^ 30)

/-- The number of inputs up to the `k`-th output. -/
def inputsFor (fast slow k : Nat) : Nat := (k * fast + slow - 1) / slow

/-- The inputs after the `k`-th output, up to the next one. -/
def inputsOf (fast slow : Nat) (xs : List Int) (k : Nat) : List Int :=
  (xs.drop (inputsFor fast slow k)).take (inputsFor fast slow (k + 1) - inputsFor fast slow k)

/-- Their sum in an `int`, divided by the ratio of the rates, as an `int16_t` keeps it. -/
def resampled (fast slow : Nat) (xs : List Int) (k : Nat) : Int :=
  machine.int16 ((machine.int32 (inputsOf fast slow xs k).sum).tdiv (fast / slow : Nat))

include positive in
theorem inputsFor_le {n k : Nat} (reached : k * fast ≤ n * slow) : inputsFor fast slow k ≤ n := by
  have below : k * fast + slow - 1 < (n + 1) * slow := by
    rw [Nat.succ_mul]
    omega
  exact Nat.le_of_lt_succ ((Nat.div_lt_iff_lt_mul positive).mpr below)

include positive in
theorem inputsFor_eq {n k : Nat} (before : n * slow < k * fast)
    (reached : k * fast ≤ (n + 1) * slow) : inputsFor fast slow k = n + 1 := by
  apply Nat.le_antisymm (inputsFor_le positive reached)
  apply (Nat.le_div_iff_mul_le positive).mpr
  rw [Nat.succ_mul]
  omega

theorem inputsOf_append (xs ys : List Int) (k : Nat)
    (complete : inputsFor fast slow (k + 1) ≤ xs.length) :
    inputsOf fast slow (xs ++ ys) k = inputsOf fast slow xs k := by
  rw [inputsOf, inputsOf]
  by_cases early : inputsFor fast slow k ≤ xs.length
  · rw [List.drop_append_of_le_length early, List.take_append_of_le_length]
    rw [List.length_drop]
    omega
  · have nothing : inputsFor fast slow (k + 1) - inputsFor fast slow k = 0 := by omega
    rw [nothing, List.take_zero, List.take_zero]

theorem phase_more {phase : Nat} (more : phase % fast + slow < fast) :
    (phase + slow) / fast = phase / fast ∧ (phase + slow) % fast = phase % fast + slow := by
  have whole := Nat.div_add_mod phase fast
  exact (Nat.div_mod_unique (by omega)).mpr ⟨by omega, more⟩

include positive down in
theorem phase_full {phase : Nat} (full : ¬phase % fast + slow < fast) :
    (phase + slow) / fast = phase / fast + 1 ∧
      (phase + slow) % fast = phase % fast + slow - fast := by
  have whole := Nat.div_add_mod phase fast
  have within := Nat.mod_lt phase (by omega : 0 < fast)
  refine (Nat.div_mod_unique (by omega)).mpr ⟨?_, by omega⟩
  rw [Nat.mul_succ]
  omega

/-- The state and the outputs of `low_pass_real` after the inputs `xs`. -/
structure Resampled (fast slow : Nat) (xs : List Int) (s : Resample × List Int) : Prop where
  phase : s.1.prevLprIndex = (xs.length * slow % fast : Nat)
  count : s.2.length = xs.length * slow / fast
  pending : s.1.nowLpr =
    machine.int32 (xs.drop (inputsFor fast slow (xs.length * slow / fast))).sum
  given : s.2 = (List.range (xs.length * slow / fast)).map (resampled fast slow xs)

include positive down small in
theorem Resampled.step {xs : List Int} {s : Resample × List Int} (now : Resampled fast slow xs s)
    (x : Int) :
    Resampled fast slow (xs ++ [x])
      ((lowPassRealStep machine fast slow s.1 x).1,
        s.2 ++ (lowPassRealStep machine fast slow s.1 x).2) := by
  obtain ⟨phase, count, pending, given⟩ := now
  have within := Nat.mod_lt (xs.length * slow) (by omega : 0 < fast)
  have whole := Nat.div_add_mod (xs.length * slow) fast
  rw [Nat.mul_comm fast] at whole
  -- the phase is less than `fast`, so that the addition does not overflow
  have moved : s.1.add machine slow x =
      ⟨machine.int32 ((xs ++ [x]).drop (inputsFor fast slow (xs.length * slow / fast))).sum,
        (xs.length * slow % fast + slow : Nat)⟩ := by
    have read : inputsFor fast slow (xs.length * slow / fast) ≤ xs.length :=
      inputsFor_le positive (by omega)
    have sum : machine.int32 ((xs.length * slow % fast : Nat) + slow) =
        (xs.length * slow % fast + slow : Nat) := by
      rw [int32_eq (by omega) (by omega), Int.natCast_add]
    rw [Resample.add, phase, pending, machine_lawful.add, sum, List.drop_append_of_le_length read,
      List.sum_append, List.sum_singleton]
  have length : (xs ++ [x]).length * slow = xs.length * slow + slow := by
    rw [List.length_append, List.length_singleton, Nat.succ_mul]
  -- earlier outputs do not see the new input
  have earlier : (List.range (xs.length * slow / fast)).map (resampled fast slow (xs ++ [x])) =
      (List.range (xs.length * slow / fast)).map (resampled fast slow xs) := by
    apply List.map_congr_left
    intro k inside
    rw [List.mem_range] at inside
    have reached : (k + 1) * fast ≤ xs.length * slow := by
      calc (k + 1) * fast ≤ xs.length * slow / fast * fast := Nat.mul_le_mul_right _ inside
        _ ≤ xs.length * slow := Nat.div_mul_le_self _ _
    rw [resampled, resampled, inputsOf_append xs [x] k (inputsFor_le positive reached)]
  rw [lowPassRealStep, moved]
  dsimp only
  by_cases more : xs.length * slow % fast + slow < fast
  · obtain ⟨quotient, remainder⟩ := phase_more more
    rw [if_pos (by exact_mod_cast more), List.append_nil]
    refine ⟨?_, ?_, ?_, ?_⟩
    · rw [length, remainder]
    · rw [length, quotient]
      exact count
    · rw [length, quotient]
    · rw [length, quotient, earlier]
      exact given
  · obtain ⟨quotient, remainder⟩ := phase_full positive down more
    have next : inputsFor fast slow (xs.length * slow / fast + 1) = xs.length + 1 := by
      apply inputsFor_eq positive
      · rw [Nat.succ_mul]
        omega
      · rw [Nat.succ_mul, Nat.succ_mul]
        omega
    have ratio : ((fast : Int).tdiv slow) = (fast / slow : Nat) := by
      rw [Int.tdiv_eq_ediv_of_nonneg (Int.natCast_nonneg fast)]
      exact (Int.natCast_div fast slow).symm
    have emptied : ((xs ++ [x]).drop (xs.length + 1)).sum = 0 := by
      rw [List.drop_of_length_le (by rw [List.length_append, List.length_singleton]),
        List.sum_nil]
    rw [if_neg (by exact_mod_cast more), ratio]
    refine ⟨?_, ?_, ?_, ?_⟩
    · rw [length, remainder]
      dsimp only
      rw [int32_eq (by omega) (by omega)]
      omega
    · rw [length, quotient, List.length_append, count, List.length_singleton]
    · rw [length, quotient, next, emptied]
      rfl
    · rw [length, quotient, List.range_succ, List.map_append, earlier, given, List.map_singleton,
        resampled, inputsOf, next, List.take_of_length_le]
      rw [List.length_drop, List.length_append, List.length_singleton]

include positive down small in
theorem resampled_stream (xs : List Int) :
    Resampled fast slow xs (run (lowPassRealStep machine fast slow) .empty xs) := by
  apply run_history (lowPassRealStep machine fast slow) (Resampled fast slow) .empty
  · refine ⟨?_, ?_, ?_, ?_⟩
    · rw [List.length_nil, Nat.zero_mul, Nat.zero_mod]
      rfl
    · rw [List.length_nil, Nat.zero_mul, Nat.zero_div]
    · rw [List.drop_nil]
      rfl
    · rw [List.length_nil, Nat.zero_mul, Nat.zero_div]
      rfl
  · intro before x _ _ now
    rw [run_concat]
    exact now.step positive down small x

end Rate

/-! ### Streams and blocks -/

/-- The three decimators answer to the stream, not to its blocks; the outputs of `low_pass` and
of `low_pass_real` are sums of consecutive inputs. -/
theorem decimators_stream (downsample fast slow : Nat) (window : 1 ≤ downsample)
    (positive : 1 ≤ slow) (down : slow ≤ fast) (small : fast < 2 ^ 30) :
    (∀ acc blocks, run (lowPassBlock machine downsample) acc blocks =
      lowPassBlock machine downsample acc blocks.flatten) ∧
    (∀ fir hist base blocks, base = 0 ∨ base = 1 →
      run (firBlock machine fir base) hist blocks =
        firBlock machine fir base hist blocks.flatten) ∧
    (∀ acc blocks, run (lowPassRealBlock machine fast slow) acc blocks =
      lowPassRealBlock machine fast slow acc blocks.flatten) ∧
    (∀ xs, (lowPassBlock machine downsample .empty xs).2 =
      (List.range (xs.length / downsample)).map fun k =>
        windowSum machine ((xs.drop (downsample * k)).take downsample)) ∧
    (∀ xs, (lowPassRealBlock machine fast slow .empty xs).2 =
      (List.range (xs.length * slow / fast)).map (resampled fast slow xs)) ∧
    ∀ xs k, -2147483648 ≤ (inputsOf fast slow xs k).sum →
      (inputsOf fast slow xs k).sum < 2147483648 →
      IsInt16 ((inputsOf fast slow xs k).sum.tdiv (fast / slow : Nat)) →
      resampled fast slow xs k = (inputsOf fast slow xs k).sum.tdiv (fast / slow : Nat) := by
  refine ⟨?_, ?_, ?_, ?_, ?_, ?_⟩
  · intro acc blocks
    rw [lowPassBlock_eq, run_flatten (lowPassStep machine downsample)]
    intro acc block _
    exact lowPassBlock_eq machine downsample acc block
  · intro fir hist base blocks component
    rw [firBlock_eq machine fir base component, run_flatten (firStep machine fir)]
    intro hist block _
    exact firBlock_eq machine fir base component hist block
  · intro acc blocks
    rw [lowPassRealBlock_eq, run_flatten (lowPassRealStep machine fast slow)]
    intro acc block _
    exact lowPassRealBlock_eq machine fast slow acc block
  · intro xs
    rw [lowPassBlock_eq, boxcar_stream machine_lawful downsample window]
  · intro xs
    rw [lowPassRealBlock_eq, (resampled_stream positive down small xs).given]
  · intro xs k low high fits
    rw [resampled, int32_eq low high, int16_eq fits]

/-- Blocks that end within a sum. -/
theorem decimators_stream_cut :
    run (lowPassBlock machine 2) .empty [[(1, 2)], [(3, 4), (5, 6)]] =
        lowPassBlock machine 2 .empty [(1, 2), (3, 4), (5, 6)] ∧
      run (lowPassRealBlock machine 3 2) .empty [[10], [20, 30], [40]] =
        lowPassRealBlock machine 3 2 .empty [10, 20, 30, 40] ∧
      (lowPassRealBlock machine 3 2 .empty [10, 20, 30, 40]).2 =
        (List.range 2).map (resampled 3 2 [10, 20, 30, 40]) := by
  obtain ⟨boxcar, _, real, _, values, _⟩ :=
    decimators_stream 2 3 2 (by decide) (by decide) (by decide) (by decide)
  exact ⟨boxcar .empty _, real .empty _, values _⟩

/-- Two inputs for a ratio of one: the quotient does not fit an `int16_t`. -/
theorem lowPassReal_wraps :
    (lowPassRealBlock machine 3 2 .empty [32767, 32767]).2 = [-2] ∧
      (inputsOf 3 2 [32767, 32767] 0).sum.tdiv (3 / 2 : Nat) = 65534 := by
  decide +kernel

/-! ### The seam of `fifth_order` -/

/-- A history of zeros stays one through a block that is silent up to its last sample. -/
theorem fifthStep_zeros (k : Nat) :
    run (fifthStep machine) .empty (List.replicate k (0, 0)) = (.empty, List.replicate k 0) := by
  induction k with
  | zero => rfl
  | succ k ih =>
    have step : fifthStep machine .empty (0, 0) = (.empty, [0]) := by decide +kernel
    rw [List.replicate_succ, run_cons, step, ih, List.replicate_succ]
    rfl

theorem pairs_zeros (k : Nat) (rest : List Int) :
    pairs (List.replicate (2 * k) 0 ++ rest) = List.replicate k (0, 0) ++ pairs rest := by
  induction k with
  | zero => rfl
  | succ k ih =>
    rw [Nat.mul_succ, List.replicate_succ, List.replicate_succ, List.cons_append,
      List.cons_append, pairs, ih, List.replicate_succ, List.cons_append]

/-- The last sample of a block does not get into the history. -/
theorem fifthCall_last (k : Nat) (last : Int) :
    fifthCall machine .empty (List.replicate (2 * k + 1) 0 ++ [last]) =
      (.empty, List.replicate (k + 1) 0) := by
  have single : pairs [last] = [] := rfl
  have first : Taps.empty.first 0 = .empty := rfl
  have output : Taps.empty.sum machine = 0 := by decide +kernel
  rw [List.replicate_succ, List.cons_append, fifthCall, first, pairs_zeros, single,
    List.append_nil, fifthStep_zeros, output, List.replicate_succ]

/-- In one call it is a tap of the next output. -/
theorem fifthCall_through (k : Nat) (rest : List Int) :
    50 ∈ (fifthCall machine .empty (List.replicate (2 * k + 1) 0 ++ 160 :: 0 :: rest)).2 := by
  have first : Taps.empty.first 0 = .empty := rfl
  have next : fifthStep machine .empty (160, 0) = (⟨0, 0, 0, 0, 160, 0⟩, [50]) := by
    decide +kernel
  rw [List.replicate_succ, List.cons_append, fifthCall, first, pairs_zeros, pairs, run_append,
    fifthStep_zeros, run_cons, next]
  simp

theorem silent_blocks (base : Int) (component : base = 0 ∨ base = 1) (sizes : List Nat)
    (even : ∀ n ∈ sizes, n ≠ 0 ∧ n % 2 = 0) :
    ∀ y ∈ (run (fifthBlock machine base) .empty (sizes.map fun n => List.replicate n 0)).2,
      y = 0 := by
  induction sizes with
  | nil =>
    intro y member
    cases member
  | cons n sizes ih =>
    obtain ⟨some, whole⟩ := even n List.mem_cons_self
    have rest := ih fun m member => even m (List.mem_cons_of_mem n member)
    obtain ⟨k, rfl⟩ : ∃ k, n = 2 * k + 1 + 1 := ⟨n / 2 - 1, by omega⟩
    have block : fifthBlock machine base .empty (List.replicate (2 * k + 1 + 1) 0) =
        (.empty, List.replicate (k + 1) 0) := by
      rw [fifthBlock_eq machine base component .empty _ (by simp)
        (by rw [List.length_replicate]; omega), List.replicate_succ', fifthCall_last]
    intro y member
    rw [List.map_cons, run_cons, block, List.mem_append] at member
    rcases member with here | later
    · exact List.eq_of_mem_replicate here
    · exact rest y later

theorem silence_even (sizes : List Nat) (even : ∀ n ∈ sizes, n ≠ 0 ∧ n % 2 = 0) :
    (sizes.map fun n => List.replicate n (0 : Int)).flatten.length % 2 = 0 := by
  induction sizes with
  | nil => rfl
  | cons n sizes ih =>
    have here := (even n List.mem_cons_self).2
    have later := ih fun m member => even m (List.mem_cons_of_mem n member)
    rw [List.map_cons, List.flatten_cons, List.length_append, List.length_replicate]
    omega

/-- One sample before the first boundary, and silence. -/
def impulse (k : Nat) (sizes : List Nat) : List (List Int) :=
  (List.replicate (2 * k + 1) 0 ++ [160]) :: sizes.map fun n => List.replicate n 0

theorem impulse_int16 (k : Nat) (sizes : List Nat) :
    ∀ block ∈ impulse k sizes, ∀ x ∈ block, IsInt16 x := by
  intro block member x inside
  have values : x = 0 ∨ x = 160 := by
    rw [impulse, List.mem_cons, List.mem_map] at member
    rcases member with rfl | ⟨_, _, rfl⟩
    · rw [List.mem_append, List.mem_singleton] at inside
      exact inside.imp List.eq_of_mem_replicate id
    · exact .inl (List.eq_of_mem_replicate inside)
  rcases values with rfl | rfl
  · decide
  · decide

theorem impulse_blocks (base : Int) (component : base = 0 ∨ base = 1) (k : Nat) (sizes : List Nat)
    (even : ∀ n ∈ sizes, n ≠ 0 ∧ n % 2 = 0) :
    ∀ y ∈ (run (fifthBlock machine base) .empty (impulse k sizes)).2, y = 0 := by
  have first : fifthBlock machine base .empty (List.replicate (2 * k + 1) 0 ++ [160]) =
      (.empty, List.replicate (k + 1) 0) := by
    rw [fifthBlock_eq machine base component .empty _ (by simp)
      (by rw [List.length_append, List.length_replicate, List.length_singleton]; omega),
      fifthCall_last]
  intro y member
  rw [impulse, run_cons, first, List.mem_append] at member
  rcases member with here | later
  · exact List.eq_of_mem_replicate here
  · exact silent_blocks base component sizes even y later

theorem impulse_whole (base : Int) (component : base = 0 ∨ base = 1) (k m : Nat)
    (sizes : List Nat) (even : ∀ n ∈ m :: sizes, n ≠ 0 ∧ n % 2 = 0) :
    50 ∈ (fifthBlock machine base .empty (impulse k (m :: sizes)).flatten).2 := by
  obtain ⟨j, rfl⟩ : ∃ j, m = j + 1 := by
    have some := (even m List.mem_cons_self).1
    exact ⟨m - 1, by omega⟩
  have length := silence_even ((j + 1) :: sizes) even
  have total : (impulse k ((j + 1) :: sizes)).flatten =
      List.replicate (2 * k + 1) 0 ++ 160 :: 0 :: (List.replicate j 0 ++
        (sizes.map fun n => List.replicate n (0 : Int)).flatten) := by
    have next : List.replicate (j + 1) (0 : Int) = 0 :: List.replicate j 0 := rfl
    rw [impulse, List.flatten_cons, List.map_cons, List.flatten_cons, next, List.append_assoc,
      List.singleton_append, List.cons_append]
  have count : (impulse k ((j + 1) :: sizes)).flatten.length % 2 = 0 := by
    rw [impulse, List.flatten_cons, List.length_append, List.length_append, List.length_replicate,
      List.length_singleton]
    omega
  rw [fifthBlock_eq machine base component .empty _ (by rw [total]; simp) count, total]
  exact fifthCall_through k _

/-- The outputs over blocks are those of one call on the whole stream, for every stream, only if
there is no boundary. -/
theorem fifthOrder_blocks_iff (base : Int) (component : base = 0 ∨ base = 1) (sizes : List Nat)
    (even : ∀ n ∈ sizes, n ≠ 0 ∧ n % 2 = 0) :
    (∀ (hist : Taps) (blocks : List (List Int)), blocks.map List.length = sizes →
      (∀ block ∈ blocks, ∀ x ∈ block, IsInt16 x) →
      (run (fifthBlock machine base) hist blocks).2 =
        (fifthBlock machine base hist blocks.flatten).2) ↔
      sizes.length ≤ 1 := by
  constructor
  · intro same
    by_contra several
    obtain ⟨n, m, sizes, rfl⟩ : ∃ n m rest, sizes = n :: m :: rest := by
      cases sizes with
      | nil => simp at several
      | cons n sizes =>
        cases sizes with
        | nil => simp at several
        | cons m sizes => exact ⟨n, m, sizes, rfl⟩
    obtain ⟨some, whole⟩ := even n List.mem_cons_self
    have rest : ∀ n ∈ m :: sizes, n ≠ 0 ∧ n % 2 = 0 :=
      fun n member => even n (List.mem_cons_of_mem _ member)
    -- an impulse in the last sample before the first seam is lost only if the stream is cut there
    obtain ⟨k, rfl⟩ : ∃ k, n = 2 * k + 1 + 1 := ⟨n / 2 - 1, by omega⟩
    have cut := same .empty (impulse k (m :: sizes)) (by simp [impulse, Function.comp_def])
      (impulse_int16 k (m :: sizes))
    have loud := impulse_whole base component k m sizes rest
    rw [← cut] at loud
    exact absurd (impulse_blocks base component k (m :: sizes) rest 50 loud) (by decide)
  · intro single hist blocks shape _
    have few : blocks.length ≤ 1 := by
      rw [← shape, List.length_map] at single
      exact single
    cases blocks with
    | nil => rfl
    | cons block blocks =>
      cases blocks with
      | nil => rw [run_singleton, List.flatten_cons, List.flatten_nil, List.append_nil]
      | cons next blocks => simp at few

theorem fifthOrder_blocks_single :
    (run (fifthBlock machine 0) .empty [[3, 5, 7, 9]]).2 =
      (fifthBlock machine 0 .empty [[3, 5, 7, 9]].flatten).2 :=
  (fifthOrder_blocks_iff 0 (.inl rfl) [4] (by decide)).mpr (by decide) .empty [[3, 5, 7, 9]] rfl
    (by decide)

/-- A sample before a boundary is lost. -/
theorem fifthOrder_seam :
    (run (fifthBlock machine 0) .empty [[0, 160], [0, 0]]).2 = [0, 0] ∧
      (fifthBlock machine 0 .empty [0, 160, 0, 0]).2 = [0, 50] := by
  decide +kernel

end RtlSdr.Fm
