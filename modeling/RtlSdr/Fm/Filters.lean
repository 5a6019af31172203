import RtlSdr.Lib.Loops

/-!
# The filters of rtl_fm

`low_pass`, `low_pass_real`, `fifth_order` and `generic_fir` work in place: each reads an array
from its start and stores fewer or as many values to the same array, behind the position it reads
from. Each function is given here as the source has it, next to the transducer it computes.
-/
namespace RtlSdr.Fm

open Checked CArray

def defaultBufLength : Int := 1 * 16384

def maximumOversample : Int := 16

def maximumBufLength : Int := maximumOversample * defaultBufLength

theorem maximumBufLength_eq : maximumBufLength = 262144 := rfl

/-- The contents of `lowpassed` or `result`. -/
abbrev Buf := Int → Int

/-- What is kept of a value by an object of type `int16_t` and one of type `int`. -/
structure Words where
  int16 : Int → Int
  int32 : Int → Int

/-- Two's complement. -/
def machine : Words where
  int16 x := x.bmod 65536
  int32 x := x.bmod 4294967296

/-- The same code in unbounded integers. -/
def unbounded : Words where
  int16 x := x
  int32 x := x

/-- Complex samples as they stand in an array. -/
def interleave : List (Int × Int) → List Int
  | [] => []
  | x :: xs => x.1 :: x.2 :: interleave xs

@[simp] theorem interleave_length (xs : List (Int × Int)) :
    (interleave xs).length = 2 * xs.length := by
  induction xs with
  | nil => rfl
  | cons x xs ih =>
    rw [interleave, List.length_cons, List.length_cons, List.length_cons, ih]
    omega

theorem interleave_append (xs ys : List (Int × Int)) :
    interleave (xs ++ ys) = interleave xs ++ interleave ys := by
  induction xs with
  | nil => rfl
  | cons x xs ih => rw [List.cons_append, interleave, interleave, ih, List.cons_append,
      List.cons_append]

/-! ### `low_pass` -/

/-- `now_r`, `now_j` and `prev_index`. -/
structure Boxcar where
  nowR : Int
  nowJ : Int
  prevIndex : Int
deriving DecidableEq

def Boxcar.empty : Boxcar := ⟨0, 0, 0⟩

def Boxcar.add (w : Words) (acc : Boxcar) (x : Int × Int) : Boxcar :=
  ⟨w.int32 (acc.nowR + x.1), w.int32 (acc.nowJ + x.2), acc.prevIndex + 1⟩

/-- The variables of the loop of `low_pass`. -/
structure LowPass where
  i : Int
  i2 : Int
  acc : Boxcar
  lowpassed : Buf

def lowPassRound (w : Words) (downsample : Int) (s : LowPass) : Checked LowPass := do
  let r ← load maximumBufLength s.lowpassed s.i
  let j ← load maximumBufLength s.lowpassed (s.i + 1)
  let acc := s.acc.add w (r, j)
  if acc.prevIndex < downsample then
    pure { s with i := s.i + 2, acc }
  else do
    let lowpassed ← save maximumBufLength s.lowpassed s.i2 (w.int16 acc.nowR)
    let lowpassed ← save maximumBufLength lowpassed (s.i2 + 1) (w.int16 acc.nowJ)
    pure ⟨s.i + 2, s.i2 + 2, .empty, lowpassed⟩

/-- Simple square window FIR. The last component of the result is the new `lp_len`. -/
def lowPass (w : Words) (downsample lpLen : Int) (acc : Boxcar) (lowpassed : Buf) :
    Checked (Boxcar × Buf × Int) := do
  let s ← whileLoop (fun s => s.i < lpLen) (lowPassRound w downsample) lpLen.toNat
    ⟨0, 0, acc, lowpassed⟩
  pure (s.acc, s.lowpassed, s.i2)

/-- What `low_pass` does with one complex sample. -/
def lowPassStep (w : Words) (downsample : Int) (acc : Boxcar) (x : Int × Int) :
    Boxcar × List (Int × Int) :=
  let acc := acc.add w x
  if acc.prevIndex < downsample then (acc, [])
  else (.empty, [(w.int16 acc.nowR, w.int16 acc.nowJ)])

/-- The loop with the samples `xs` before it and the sums `out` behind it. -/
structure LowPass.At (lpLen : Int) (acc : Boxcar) (xs out : List (Int × Int)) (s : LowPass) :
    Prop where
  acc : s.acc = acc
  stored : s.i2 = 2 * out.length
  behind : s.i2 ≤ s.i
  left : s.i + 2 * xs.length = lpLen
  inputs : Holds s.lowpassed 1 s.i (interleave xs)
  outputs : Holds s.lowpassed 1 0 (interleave out)

theorem lowPassRound_at (w : Words) (downsample lpLen : Int) (acc : Boxcar) (x : Int × Int)
    (xs out : List (Int × Int)) (s : LowPass) (now : s.At lpLen acc (x :: xs) out) :
    (lowPassRound w downsample s).value.At lpLen (lowPassStep w downsample acc x).1 xs
      (out ++ (lowPassStep w downsample acc x).2) := by
  obtain ⟨rfl, stored, behind, left, inputs, outputs⟩ := now
  obtain ⟨real, imaginary, inputs⟩ := inputs
  have sample : (s.lowpassed s.i, s.lowpassed (s.i + 1)) = x := Prod.ext real imaginary
  rw [List.length_cons] at left
  have rest : s.i + 1 + 1 = s.i + 2 := by omega
  rw [rest] at inputs
  have next : (lowPassRound w downsample s).value =
      if (s.acc.add w x).prevIndex < downsample then ⟨s.i + 2, s.i2, s.acc.add w x, s.lowpassed⟩
      else ⟨s.i + 2, s.i2 + 2, .empty,
        Function.update (Function.update s.lowpassed s.i2 (w.int16 (s.acc.add w x).nowR))
          (s.i2 + 1) (w.int16 (s.acc.add w x).nowJ)⟩ := by
    rw [← sample]
    exact apply_ite Checked.value _ _ _
  rw [next, lowPassStep]
  split_ifs with more
  · rw [List.append_nil]
    exact ⟨rfl, stored, by dsimp only; omega, by dsimp only; omega, inputs, outputs⟩
  · -- the pair goes behind the sums so far, where the samples have been read
    have first := (outputs.push (x := w.int16 (s.acc.add w x).nowR) Int.one_pos).push
      (x := w.int16 (s.acc.add w x).nowJ) Int.one_pos
    rw [List.length_append, interleave_length, List.append_assoc] at first
    have place : (0 : Int) + 1 * (2 * out.length : Nat) = s.i2 := by omega
    have place' : (0 : Int) + 1 * (2 * out.length + [w.int16 (s.acc.add w x).nowR].length : Nat) =
        s.i2 + 1 := by
      rw [List.length_singleton]
      omega
    rw [place, place'] at first
    refine ⟨rfl, ?_, by dsimp only; omega, by dsimp only; omega, ?_, ?_⟩
    · rw [List.length_append, List.length_singleton]
      dsimp only
      omega
    · refine (inputs.update ?_).update ?_
      · intro k _
        omega
      · intro k _
        omega
    · rw [interleave_append]
      exact first

variable {acc : Boxcar} {lpLen resultLen : Int} {s : LowPass} {x : Int × Int} {before : Buf}

theorem LowPass.At.done {out : List (Int × Int)} (now : s.At lpLen acc [] out) :
    decide (s.i < lpLen) = false := by
  have left := now.left
  rw [List.length_nil] at left
  exact decide_eq_false (by omega)

variable {out : List Int}

theorem LowPass.At.going {xs out : List (Int × Int)} (now : s.At lpLen acc (x :: xs) out) :
    s.i + 1 < lpLen := by
  have left := now.left
  rw [List.length_cons] at left
  omega

theorem lowPass_value (w : Words) (downsample : Int) (acc : Boxcar) (xs : List (Int × Int))
    (lowpassed : Buf) (holds : Holds lowpassed 1 0 (interleave xs)) :
    let run := Transducer.run (lowPassStep w downsample) acc xs
    let call := (lowPass w downsample (2 * xs.length) acc lowpassed).value
    call.1 = run.1 ∧ call.2.2 = 2 * run.2.length ∧ Holds call.2.1 1 0 (interleave run.2) := by
  have ended := whileLoop_run (fun s : LowPass => s.i < 2 * (xs.length : Int))
    (lowPassRound w downsample) (lowPassStep w downsample)
    (fun acc xs' out s => s.At (2 * xs.length) acc xs' out)
    (fun acc out s now => now.done)
    (fun acc x xs' out s now => by
      have going := now.going
      exact ⟨decide_eq_true (by omega), lowPassRound_at w downsample _ acc x xs' out s now⟩)
    xs acc [] ⟨0, 0, acc, lowpassed⟩
    ⟨rfl, rfl, Int.le_refl _, by dsimp only; omega, holds, trivial⟩
    (2 * (xs.length : Int)).toNat (by omega)
  rw [List.nil_append] at ended
  exact ⟨ended.acc, ended.stored, ended.outputs⟩

theorem lowPassRound_exact (w : Words) (downsample : Int) (s : LowPass) (low : 0 ≤ s.i2)
    (behind : s.i2 ≤ s.i) (high : s.i + 1 < maximumBufLength) :
    (lowPassRound w downsample s).exact = true := by
  rw [lowPassRound, load_eq (by omega) (by omega), pure_bind, load_eq (by omega) high, pure_bind]
  dsimp only
  split_ifs
  · rfl
  · rw [save_eq low (by omega), pure_bind, save_eq (by omega) (by omega), pure_bind]
    rfl

theorem exists_interleave (buf : Buf) (i : Int) (n : Nat) :
    ∃ xs : List (Int × Int), xs.length = n ∧ Holds buf 1 i (interleave xs) := by
  induction n generalizing i with
  | zero => exact ⟨[], rfl, trivial⟩
  | succ n ih =>
    obtain ⟨xs, count, holds⟩ := ih (i + 1 + 1)
    exact ⟨(buf i, buf (i + 1)) :: xs, by rw [List.length_cons, count], rfl, rfl, holds⟩

theorem lowPass_exact (w : Words) (downsample : Int) (acc : Boxcar) (lowpassed : Buf) (n : Nat)
    (fits : 2 * (n : Int) ≤ maximumBufLength) :
    (lowPass w downsample (2 * n) acc lowpassed).exact = true := by
  obtain ⟨xs, count, holds⟩ := exists_interleave lowpassed 0 n
  rw [lowPass, exact_bind, exact_pure, Bool.and_true]
  apply whileLoop_run_exact _ _ (lowPassStep w downsample)
    (fun acc xs out s => s.At (2 * n) acc xs out) (fun acc out s now => now.done) ?_ xs acc []
  · exact ⟨rfl, rfl, Int.le_refl _, by dsimp only; omega, holds, trivial⟩
  · omega
  · intro acc x xs out s now
    have going := now.going
    have stored := now.stored
    exact ⟨lowPassRound_exact w downsample s (by omega) now.behind (by omega),
      lowPassRound_at w downsample _ acc x xs out s now⟩

/-! ### `low_pass_real` -/

/-- `now_lpr` and `prev_lpr_index`. -/
structure Resample where
  nowLpr : Int
  prevLprIndex : Int
deriving DecidableEq

def Resample.empty : Resample := ⟨0, 0⟩

def Resample.add (w : Words) (slow : Int) (acc : Resample) (x : Int) : Resample :=
  ⟨w.int32 (acc.nowLpr + x), w.int32 (acc.prevLprIndex + slow)⟩

/-- The variables of the loop of `low_pass_real`. -/
structure LowPassReal where
  i : Int
  i2 : Int
  acc : Resample
  result : Buf

def lowPassRealRound (w : Words) (fast slow : Int) (s : LowPassReal) : Checked LowPassReal := do
  let x ← load maximumBufLength s.result s.i
  let acc := s.acc.add w slow x
  if acc.prevLprIndex < fast then
    pure { s with i := s.i + 1, acc }
  else do
    let ratio ← divide fast slow
    let quotient ← divide acc.nowLpr ratio
    let result ← save maximumBufLength s.result s.i2 (w.int16 quotient)
    pure ⟨s.i + 1, s.i2 + 1, ⟨0, w.int32 (acc.prevLprIndex - fast)⟩, result⟩

/-- Simple square window FIR. The last component of the result is the new `result_len`. -/
def lowPassReal (w : Words) (rateOut rateOut2 resultLen : Int) (acc : Resample) (result : Buf) :
    Checked (Resample × Buf × Int) := do
  let s ← whileLoop (fun s => s.i < resultLen) (lowPassRealRound w rateOut rateOut2)
    resultLen.toNat ⟨0, 0, acc, result⟩
  pure (s.acc, s.result, s.i2)

/-- What `low_pass_real` does with one value. -/
def lowPassRealStep (w : Words) (fast slow : Int) (acc : Resample) (x : Int) :
    Resample × List Int :=
  let acc := acc.add w slow x
  if acc.prevLprIndex < fast then (acc, [])
  else (⟨0, w.int32 (acc.prevLprIndex - fast)⟩, [w.int16 (acc.nowLpr.tdiv (fast.tdiv slow))])

/-- The loop with the values `xs` before it and the quotients `out` behind it. -/
structure LowPassReal.At (resultLen : Int) (acc : Resample) (xs out : List Int)
    (s : LowPassReal) : Prop where
  acc : s.acc = acc
  stored : s.i2 = out.length
  behind : s.i2 ≤ s.i
  left : s.i + xs.length = resultLen
  inputs : Holds s.result 1 s.i xs
  outputs : Holds s.result 1 0 out

theorem lowPassRealRound_at (w : Words) (fast slow resultLen : Int) (acc : Resample) (x : Int)
    (xs out : List Int) (s : LowPassReal) (now : s.At resultLen acc (x :: xs) out) :
    (lowPassRealRound w fast slow s).value.At resultLen (lowPassRealStep w fast slow acc x).1 xs
      (out ++ (lowPassRealStep w fast slow acc x).2) := by
  obtain ⟨rfl, stored, behind, left, ⟨sample, inputs⟩, outputs⟩ := now
  rw [List.length_cons] at left
  have next : (lowPassRealRound w fast slow s).value =
      if (s.acc.add w slow x).prevLprIndex < fast then
        ⟨s.i + 1, s.i2, s.acc.add w slow x, s.result⟩
      else ⟨s.i + 1, s.i2 + 1, ⟨0, w.int32 ((s.acc.add w slow x).prevLprIndex - fast)⟩,
        Function.update s.result s.i2
          (w.int16 ((s.acc.add w slow x).nowLpr.tdiv (fast.tdiv slow)))⟩ := by
    rw [← sample]
    exact apply_ite Checked.value _ _ _
  rw [next, lowPassRealStep]
  split_ifs with more
  · rw [List.append_nil]
    exact ⟨rfl, stored, by dsimp only; omega, by dsimp only; omega, inputs, outputs⟩
  · have pushed := outputs.push
      (x := w.int16 ((s.acc.add w slow x).nowLpr.tdiv (fast.tdiv slow))) Int.one_pos
    have place : (0 : Int) + 1 * out.length = s.i2 := by omega
    rw [place] at pushed
    refine ⟨rfl, ?_, by dsimp only; omega, by dsimp only; omega, inputs.update ?_, pushed⟩
    · rw [List.length_append, List.length_singleton]
      dsimp only
      omega
    · intro k _
      omega

theorem LowPassReal.At.done {acc : Resample} {s : LowPassReal} (now : s.At resultLen acc [] out) :
    decide (s.i < resultLen) = false := by
  have left := now.left
  rw [List.length_nil] at left
  exact decide_eq_false (by omega)

theorem LowPassReal.At.going {acc : Resample} {x : Int} {xs : List Int} {s : LowPassReal}
    (now : s.At resultLen acc (x :: xs) out) : s.i < resultLen := by
  have left := now.left
  rw [List.length_cons] at left
  omega

theorem lowPassReal_value (w : Words) (fast slow : Int) (acc : Resample) (xs : List Int)
    (result : Buf) (holds : Holds result 1 0 xs) :
    let run := Transducer.run (lowPassRealStep w fast slow) acc xs
    let call := (lowPassReal w fast slow xs.length acc result).value
    call.1 = run.1 ∧ call.2.2 = run.2.length ∧ Holds call.2.1 1 0 run.2 := by
  have ended := whileLoop_run (fun s : LowPassReal => s.i < (xs.length : Int))
    (lowPassRealRound w fast slow) (lowPassRealStep w fast slow)
    (fun acc xs' out s => s.At xs.length acc xs' out)
    (fun acc out s now => now.done)
    (fun acc x xs' out s now =>
      ⟨decide_eq_true now.going, lowPassRealRound_at w fast slow _ acc x xs' out s now⟩)
    xs acc [] ⟨0, 0, acc, result⟩
    ⟨rfl, rfl, Int.le_refl _, Int.zero_add _, holds, trivial⟩
    (xs.length : Int).toNat (by omega)
  rw [List.nil_append] at ended
  exact ⟨ended.acc, ended.stored, ended.outputs⟩

theorem lowPassRealRound_exact (w : Words) (fast slow : Int) (s : LowPassReal) (low : 0 ≤ s.i2)
    (behind : s.i2 ≤ s.i) (high : s.i < maximumBufLength) (nonzero : slow ≠ 0)
    (ratio : fast.tdiv slow ≠ 0) : (lowPassRealRound w fast slow s).exact = true := by
  rw [lowPassRealRound, load_eq (by omega) (by omega), pure_bind]
  dsimp only
  split_ifs
  · rfl
  · rw [divide_eq nonzero, pure_bind, divide_eq ratio, pure_bind, save_eq low (by omega),
      pure_bind]
    rfl

theorem lowPassReal_exact (w : Words) (fast slow : Int) (acc : Resample) (result : Buf) (n : Nat)
    (fits : (n : Int) ≤ maximumBufLength) (nonzero : slow ≠ 0) (ratio : fast.tdiv slow ≠ 0) :
    (lowPassReal w fast slow n acc result).exact = true := by
  rw [lowPassReal, exact_bind, exact_pure, Bool.and_true]
  apply whileLoop_run_exact _ _ (lowPassRealStep w fast slow)
    (fun acc xs out s => s.At n acc xs out) (fun acc out s now => now.done) ?_
    (gather result 1 0 n) acc []
  · exact ⟨rfl, rfl, Int.le_refl _, by dsimp only; rw [gather_length]; omega, holds_gather n,
      trivial⟩
  · rw [gather_length]
    omega
  · intro acc x xs out s now
    have going := now.going
    have stored := now.stored
    exact ⟨lowPassRealRound_exact w fast slow s (by omega) now.behind (by omega) nonzero ratio,
      lowPassRealRound_at w fast slow _ acc x xs out s now⟩

/-! ### `fifth_order` -/

/-- The variables `a` to `f` of `fifth_order`, which it keeps in `hist[0]` to `hist[5]`. -/
structure Taps where
  a : Int
  b : Int
  c : Int
  d : Int
  e : Int
  f : Int
deriving DecidableEq

def Taps.empty : Taps := ⟨0, 0, 0, 0, 0, 0⟩

/-- The start of a call: `hist[1]` to `hist[5]` and one sample. -/
def Taps.first (hist : Taps) (f : Int) : Taps := ⟨hist.b, hist.c, hist.d, hist.e, hist.f, f⟩

def Taps.next (t : Taps) (e f : Int) : Taps := ⟨t.c, t.d, t.e, t.f, e, f⟩

/-- A downsample should improve resolution, so it is not fully shifted. -/
def Taps.sum (w : Words) (t : Taps) : Int :=
  w.int16 ((t.a + (t.b + t.e) * 5 + (t.c + t.d) * 10 + t.f) >>> (4 : Nat))

/-- The variables of the loop of `fifth_order`. -/
structure FifthOrder where
  i : Int
  taps : Taps
  data : Buf

def fifthOrderRound (w : Words) (base : Int) (s : FifthOrder) : Checked FifthOrder := do
  let e ← load maximumBufLength s.data (base + (s.i - 2))
  let f ← load maximumBufLength s.data (base + s.i)
  let taps := s.taps.next e f
  let data ← save maximumBufLength s.data (base + s.i / 2) (taps.sum w)
  pure ⟨s.i + 4, taps, data⟩

/-- For half of interleaved data, which begins at `base`. The result is the array and the new
history. -/
def fifthOrder (w : Words) (data : Buf) (base length : Int) (hist : Taps) :
    Checked (Buf × Taps) := do
  let f ← load maximumBufLength data base
  let taps := hist.first f
  let data ← save maximumBufLength data base (taps.sum w)
  let s ← whileLoop (fun s => s.i < length) (fifthOrderRound w base) length.toNat ⟨4, taps, data⟩
  pure (s.data, s.taps)

/-- What the loop does with two samples. -/
def fifthStep (w : Words) (taps : Taps) (x : Int × Int) : Taps × List Int :=
  (taps.next x.1 x.2, [(taps.next x.1 x.2).sum w])

/-- The values two by two; an odd one at the end is not looked at. -/
def pairs : List Int → List (Int × Int)
  | x :: y :: rest => (x, y) :: pairs rest
  | _ => []

/-- The history and the outputs of one call on the samples of one component. -/
def fifthCall (w : Words) (hist : Taps) : List Int → Taps × List Int
  | [] => (hist, [])
  | x :: rest =>
    let run := Transducer.run (fifthStep w) (hist.first x) (pairs rest)
    (run.1, (hist.first x).sum w :: run.2)

/-- The loop with the pairs `xs` before it and the outputs `out` behind it. The other component
is as it was `before`. -/
structure FifthOrder.At (before : Buf) (base length : Int) (taps : Taps) (xs : List (Int × Int))
    (out : List Int) (s : FifthOrder) : Prop where
  taps : s.taps = taps
  stored : s.i = 4 * out.length
  some : out ≠ []
  left : length ≤ s.i + 4 * xs.length ∧ s.i + 4 * xs.length - 4 < length
  inputs : Holds s.data 2 (base + (s.i - 2)) (interleave xs)
  outputs : Holds s.data 2 base out
  other : ∀ j, (j - base) % 2 = 1 → s.data j = before j

theorem fifthOrderRound_at (w : Words) (before : Buf) (base length : Int) (taps : Taps)
    (x : Int × Int) (xs : List (Int × Int)) (out : List Int) (s : FifthOrder)
    (now : s.At before base length taps (x :: xs) out) :
    (fifthOrderRound w base s).value.At before base length (fifthStep w taps x).1 xs
      (out ++ (fifthStep w taps x).2) := by
  obtain ⟨rfl, stored, some, left, ⟨first, second, inputs⟩, outputs, other⟩ := now
  rw [List.length_cons] at left
  have position : base + (s.i - 2) + 2 = base + s.i := by omega
  rw [position] at second inputs
  have next : (fifthOrderRound w base s).value =
      ⟨s.i + 4, s.taps.next x.1 x.2,
        Function.update s.data (base + s.i / 2) ((s.taps.next x.1 x.2).sum w)⟩ := by
    rw [← first, ← second]
    rfl
  have count := List.length_pos_iff.mpr some
  have pushed := outputs.push (x := (s.taps.next x.1 x.2).sum w) (by decide)
  have place : base + 2 * (out.length : Int) = base + s.i / 2 := by omega
  rw [place] at pushed
  rw [next]
  refine ⟨rfl, ?_, List.append_ne_nil_of_left_ne_nil some _, by dsimp only; omega, ?_, pushed, ?_⟩
  · dsimp only [fifthStep]
    rw [List.length_append, List.length_singleton]
    omega
  · have further : base + (s.i + 4 - 2) = base + s.i + 2 := by omega
    dsimp only
    rw [further]
    apply inputs.update
    intro k _
    omega
  · intro j odd
    dsimp only
    rw [Function.update_of_ne (by omega), other j odd]

variable {taps : Taps}

theorem FifthOrder.At.done {base length : Int} {s : FifthOrder}
    (now : s.At before base length taps [] out) : decide (s.i < length) = false := by
  have left := now.left
  rw [List.length_nil] at left
  exact decide_eq_false (by omega)

theorem FifthOrder.At.going {base length : Int} {xs : List (Int × Int)} {s : FifthOrder}
    (now : s.At before base length taps (x :: xs) out) : s.i < length := by
  have left := now.left
  rw [List.length_cons] at left
  omega

theorem pairs_length (xs : List Int) : (pairs xs).length = xs.length / 2 := by
  induction xs using pairs.induct with
  | case1 x y rest ih =>
    rw [pairs, List.length_cons, ih, List.length_cons, List.length_cons]
    omega
  | case2 xs short =>
    cases xs with
    | nil => rfl
    | cons x rest =>
      cases rest with
      | nil => simp [pairs]
      | cons y rest => exact absurd rfl (short x y rest)

theorem Holds.pairs {a : Buf} {stride i : Int} {xs : List Int} (holds : Holds a stride i xs) :
    Holds a stride i (interleave (pairs xs)) := by
  induction xs using pairs.induct generalizing i with
  | case1 x y rest ih => exact ⟨holds.1, holds.2.1, ih holds.2.2⟩
  | case2 xs short =>
    cases xs with
    | nil => trivial
    | cons x rest =>
      cases rest with
      | nil => trivial
      | cons y rest => exact absurd rfl (short x y rest)

theorem fifthOrder_start (w : Words) (data : Buf) (base length : Int) (hist : Taps) (x : Int)
    (rest : List Int) (holds : Holds data 2 base (x :: rest))
    (size : length = 2 * (rest.length + 1 : Nat) ∨ length = 2 * (rest.length + 1 : Nat) - 1) :
    FifthOrder.At data base length (hist.first x) (pairs rest) [(hist.first x).sum w]
      ⟨4, hist.first x, Function.update data base ((hist.first x).sum w)⟩ := by
  have half := pairs_length rest
  refine ⟨rfl, rfl, List.cons_ne_nil _ _, by dsimp only; omega, ?_, ?_, ?_⟩
  · apply Holds.pairs
    apply holds.2.update
    intro k _
    omega
  · exact ⟨Function.update_self _ _ _, trivial⟩
  · intro j odd
    dsimp only
    rw [Function.update_of_ne (by omega)]

/-- `fifth_order` on the samples of one component stores what `fifthCall` answers, and leaves the
other component alone. -/
theorem fifthOrder_value (w : Words) (data : Buf) (base length : Int) (hist : Taps)
    (xs : List Int) (some : xs ≠ []) (holds : Holds data 2 base xs)
    (size : length = 2 * xs.length ∨ length = 2 * xs.length - 1) :
    let call := (fifthOrder w data base length hist).value
    call.2 = (fifthCall w hist xs).1 ∧ Holds call.1 2 base (fifthCall w hist xs).2 ∧
      ∀ j, (j - base) % 2 = 1 → call.1 j = data j := by
  cases xs with
  | nil => exact absurd rfl some
  | cons x rest =>
    have sample : data base = x := holds.1
    rw [List.length_cons] at size
    have ended := whileLoop_run (fun s : FifthOrder => s.i < length) (fifthOrderRound w base)
      (fifthStep w) (fun taps xs out s => s.At data base length taps xs out)
      (fun taps out s now => now.done)
      (fun taps x xs out s now =>
        ⟨decide_eq_true now.going, fifthOrderRound_at w data base length taps x xs out s now⟩)
      (pairs rest) _ _ _ (fifthOrder_start w data base length hist x rest holds size)
      length.toNat (by rw [pairs_length]; omega)
    rw [← sample] at ended ⊢
    exact ⟨ended.taps, ended.outputs, ended.other⟩

theorem fifthOrderRound_exact (w : Words) (base : Int) (s : FifthOrder) (low : 0 ≤ base)
    (forward : 4 ≤ s.i) (high : base + s.i < maximumBufLength) :
    (fifthOrderRound w base s).exact = true := by
  rw [fifthOrderRound, load_eq (by omega) (by omega), pure_bind, load_eq (by omega) high,
    pure_bind]
  dsimp only
  rw [save_eq (by omega) (by omega), pure_bind]
  rfl

theorem fifthOrder_exact (w : Words) (data : Buf) (base length : Int) (hist : Taps)
    (low : 0 ≤ base) (first : base < maximumBufLength)
    (fits : base + length ≤ maximumBufLength) :
    (fifthOrder w data base length hist).exact = true := by
  rw [fifthOrder, load_eq low first, pure_bind]
  dsimp only
  rw [save_eq low first, pure_bind, exact_bind, exact_pure, Bool.and_true]
  refine whileLoop_exact
    (fun left (s : FifthOrder) => length ≤ s.i + 4 * (left : Int) ∧ 4 ≤ s.i) ?_ ?_ length.toNat
    _ ⟨by dsimp only; omega, by dsimp only; omega⟩ _ (Nat.le_refl _)
  · rintro s ⟨left, _⟩
    exact decide_eq_false (by omega)
  · rintro left s ⟨here, forward⟩ going
    have inside : s.i < length := of_decide_eq_true going
    refine ⟨fifthOrderRound_exact w base s low forward (by omega), ?_⟩
    change length ≤ s.i + 4 + 4 * (left : Int) ∧ 4 ≤ s.i + 4
    omega

/-! ### `generic_fir` -/

/-- Scaled by `2 ^ 15`; only the length 9 is in use. -/
def cic9Tables : List (List Int) := [
  [0],
  [9, -156,  -97, 2798, -15489, 61019, -15489, 2798,  -97, -156],
  [9, -128, -568, 5593, -24125, 74126, -24125, 5593, -568, -128],
  [9, -129, -639, 6187, -26281, 77511, -26281, 6187, -639, -129],
  [9, -122, -612, 6082, -26353, 77818, -26353, 6082, -612, -122],
  [9, -120, -602, 6015, -26269, 77757, -26269, 6015, -602, -120],
  [9, -120, -582, 5951, -26128, 77542, -26128, 5951, -582, -120],
  [9, -119, -580, 5931, -26094, 77505, -26094, 5931, -580, -119],
  [9, -119, -578, 5921, -26077, 77484, -26077, 5921, -578, -119],
  [9, -119, -577, 5917, -26067, 77473, -26067, 5917, -577, -119],
  [9, -199, -362, 5303, -25505, 77489, -25505, 5303, -362, -199]]

/-- The symmetric filter over `hist[0]` to `hist[8]`. -/
def firSum (w : Words) (fir hist : List Int) : Int :=
  let sum := w.int32 (0 + (hist.getD 0 0 + hist.getD 8 0) * fir.getD 1 0)
  let sum := w.int32 (sum + (hist.getD 1 0 + hist.getD 7 0) * fir.getD 2 0)
  let sum := w.int32 (sum + (hist.getD 2 0 + hist.getD 6 0) * fir.getD 3 0)
  let sum := w.int32 (sum + (hist.getD 3 0 + hist.getD 5 0) * fir.getD 4 0)
  let sum := w.int32 (sum + hist.getD 4 0 * fir.getD 5 0)
  sum

/-- The variables of the loop of `generic_fir`. -/
structure GenericFir where
  d : Int
  hist : List Int
  data : Buf

def genericFirRound (w : Words) (fir : List Int) (base : Int) (s : GenericFir) :
    Checked GenericFir := do
  let temp ← load maximumBufLength s.data (base + s.d)
  let data ← save maximumBufLength s.data (base + s.d)
    (w.int16 (firSum w fir s.hist >>> (15 : Nat)))
  pure ⟨s.d + 2, s.hist.drop 1 ++ [temp], data⟩

/-- Okay, not at all generic: the length 9 is assumed. -/
def genericFir (w : Words) (data : Buf) (base length : Int) (fir hist : List Int) :
    Checked (Buf × List Int) := do
  let s ← whileLoop (fun s => s.d < length) (genericFirRound w fir base) length.toNat
    ⟨0, hist, data⟩
  pure (s.data, s.hist)

/-- What `generic_fir` does with one sample: the output does not contain it yet. -/
def firStep (w : Words) (fir hist : List Int) (x : Int) : List Int × List Int :=
  (hist.drop 1 ++ [x], [w.int16 (firSum w fir hist >>> (15 : Nat))])

/-- The loop with the samples `xs` before it and the outputs `out` behind it. -/
structure GenericFir.At (before : Buf) (base length : Int) (hist xs out : List Int)
    (s : GenericFir) : Prop where
  hist : s.hist = hist
  stored : s.d = 2 * out.length
  left : length ≤ s.d + 2 * xs.length ∧ s.d + 2 * xs.length - 2 < length
  inputs : Holds s.data 2 (base + s.d) xs
  outputs : Holds s.data 2 base out
  other : ∀ j, (j - base) % 2 = 1 → s.data j = before j

theorem genericFirRound_at (w : Words) (fir : List Int) (before : Buf) (base length : Int)
    (hist : List Int) (x : Int) (xs out : List Int) (s : GenericFir)
    (now : s.At before base length hist (x :: xs) out) :
    (genericFirRound w fir base s).value.At before base length (firStep w fir hist x).1 xs
      (out ++ (firStep w fir hist x).2) := by
  obtain ⟨rfl, stored, left, ⟨sample, inputs⟩, outputs, other⟩ := now
  rw [List.length_cons] at left
  have next : (genericFirRound w fir base s).value =
      ⟨s.d + 2, s.hist.drop 1 ++ [x],
        Function.update s.data (base + s.d) (w.int16 (firSum w fir s.hist >>> (15 : Nat)))⟩ := by
    rw [← sample]
    rfl
  have pushed := outputs.push (x := w.int16 (firSum w fir s.hist >>> (15 : Nat))) (by decide)
  have place : base + 2 * (out.length : Int) = base + s.d := by omega
  rw [place] at pushed
  rw [next]
  refine ⟨rfl, ?_, by dsimp only; omega, ?_, pushed, ?_⟩
  · dsimp only [firStep]
    rw [List.length_append, List.length_singleton]
    omega
  · have further : base + (s.d + 2) = base + s.d + 2 := by omega
    dsimp only
    rw [further]
    apply inputs.update
    intro k _
    omega
  · intro j odd
    dsimp only
    rw [Function.update_of_ne (by omega), other j odd]

theorem genericFir_value (w : Words) (fir : List Int) (data : Buf) (base length : Int)
    (hist xs : List Int) (holds : Holds data 2 base xs)
    (size : length = 2 * xs.length ∨ length = 2 * xs.length - 1) :
    let run := Transducer.run (firStep w fir) hist xs
    let call := (genericFir w data base length fir hist).value
    call.2 = run.1 ∧ Holds call.1 2 base run.2 ∧ ∀ j, (j - base) % 2 = 1 → call.1 j = data j := by
  have ended := whileLoop_run (fun s : GenericFir => s.d < length) (genericFirRound w fir base)
    (firStep w fir) (fun hist xs out s => s.At data base length hist xs out)
    (fun hist out s now => by
      have left := now.left
      rw [List.length_nil] at left
      exact decide_eq_false (by omega))
    (fun hist x xs out s now => by
      have left := now.left
      rw [List.length_cons] at left
      exact ⟨decide_eq_true (by omega),
        genericFirRound_at w fir data base length hist x xs out s now⟩)
    xs hist [] ⟨0, hist, data⟩
    ⟨rfl, rfl, by dsimp only; omega, by simpa using holds, trivial, fun _ _ => rfl⟩
    length.toNat (by omega)
  rw [List.nil_append] at ended
  exact ⟨ended.hist, ended.outputs, ended.other⟩

theorem genericFir_exact (w : Words) (fir : List Int) (data : Buf) (base length : Int)
    (hist : List Int) (low : 0 ≤ base) (fits : base + length ≤ maximumBufLength) :
    (genericFir w data base length fir hist).exact = true := by
  rw [genericFir, exact_bind, exact_pure, Bool.and_true]
  refine whileLoop_exact
    (fun left (s : GenericFir) => length ≤ s.d + 2 * (left : Int) ∧ 0 ≤ s.d) ?_ ?_ length.toNat
    _ ⟨by dsimp only; omega, by dsimp only; omega⟩ _ (Nat.le_refl _)
  · rintro s ⟨left, _⟩
    exact decide_eq_false (by omega)
  · rintro left s ⟨here, forward⟩ going
    have inside : s.d < length := of_decide_eq_true going
    refine ⟨?_, ?_⟩
    · rw [genericFirRound, load_eq (by omega) (by omega), pure_bind, save_eq (by omega) (by omega),
        pure_bind]
      rfl
    · change length ≤ s.d + 2 + 2 * (left : Int) ∧ 0 ≤ s.d + 2
      omega

end RtlSdr.Fm
