import RtlSdr.Lib.Checked
import RtlSdr.Lib.Transducer
import Mathlib.Data.List.GetD

/-!
# Loops over arrays

`while` loops of C on arrays, with the record of exactness of `Checked`: an access outside of the
array or a loop that does not end makes a computation inexact. A loop that takes one input in each
round and may store one output computes a transducer; an array is then described by the values it
holds along a stride.
-/
namespace Checked

variable {σ τ α β : Type}

theorem value_bind (m : Checked α) (f : α → Checked β) : (m >>= f).value = (f m.value).value := rfl

theorem exact_bind (m : Checked α) (f : α → Checked β) :
    (m >>= f).exact = (m.exact && (f m.value).exact) := rfl

theorem exact_pure (a : α) : (pure a : Checked α).exact = true := rfl

theorem mapM_eq (f : α → Checked β) (xs : List α) :
    xs.mapM f = ⟨xs.map fun x => (f x).value, xs.all fun x => (f x).exact⟩ := by
  induction xs with
  | nil => rfl
  | cons x xs ih =>
    rw [List.mapM_cons, ih]
    exact Checked.ext rfl (congrArg (_ && ·) (Bool.and_true _))

/-- The computation is exact and its value has the property. -/
def Gives (m : Checked α) (P : α → Prop) : Prop := m.exact = true ∧ P m.value

variable {a : α} {P : α → Prop} {m : Checked α} {f : α → Checked β} {Q : β → Prop}
  {x start step stop : Int}

theorem gives_pure (holds : P a) : (pure a : Checked α).Gives P :=
  ⟨rfl, holds⟩

theorem Gives.eq_pure (gives : m.Gives (· = a)) : m = pure a :=
  Checked.ext gives.2 gives.1

theorem Gives.bind (first : m.Gives P) (next : ∀ a, P a → (f a).Gives Q) : (m >>= f).Gives Q := by
  obtain ⟨exactly, given⟩ := next m.value first.2
  refine ⟨?_, given⟩
  rw [exact_bind, first.1, exactly]
  rfl

theorem Gives.pass (first : m.Gives (· = a)) (next : (f a).Gives Q) : (m >>= f).Gives Q := by
  rw [first.eq_pure, pure_bind]
  exact next

theorem Gives.mono {Q : α → Prop} (gives : m.Gives P) (weaker : ∀ a, P a → Q a) :
    m.Gives Q := ⟨gives.1, weaker m.value gives.2⟩

theorem gives_ite {c : Prop} [Decidable c] {n : Checked α} (yes : c → m.Gives P)
    (no : ¬c → n.Gives P) : (if c then m else n).Gives P := by
  split_ifs with holds
  · exact yes holds
  · exact no holds

theorem wrapping16_gives (low : -32768 ≤ x) (high : x ≤ 32767) : (wrapping 16 x).Gives (· = x) := by
  refine ⟨decide_eq_true ⟨low, by omega⟩, ?_⟩
  exact Int.bmod_eq_of_le (m := 2 ^ 16) (by omega) (by omega)

theorem wrapping32_gives (low : -2147483648 ≤ x) (high : x < 2147483648) :
    (wrapping 32 x).Gives (· = x) := by
  rw [wrapping_eq low high]
  exact gives_pure rfl

/-- The quotient of signed integers, rounded towards zero. -/
def divide (a b : Int) : Checked Int := ⟨a.tdiv b, b ≠ 0⟩

theorem divide_gives {a b : Int} (nonzero : b ≠ 0) : (divide a b).Gives (· = a.tdiv b) :=
  ⟨decide_eq_true nonzero, rfl⟩

theorem divide_eq {a b : Int} (nonzero : b ≠ 0) : divide a b = pure (a.tdiv b) := by
  rw [divide, decide_eq_true nonzero]
  rfl

/-- `while (cond) body` for at most `fuel` rounds. A loop that would go on is not exact. -/
def whileLoop (cond : σ → Bool) (body : σ → Checked σ) : Nat → σ → Checked σ
  | 0, s => ⟨s, !cond s⟩
  | fuel + 1, s => if cond s then body s >>= whileLoop cond body fuel else pure s

variable {cond : σ → Bool} {body : σ → Checked σ} {s : σ}

theorem whileLoop_stop (stop : cond s = false) (fuel : Nat) :
    whileLoop cond body fuel s = pure s := by
  cases fuel with
  | zero =>
    rw [whileLoop, stop]
    rfl
  | succ fuel => rw [whileLoop, stop, if_neg Bool.false_ne_true]

theorem whileLoop_go (go : cond s = true) (fuel : Nat) :
    whileLoop cond body (fuel + 1) s = body s >>= whileLoop cond body fuel := by
  rw [whileLoop, go, if_pos rfl]

theorem whileLoop_exact (P : Nat → σ → Prop) (last : ∀ s, P 0 s → cond s = false)
    (round : ∀ n s, P (n + 1) s → cond s = true → (body s).exact = true ∧ P n (body s).value)
    (n : Nat) (s : σ) (start : P n s) (fuel : Nat) (enough : n ≤ fuel) :
    (whileLoop cond body fuel s).exact = true := by
  induction fuel generalizing n s with
  | zero =>
    obtain rfl : n = 0 := by omega
    rw [whileLoop_stop (last s start)]
    rfl
  | succ fuel ih =>
    cases going : cond s with
    | false =>
      rw [whileLoop_stop going]
      rfl
    | true =>
      cases n with
      | zero => rw [last s start] at going; cases going
      | succ n =>
        obtain ⟨here, next⟩ := round n s start going
        rw [whileLoop_go going, exact_bind, here, Bool.true_and]
        exact ih n _ next (by omega)

theorem whileLoop_invariant (cond : σ → Bool) (body : σ → Checked σ) (P : σ → Prop)
    (round : ∀ s, P s → cond s = true → P (body s).value)
    (fuel : Nat) (s : σ) (start : P s) : P (whileLoop cond body fuel s).value := by
  induction fuel generalizing s with
  | zero => exact start
  | succ fuel ih =>
    cases going : cond s with
    | false =>
      rw [whileLoop_stop going]
      exact start
    | true =>
      rw [whileLoop_go going, value_bind]
      exact ih _ (round s start going)

theorem whileLoop_agree (cond : σ → Bool) (body body' : σ → Checked σ) (P : σ → Prop)
    (round : ∀ s, P s → cond s = true → body s = body' s ∧ P (body s).value)
    (fuel : Nat) (s : σ) (start : P s) :
    whileLoop cond body fuel s = whileLoop cond body' fuel s ∧
      P (whileLoop cond body fuel s).value := by
  induction fuel generalizing s with
  | zero => exact ⟨rfl, start⟩
  | succ fuel ih =>
    cases going : cond s with
    | false =>
      rw [whileLoop_stop going, whileLoop_stop going]
      exact ⟨rfl, start⟩
    | true =>
      obtain ⟨same, next⟩ := round s start going
      obtain ⟨rest, kept⟩ := ih _ next
      rw [whileLoop_go going, whileLoop_go going, ← same]
      refine ⟨Checked.ext ?_ ?_, kept⟩
      · rw [value_bind, value_bind, rest]
      · rw [exact_bind, exact_bind, rest]

theorem whileLoop_ended (cond : σ → Bool) (body : σ → Checked σ) (fuel : Nat) (s : σ)
    (exactly : (whileLoop cond body fuel s).exact = true) :
    cond (whileLoop cond body fuel s).value = false := by
  induction fuel generalizing s with
  | zero => exact (Bool.not_eq_true' _).mp exactly
  | succ fuel ih =>
    cases going : cond s with
    | false =>
      rw [whileLoop_stop going]
      exact going
    | true =>
      rw [whileLoop_go going, exact_bind, Bool.and_eq_true] at exactly
      rw [whileLoop_go going, value_bind]
      exact ih _ exactly.2

/-- A loop whose rounds are the steps of a transducer: `R` relates the transducer's state, the
inputs left and the outputs so far to the state of the loop. -/
theorem whileLoop_run (cond : σ → Bool) (body : σ → Checked σ) (step : τ → α → τ × List β)
    (R : τ → List α → List β → σ → Prop) (done : ∀ t out s, R t [] out s → cond s = false)
    (round : ∀ t x xs out s, R t (x :: xs) out s →
      cond s = true ∧ R (step t x).1 xs (out ++ (step t x).2) (body s).value)
    (xs : List α) (t : τ) (out : List β) (s : σ) (start : R t xs out s) (fuel : Nat)
    (enough : xs.length ≤ fuel) :
    R (Transducer.run step t xs).1 [] (out ++ (Transducer.run step t xs).2)
      (whileLoop cond body fuel s).value := by
  induction xs generalizing t out s fuel with
  | nil =>
    rw [whileLoop_stop (done t out s start), Transducer.run_nil, List.append_nil]
    exact start
  | cons x xs ih =>
    obtain ⟨going, next⟩ := round t x xs out s start
    cases fuel with
    | zero => cases enough
    | succ fuel =>
      rw [whileLoop_go going, value_bind, Transducer.run_cons, ← List.append_assoc]
      exact ih _ _ _ next fuel (Nat.le_of_succ_le_succ enough)

theorem whileLoop_run_exact (cond : σ → Bool) (body : σ → Checked σ) (step : τ → α → τ × List β)
    (R : τ → List α → List β → σ → Prop) (done : ∀ t out s, R t [] out s → cond s = false)
    (round : ∀ t x xs out s, R t (x :: xs) out s →
      (body s).exact = true ∧ R (step t x).1 xs (out ++ (step t x).2) (body s).value)
    (xs : List α) (t : τ) (out : List β) (s : σ) (start : R t xs out s) (fuel : Nat)
    (enough : xs.length ≤ fuel) : (whileLoop cond body fuel s).exact = true := by
  refine whileLoop_exact (fun n s => ∃ t xs out, xs.length = n ∧ R t xs out s) ?_ ?_ xs.length s
    ⟨t, xs, out, rfl, start⟩ fuel enough
  · rintro s ⟨t, xs, out, none, now⟩
    rw [List.length_eq_zero_iff.mp none] at now
    exact done t out s now
  · rintro n s ⟨t, xs, out, count, now⟩ _
    cases xs with
    | nil => cases count
    | cons x xs =>
      obtain ⟨exact_, next⟩ := round t x xs out s now
      exact ⟨exact_, _, xs, _, Nat.succ.inj count, next⟩

theorem whileLoop_reaches (P : Nat → σ → Prop) (n : Nat)
    (round : ∀ i < n, ∀ s, P i s → cond s = true ∧ P (i + 1) (body s).value)
    (last : ∀ s, P n s → cond s = false) (fuel i : Nat) (enough : n ≤ i + fuel) (within : i ≤ n)
    (s : σ) (now : P i s) : P n (whileLoop cond body fuel s).value := by
  induction fuel generalizing i s with
  | zero =>
    obtain rfl : i = n := by omega
    exact now
  | succ fuel ih =>
    rcases Nat.eq_or_lt_of_le within with rfl | before
    · rw [whileLoop_stop (last s now)]
      exact now
    · obtain ⟨go, next⟩ := round i before s now
      rw [whileLoop_go go, value_bind]
      exact ih (i + 1) (by omega) before _ next

theorem whileLoop_gives (P : Nat → σ → Prop) (n : Nat)
    (round : ∀ i < n, ∀ s, P i s → cond s = true ∧ (body s).Gives (P (i + 1)))
    (last : ∀ s, P n s → cond s = false) (fuel i : Nat) (enough : n ≤ i + fuel) (within : i ≤ n)
    (s : σ) (now : P i s) : (whileLoop cond body fuel s).Gives (P n) := by
  induction fuel generalizing i s with
  | zero =>
    obtain rfl : i = n := by omega
    rw [whileLoop_stop (last s now)]
    exact gives_pure now
  | succ fuel ih =>
    by_cases ended : i = n
    · subst ended
      rw [whileLoop_stop (last s now)]
      exact gives_pure now
    · obtain ⟨going, next⟩ := round i (by omega) s now
      rw [whileLoop_go going]
      exact next.bind fun t kept => ih (i + 1) (by omega) (by omega) t kept

/-- `for (i = 0; i < n; ++i) body`. -/
def forRange (body : Nat → σ → Checked σ) : Nat → σ → Checked σ
  | 0, s => pure s
  | n + 1, s => forRange body n s >>= body n

/-- `for (i = start; i < stop; i += step) body`. -/
def forStep (start stop step : Nat) (body : Nat → σ → Checked σ) (s : σ) : Checked σ :=
  forRange (fun k => body (start + step * k)) ((stop - start + step - 1) / step) s

theorem forRange_congr {body body' : Nat → σ → Checked σ} {n : Nat}
    (same : ∀ i < n, ∀ s, body i s = body' i s) (s : σ) :
    forRange body n s = forRange body' n s := by
  induction n with
  | zero => rfl
  | succ n ih =>
    rw [forRange, forRange, ih fun i inside => same i (Nat.lt_succ_of_lt inside)]
    congr 1
    funext t
    exact same n (Nat.lt_succ_self n) t

theorem forRange_reaches (P : Nat → σ → Prop) (body : Nat → σ → Checked σ) (n : Nat)
    (round : ∀ i < n, ∀ s, P i s → P (i + 1) (body i s).value) (s : σ) (now : P 0 s) :
    P n (forRange body n s).value := by
  induction n with
  | zero => exact now
  | succ n ih =>
    have before := ih fun i inside => round i (Nat.lt_succ_of_lt inside)
    exact round n (Nat.lt_succ_self n) _ before

theorem forRange_gives (P : Nat → σ → Prop) (body : Nat → σ → Checked σ) (n : Nat)
    (round : ∀ i < n, ∀ s, P i s → (body i s).Gives (P (i + 1))) (s : σ) (now : P 0 s) :
    (forRange body n s).Gives (P n) := by
  induction n with
  | zero => exact gives_pure now
  | succ n ih =>
    have before := ih fun i inside => round i (Nat.lt_succ_of_lt inside)
    exact before.bind fun t kept => round n (Nat.lt_succ_self n) t kept

/-- The test of a `for` loop. -/
def forTest (stop : Int) (r : Int × σ) : Bool := r.1 < stop

def forRound (step : Int) (body : Int → σ → Checked σ) (r : Int × σ) : Checked (Int × σ) := do
  let s ← body r.1 r.2
  pure (r.1 + step, s)

/-- `for (i = start; i < stop; i += step) body`; the result contains the last `i`. -/
def forLoop (start stop step : Int) (body : Int → σ → Checked σ) (s : σ) : Checked (Int × σ) :=
  whileLoop (forTest stop) (forRound step body) (stop - start).toNat (start, s)

/-- The state after the last round, and how many rounds there were. -/
structure Finished (P : σ → Prop) (start stop step : Int) (r : Int × σ) : Prop where
  kept : P r.2
  rounds : ∃ n : Nat, r.1 = start + step * n ∧ stop ≤ start + step * n ∧
    (n = 0 ∨ start + step * n < stop + step)

variable {body : Int → σ → Checked σ}

theorem forLoop_rest (P : σ → Prop) (forward : 0 < step)
    (round : ∀ (k : Nat) s, start + step * k < stop → P s → (body (start + step * k) s).Gives P)
    (fuel k : Nat) (s : σ) (now : P s) (enough : (stop - (start + step * k)).toNat ≤ fuel)
    (last : k = 0 ∨ start + step * k < stop + step) :
    (whileLoop (forTest stop) (forRound step body) fuel (start + step * k, s)).Gives
      (Finished P start stop step) := by
  induction fuel generalizing k s with
  | zero =>
    have done : forTest stop (start + step * (k : Int), s) = false :=
      decide_eq_false (by dsimp only; omega)
    rw [whileLoop_stop done]
    exact ⟨rfl, now, k, rfl, by omega, last⟩
  | succ fuel ih =>
    by_cases going : start + step * (k : Int) < stop
    · have further : start + step * (k : Int) + step = start + step * (k + 1 : Nat) := by
        rw [Int.natCast_succ, Int.mul_add, Int.mul_one]
        omega
      have test : forTest stop (start + step * (k : Int), s) = true := decide_eq_true going
      rw [whileLoop_go test, forRound, bind_assoc]
      refine (round k s going now).bind fun next kept => ?_
      rw [pure_bind, further]
      exact ih (k + 1) next kept (by rw [← further]; omega) (.inr (by rw [← further]; omega))
    · have done : forTest stop (start + step * (k : Int), s) = false := decide_eq_false going
      rw [whileLoop_stop done]
      exact ⟨rfl, now, k, rfl, by omega, last⟩

theorem forLoop_gives (P : σ → Prop) (forward : 0 < step)
    (round : ∀ (k : Nat) s, start + step * k < stop → P s → (body (start + step * k) s).Gives P)
    (s : σ) (now : P s) : (forLoop start stop step body s).Gives (Finished P start stop step) := by
  have origin : start + step * ((0 : Nat) : Int) = start := by
    rw [Int.natCast_zero, Int.mul_zero, Int.add_zero]
  have whole := forLoop_rest P forward round (stop - start).toNat 0 s now (by omega) (.inl rfl)
  rw [origin] at whole
  exact whole

theorem forLoop_exact {f : Int × σ → β} (forward : 0 < step)
    (round : ∀ (k : Nat) s, start + step * k < stop →
      (body (start + step * k) s).Gives fun _ => True) (s : σ) :
    (forLoop start stop step body s >>= fun r => pure (f r)).Gives fun _ => True :=
  (forLoop_gives (fun _ => True) forward (fun k s inside _ => round k s inside) s trivial).bind
    fun _ _ => gives_pure trivial

end Checked

namespace CArray

variable {α : Type}

/-- Element `i` of an array of `size` elements. -/
def load (size : Int) (a : Int → α) (i : Int) : Checked α := ⟨a i, 0 ≤ i ∧ i < size⟩

/-- Assign to element `i` of an array of `size` elements. -/
def save (size : Int) (a : Int → α) (i : Int) (x : α) : Checked (Int → α) :=
  ⟨Function.update a i x, 0 ≤ i ∧ i < size⟩

variable {size i : Int} {a : Int → α} {x : α} {xs : List α}

theorem load_eq (low : 0 ≤ i) (high : i < size) : load size a i = pure (a i) := by
  rw [load, decide_eq_true ⟨low, high⟩]
  rfl

theorem save_eq (low : 0 ≤ i) (high : i < size) :
    save size a i x = pure (Function.update a i x) := by
  rw [save, decide_eq_true ⟨low, high⟩]
  rfl

theorem load_gives (low : 0 ≤ i) (high : i < size) :
    (load size a i).Gives (· = a i) := ⟨decide_eq_true ⟨low, high⟩, rfl⟩

theorem save_gives (low : 0 ≤ i) (high : i < size) :
    (save size a i x).Gives (· = Function.update a i x) := ⟨decide_eq_true ⟨low, high⟩, rfl⟩

/-- The array holds `xs` from `i` on, at every `stride`-th element. -/
def Holds (a : Int → α) (stride : Int) : Int → List α → Prop
  | _, [] => True
  | i, x :: xs => a i = x ∧ Holds a stride (i + stride) xs

def gather (a : Int → α) (stride : Int) : Int → Nat → List α
  | _, 0 => []
  | i, n + 1 => a i :: gather a stride (i + stride) n

/-- An array that holds `xs` from `base` on. -/
def layout (zero : α) (base stride : Int) (xs : List α) (i : Int) : α :=
  xs.getD ((i - base) / stride).toNat zero

variable {a : Int → α} {stride i : Int}

@[simp] theorem gather_length (n : Nat) : (gather a stride i n).length = n := by
  induction n generalizing i with
  | zero => rfl
  | succ n ih => rw [gather, List.length_cons, ih]

theorem holds_gather (n : Nat) : Holds a stride i (gather a stride i n) := by
  induction n generalizing i with
  | zero => trivial
  | succ n ih => exact ⟨rfl, ih⟩

theorem Holds.gather (holds : Holds a stride i xs) : gather a stride i xs.length = xs := by
  induction xs generalizing i with
  | nil => rfl
  | cons x xs ih => rw [List.length_cons, CArray.gather, holds.1, ih holds.2]

theorem holds_append {ys : List α} :
    Holds a stride i (xs ++ ys) ↔
      Holds a stride i xs ∧ Holds a stride (i + stride * xs.length) ys := by
  induction xs generalizing i with
  | nil => simp [Holds]
  | cons x xs ih =>
    have further : i + stride + stride * xs.length = i + stride * (x :: xs).length := by
      rw [List.length_cons, Int.natCast_succ, Int.mul_add, Int.mul_one]
      omega
    rw [List.cons_append, Holds, Holds, ih, further, and_assoc]

theorem Holds.at (holds : Holds a stride i xs) (k : Nat) (inside : k < xs.length) :
    a (i + stride * k) = xs[k] := by
  induction xs generalizing i k with
  | nil => cases inside
  | cons x xs ih =>
    cases k with
    | zero => simpa using holds.1
    | succ k =>
      have further : i + stride * (k + 1 : Nat) = i + stride + stride * k := by
        rw [Int.natCast_succ, Int.mul_add, Int.mul_one]
        omega
      rw [further, ih holds.2 k (Nat.lt_of_succ_lt_succ inside), List.getElem_cons_succ]

theorem holds_of_at (each : ∀ (k : Nat) (inside : k < xs.length), a (i + stride * k) = xs[k]) :
    Holds a stride i xs := by
  induction xs generalizing i with
  | nil => trivial
  | cons x xs ih =>
    refine ⟨by simpa using each 0 (Nat.succ_pos _), ih ?_⟩
    intro k inside
    have next := each (k + 1) (Nat.succ_lt_succ inside)
    rw [List.getElem_cons_succ, Int.natCast_succ, Int.mul_add, Int.mul_one] at next
    rw [← next]
    congr 1
    omega

theorem Holds.congr {b : Int → α} (holds : Holds a stride i xs)
    (same : ∀ k < xs.length, b (i + stride * (k : Nat)) = a (i + stride * (k : Nat))) :
    Holds b stride i xs := by
  apply holds_of_at
  intro k inside
  rw [same k inside, holds.at k inside]

theorem Holds.update (holds : Holds a stride i xs) {j : Int}
    (apart : ∀ k < xs.length, i + stride * (k : Nat) ≠ j) :
    Holds (Function.update a j x) stride i xs := by
  apply holds.congr
  intro k inside
  rw [Function.update_of_ne (apart k inside)]

theorem Holds.push (holds : Holds a stride i xs) (forward : 0 < stride) :
    Holds (Function.update a (i + stride * xs.length) x) stride i (xs ++ [x]) := by
  rw [holds_append]
  refine ⟨holds.update ?_, ?_, trivial⟩
  · intro k inside same
    have before : stride * k < stride * xs.length :=
      Int.mul_lt_mul_of_pos_left (by exact_mod_cast inside) forward
    omega
  · rw [Function.update_self]

theorem holds_layout (zero : α) (base : Int) (forward : 0 < stride) (xs : List α) :
    Holds (layout zero base stride xs) stride base xs := by
  apply holds_of_at
  intro k inside
  have position : (base + stride * k - base) / stride = k := by
    have offset : base + stride * k - base = stride * k := by omega
    rw [offset, Int.mul_ediv_cancel_left _ (by omega)]
  rw [layout, position, Int.toNat_natCast, List.getD_eq_getElem _ _ inside]

end CArray
