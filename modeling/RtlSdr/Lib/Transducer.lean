import Mathlib.Data.List.Induction

/-!
# Transducers

A transducer consumes inputs one at a time and answers each with some outputs.
`run` carries the state through a list of inputs and concatenates the answers, so
cutting the input anywhere changes neither the final state nor the output.
-/
namespace Transducer

variable {σ α β : Type}

/-- Feed a list of inputs, carrying the state. -/
def run (step : σ → α → σ × List β) : σ → List α → σ × List β
  | s, [] => (s, [])
  | s, x :: xs =>
    let (s', out) := step s x
    let (s'', rest) := run step s' xs
    (s'', out ++ rest)

variable (step : σ → α → σ × List β)

@[simp] theorem run_nil (s : σ) : run step s [] = (s, []) := rfl

theorem run_cons (s : σ) (x : α) (xs : List α) :
    run step s (x :: xs) =
      ((run step (step s x).1 xs).1, (step s x).2 ++ (run step (step s x).1 xs).2) := rfl

theorem run_singleton (s : σ) (x : α) : run step s [x] = step s x := by
  rw [run_cons, run_nil, List.append_nil]

theorem run_append (s : σ) (xs ys : List α) :
    run step s (xs ++ ys) =
      ((run step (run step s xs).1 ys).1,
        (run step s xs).2 ++ (run step (run step s xs).1 ys).2) := by
  induction xs generalizing s with
  | nil => rfl
  | cons x xs ih => simp only [List.cons_append, run_cons, ih, List.append_assoc]

theorem run_invariant (P : σ → Prop)
    (preserved : ∀ s x, P s → P (step s x).1) (s : σ) (initial : P s) (xs : List α) :
    P (run step s xs).1 := by
  induction xs generalizing s with
  | nil => exact initial
  | cons x xs ih => exact ih _ (preserved s x initial)

/-- An invariant of the state together with everything answered so far. -/
theorem run_observed (P : σ → List β → Prop)
    (preserved : ∀ s out x, P s out → P (step s x).1 (out ++ (step s x).2)) (s : σ)
    (initial : P s []) (xs : List α) : P (run step s xs).1 (run step s xs).2 := by
  have general : ∀ s out, P s out → P (run step s xs).1 (out ++ (run step s xs).2) := by
    induction xs with
    | nil =>
      intro s out now
      rw [run_nil, List.append_nil]
      exact now
    | cons x xs ih =>
      intro s out now
      rw [run_cons, ← List.append_assoc]
      exact ih _ _ (preserved s out x now)
  exact general s [] initial

/-- Induction over a run that remembers the inputs consumed and the outputs given so
far: the invariant may speak of both. -/
theorem run_history (P : List α → σ × List β → Prop)
    (start : σ) (initial : P [] (start, [])) (inputs : List α)
    (preserved : ∀ before x after, inputs = before ++ x :: after →
      P before (run step start before) → P (before ++ [x]) (run step start (before ++ [x]))) :
    P inputs (run step start inputs) := by
  have general : ∀ before after, inputs = before ++ after → P before (run step start before) := by
    intro before
    induction before using List.reverseRecOn with
    | nil => intro _ _; exact initial
    | append_singleton before x ih =>
      intro after split
      exact preserved before x after (by simpa using split) (ih (x :: after) (by simpa using split))
  exact general inputs [] (by simp)

/-- Abstraction of runs: a step-by-step abstraction of states and inputs that keeps the
answers is one of whole runs. -/
theorem run_map {τ γ : Type} (step' : τ → γ → τ × List β)
    (state : σ → τ) (input : α → γ) (xs : List α)
    (simulates : ∀ s, ∀ x ∈ xs, step' (state s) (input x) = (state (step s x).1, (step s x).2))
    (s : σ) :
    run step' (state s) (xs.map input) = (state (run step s xs).1, (run step s xs).2) := by
  induction xs generalizing s with
  | nil => rfl
  | cons x xs ih =>
    have here := simulates s x List.mem_cons_self
    have later := ih (fun s y member => simulates s y (List.mem_cons_of_mem x member))
    rw [List.map_cons, run_cons, here, later, run_cons]

theorem run_concat (s : σ) (xs : List α) (x : α) :
    run step s (xs ++ [x]) =
      ((step (run step s xs).1 x).1, (run step s xs).2 ++ (step (run step s xs).1 x).2) := by
  rw [run_append, run_singleton]

/-- A transducer that takes the inputs block by block answers as if they came one by one. -/
theorem run_flatten (block : σ → List α → σ × List β)
    (blocks : List (List α)) (same : ∀ s, ∀ xs ∈ blocks, block s xs = run step s xs) (s : σ) :
    run block s blocks = run step s blocks.flatten := by
  induction blocks generalizing s with
  | nil => rfl
  | cons xs blocks ih =>
    have here := same s xs List.mem_cons_self
    have later := ih (fun s ys member => same s ys (List.mem_cons_of_mem xs member))
    rw [run_cons, here, later, List.flatten_cons, run_append]

end Transducer
