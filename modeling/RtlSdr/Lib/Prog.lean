import Mathlib.Logic.Basic

/-!
# Programs with a state that stop at the first error

`Prog ε σ α` is a computation on a state that ends with a value or with an error, and keeps what it
has done to the state. `Keeps I E p` says that `p` takes states with `I` to states with `I`, and to
states with `E` where it stops early; `Errors P p` says with which errors it can stop.
-/

/-- A computation with errors in `ε` on a state in `σ`. -/
def Prog (ε σ α : Type) : Type := σ → Except ε α × σ

namespace Prog

variable {ε σ α β : Type}

protected def pure (a : α) : Prog ε σ α := fun s => (.ok a, s)

protected def bind (p : Prog ε σ α) (f : α → Prog ε σ β) : Prog ε σ β := fun s =>
  match p s with
  | (.ok a, s) => f a s
  | (.error e, s) => (.error e, s)

instance : Monad (Prog ε σ) where
  pure := Prog.pure
  bind := Prog.bind

def get : Prog ε σ σ := fun s => (.ok s, s)

def modify (f : σ → σ) : Prog ε σ Unit := fun s => (.ok (), f s)

def throw (e : ε) : Prog ε σ α := fun s => (.error e, s)

/-- Change the state after a program, however it ends. -/
def thenDo (p : Prog ε σ α) (f : σ → σ) : Prog ε σ α := fun s => ((p s).1, f (p s).2)

/-- Go on after a program, however it ends. -/
def ignoring (p : Prog ε σ α) : Prog ε σ Unit := fun s => (.ok (), (p s).2)

variable {a : α} {p : Prog ε σ α} {s s' : σ} {f : α → Prog ε σ β}

theorem bind_ok (run : p s = (.ok a, s')) : (p >>= f) s = f a s' := by
  show Prog.bind p f s = _
  rw [Prog.bind, run]

theorem bind_error {e : ε} (run : p s = (.error e, s')) : (p >>= f) s = (.error e, s') := by
  show Prog.bind p f s = _
  rw [Prog.bind, run]

theorem bind_eq_ok {b : β} (run : (p >>= f) s = (.ok b, s')) :
    ∃ a s₁, p s = (.ok a, s₁) ∧ f a s₁ = (.ok b, s') := by
  rcases first : p s with ⟨e | a, s₁⟩
  · rw [bind_error first] at run
    cases run
  · rw [bind_ok first] at run
    exact ⟨a, s₁, rfl, run⟩

theorem run_eq_ok (ok : (p s).1 = .ok a) :
    p s = (.ok a, (p s).2) := Prod.ext ok rfl

theorem ignoring_run {r : Except ε α} (run : p s = (r, s')) : ignoring p s = (.ok (), s') := by
  rw [ignoring, run]

/-- `p` keeps `I`, and establishes `E` if it ends with an error. -/
def Keeps (I E : σ → Prop) (p : Prog ε σ α) : Prop :=
  ∀ s, I s →
    match p s with
    | (.ok _, s') => I s'
    | (.error _, s') => E s'

variable {I E : σ → Prop}

theorem Keeps.ok (keeps : Keeps I E p) (holds : I s) (run : p s = (.ok a, s')) : I s' := by
  have step := keeps s holds
  rwa [run] at step

theorem Keeps.stopped (keeps : Keeps I E p) (holds : I s) (weaker : ∀ s, I s → E s) :
    E (p s).2 := by
  have step := keeps s holds
  rcases run : p s with ⟨e | a, s'⟩
  · rw [run] at step
    exact step
  · rw [run] at step
    exact weaker s' step

theorem keeps_pure (a : α) : Keeps I E (pure a : Prog ε σ α) := fun _ holds => holds

theorem keeps_get : Keeps I E (get : Prog ε σ σ) := fun _ holds => holds

theorem keeps_throw (e : ε) (weaker : ∀ s, I s → E s) : Keeps I E (throw e : Prog ε σ α) :=
  fun s holds => weaker s holds

theorem keeps_modify (f : σ → σ) (kept : ∀ s, I s → I (f s)) :
    Keeps I E (modify f : Prog ε σ Unit) := fun s holds => kept s holds

theorem keeps_bind (first : Keeps I E p) (next : ∀ a, Keeps I E (f a)) : Keeps I E (p >>= f) := by
  intro s holds
  have step := first s holds
  rcases run : p s with ⟨e | a, s'⟩
  · rw [run] at step
    rw [bind_error run]
    exact step
  · rw [run] at step
    rw [bind_ok run]
    exact next a s' step

theorem keeps_ite {q : Prog ε σ α} (c : Prop) [Decidable c] (yes : Keeps I E p) (no : Keeps I E q) :
    Keeps I E (if c then p else q) := by
  split
  · exact yes
  · exact no

theorem keeps_thenDo {f : σ → σ} (first : Keeps I E p) (kept : ∀ s, I s → I (f s))
    (keptE : ∀ s, E s → E (f s)) : Keeps I E (p.thenDo f) := by
  intro s holds
  have step := first s holds
  simp only [thenDo]
  rcases run : p s with ⟨e | a, s'⟩
  · rw [run] at step
    exact keptE s' step
  · rw [run] at step
    exact kept s' step

/-- `P` holds of every error with which `p` can end. -/
def Errors (P : ε → Prop) (p : Prog ε σ α) : Prop := ∀ s e s', p s = (.error e, s') → P e

section

variable {P : ε → Prop}

theorem errors_pure (a : α) : Errors P (pure a : Prog ε σ α) := by
  rintro s e s' ⟨⟩

theorem errors_get : Errors P (get : Prog ε σ σ) := by
  rintro s e s' ⟨⟩

theorem errors_modify (f : σ → σ) : Errors P (modify f : Prog ε σ Unit) := by
  rintro s e s' ⟨⟩

theorem errors_throw {e : ε} (holds : P e) : Errors P (throw e : Prog ε σ α) := by
  rintro s _ s' ⟨⟩
  exact holds

theorem errors_bind {p : Prog ε σ α} {f : α → Prog ε σ β} (first : Errors P p)
    (next : ∀ a, Errors P (f a)) : Errors P (p >>= f) := by
  intro s e s' stopped
  rcases run : p s with ⟨e₁ | a, s₁⟩
  · rw [bind_error run] at stopped
    cases stopped
    exact first s e s' run
  · rw [bind_ok run] at stopped
    exact next a s₁ e s' stopped

theorem errors_ite {p q : Prog ε σ α} {c : Prop} [Decidable c] (yes : Errors P p)
    (no : Errors P q) : Errors P (if c then p else q) := by
  split
  · exact yes
  · exact no

end

theorem Errors.ends (none : Errors (fun _ => False) p) (s : σ) : ∃ a s', p s = (.ok a, s') := by
  rcases run : p s with ⟨e | a, s'⟩
  · exact (none s e s' run).elim
  · exact ⟨a, s', rfl⟩

end Prog
