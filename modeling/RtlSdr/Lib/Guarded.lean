import Mathlib.Data.List.Induction

/-!
# Runs whose steps meet a condition

A step function is folded over a list of inputs. `Meets` asks something of every step, in
the state the step finds; what one such step keeps, a run of them keeps.
-/
namespace Guarded

variable {σ α : Type} (step : σ → α → σ) (C : σ → α → Prop)

/-- Every step of a run meets a condition on its input and the state before it. -/
def Meets : σ → List α → Prop
  | _, [] => True
  | s, x :: xs => C s x ∧ Meets (step s x) xs

instance Meets.decidable [∀ s x, Decidable (C s x)] :
    ∀ (s : σ) (xs : List α), Decidable (Meets step C s xs)
  | _, [] => isTrue trivial
  | s, x :: xs => @instDecidableAnd _ _ _ (Meets.decidable (step s x) xs)

variable {step C}

theorem meets_append (s : σ) (xs ys : List α) :
    Meets step C s (xs ++ ys) ↔ Meets step C s xs ∧ Meets step C (xs.foldl step s) ys := by
  induction xs generalizing s with
  | nil => simp [Meets]
  | cons x xs ih => rw [List.cons_append, Meets, Meets, ih, and_assoc, List.foldl_cons]

/-- What a step that meets the condition keeps holds at the end of the run. -/
theorem Meets.invariant {s : σ} {xs : List α} (meets : Meets step C s xs) (I : σ → Prop)
    (kept : ∀ s, ∀ x ∈ xs, I s → C s x → I (step s x)) (start : I s) : I (xs.foldl step s) := by
  induction xs generalizing s with
  | nil => exact start
  | cons x xs ih =>
    apply ih meets.2
    · intro s y member
      exact kept s y (List.mem_cons_of_mem x member)
    · exact kept s x List.mem_cons_self start meets.1

/-- Where a step keeps the invariant exactly when it meets the condition, the invariant holds
throughout a run exactly when all its steps do. -/
theorem always_iff_meets (I : σ → Prop) (kept : ∀ s x, I s → (I (step s x) ↔ C s x)) {s : σ}
    (start : I s) (xs : List α) :
    (∀ before, before <+: xs → I (before.foldl step s)) ↔ Meets step C s xs := by
  induction xs generalizing s with
  | nil => simp [Meets, start]
  | cons x xs ih =>
    rw [Meets, ← kept s x start]
    constructor
    · intro always
      have first := always [x] (by simp)
      refine ⟨first, (ih first).mp fun before within => ?_⟩
      exact always (x :: before) (List.cons_prefix_cons.mpr ⟨rfl, within⟩)
    · rintro ⟨first, others⟩ before within
      cases before with
      | nil => exact start
      | cons head before =>
        obtain ⟨rfl, inside⟩ := List.cons_prefix_cons.mp within
        exact (ih first).mpr others before inside

theorem foldl_stays {B : σ → Prop} (stays : ∀ s x, B s → B (step s x)) {s : σ} (bad : B s)
    (xs : List α) : B (xs.foldl step s) := by
  induction xs generalizing s with
  | nil => exact bad
  | cons x xs ih => exact ih (stays s x bad)

/-- Where a bad state is entered exactly by a step that does not meet the condition, and never
left, a run ends outside of it exactly when all its steps meet the condition. -/
theorem end_iff_meets (I B : σ → Prop) (kept : ∀ s x, I s → I (step s x))
    (stays : ∀ s x, B s → B (step s x)) (enters : ∀ s x, I s → ¬B s → (B (step s x) ↔ ¬C s x))
    {s : σ} (start : I s) (fine : ¬B s) (xs : List α) :
    ¬B (xs.foldl step s) ↔ Meets step C s xs := by
  induction xs generalizing s with
  | nil => exact iff_of_true fine trivial
  | cons x xs ih =>
    rw [Meets, List.foldl_cons]
    by_cases meets : C s x
    · have still : ¬B (step s x) := fun bad => (enters s x start fine).mp bad meets
      rw [ih (kept s x start) still]
      exact ⟨fun rest => ⟨meets, rest⟩, fun both => both.2⟩
    · have bad := (enters s x start fine).mpr meets
      exact iff_of_false (not_not.mpr (foldl_stays stays bad xs)) fun both => meets both.1

end Guarded
