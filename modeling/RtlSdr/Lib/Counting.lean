import Mathlib.Data.Finset.Card

/-!
# Counting over a table

The number of entries of a table with some property, when one entry changes.
-/
namespace Counting

variable {ι α : Type} [DecidableEq ι] (P : α → Prop) [DecidablePred P]

theorem card_update_gain (s : Finset ι) (table : ι → α) (i : ι) (entry : α) (member : i ∈ s)
    (was : ¬P (table i)) (now : P entry) :
    (s.filter fun j => P (Function.update table i entry j)).card =
      (s.filter fun j => P (table j)).card + 1 := by
  have grown : (s.filter fun j => P (Function.update table i entry j)) =
      insert i (s.filter fun j => P (table j)) := by
    ext j
    by_cases here : j = i
    · subst here
      simp [now, member]
    · simp [here]
  rw [grown, Finset.card_insert_of_notMem (by simp [was])]

theorem card_update_loss (s : Finset ι) (table : ι → α) (i : ι) (entry : α) (member : i ∈ s)
    (was : P (table i)) (now : ¬P entry) :
    (s.filter fun j => P (table j)).card =
      (s.filter fun j => P (Function.update table i entry j)).card + 1 := by
  have back := card_update_gain P s (Function.update table i entry) i (table i) member
    (by rwa [Function.update_self]) was
  rwa [Function.update_idem, Function.update_eq_self] at back

theorem card_update_same (s : Finset ι) (table : ι → α) (i : ι) (entry : α)
    (same : P entry ↔ P (table i)) :
    (s.filter fun j => P (Function.update table i entry j)).card =
      (s.filter fun j => P (table j)).card := by
  congr 1
  apply Finset.filter_congr
  intro j _
  by_cases here : j = i
  · rw [here, Function.update_self, same]
  · rw [Function.update_of_ne here]

end Counting
