import Mathlib.Data.List.Basic

/-!
# Selections from a growing sequence

A reader that goes through a sequence from some place on, taking elements and passing over
others. `Picked` says which places it has taken: they ascend, and lie between the first place
and the next one to come.
-/
namespace Selection

variable {α : Type}

structure Picked (source : List α) (first next : Nat) (places : List Nat) (taken : List α) :
    Prop where
  ascending : places.Pairwise (· < ·)
  inside : ∀ place ∈ places, first ≤ place ∧ place < next
  reached : first ≤ next
  bound : next ≤ source.length
  elements : places.map (source[·]?) = taken.map some

theorem picked_start (source : List α) :
    Picked source source.length source.length [] [] where
  ascending := List.Pairwise.nil
  inside := nofun
  reached := Nat.le_refl _
  bound := Nat.le_refl _
  elements := rfl

variable {source : List α} {first next : Nat} {places : List Nat} {taken : List α}

theorem Picked.grow (picked : Picked source first next places taken) (more : List α) :
    Picked (source ++ more) first next places taken where
  ascending := picked.ascending
  inside := picked.inside
  reached := picked.reached
  bound := by
    rw [List.length_append]
    exact Nat.le_add_right_of_le picked.bound
  elements := by
    rw [← picked.elements]
    apply List.map_congr_left
    intro place member
    exact List.getElem?_append_left
      (Nat.lt_of_lt_of_le (picked.inside place member).2 picked.bound)

theorem Picked.take (picked : Picked source first next places taken) (x : α)
    (here : source[next]? = some x) :
    Picked source first (next + 1) (places ++ [next]) (taken ++ [x]) where
  ascending := by
    rw [List.pairwise_append]
    refine ⟨picked.ascending, List.pairwise_singleton _ _, ?_⟩
    intro place member last final
    rw [List.mem_singleton.mp final]
    exact (picked.inside place member).2
  inside := by
    intro place member
    rcases List.mem_append.mp member with earlier | last
    · obtain ⟨low, high⟩ := picked.inside place earlier
      exact ⟨low, Nat.lt_succ_of_lt high⟩
    · rw [List.mem_singleton.mp last]
      exact ⟨picked.reached, Nat.lt_succ_self next⟩
  reached := Nat.le_succ_of_le picked.reached
  bound := (List.getElem?_eq_some_iff.mp here).1
  elements := by
    rw [List.map_append, List.map_append, picked.elements]
    simp [here]

theorem Picked.skip (picked : Picked source first next places taken) (next' : Nat)
    (ahead : next ≤ next') (bound : next' ≤ source.length) :
    Picked source first next' places taken where
  ascending := picked.ascending
  inside place member :=
    ⟨(picked.inside place member).1, Nat.lt_of_lt_of_le (picked.inside place member).2 ahead⟩
  reached := Nat.le_trans picked.reached ahead
  bound := bound
  elements := picked.elements

end Selection
