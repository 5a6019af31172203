import Mathlib.Data.List.GetD
import Mathlib.Data.Int.Basic

/-!
# Circular delay lines

A line of `size` cells keeps the last `size` samples of a stream. The next sample goes
to the write position `wp`, and the sample `j` steps ago is found at `wp - 1 - j`
modulo `size`. Before the stream starts every sample is a fixed `zero`.
-/
namespace DelayLine

variable {α : Type}

/-- The sample pushed `j` steps before the last one, `zero` before the first. -/
def ago (zero : α) (past : List α) (j : Nat) : α := past.reverse.getD j zero

theorem ago_nil (zero : α) (j : Nat) : ago zero [] j = zero := by
  simp [ago]

theorem ago_push_zero (zero : α) (past : List α) (x : α) : ago zero (past ++ [x]) 0 = x := by
  simp [ago]

theorem ago_push_succ (zero : α) (past : List α) (x : α) (j : Nat) :
    ago zero (past ++ [x]) (j + 1) = ago zero past j := by
  simp [ago]

theorem ago_eq_getD (zero : α) (past : List α) (j : Nat) (inside : j < past.length) :
    ago zero past j = past.getD (past.length - 1 - j) zero := by
  rw [ago, List.getD_eq_getElem _ _ (by simpa using inside),
    List.getD_eq_getElem _ _ (by omega), List.getElem_reverse]

theorem ago_before (zero : α) (past : List α) (j : Nat) (before : past.length ≤ j) :
    ago zero past j = zero := by
  rw [ago, List.getD_eq_default _ _ (by simpa using before)]

theorem ago_map {β : Type} (f : α → β) (zero : α) (past : List α) (j : Nat) :
    ago (f zero) (past.map f) j = f (ago zero past j) := by
  rw [ago, ago, ← List.map_reverse, List.getD_map]

/-- The cell of the sample `j` steps ago. -/
def slot (size wp j : Nat) : Nat := (((wp : Int) - 1 - j) % size).toNat

theorem slot_eq (size wp j : Nat) (position : wp < size) (recent : j < size) :
    slot size wp j = if j < wp then wp - 1 - j else wp + size - 1 - j := by
  unfold slot
  split_ifs with later
  · rw [Int.emod_eq_of_lt (by omega) (by omega)]
    omega
  · rw [← Int.add_emod_right, Int.emod_eq_of_lt (by omega) (by omega)]
    omega

theorem next_eq (size wp : Nat) (position : wp < size) :
    (wp + 1) % size = if wp + 1 = size then 0 else wp + 1 := by
  split_ifs with wraps
  · rw [wraps, Nat.mod_self]
  · exact Nat.mod_eq_of_lt (by omega)

/-- The line holds the most recent samples of `past`. -/
def Tracks (zero : α) (mem : List α) (wp : Nat) (past : List α) : Prop :=
  ∀ j < mem.length, mem.getD (slot mem.length wp j) zero = ago zero past j

theorem tracks_fresh (zero : α) (size wp : Nat) : Tracks zero (List.replicate size zero) wp [] := by
  intro j _
  rw [ago_nil, List.getD_eq_getElem?_getD, List.getElem?_replicate]
  split_ifs <;> rfl

/-- Storing at the write position and advancing it pushes one sample. Only the oldest
one is overwritten. -/
theorem Tracks.push (zero : α) (mem : List α) (wp : Nat) (past : List α) (x : α)
    (tracks : Tracks zero mem wp past) (position : wp < mem.length) :
    Tracks zero (mem.set wp x) ((wp + 1) % mem.length) (past ++ [x]) := by
  intro j recent
  rw [List.length_set] at recent ⊢
  have next := next_eq mem.length wp position
  have moved : (wp + 1) % mem.length < mem.length := Nat.mod_lt _ (by omega)
  rw [slot_eq _ _ _ moved recent]
  cases j with
  | zero =>
    have here : (if 0 < (wp + 1) % mem.length then (wp + 1) % mem.length - 1 - 0
        else (wp + 1) % mem.length + mem.length - 1 - 0) = wp := by
      rw [next]
      split_ifs <;> omega
    rw [here, ago_push_zero, List.getD_eq_getElem _ _ (by simpa using position),
      List.getElem_set_self]
  | succ j =>
    have kept := slot_eq mem.length wp j position (by omega)
    have same : (if j + 1 < (wp + 1) % mem.length then (wp + 1) % mem.length - 1 - (j + 1)
        else (wp + 1) % mem.length + mem.length - 1 - (j + 1)) = slot mem.length wp j := by
      rw [next, kept]
      split_ifs <;> omega
    have other : slot mem.length wp j ≠ wp := by
      rw [kept]
      split_ifs <;> omega
    have old := tracks j (by omega)
    rw [same, ago_push_succ, ← old, List.getD_eq_getElem?_getD, List.getD_eq_getElem?_getD,
      List.getElem?_set_ne (Ne.symm other)]

end DelayLine
