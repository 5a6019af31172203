import Mathlib.Data.List.Basic

/-!
# Flat memory

A block of memory is a list of cells. `splice` is the effect of copying a source
onto it at an offset, `slice` what a copy out of it yields. Every fact is about
in-range copies, since a splice past the end would change the block's length.
-/
namespace Memory

variable {α : Type}

/-- Overwrite the cells from `off` on with `src`. -/
def splice (mem : List α) (off : Nat) (src : List α) : List α :=
  mem.take off ++ src ++ mem.drop (off + src.length)

def slice (mem : List α) (off len : Nat) : List α := (mem.drop off).take len

theorem splice_length (mem src : List α) (off : Nat) (fits : off + src.length ≤ mem.length) :
    (splice mem off src).length = mem.length := by
  simp only [splice, List.length_append, List.length_take, List.length_drop]
  omega

theorem slice_splice_self (mem src : List α) (off : Nat) (fits : off ≤ mem.length) :
    slice (splice mem off src) off src.length = src := by
  have start : (mem.take off).length = off := by rw [List.length_take]; omega
  rw [slice, splice, List.append_assoc, List.drop_append_of_le_length (by omega),
    List.drop_of_length_le (by omega), List.nil_append, List.take_left]

theorem slice_splice_before (mem src : List α) (off lo len : Nat)
    (before : lo + len ≤ off) (fits : off ≤ mem.length) :
    slice (splice mem off src) lo len = slice mem lo len := by
  have start : (mem.take off).length = off := by rw [List.length_take]; omega
  rw [slice, splice, List.append_assoc, List.drop_append_of_le_length (by omega),
    List.take_append_of_le_length (by rw [List.length_drop]; omega), List.drop_take,
    List.take_take, slice, Nat.min_eq_left (by omega)]

theorem slice_splice_after (mem src : List α) (off lo len : Nat)
    (after : off + src.length ≤ lo) (fits : off ≤ mem.length) :
    slice (splice mem off src) lo len = slice mem lo len := by
  have start : (mem.take off ++ src).length = off + src.length := by
    rw [List.length_append, List.length_take]; omega
  rw [slice, splice, List.drop_append, List.drop_of_length_le (by omega), List.nil_append,
    List.drop_drop, start, slice]
  congr 2
  omega

theorem splice_splice (mem first second : List α) (off : Nat) (fits : off ≤ mem.length) :
    splice (splice mem off first) (off + first.length) second =
      splice mem off (first ++ second) := by
  have start : (mem.take off ++ first).length = off + first.length := by
    rw [List.length_append, List.length_take]; omega
  rw [splice, splice, splice, List.take_left' start, List.drop_append,
    List.drop_of_length_le (by omega), List.nil_append, start, List.drop_drop, List.length_append,
    List.append_assoc (mem.take off) first second]
  congr 2
  omega

/-- Cells of distinct equal-sized slots do not overlap. -/
theorem slice_splice_slot (mem src : List α) (size slot other len : Nat)
    (distinct : slot ≠ other) (srcFits : src.length ≤ size) (lenFits : len ≤ size)
    (fits : slot * size ≤ mem.length) :
    slice (splice mem (slot * size) src) (other * size) len = slice mem (other * size) len := by
  rcases Nat.lt_or_gt_of_ne distinct with below | above
  · apply slice_splice_after _ _ _ _ _ _ fits
    have := Nat.mul_le_mul_right size (Nat.succ_le_of_lt below)
    rw [Nat.succ_mul] at this
    omega
  · apply slice_splice_before _ _ _ _ _ _ fits
    have := Nat.mul_le_mul_right size (Nat.succ_le_of_lt above)
    rw [Nat.succ_mul] at this
    omega

/-! ### Rows of equal cells -/

/-- The first `n` cells of `width` each. -/
def cells (width : Nat) : Nat → List α → List (List α)
  | 0, _ => []
  | n + 1, mem => mem.take width :: cells width n (mem.drop width)

/-- A loop that replaces each cell by a function of its own contents, in place. -/
def mapCells (width : Nat) (f : List α → List α) : Nat → Nat → List α → List α
  | 0, _, mem => mem
  | n + 1, i, mem =>
    mapCells width f n (i + 1) (splice mem (width * i) (f (slice mem (width * i) width)))

@[simp] theorem cells_length (width n : Nat) (mem : List α) : (cells width n mem).length = n := by
  induction n generalizing mem with
  | zero => rfl
  | succ n ih => simp [cells, ih]

/-- Only the cells themselves are looked at. -/
theorem cells_append (width n : Nat) (mem rest : List α) (room : width * n ≤ mem.length) :
    cells width n (mem ++ rest) = cells width n mem := by
  induction n generalizing mem with
  | zero => rfl
  | succ n ih =>
    rw [Nat.mul_succ] at room
    rw [cells, cells, List.take_append_of_le_length (by omega),
      List.drop_append_of_le_length (by omega), ih _ (by rw [List.length_drop]; omega)]

theorem cells_flatten (width : Nat) (row : List (List α))
    (sized : ∀ cell ∈ row, cell.length = width) : cells width row.length row.flatten = row := by
  induction row with
  | nil => rfl
  | cons cell row ih =>
    have here := sized cell List.mem_cons_self
    rw [List.flatten_cons, List.length_cons, cells, ← here, List.take_left, List.drop_left, here,
      ih fun other member => sized other (List.mem_cons_of_mem _ member)]

theorem flatten_cells_length (width n : Nat) (mem : List α) (room : width * n ≤ mem.length)
    (f : List α → List α) (sized : ∀ cell, cell.length = width → (f cell).length = width) :
    ((cells width n mem).map f).flatten.length = width * n := by
  induction n generalizing mem with
  | zero => rfl
  | succ n ih =>
    rw [Nat.mul_succ] at room
    have here : (f (mem.take width)).length = width := sized _ (by rw [List.length_take]; omega)
    rw [cells, List.map_cons, List.flatten_cons, List.length_append, here,
      ih _ (by rw [List.length_drop]; omega), Nat.mul_succ]
    omega

theorem mapCells_eq (width : Nat) (f : List α → List α)
    (sized : ∀ cell, cell.length = width → (f cell).length = width) (n i : Nat)
    (done rest : List α) (here : done.length = width * i) (room : width * n ≤ rest.length) :
    mapCells width f n i (done ++ rest) =
      done ++ ((cells width n rest).map f).flatten ++ rest.drop (width * n) := by
  induction n generalizing i done rest with
  | zero => simp [mapCells, cells]
  | succ n ih =>
    rw [Nat.mul_succ] at room
    have cell : slice (done ++ rest) (width * i) width = rest.take width := by
      rw [slice, ← here, List.drop_left]
    have new := sized (rest.take width) (by rw [List.length_take]; omega)
    have stored : splice (done ++ rest) (width * i) (f (rest.take width)) =
        (done ++ f (rest.take width)) ++ rest.drop width := by
      rw [splice, ← here, List.take_left, new, ← List.drop_drop, List.drop_left]
    rw [mapCells, cell, stored, ih (i + 1) _ _ (by rw [List.length_append, new, here, Nat.mul_succ])
      (by rw [List.length_drop]; omega)]
    simp [cells, List.drop_drop, Nat.mul_succ, Nat.add_comm width]

theorem cells_eq_range (width n : Nat) (mem : List α) :
    cells width n mem = (List.range n).map fun i => (mem.drop (width * i)).take width := by
  induction n generalizing mem with
  | zero => rfl
  | succ n ih =>
    rw [List.range_succ_eq_map, List.map_cons, List.map_map, cells, ih]
    congr 1
    apply List.map_congr_left
    intro i _
    rw [Function.comp_apply, List.drop_drop, Nat.mul_succ, Nat.add_comm]

theorem foldl_set_range (f : Nat → α) (n : Nat) (xs : List α) (room : n ≤ xs.length) :
    (List.range n).foldl (fun xs i => xs.set i (f i)) xs = (List.range n).map f ++ xs.drop n := by
  induction n with
  | zero => rfl
  | succ n ih =>
    have here : ((List.range n).map f).length = n := by simp
    have next : xs.drop n = xs[n] :: xs.drop (n + 1) := List.drop_eq_getElem_cons (by omega)
    rw [List.range_succ, List.foldl_append, ih (by omega), next, List.foldl_cons, List.foldl_nil,
      List.set_append_right _ _ (by omega), here, Nat.sub_self, List.set_cons_zero,
      List.map_append, List.append_assoc]
    rfl

end Memory
