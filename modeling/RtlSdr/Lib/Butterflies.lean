import RtlSdr.Lib.Loops

/-!
# A pass of butterflies in place

A pass takes an array in blocks of `2 * half` elements and replaces every pair of elements that are
`half` apart by a function of the two. As no element is in two pairs, the order of the pairs does
not matter: the array afterwards is a function of the array before.
-/
namespace Butterflies

open Checked

variable {α : Type}

/-- The array after a pass. The function is given the place of the pair in its block. -/
def passed (half : Nat) (fly : Nat → α → α → α × α) (a : Nat → α) (x : Nat) : α :=
  if x % (2 * half) < half then (fly (x % (2 * half)) (a x) (a (x + half))).1
  else (fly (x % (2 * half) - half) (a (x - half)) (a x)).2

def replace (half : Nat) (fly : α → α → α × α) (i : Nat) (a : Nat → α) : Nat → α :=
  Function.update (Function.update a (i + half) (fly (a i) (a (i + half))).2) i
    (fly (a i) (a (i + half))).1

/-- The pairs before place `j`, and those at place `j` in the first blocks, are replaced. -/
def Reached (half count j block : Nat) (fly : Nat → α → α → α × α) (a b : Nat → α) : Prop :=
  ∀ x, b x =
    if x < 2 * half * count ∧ (x % half < j ∨ x % half = j ∧ x / (2 * half) < block) then
      passed half fly a x
    else a x

variable {half count : Nat} {fly : Nat → α → α → α × α} {a b : Nat → α}

theorem pair_place {j : Nat} (place : j < half) (block : Nat) :
    ((2 * half * block + j) % half = j ∧ (2 * half * block + j) % (2 * half) = j ∧
      (2 * half * block + j) / (2 * half) = block) ∧
    (2 * half * block + j + half) % half = j ∧
      (2 * half * block + j + half) % (2 * half) = j + half ∧
      (2 * half * block + j + half) / (2 * half) = block := by
  have size : 0 < 2 * half := by omega
  have twice : 2 * half * block = half * (2 * block) := by
    rw [Nat.mul_comm 2 half, Nat.mul_assoc]
  have upper : 2 * half * block + j + half = 2 * half * block + (j + half) := Nat.add_assoc _ _ _
  refine ⟨⟨?_, ?_, ?_⟩, ?_, ?_, ?_⟩
  · rw [twice, Nat.mul_add_mod, Nat.mod_eq_of_lt place]
  · rw [Nat.mul_add_mod, Nat.mod_eq_of_lt (by omega)]
  · rw [Nat.mul_add_div size, Nat.div_eq_of_lt (by omega), Nat.add_zero]
  · rw [Nat.add_mod_right, twice, Nat.mul_add_mod, Nat.mod_eq_of_lt place]
  · rw [upper, Nat.mul_add_mod, Nat.mod_eq_of_lt (by omega)]
  · rw [upper, Nat.mul_add_div size, Nat.div_eq_of_lt (by omega), Nat.add_zero]

/-- An element at the same place of the same block is one of the pair. -/
theorem eq_of_place {x j block : Nat} (place : x % half = j) (inside : x / (2 * half) = block)
    (some : j < half) : x = 2 * half * block + j ∨ x = 2 * half * block + j + half := by
  have whole := Nat.div_add_mod x (2 * half)
  have size := Nat.mod_lt x (by omega : 0 < 2 * half)
  have nested : x % (2 * half) % half = j := by
    rw [Nat.mod_mod_of_dvd x ⟨2, Nat.mul_comm 2 half⟩, place]
  rw [inside] at whole
  by_cases lower : x % (2 * half) < half
  · rw [Nat.mod_eq_of_lt lower] at nested
    omega
  · have split : x % (2 * half) = half + (x % (2 * half) - half) := by omega
    rw [split, Nat.add_mod_left, Nat.mod_eq_of_lt (by omega)] at nested
    omega

theorem Reached.step {j block : Nat} (reached : Reached half count j block fly a b)
    (place : j < half) (inside : block < count) :
    b (2 * half * block + j) = a (2 * half * block + j) ∧
      b (2 * half * block + j + half) = a (2 * half * block + j + half) ∧
      Reached half count j (block + 1) fly a
        (replace half (fly j) (2 * half * block + j) b) := by
  obtain ⟨⟨low, lowIn, lowBlock⟩, high, highIn, highBlock⟩ := pair_place place block
  have room : 2 * half * block + 2 * half ≤ 2 * half * count := by
    rw [← Nat.mul_succ]
    exact Nat.mul_le_mul_left _ inside
  have lower : b (2 * half * block + j) = a (2 * half * block + j) := by
    rw [reached, if_neg]
    rintro ⟨_, before | ⟨_, before⟩⟩ <;> omega
  have upper : b (2 * half * block + j + half) = a (2 * half * block + j + half) := by
    rw [reached, if_neg]
    rintro ⟨_, before | ⟨_, before⟩⟩ <;> omega
  refine ⟨lower, upper, ?_⟩
  intro x
  rw [replace, lower, upper]
  by_cases first : x = 2 * half * block + j
  · rw [first, Function.update_self, if_pos ⟨by omega, .inr ⟨low, by omega⟩⟩, passed, lowIn,
      if_pos place]
  · rw [Function.update_of_ne first]
    by_cases second : x = 2 * half * block + j + half
    · rw [second, Function.update_self, if_pos ⟨by omega, .inr ⟨high, by omega⟩⟩, passed, highIn,
        if_neg (by omega), Nat.add_sub_cancel, Nat.add_sub_cancel]
    · -- Any other element is as far as it was.
      rw [Function.update_of_ne second, reached]
      have same : x % half = j → x / (2 * half) ≠ block := by
        intro at_ here
        rcases eq_of_place at_ here place with here | here
        · exact first here
        · exact second here
      congr 1
      apply propext
      constructor
      · rintro ⟨within, before | ⟨at_, before⟩⟩
        · exact ⟨within, .inl before⟩
        · exact ⟨within, .inr ⟨at_, by omega⟩⟩
      · rintro ⟨within, before | ⟨at_, before⟩⟩
        · exact ⟨within, .inl before⟩
        · have other := same at_
          exact ⟨within, .inr ⟨at_, by omega⟩⟩

theorem Reached.next {j : Nat} (reached : Reached half count j count fly a b) (some : 0 < half) :
    Reached half count (j + 1) 0 fly a b := by
  intro x
  rw [reached]
  congr 1
  apply propext
  constructor
  · rintro ⟨within, before | ⟨at_, _⟩⟩
    · exact ⟨within, .inl (by omega)⟩
    · exact ⟨within, .inl (by omega)⟩
  · rintro ⟨within, before | ⟨_, none⟩⟩
    · have block : x / (2 * half) < count := by
        rw [Nat.div_lt_iff_lt_mul (by omega), Nat.mul_comm]
        exact within
      exact ⟨within, by omega⟩
    · exact absurd none (Nat.not_lt_zero _)

/-- The loops over the places and, for each, over the blocks. -/
theorem pass_gives (some : 0 < half) (body : Nat → Nat → (Nat → α) → Checked (Nat → α))
    (round : ∀ j < half, ∀ block < count, ∀ s : Nat → α,
      s (2 * half * block + j) = a (2 * half * block + j) →
      s (2 * half * block + j + half) = a (2 * half * block + j + half) →
      (body j (2 * half * block + j) s).Gives
        (· = replace half (fly j) (2 * half * block + j) s)) :
    (forRange (fun j => forRange (fun block => body j (2 * half * block + j)) count) half a).Gives
      fun b => ∀ x < 2 * half * count, b x = passed half fly a x := by
  have start : Reached half count 0 0 fly a a := by
    intro x
    rw [if_neg]
    rintro ⟨_, before | ⟨_, before⟩⟩
    · exact Nat.not_lt_zero _ before
    · exact Nat.not_lt_zero _ before
  have whole := forRange_gives (fun j => Reached half count j 0 fly a)
    (fun j => forRange (fun block => body j (2 * half * block + j)) count) half ?_ a start
  · refine whole.mono fun b reached x within => ?_
    rw [reached, if_pos ⟨within, .inl (Nat.mod_lt x some)⟩]
  · intro j place s now
    have blocks := forRange_gives (fun block => Reached half count j block fly a)
      (fun block => body j (2 * half * block + j)) count ?_ s now
    · exact blocks.mono fun b reached => reached.next some
    · intro block inside s now
      obtain ⟨lower, upper, next⟩ := now.step place inside
      refine (round j place block inside s lower upper).mono ?_
      rintro b rfl
      exact next

end Butterflies
