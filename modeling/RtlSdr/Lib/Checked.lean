import Mathlib.Algebra.Group.Int.Defs
import Mathlib.Algebra.Group.Nat.Defs
import Mathlib.Data.Int.Basic

/-!
# Machine integers with a record of exactness

`Checked α` is a value computed in machine integers together with whether every step on the way gave
its mathematical result. A program written with these steps returns what the machine returns; that
it equals `pure a` says in one equation that the result is `a` and that every step was exact.
-/

@[ext]
structure Checked (α : Type) where
  value : α
  exact : Bool
deriving DecidableEq

namespace Checked

variable {α β : Type}

instance : Monad Checked where
  pure a := ⟨a, true⟩
  bind m f := ⟨(f m.value).value, m.exact && (f m.value).exact⟩

@[simp] theorem value_pure (a : α) : (pure a : Checked α).value = a := rfl

/-- In particular `pure_bind`: an exact step is passed without a trace. -/
instance : LawfulMonad Checked := LawfulMonad.mk' Checked
  (fun _ => Checked.ext rfl (Bool.and_true _))
  (fun _ _ => Checked.ext rfl (Bool.true_and _))
  (fun _ _ _ => Checked.ext rfl (Bool.and_assoc _ _ _))

/-- The `bits` low bits of `x`, as an unsigned operation or assignment leaves them. -/
def unsigned (bits : Nat) (x : Int) : Checked Nat :=
  ⟨(x % 2 ^ bits).toNat, 0 ≤ x ∧ x < 2 ^ bits⟩

/-- A signed operation of `bits` bits; where it overflows, nothing is said of the result. -/
def signed (bits : Nat) (x : Int) : Checked Int :=
  ⟨x, -2 ^ (bits - 1) ≤ x ∧ x < 2 ^ (bits - 1)⟩

/-- A signed operation of `bits` bits on a machine that keeps the low bits. -/
def wrapping (bits : Nat) (x : Int) : Checked Int :=
  ⟨x.bmod (2 ^ bits), -2 ^ (bits - 1) ≤ x ∧ x < 2 ^ (bits - 1)⟩

/-- A result of type `int`, of a computation that is never negative. -/
def int (x : Nat) : Checked Nat := do
  let y ← signed 32 x
  pure y.toNat

def quotient (a b : Nat) : Checked Nat := ⟨a / b, b ≠ 0⟩

variable {n bits : Nat} {x : Int}

theorem unsigned_eq (same : x = n) (fits : n < 2 ^ bits) : unsigned bits x = pure n := by
  subst same
  have small : (n : Int) < 2 ^ bits := by exact_mod_cast fits
  have range : (0 : Int) ≤ n ∧ (n : Int) < 2 ^ bits := ⟨Int.natCast_nonneg n, small⟩
  rw [unsigned, Int.emod_eq_of_lt range.1 small, Int.toNat_natCast, decide_eq_true range]
  rfl

theorem unsigned_natCast (fits : n < 2 ^ bits) : unsigned bits n = pure n :=
  unsigned_eq rfl fits

theorem signed_eq (low : -2 ^ (bits - 1) ≤ x) (high : x < 2 ^ (bits - 1)) :
    signed bits x = pure x := by
  rw [signed, decide_eq_true ⟨low, high⟩]
  rfl

theorem wrapping_eq (low : -2147483648 ≤ x) (high : x < 2147483648) : wrapping 32 x = pure x := by
  have kept : x.bmod (2 ^ 32) = x := Int.bmod_eq_of_le low high
  rw [wrapping, kept, decide_eq_true ⟨low, high⟩]
  rfl

theorem wrapping_exact :
    (wrapping 32 x).exact = true ↔ -2147483648 ≤ x ∧ x < 2147483648 := decide_eq_true_iff

theorem int_eq {x : Nat} (fits : x < 2 ^ 31) : int x = pure x := by
  rw [int, signed_eq (by omega) (by exact_mod_cast fits), pure_bind, Int.toNat_natCast]

theorem quotient_eq {a b : Nat} (nonzero : b ≠ 0) : quotient a b = pure (a / b) := by
  rw [quotient, decide_eq_true nonzero]
  rfl

theorem toNat_ofInt (low : 0 ≤ x) (high : x < 2 ^ 32) : ((UInt32.ofInt x).toNat : Int) = x := by
  have kept : (x % 2 ^ 32).toNat < 2 ^ 32 := by omega
  rw [UInt32.ofInt, UInt32.toNat_ofNat_of_lt' kept]
  omega

theorem toNat_ofInt_natCast (fits : n < 2 ^ 32) : (UInt32.ofInt n).toNat = n := by
  have kept := toNat_ofInt (Int.natCast_nonneg n) (by exact_mod_cast fits)
  exact_mod_cast kept

end Checked
