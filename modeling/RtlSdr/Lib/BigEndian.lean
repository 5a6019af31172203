import Mathlib.Data.List.Induction
import Mathlib.Data.Nat.Bitwise
import Mathlib.Tactic.Ring

/-!
# Big-endian byte strings

`toBytes w n` is the `w`-byte big-endian image of `n`, `ofBytes` its inverse on
byte strings of any length.
-/
namespace BigEndian

def ofBytes (bytes : List UInt8) : Nat := bytes.foldl (fun acc byte => acc * 256 + byte.toNat) 0

def toBytes : Nat → Nat → List UInt8
  | 0, _ => []
  | width + 1, n => toBytes width (n / 256) ++ [UInt8.ofNat n]

@[simp] theorem toBytes_length (width n : Nat) : (toBytes width n).length = width := by
  induction width generalizing n with
  | zero => rfl
  | succ width ih => simp [toBytes, ih]

@[simp] theorem ofBytes_nil : ofBytes [] = 0 := rfl

theorem ofBytes_concat (bytes : List UInt8) (byte : UInt8) :
    ofBytes (bytes ++ [byte]) = ofBytes bytes * 256 + byte.toNat := by
  simp [ofBytes]

theorem ofBytes_toBytes (width n : Nat) : ofBytes (toBytes width n) = n % 256 ^ width := by
  induction width generalizing n with
  | zero => simp [toBytes, Nat.mod_one]
  | succ width ih =>
    have digits : n % 256 ^ (width + 1) = n % 256 + 256 * (n / 256 % 256 ^ width) := by
      rw [Nat.pow_succ', Nat.mod_mul]
    rw [toBytes, ofBytes_concat, ih, UInt8.toNat_ofNat', digits]
    omega

theorem toBytes_ofBytes (bytes : List UInt8) : toBytes bytes.length (ofBytes bytes) = bytes := by
  induction bytes using List.reverseRecOn with
  | nil => rfl
  | append_singleton bytes byte ih =>
    have high : (ofBytes bytes * 256 + byte.toNat) / 256 = ofBytes bytes := by
      have := byte.toNat_lt
      omega
    have low : UInt8.ofNat (ofBytes bytes * 256 + byte.toNat) = byte := by
      apply UInt8.toNat_inj.mp
      rw [UInt8.toNat_ofNat']
      have := byte.toNat_lt
      omega
    rw [List.length_append, List.length_singleton, toBytes, ofBytes_concat, high, low, ih]

theorem toBytes_four (n : Nat) : toBytes 4 n =
    [UInt8.ofNat (n / 2 ^ 24), UInt8.ofNat (n / 2 ^ 16), UInt8.ofNat (n / 2 ^ 8), UInt8.ofNat n] := by
  simp [toBytes, Nat.div_div_eq_div_mul]

theorem toBytes_add (high low n : Nat) :
    toBytes (high + low) n = toBytes high (n / 256 ^ low) ++ toBytes low n := by
  induction low generalizing n with
  | zero => simp [toBytes]
  | succ low ih =>
    rw [← Nat.add_assoc, toBytes, ih, toBytes, List.append_assoc, Nat.div_div_eq_div_mul,
      Nat.pow_succ, Nat.mul_comm 256]

theorem toBytes_mod (width n : Nat) : toBytes width (n % 256 ^ width) = toBytes width n := by
  induction width generalizing n with
  | zero => rfl
  | succ width ih =>
    rw [toBytes, toBytes, ← ih (n / 256)]
    have high : n % 256 ^ (width + 1) / 256 = n / 256 % 256 ^ width := by
      rw [Nat.pow_succ, Nat.mul_comm, Nat.mod_mul_right_div_self]
    have low : UInt8.ofNat (n % 256 ^ (width + 1)) = UInt8.ofNat n := by
      apply UInt8.toNat_inj.mp
      rw [UInt8.toNat_ofNat', UInt8.toNat_ofNat', Nat.pow_succ]
      exact Nat.mod_mod_of_dvd n (Dvd.intro_left _ rfl)
    rw [high, low]

theorem ofBytes_append (xs ys : List UInt8) :
    ofBytes (xs ++ ys) = ofBytes xs * 256 ^ ys.length + ofBytes ys := by
  induction ys using List.reverseRecOn with
  | nil => simp
  | append_singleton ys y ih =>
    rw [← List.append_assoc, ofBytes_concat, ofBytes_concat, ih, List.length_append,
      List.length_singleton, Nat.pow_succ]
    ring

theorem shift_or_eq (high low k : Nat) (small : low < 2 ^ k) :
    high <<< k ||| low = high * 2 ^ k + low := by
  rw [Nat.shiftLeft_eq, Nat.mul_comm, Nat.two_pow_add_eq_or_of_lt small]

end BigEndian
