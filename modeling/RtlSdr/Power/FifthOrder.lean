import RtlSdr.Power.Scanner

/-!
# The recursive filter of rtl_power

`fifth_order` halves the rate with the taps 1, 5, 10, 10, 5, 1. The first three outputs are eased in
from six samples, and the loop begins one sample too early: the sixth sample counts twice in the
next two outputs, and one sample before it does not count in them at all.
-/
namespace RtlSdr.Power

open Checked

/-- An `int16_t` from an `int`. -/
def int16 (x : Int) : Int := x.bmod (2 ^ 16)

/-- The registers before the loop and after each round of it, from the samples `s`. -/
def registers (s : Nat → Int) : Nat → Fm.Taps
  | 0 => ⟨s 0, s 1, s 2, s 3, s 4, s 5⟩
  | r + 1 => (registers s r).next (s (2 * r + 5)) (s (2 * r + 6))

def weighted (t : Fm.Taps) : Int :=
  int16 ((t.a + (t.b + t.e) * 5 + (t.c + t.d) * 10 + t.f) >>> (4 : Nat))

/-- The loop after `r` rounds: outputs up to place `r + 2`, and the samples from there on. -/
structure Eased (s : Nat → Int) (r : Nat) (now : Fifth) : Prop where
  taps : (⟨now.a, now.b, now.c, now.d, now.e, now.f⟩ : Fm.Taps) = registers s r
  outputs : ∀ k, 3 ≤ k → k < r + 3 → now.data k = weighted (registers s (k - 2))
  samples : ∀ k, r + 3 ≤ k → now.data k = s k

theorem Eased.round {s : Nat → Int} {r n : Nat} {now : Fifth} (eased : Eased s r now) :
    Eased s (r + 1) (fifthRound n (12 + 4 * r) now).value := by
  obtain ⟨taps, outputs, samples⟩ := eased
  have place : (12 + 4 * r) / 4 = r + 3 := by omega
  have e : now.data ((12 + 4 * r) / 2 - 1) = s (2 * r + 5) := by
    rw [samples _ (by omega)]
    congr 1
    omega
  have f : now.data ((12 + 4 * r) / 2) = s (2 * r + 6) := by
    rw [samples _ (by omega)]
    congr 1
    omega
  have next : (⟨now.c, now.d, now.e, now.f, s (2 * r + 5), s (2 * r + 6)⟩ : Fm.Taps) =
      registers s (r + 1) := by
    rw [registers, ← taps]
    rfl
  have data : (fifthRound n (12 + 4 * r) now).value.data =
      Function.update now.data (r + 3) (weighted (registers s (r + 1))) := by
    rw [← next, ← e, ← f, ← place]
    rfl
  refine ⟨?_, ?_, ?_⟩
  · rw [← next, ← e, ← f]
    rfl
  · intro k first last
    rw [data]
    by_cases here : k = r + 3
    · rw [here, Function.update_self]
      rfl
    · rw [Function.update_of_ne here]
      exact outputs k first (by omega)
  · intro k behind
    rw [data, Function.update_of_ne (by omega)]
    exact samples k (by omega)

theorem eased_start (s : Nat → Int) (x y z : Int) :
    Eased s 0 ⟨s 0, s 1, s 2, s 3, s 4, s 5,
      Function.update (Function.update (Function.update s 0 x) 1 y) 2 z⟩ := by
  refine ⟨rfl, fun k low high => absurd high (by omega), fun k behind => ?_⟩
  dsimp only
  rw [Function.update_of_ne (by omega), Function.update_of_ne (by omega),
    Function.update_of_ne (by omega)]

theorem fifthOrder_output (n : Nat) (s : Nat → Int) {length : Int} {k : Nat} (first : 3 ≤ k)
    (inside : 4 * (k : Int) < length) :
    (fifthOrder n s length).value k = weighted (registers s (k - 2)) := by
  have done (x y z : Int) := forRange_reaches (Eased s) (fun r => fifthRound n (12 + 4 * r))
    ((length.toNat - 12 + 4 - 1) / 4) (fun r _ _ eased => eased.round) _ (eased_start s x y z)
  exact (done _ _ _).outputs k first (by omega)

/-- After three rounds the registers hold consecutive samples. -/
theorem registers_settled (s : Nat → Int) (r : Nat) :
    registers s (r + 3) = ⟨s (2 * r + 5), s (2 * r + 6), s (2 * r + 7), s (2 * r + 8),
      s (2 * r + 9), s (2 * r + 10)⟩ := by
  induction r with
  | zero => rfl
  | succ r ih =>
    rw [registers, ih]
    rfl

/-- The output of the filter at place `k`. -/
def firOutput (s : Nat → Int) (k : Nat) : Int :=
  int16 ((s (2 * k - 5) + 5 * s (2 * k - 4) + 10 * s (2 * k - 3) + 10 * s (2 * k - 2) +
    5 * s (2 * k - 1) + s (2 * k)) >>> (4 : Nat))

/-- The sixth sample taken twice makes no difference to the two outputs it goes into. -/
def Seamless (s : Nat → Int) : Prop :=
  int16 ((s 2 + 5 * s 3 + 10 * s 4 + 15 * s 5 + s 6) >>> (4 : Nat)) =
      int16 ((s 1 + 5 * s 2 + 10 * s 3 + 10 * s 4 + 5 * s 5 + s 6) >>> (4 : Nat)) ∧
    int16 ((s 4 + 15 * s 5 + 10 * s 6 + 5 * s 7 + s 8) >>> (4 : Nat)) =
      int16 ((s 3 + 5 * s 4 + 10 * s 5 + 10 * s 6 + 5 * s 7 + s 8) >>> (4 : Nat))

theorem weighted_settled (s : Nat → Int) {k : Nat} (settled : 5 ≤ k) :
    weighted (registers s (k - 2)) = firOutput s k := by
  obtain ⟨r, rfl⟩ := Nat.exists_eq_add_of_le' settled
  have first : 2 * (r + 5) - 5 = 2 * r + 5 := by omega
  have second : 2 * (r + 5) - 4 = 2 * r + 6 := by omega
  have third : 2 * (r + 5) - 3 = 2 * r + 7 := by omega
  have fourth : 2 * (r + 5) - 2 = 2 * r + 8 := by omega
  have fifth : 2 * (r + 5) - 1 = 2 * r + 9 := by omega
  have last : 2 * (r + 5) = 2 * r + 10 := by omega
  rw [show r + 5 - 2 = r + 3 by omega, registers_settled, weighted, firOutput, first, second, third,
    fourth, fifth, last]
  congr 2
  ring

/-- The output is that of the filter for every place but the two at the seam. -/
theorem weighted_iff (s : Nat → Int) :
    (weighted (registers s 1) = firOutput s 3 ∧ weighted (registers s 2) = firOutput s 4) ↔
      Seamless s := by
  have third : (registers s 1).a + ((registers s 1).b + (registers s 1).e) * 5 +
      ((registers s 1).c + (registers s 1).d) * 10 + (registers s 1).f =
        s 2 + 5 * s 3 + 10 * s 4 + 15 * s 5 + s 6 := by
    change s 2 + (s 3 + s 5) * 5 + (s 4 + s 5) * 10 + s 6 = _
    ring
  have fourth : (registers s 2).a + ((registers s 2).b + (registers s 2).e) * 5 +
      ((registers s 2).c + (registers s 2).d) * 10 + (registers s 2).f =
        s 4 + 15 * s 5 + 10 * s 6 + 5 * s 7 + s 8 := by
    change s 4 + (s 5 + s 7) * 5 + (s 5 + s 6) * 10 + s 8 = _
    ring
  rw [weighted, weighted, third, fourth]
  rfl

theorem fifthOrder_fir (n : Nat) (s : Nat → Int) (length : Int) (long : 20 < length) :
    (∀ k : Nat, 3 ≤ k → 4 * (k : Int) < length → (fifthOrder n s length).value k = firOutput s k) ↔
      Seamless s := by
  rw [← weighted_iff]
  constructor
  · intro fir
    refine ⟨?_, ?_⟩
    · rw [← fir 3 (by decide) (by omega), fifthOrder_output n s (by decide) (by omega)]
    · rw [← fir 4 (by decide) (by omega), fifthOrder_output n s (by decide) (by omega)]
  · rintro ⟨third, fourth⟩ k first inside
    rw [fifthOrder_output n s first inside]
    by_cases settled : 5 ≤ k
    · exact weighted_settled s settled
    · obtain rfl | rfl : k = 3 ∨ k = 4 := by omega
      · exact third
      · exact fourth

/-- Exactly when `fifth_order` is the filter for both halves, behind what it eases in. -/
theorem downsampleIq_fir_iff (n : Nat) (iq : Iq) (length : Int) (long : 24 ≤ length) :
    (∀ k : Nat, 3 ≤ k →
        (4 * (k : Int) < length →
          ((downsampleIq n iq length).value k).1 = firOutput (fun i => (iq i).1) k) ∧
        (4 * (k : Int) < length - 1 →
          ((downsampleIq n iq length).value k).2 = firOutput (fun i => (iq i).2) k)) ↔
      Seamless (fun i => (iq i).1) ∧ Seamless (fun i => (iq i).2) := by
  rw [← fifthOrder_fir n (fun i => (iq i).1) length (by omega),
    ← fifthOrder_fir n (fun i => (iq i).2) (length - 1) (by omega)]
  constructor
  · intro fir
    exact ⟨fun k first => (fir k first).1, fun k first => (fir k first).2⟩
  · rintro ⟨re, im⟩ k first
    exact ⟨re k first, im k first⟩

/-- A constant comes out doubled. -/
theorem downsampleIq_fir_constant :
    ((downsampleIq 12 (fun _ => (100, -100)) 24).value 3).1 = firOutput (fun _ => 100) 3 ∧
      firOutput (fun _ => 100) 3 = 200 :=
  ⟨(((downsampleIq_fir_iff 12 (fun _ => (100, -100)) 24 (by decide)).mpr
    ⟨⟨by decide, by decide⟩, by decide, by decide⟩) 3 (by decide)).1 (by decide), by decide⟩

/-- A single sample that is not zero, the second: the fourth output should be a sixteenth of it. -/
theorem downsampleIq_seam :
    ((downsampleIq 12 (fun k => if k = 1 then (1600, 0) else (0, 0)) 24).value 3).1 = 0 ∧
      firOutput (fun k => if k = 1 then 1600 else 0) 3 = 100 ∧
      -- the sixth sample has 15 and not 5 sixteenths
      ((downsampleIq 12 (fun k => if k = 5 then (1600, 0) else (0, 0)) 24).value 3).1 = 1500 ∧
      firOutput (fun k => if k = 5 then 1600 else 0) 3 = 500 := by
  decide

end RtlSdr.Power
