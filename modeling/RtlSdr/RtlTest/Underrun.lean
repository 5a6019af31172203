import Mathlib.Algebra.Order.BigOperators.Group.List
import Mathlib.Algebra.Order.Group.Nat
import Mathlib.Algebra.Ring.Int.Defs
import Mathlib.Algebra.Ring.Nat
import RtlSdr.Lib.Transducer

/-!
# Lost samples in rtl_test

In its test mode the device sends the values of an 8-bit counter, and `underrun_test` counts the
differences as lost bytes. The report is meant as a minimum. But the difference is taken between the
two values and not around the counter, so that a few bytes lost where it wraps count as almost 256.
-/
namespace RtlSdr.RtlTest

/-! ### The program -/

/-- The static variables of `underrun_test`, and the totals. -/
structure Stats where
  bcnt : UInt8
  uninit : Bool
  totalSamples : UInt32
  droppedSamples : UInt32
deriving DecidableEq, Repr

def Stats.start : Stats := ⟨0, true, 0, 0⟩

/-- What `underrun_test` gets: the memory at `buf`, and `len`. -/
structure Buffer where
  buf : Nat → UInt8
  len : UInt32

def Buffer.bytes (buffer : Buffer) : List UInt8 :=
  (List.range buffer.len.toNat).map buffer.buf

/-- The difference that counts as lost. -/
def difference (bcnt byte : UInt8) : UInt8 := if byte > bcnt then byte - bcnt else bcnt - byte

/-- The bytes that are delivered, with the counter at `c`: one flag for each byte that is sent. -/
def delivered (c : UInt8) : List Bool → List UInt8
  | [] => []
  | true :: kept => c :: delivered (c + 1) kept
  | false :: kept => delivered (c + 1) kept

/-- For each delivered byte, the run of bytes dropped before it: the counter at its first byte, and
its length. `run` bytes have been dropped before the flags. -/
def dropouts (phase : UInt8) (run : Nat) : List Bool → List (UInt8 × Nat)
  | [] => []
  | true :: kept => (phase, run) :: dropouts (phase + UInt8.ofNat run + 1) 0 kept
  | false :: kept => dropouts phase (run + 1) kept

/-- The runs between two delivered bytes. -/
def gaps (c : UInt8) (kept : List Bool) : List (UInt8 × Nat) := (dropouts c 0 kept).tail

/-- The number of bytes dropped after the first delivered one. -/
def droppedAfterFirst (kept : List Bool) : Nat := (kept.dropWhile fun flag => !flag).count false

/-- The number of bytes dropped after the last delivered one; `run` bytes have been dropped before
the flags. -/
def lastRun (run : Nat) : List Bool → Nat
  | [] => run
  | true :: kept => lastRun 0 kept
  | false :: kept => lastRun (run + 1) kept

/-! ### What is counted -/

/-- What a run counts as: its remainder, or the rest to 256 where the counter wraps. -/
def distance (phase : UInt8) (run : Nat) : Nat :=
  if phase.toNat + run % 256 < 256 then run % 256 else 256 - run % 256

def reported (c : UInt8) (kept : List Bool) : Nat :=
  ((gaps c kept).map fun gap => distance gap.1 gap.2).sum

def expected (bcnt : UInt8) (bytes : List UInt8) : UInt8 :=
  bytes.foldl (fun _ byte => byte + 1) bcnt

theorem delivered_first (kept : List Bool) (phase : UInt8) (run : Nat) :
    (delivered (phase + UInt8.ofNat run) kept = [] ∧ dropouts phase run kept = []) ∨
      ∃ byte gap later,
        delivered (phase + UInt8.ofNat run) kept = byte :: delivered (byte + 1) later ∧
          dropouts phase run kept = gap :: dropouts (byte + 1) 0 later ∧
          droppedAfterFirst kept = later.count false ∧ lastRun run kept = lastRun 0 later := by
  induction kept generalizing run with
  | nil => exact .inl ⟨rfl, rfl⟩
  | cons flag kept ih =>
    cases flag with
    | true =>
      exact .inr ⟨phase + UInt8.ofNat run, (phase, run), kept, rfl, rfl,
        by simp [droppedAfterFirst], rfl⟩
    | false =>
      have next := ih (run + 1)
      rw [UInt8.ofNat_add, ← UInt8.add_assoc] at next
      exact next

theorem delivered_start (c : UInt8) (kept : List Bool) :
    (delivered c kept = [] ∧ gaps c kept = []) ∨
      ∃ byte later, delivered c kept = byte :: delivered (byte + 1) later ∧
        gaps c kept = dropouts (byte + 1) 0 later ∧
        droppedAfterFirst kept = later.count false ∧ lastRun 0 kept = lastRun 0 later := by
  have first := delivered_first kept c 0
  rw [show UInt8.ofNat 0 = 0 from rfl, UInt8.add_zero] at first
  rcases first with ⟨nothing, none⟩ | ⟨byte, gap, later, bytes, runs, count⟩
  · exact .inl ⟨nothing, by rw [gaps, none]; rfl⟩
  · exact .inr ⟨byte, later, bytes, by rw [gaps, runs]; rfl, count⟩

end RtlSdr.RtlTest
