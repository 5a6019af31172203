import RtlSdr.R82xx.Rules

/-!
# The intermediate frequency of the tuner

`r82xx_set_bandwidth` returns the `int_freq` that it leaves behind.
-/
namespace RtlSdr.R82xx

open Prog

def HasIntFreq (intFreq : UInt32) (world : World) : Prop := world.priv.intFreq = intFreq

theorem intFreqRules (env : Env) (intFreq : UInt32) :
    Rules env (HasIntFreq intFreq) (HasIntFreq intFreq) where
  weaker _ holds := holds
  write reg val := by
    intro world holds
    cases equal : shadowEqual world.priv.regs reg val with
    | true =>
      rw [r82xxWrite_skipped env reg val world equal]
      exact holds
    | false =>
      rcases r82xxWrite_sent env reg val world equal with
        ⟨transfers, run⟩ | ⟨rc, transfers, chip, run, _⟩
      · rw [run]
        exact holds
      · rw [run]
        exact holds
  read := by
    intro world holds
    unfold i2cRead
    cases (env.bus world.transfers).failed with
    | none => exact holds
    | some rc => exact holds
  kept f same := by
    have kept (world : World) (holds : HasIntFreq intFreq world) :
        HasIntFreq intFreq { world with priv := f world.priv } :=
      (same world.priv).2.trans holds
    exact ⟨kept, kept⟩

theorem setBandwidth_intFreq (env : Env) (bw : Int) (world world' : World) (intFreq : UInt32)
    (run : r82xxSetBandwidth env bw world = (.ok intFreq, world')) :
    intFreq = (bandwidth bw).intFreq ∧ world'.priv.intFreq = intFreq := by
  -- `int_freq` is set before the two writes, and kept by them
  let chosen : World := { world with priv := { world.priv with intFreq := (bandwidth bw).intFreq } }
  have begun : r82xxSetBandwidth env bw world =
      (do
        writeAll env [.mask 0x0a (bandwidth bw).reg0a 0x10, .mask 0x0b (bandwidth bw).reg0b 0xef]
        pure (bandwidth bw).intFreq : Driver UInt32) chosen := rfl
  have kept := keeps_writeAll (intFreqRules env (bandwidth bw).intFreq)
    [.mask 0x0a (bandwidth bw).reg0a 0x10, .mask 0x0b (bandwidth bw).reg0b 0xef]
  rw [begun] at run
  obtain ⟨_, written, writes, returned⟩ := bind_eq_ok run
  obtain ⟨rfl, rfl⟩ : (bandwidth bw).intFreq = intFreq ∧ written = world' := by
    simpa [pure, Prog.pure] using returned
  have start : HasIntFreq (bandwidth bw).intFreq chosen := rfl
  exact ⟨rfl, kept.ok start writes⟩

theorem lowPassLoop_bounds (bw : Int) (filters : List Int) (i : Nat) :
    i ≤ lowPassLoop bw filters i ∧ lowPassLoop bw filters i ≤ i + filters.length := by
  induction filters generalizing i with
  | nil => exact ⟨Nat.le_refl i, Nat.le_refl i⟩
  | cons filter narrower ih =>
    rw [lowPassLoop, List.length_cons]
    -- the loop stops at this filter, or goes on with the narrower ones
    split
    · exact ⟨Nat.le_refl i, Nat.le_add_right i _⟩
    · obtain ⟨low, high⟩ := ih (i + 1)
      omega

/-- The low-pass filter is chosen within its table: the index is positive before it is
decremented. -/
theorem lowPassLoop_pos (bw : Int) (narrow : bw ≤ 1700000) :
    0 < lowPassLoop bw ifLowPassBwTable 0 ∧ lowPassLoop bw ifLowPassBwTable 0 ≤ 10 := by
  -- the widest filter is not too narrow
  rw [ifLowPassBwTable, lowPassLoop, if_neg (Int.not_lt.mpr narrow)]
  exact lowPassLoop_bounds bw _ 1

end RtlSdr.R82xx
