import RtlSdr.Lib.Guarded
import RtlSdr.R82xx.Rules

/-!
# The copy of the tuner registers

A write that the copy makes unnecessary is sound as long as the copy is what the chip holds.
Every part of the driver keeps the two together until a write of registers fails; from then
on only `r82xx_init` brings them together again.
-/
namespace RtlSdr.R82xx

open Prog

def Coherent (world : World) : Prop :=
  ∀ i < numRegs, world.chip (regShadowStart + i) = world.priv.regs i

/-- What the chip held when `r82xx_write` returned 0 is what was to be written. -/
def WriteReturn.Holds (entry : WriteReturn) : Prop := entry.registers = entry.val

instance (entry : WriteReturn) : Decidable entry.Holds :=
  inferInstanceAs (Decidable (entry.registers = entry.val))

def AllHold (world : World) : Prop := ∀ entry ∈ world.returned, entry.Holds

/-- What each part of the driver keeps. -/
def Inv (world : World) : Prop := Coherent world ∧ AllHold world

def Stopped (world : World) : Prop := AllHold world ∧ (world.stale = false → Coherent world)

theorem Inv.stopped {world : World} (inv : Inv world) : Stopped world := ⟨inv.2, fun _ => inv.1⟩

/-! ### One write -/

section

variable (env : Env)

theorem shadowStore_coherent (chip regs : RegFile) (reg : Nat) (val : List UInt8)
    (coherent : ∀ i < numRegs, chip (regShadowStart + i) = regs i) :
    ∀ i < numRegs, chip.store reg val (regShadowStart + i) = shadowStore regs reg val i := by
  intro i inside
  simp only [shadowStore]
  by_cases before : regShadowStart + i < reg
  · rw [RegFile.store_outside _ _ _ _ (.inl before),
      RegFile.store_outside _ _ _ _ (.inl (by omega)), coherent i inside]
  · -- the byte that goes there has the same place in both
    obtain ⟨k, place⟩ : ∃ k, regShadowStart + i = reg + k := ⟨regShadowStart + i - reg, by omega⟩
    by_cases behind : k < val.length
    -- `shadow_store` cuts off what lies outside the range, which moves the first byte in the copy
    · have here := List.getElem?_eq_getElem behind
      rw [place, RegFile.store_inside _ _ _ _ _ here]
      obtain ⟨j, place'⟩ : ∃ j, i = reg - regShadowStart + j :=
        ⟨i - (reg - regShadowStart), by omega⟩
      rw [place']
      refine (RegFile.store_inside _ _ _ _ _ ?_).symm
      rw [List.getElem?_take_of_lt (by omega), List.getElem?_drop, ← here]
      congr 1
      omega
    · rw [RegFile.store_outside _ _ _ _ (.inr (by omega)),
        RegFile.store_outside _ _ _ _ (.inr _), coherent i inside]
      rw [List.length_take, List.length_drop]
      omega

/-- A write that is skipped is one the chip has seen, if the copy is right. -/
theorem shadowEqual_load (chip regs : RegFile) (reg : Nat) (val : List UInt8)
    (coherent : ∀ i < numRegs, chip (regShadowStart + i) = regs i)
    (equal : shadowEqual regs reg val = true) : chip.load reg val.length = val := by
  simp only [shadowEqual, Bool.and_eq_true, decide_eq_true_eq] at equal
  obtain ⟨⟨low, high⟩, same⟩ := equal
  -- what was compared is the copy, and register by register the copy is the chip
  rw [RegFile.load_eq_iff] at same ⊢
  intro i inside
  rw [← same i inside, ← coherent _ (by omega)]
  congr 1
  omega

/-- `r82xx_write` keeps the copy and the chip in agreement, or leaves the chip behind. -/
theorem keeps_r82xxWrite (reg : Nat) (val : List UInt8) :
    Keeps Inv Stopped (r82xxWrite env reg val) := by
  rintro world ⟨coherent, holds⟩
  have extended (entry : WriteReturn) (right : entry.Holds) :
      ∀ other ∈ world.returned ++ [entry], other.Holds := by
    intro other member
    rcases List.mem_append.mp member with earlier | last
    · exact holds other earlier
    · rw [List.mem_singleton.mp last]
      exact right
  -- the write is skipped, goes through, or fails in the middle with the copy changed already
  cases equal : shadowEqual world.priv.regs reg val with
  | true =>
    rw [r82xxWrite_skipped env reg val world equal]
    exact ⟨coherent, extended _ (shadowEqual_load _ _ reg val coherent equal)⟩
  | false =>
    rcases r82xxWrite_sent env reg val world equal with
      ⟨transfers, run⟩ | ⟨rc, transfers, chip, run, _⟩
    · rw [run]
      exact ⟨shadowStore_coherent _ _ reg val coherent, extended _ rfl⟩
    -- the copy is ahead of the chip now, and `stale` says so
    · rw [run]
      exact ⟨holds, fun fresh => by cases fresh⟩

/-! ### The functions -/

theorem keeps_modifyPriv (f : Priv → Priv) (same : ∀ priv, (f priv).regs = priv.regs) :
    Keeps Inv Stopped (modifyPriv f) := by
  apply keeps_modify
  rintro world ⟨coherent, holds⟩
  refine ⟨fun i inside => ?_, holds⟩
  show world.chip _ = (f world.priv).regs i
  rw [same, coherent i inside]

theorem coherenceRules : Rules env Inv Stopped where
  weaker _ inv := inv.stopped
  write := keeps_r82xxWrite env
  read := by
    intro world inv
    unfold i2cRead
    cases (env.bus world.transfers).failed with
    | none => exact inv
    -- a read that fails has changed neither the chip nor the copy
    | some rc => exact inv.stopped
  kept f same := by
    have coherent (world : World) (holds : Coherent world) :
        Coherent { world with priv := f world.priv } := by
      intro i inside
      show world.chip _ = (f world.priv).regs i
      rw [(same world.priv).1, holds i inside]
    exact ⟨fun world inv => ⟨coherent world inv.1, inv.2⟩,
      fun world stopped => ⟨stopped.1, fun fresh => coherent world (stopped.2 fresh)⟩⟩

/-! ### The initialisation -/

/-- The number of messages in which `r82xx_init` writes all registers. -/
def initTransfers : Nat := 5

/-- The world after the first write of `r82xx_init`, and what follows. -/
theorem init_run (world : World)
    (sent : ∀ k < initTransfers, (env.bus (world.transfers + k)).failed = none) :
    ∃ world', Coherent world' ∧ (AllHold world → AllHold world') ∧ Call.init.run env world =
      (do
        writeTvStandard env 3 .digitalTv .undefined
        (r82xxSysfreqSel env 0 .digitalTv .dvbt).thenDo fun world =>
          { world with priv := { world.priv with initDone := true } } : Driver Unit) world' := by
  -- the copy is cleared, so the write is not skipped
  let cleared : World := { world with
    stale := false
    priv := { world.priv with xtalCapSel := .highCap0p, regs := fun _ => 0 } }
  have different : shadowEqual cleared.priv.regs 0x05 r82xxInitArray = false := by
    show shadowEqual (fun _ => 0) 0x05 r82xxInitArray = false
    decide
  rcases r82xxWrite_sent env 0x05 r82xxInitArray cleared different with
    ⟨transfers, run⟩ | ⟨rc, transfers, chip, run, k, near, failed⟩
  · let written : World := { cleared with
      priv := { cleared.priv with
        regs := (shadowStore cleared.priv.regs 0x05 r82xxInitArray).store 0 r82xxInitArray }
      transfers
      chip := cleared.chip.store 0x05 r82xxInitArray
      returned := cleared.returned ++ [⟨0x05, r82xxInitArray, r82xxInitArray⟩] }
    refine ⟨written, ?_, ?_, ?_⟩
    · -- both hold the table of initial values
      intro i inside
      have here : r82xxInitArray[i]? = some (r82xxInitArray.get ⟨i, inside⟩) :=
        List.getElem?_eq_getElem inside
      have copy := RegFile.store_inside (shadowStore cleared.priv.regs 0x05 r82xxInitArray) 0
        r82xxInitArray i _ here
      rw [Nat.zero_add] at copy
      exact (RegFile.store_inside cleared.chip 0x05 r82xxInitArray i _ here).trans copy.symm
    · intro holds entry member
      rcases List.mem_append.mp member with earlier | last
      · exact holds entry earlier
      · rw [List.mem_singleton.mp last]
        rfl
    · have begun : Call.init.run env world =
          (do
            Prog.ignoring (r82xxWrite env 0x05 r82xxInitArray)
            r82xxSetTvStandard env 3 .digitalTv .undefined
            (r82xxSysfreqSel env 0 .digitalTv .dvbt).thenDo fun world =>
              { world with priv := { world.priv with initDone := true } } : Driver Unit)
            cleared := rfl
      rw [begun, bind_ok (ignoring_run run)]
      rfl
  · have early : k < initTransfers := by
      have length : r82xxInitArray.length = 30 := rfl
      have size : maxI2cMsgLen - 1 = 7 := rfl
      rw [length, size] at near
      unfold initTransfers
      omega
    exact absurd (sent k early) failed

theorem init_stopped (world : World)
    (sent : ∀ k < initTransfers, (env.bus (world.transfers + k)).failed = none)
    (holds : AllHold world) : Stopped (Call.init.run env world).2 := by
  obtain ⟨world', coherent, kept, run⟩ := init_run env world sent
  -- behind the table of initial values everything goes through the rules
  have keeps : Keeps Inv Stopped (do
      writeTvStandard env 3 .digitalTv .undefined
      (r82xxSysfreqSel env 0 .digitalTv .dvbt).thenDo fun world =>
        { world with priv := { world.priv with initDone := true } } : Driver Unit) := by
    apply keeps_bind (keeps_writeTvStandard (coherenceRules env) _ _ _ keeps_modifyPriv)
    intro _
    exact keeps_thenDo (keeps_sysfreqSel (coherenceRules env) _ _ _) (fun _ inv => inv)
      fun _ stopped => stopped
  rw [run]
  exact keeps.stopped ⟨coherent, kept holds⟩ fun _ inv => inv.stopped

/-! ### Sequences of calls -/

/-- What is asked of a call in a world: for `r82xx_init`, that its first write goes through;
for the others, that no write of registers has failed since. -/
def Meets (world : World) : Call → Prop
  | .init => ∀ k < initTransfers, (env.bus (world.transfers + k)).failed = none
  | .setFreq _ | .setBandwidth _ | .setGain _ _ | .standby => world.stale = false

/-- Each call of a sequence meets its condition in the world before it. -/
def Careful (world : World) (calls : List Call) : Prop :=
  Guarded.Meets (fun world call => (call.run env world).2) (Meets env) world calls

theorem call_stopped (world : World) (call : Call) (meets : Meets env world call)
    (stopped : Stopped world) : Stopped (call.run env world).2 := by
  obtain ⟨holds, coherent⟩ := stopped
  have rules := coherenceRules env
  have weaker : ∀ world, Inv world → Stopped world := fun _ inv => inv.stopped
  cases call with
  -- `r82xx_init` does not rely on the copy, so it may follow a failure
  | init => exact init_stopped env world meets holds
  | setFreq freq => exact (keeps_setFreq rules freq).stopped ⟨coherent meets, holds⟩ weaker
  | setBandwidth bw =>
    have keeps : Keeps Inv Stopped (Call.run env (.setBandwidth bw)) :=
      keeps_bind (keeps_setBandwidth rules bw keeps_modifyPriv) fun _ => keeps_pure _
    exact keeps.stopped ⟨coherent meets, holds⟩ weaker
  | setGain setManualGain gain =>
    exact (keeps_setGain rules setManualGain gain).stopped ⟨coherent meets, holds⟩ weaker
  | standby => exact (keeps_standby rules).stopped ⟨coherent meets, holds⟩ weaker

end

/-- In a sequence of calls that begins with `r82xx_init` and goes back to it after every
failed write, a return of 0 from `r82xx_write` means that the chip holds the values. -/
theorem r82xx_write_holds (env : Env) (world : World) (fresh : world.returned = [])
    (unwritten : world.stale = true) (calls : List Call) (careful : Careful env world calls) :
    (∀ entry ∈ (after env world calls).returned, entry.registers = entry.val) ∧
      ((after env world calls).stale = false → Coherent (after env world calls)) := by
  -- nothing has been returned yet, and nothing is claimed of a chip that was never written
  have start : Stopped world := by
    refine ⟨fun entry member => ?_, fun written => ?_⟩
    · rw [fresh] at member
      cases member
    · rw [unwritten] at written
      cases written
  exact careful.invariant Stopped
    (fun world call _ stopped meets => call_stopped env world call meets stopped) start

/-- A tuner that has not been written yet. -/
def newWorld : World where
  priv :=
    { regs := fun _ => 0, xtalCapSel := .lowCap30p, intFreq := 0, filCalCode := 0, input := 0,
      hasLock := false, initDone := false, delsys := .undefined, type := none, bw := 0 }
  chip := fun _ => 0
  transfers := 0
  stale := true
  returned := []

/-- A tuner that locks, on a bus on which some transfers fail. -/
def busFailing (fails : Nat → Bool) : Env where
  cfg := { xtal := 28800000, rafaelChip := .r820t, usePredetect := false, isRtlsdrBlogV4 := false }
  bus := fun n => ⟨if fails n then some (-1) else none, List.replicate 5 0xff⟩

theorem r82xx_write_holds_standby :
    AllHold (after (busFailing fun _ => false) newWorld [.init, .standby]) := by
  have fresh : (Call.init.run (busFailing fun _ => false) newWorld).2.stale = false := by
    decide +kernel
  exact (r82xx_write_holds (busFailing fun _ => false) newWorld rfl rfl [.init, .standby]
    ⟨fun _ _ => rfl, fresh, trivial⟩).1

/-- The first transfer after the initialisation fails, and standby is tried twice: the
second time the first register is passed over. -/
theorem standby_twice_skips :
    ⟨0x06, [0xb1], [0x12]⟩ ∈
      (after (busFailing fun n => n = 49) newWorld [.init, .standby, .standby]).returned := by
  decide +kernel

end RtlSdr.R82xx
