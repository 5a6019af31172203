import RtlSdr.R82xx.Driver

/-!
# What the functions of the tuner driver are made of

Every function is a combination of writes through `r82xx_write`, of reads, and of changes
to the driver's own state. What these keep, the functions keep.
-/
namespace RtlSdr.R82xx

open Prog

/-! ### One write -/

section

variable (env : Env)

/-- What the loop of `r82xx_write` does: all of it, or some of it and then a transfer fails. -/
theorem writeChunks_run (passes reg : Nat) (val : List UInt8) (enough : val.length < passes)
    (world : World) :
    (∃ transfers, writeChunks env passes reg val world =
      (.ok (), { world with transfers, chip := world.chip.store reg val })) ∨
    ∃ rc transfers chip, writeChunks env passes reg val world =
        (.error rc, { world with transfers, chip, stale := true }) ∧
      ∃ k, (k = 0 ∨ (maxI2cMsgLen - 1) * k < val.length) ∧
        (env.bus (world.transfers + k)).failed ≠ none := by
  induction passes generalizing reg val world with
  -- induction on the passes that are left: each sends one message of at most seven bytes
  | zero => omega
  | succ passes ih =>
    rw [writeChunks]
    cases outcome : (env.bus world.transfers).failed with
    | some rc =>
      have sent : i2cWrite env reg (val.take (min val.length (maxI2cMsgLen - 1))) world =
          (.error (i2cError rc),
            { world with transfers := world.transfers + 1, stale := true }) := by
        rw [i2cWrite, outcome]
      right
      rw [bind_error sent]
      exact ⟨_, _, world.chip, rfl, 0, .inl rfl, by rw [Nat.add_zero, outcome]; simp⟩
    | none =>
      have sent : i2cWrite env reg (val.take (min val.length (maxI2cMsgLen - 1))) world =
          (.ok (), { world with
            transfers := world.transfers + 1
            chip := world.chip.store reg (val.take (min val.length (maxI2cMsgLen - 1))) }) := by
        rw [i2cWrite, outcome]
      rw [bind_ok sent]
      by_cases more : min val.length (maxI2cMsgLen - 1) < val.length
      · have size : min val.length (maxI2cMsgLen - 1) = maxI2cMsgLen - 1 := by omega
        rw [size] at more ⊢
        rw [if_pos more]
        have positive : 0 < maxI2cMsgLen - 1 := by decide
        -- two stores next to each other are the store of both
        have joined : (world.chip.store reg (val.take (maxI2cMsgLen - 1))).store
            (reg + (maxI2cMsgLen - 1)) (val.drop (maxI2cMsgLen - 1)) =
            world.chip.store reg val := by
          have length : (val.take (maxI2cMsgLen - 1)).length = maxI2cMsgLen - 1 := by
            rw [List.length_take]
            omega
          have append := RegFile.store_append world.chip reg (val.take (maxI2cMsgLen - 1))
            (val.drop (maxI2cMsgLen - 1))
          rwa [length, List.take_append_drop] at append
        rcases ih (reg + (maxI2cMsgLen - 1)) (val.drop (maxI2cMsgLen - 1))
          (by rw [List.length_drop]; omega) _ with
          ⟨transfers, run⟩ | ⟨rc, transfers, chip, run, k, near, failed⟩
        · left
          exact ⟨transfers, by rw [run]; simp only [joined]⟩
        · right
          -- the transfer that failed counts from the second message on
          refine ⟨rc, transfers, chip, run, k + 1, .inr ?_, ?_⟩
          · rw [List.length_drop] at near
            rw [Nat.mul_succ]
            rcases near with rfl | near
            · omega
            · omega
          · rw [show world.transfers + (k + 1) = world.transfers + 1 + k by omega]
            exact failed
      · left
        have all : val.take (min val.length (maxI2cMsgLen - 1)) = val :=
          List.take_of_length_le (by omega)
        rw [if_neg more, all]
        exact ⟨_, rfl⟩

theorem r82xxWrite_start (reg : Nat) (val : List UInt8) (world : World) :
    r82xxWrite env reg val world =
      (if shadowEqual world.priv.regs reg val then returnWrite reg val
      else do
        modifyPriv fun priv => { priv with regs := shadowStore priv.regs reg val }
        writeChunks env (val.length + 1) reg val
        returnWrite reg val) world := rfl

theorem r82xxWrite_skipped (reg : Nat) (val : List UInt8) (world : World)
    (equal : shadowEqual world.priv.regs reg val = true) :
    r82xxWrite env reg val world = (.ok (), { world with
      returned := world.returned ++ [⟨reg, val, world.chip.load reg val.length⟩] }) := by
  rw [r82xxWrite_start, if_pos equal]
  rfl

/-- A write that is sent: it goes through, or a transfer fails after the copy has changed. -/
theorem r82xxWrite_sent (reg : Nat) (val : List UInt8) (world : World)
    (different : shadowEqual world.priv.regs reg val = false) :
    (∃ transfers, r82xxWrite env reg val world = (.ok (), { world with
      priv := { world.priv with regs := shadowStore world.priv.regs reg val }
      transfers
      chip := world.chip.store reg val
      returned := world.returned ++ [⟨reg, val, val⟩] })) ∨
    ∃ rc transfers chip, r82xxWrite env reg val world = (.error rc, { world with
        priv := { world.priv with regs := shadowStore world.priv.regs reg val }
        transfers
        chip
        stale := true }) ∧
      ∃ k, (k = 0 ∨ (maxI2cMsgLen - 1) * k < val.length) ∧
        (env.bus (world.transfers + k)).failed ≠ none := by
  rw [r82xxWrite_start, if_neg (by rw [different]; decide)]
  have stored : modifyPriv (fun priv => { priv with regs := shadowStore priv.regs reg val }) world =
      (.ok (), { world with
        priv := { world.priv with regs := shadowStore world.priv.regs reg val } }) := rfl
  rw [bind_ok stored]
  -- the copy has been changed already, whatever becomes of the transfers
  rcases writeChunks_run env (val.length + 1) reg val (Nat.lt_succ_self _) _ with
    ⟨transfers, run⟩ | ⟨rc, transfers, chip, run, failed⟩
  · left
    rw [bind_ok run]
    refine ⟨transfers, ?_⟩
    simp only [returnWrite, Prog.modify, RegFile.load_store]
  · right
    rw [bind_error run]
    exact ⟨rc, transfers, chip, rfl, failed⟩

end

/-! ### The functions -/

/-- A condition on the world that the basic operations keep, with `E` for what is left of
it after an error. Changes of the copy of the registers and of `int_freq` are not among
them. -/
structure Rules (env : Env) (I E : World → Prop) : Prop where
  weaker : ∀ world, I world → E world
  write : ∀ reg val, Keeps I E (r82xxWrite env reg val)
  read : Keeps I E (i2cRead env)
  kept : ∀ f : Priv → Priv,
    (∀ priv, (f priv).regs = priv.regs ∧ (f priv).intFreq = priv.intFreq) →
      (∀ world, I world → I { world with priv := f world.priv }) ∧
        ∀ world, E world → E { world with priv := f world.priv }

section

variable {env : Env} {I E : World → Prop} (rules : Rules env I E)

include rules

theorem Rules.modifyPriv (f : Priv → Priv)
    (same : ∀ priv, (f priv).regs = priv.regs ∧ (f priv).intFreq = priv.intFreq) :
    Keeps I E (modifyPriv f) :=
  keeps_modify _ (rules.kept f same).1

omit rules in
theorem keeps_getPriv : Keeps I E getPriv := keeps_bind keeps_get fun _ => keeps_pure _

theorem keeps_writeRegMask (reg : Nat) (val bitMask : UInt8) :
    Keeps I E (r82xxWriteRegMask env reg val bitMask) := by
  apply keeps_bind keeps_getPriv
  intro priv
  -- a register outside of the copy is an error before anything is sent
  cases r82xxReadCacheReg priv reg with
  | none => exact keeps_throw _ rules.weaker
  | some cached => exact rules.write reg _

theorem keeps_writeAll (writes : List RegWrite) : Keeps I E (writeAll env writes) := by
  induction writes with
  | nil => exact keeps_pure _
  | cons write writes ih =>
    cases write with
    | reg reg val => exact keeps_bind (rules.write reg [val]) fun _ => ih
    | mask reg val bitMask =>
      exact keeps_bind (keeps_writeRegMask rules reg val bitMask) fun _ => ih

theorem keeps_read (len : Nat) : Keeps I E (r82xxRead env len) :=
  keeps_bind (rules.read) fun _ => keeps_bind (rules.read) fun _ => keeps_pure _

theorem keeps_setMux (freq : UInt32) : Keeps I E (r82xxSetMux env freq) := by
  apply keeps_bind (keeps_writeAll rules _)
  intro _
  apply keeps_bind keeps_getPriv
  intro _
  exact keeps_writeAll rules _

theorem keeps_checkLock : Keeps I E (checkLock env) := by
  apply keeps_bind (keeps_read rules 3)
  intro data
  -- locked at once, or after the VCO current has been raised
  apply keeps_ite _ (keeps_pure _)
  apply keeps_bind (keeps_writeAll rules _)
  intro _
  exact keeps_bind (keeps_read rules 3) fun _ => keeps_pure _

theorem keeps_setPll (freq : UInt32) : Keeps I E (r82xxSetPll env freq) := by
  apply keeps_bind (keeps_writeAll rules _)
  intro _
  apply keeps_bind keeps_getPriv
  intro _
  apply keeps_bind (keeps_read rules 5)
  intro _
  -- no valid setting is found, or the registers are written
  apply keeps_ite _ (keeps_throw _ rules.weaker)
  apply keeps_bind (rules.write _ _)
  intro _
  apply keeps_bind (keeps_checkLock rules)
  intro lock
  refine keeps_bind (rules.modifyPriv _ fun _ => ⟨rfl, rfl⟩) fun _ => ?_
  exact keeps_writeAll rules _

theorem keeps_sysfreqSel (freq : UInt32) (type : TunerType) (delsys : DeliverySystem) :
    Keeps I E (r82xxSysfreqSel env freq type delsys) := by
  apply keeps_bind (keeps_writeAll rules _)
  intro _
  apply keeps_bind (keeps_writeAll rules _)
  intro _
  refine keeps_bind (rules.modifyPriv _ fun _ => ⟨rfl, rfl⟩) fun _ => ?_
  apply keeps_bind (keeps_writeAll rules _)
  intro _
  exact keeps_ite _ (keeps_writeAll rules _) (keeps_writeAll rules _)

theorem keeps_calibrate (passes : Nat) : Keeps I E (calibrate env passes) := by
  induction passes with
  | zero => exact keeps_pure _
  | succ passes ih =>
    apply keeps_bind (keeps_writeAll rules _)
    intro _
    apply keeps_bind (keeps_setPll rules _)
    intro _
    apply keeps_bind keeps_getPriv
    intro priv
    -- without a lock the function returns with what has been written so far
    refine keeps_ite _ ?_ (keeps_pure _)
    apply keeps_bind (keeps_writeAll rules _)
    intro _
    apply keeps_bind (keeps_read rules 5)
    intro data
    refine keeps_bind (rules.modifyPriv _ fun _ => ⟨rfl, rfl⟩) fun _ => ?_
    -- the second pass is for a code that came out as 0 or 15
    exact keeps_ite _ (keeps_pure _) ih

theorem keeps_finishTvStandard (bw : Nat) (type : TunerType) (delsys : DeliverySystem) :
    Keeps I E (finishTvStandard env bw type delsys) := by
  refine keeps_bind (rules.modifyPriv _ fun _ => ⟨rfl, rfl⟩) fun _ => ?_
  apply keeps_bind keeps_getPriv
  intro _
  apply keeps_bind (keeps_writeAll rules _)
  intro _
  exact rules.modifyPriv _ fun _ => ⟨rfl, rfl⟩

theorem keeps_writeTvStandard (bw : Nat) (type : TunerType) (delsys : DeliverySystem)
    (freq : ∀ f : Priv → Priv, (∀ priv, (f priv).regs = priv.regs) → Keeps I E (modifyPriv f)) :
    Keeps I E (writeTvStandard env bw type delsys) := by
  apply keeps_bind (keeps_writeAll rules _)
  intro _
  apply keeps_bind (keeps_writeAll rules _)
  intro _
  -- the change of `int_freq` is the caller's to justify
  refine keeps_bind (freq _ fun _ => rfl) fun _ => ?_
  apply keeps_bind (keeps_calibrate rules 2)
  intro goesOn
  exact keeps_ite _ (keeps_finishTvStandard rules bw type delsys) (keeps_pure _)

theorem keeps_setGain (setManualGain : Bool) (gain : Int) :
    Keeps I E (r82xxSetGain env setManualGain gain) := by
  refine keeps_ite _ ?_ (keeps_writeAll rules _)
  apply keeps_bind (keeps_writeAll rules _)
  intro _
  apply keeps_bind (keeps_read rules 4)
  intro _
  apply keeps_bind (keeps_writeAll rules _)
  intro _
  exact keeps_writeAll rules _

theorem keeps_setBandwidth (bw : Int)
    (freq : ∀ f : Priv → Priv, (∀ priv, (f priv).regs = priv.regs) → Keeps I E (modifyPriv f)) :
    Keeps I E (r82xxSetBandwidth env bw) := by
  refine keeps_bind (freq _ fun _ => rfl) fun _ => ?_
  exact keeps_bind (keeps_writeAll rules _) fun _ => keeps_pure _

theorem keeps_setBlogV4Input (freq : UInt32) : Keeps I E (setBlogV4Input env freq) := by
  apply keeps_bind (keeps_writeAll rules _)
  intro _
  apply keeps_bind keeps_getPriv
  intro priv
  refine keeps_ite _ ?_ (keeps_pure _)
  exact keeps_bind (rules.modifyPriv _ fun _ => ⟨rfl, rfl⟩) fun _ => keeps_writeAll rules _

theorem keeps_setAirCableInput (freq : UInt32) : Keeps I E (setAirCableInput env freq) := by
  apply keeps_bind keeps_getPriv
  intro priv
  refine keeps_ite _ ?_ (keeps_pure _)
  exact keeps_bind (rules.modifyPriv _ fun _ => ⟨rfl, rfl⟩) fun _ => keeps_writeAll rules _

theorem keeps_setFreq (freq : UInt32) : Keeps I E (r82xxSetFreq env freq) := by
  apply keeps_bind keeps_getPriv
  intro _
  apply keeps_bind (keeps_setMux rules _)
  intro _
  apply keeps_bind (keeps_setPll rules _)
  intro _
  apply keeps_bind keeps_getPriv
  intro priv
  refine keeps_ite _ ?_ (keeps_pure _)
  exact keeps_ite _ (keeps_setBlogV4Input rules freq) (keeps_setAirCableInput rules freq)

theorem keeps_standby : Keeps I E (r82xxStandby env) := by
  apply keeps_bind keeps_getPriv
  intro priv
  refine keeps_ite _ ?_ (keeps_pure _)
  apply keeps_bind (keeps_writeAll rules _)
  intro _
  obtain ⟨kept, keptE⟩ := rules.kept (fun priv => { priv with type := none }) fun _ => ⟨rfl, rfl⟩
  -- the type is forgotten whether or not the last write succeeds
  exact keeps_thenDo (rules.write _ _) kept keptE

end

end RtlSdr.R82xx
