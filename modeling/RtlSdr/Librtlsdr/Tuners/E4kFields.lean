import RtlSdr.Librtlsdr.Tuners.E4k

/-!
# The fields of the E4000

Most settings are a few bits of a register that other settings share. Here the chip is a register
file: a read returns what the register holds, and a transfer that fails changes nothing.

`e4k_reg_set_mask` stores what `e4k_reg_read` returns in a `uint8_t`, so a read that fails counts as
a register full of ones, which are then written to all the other bits, or pass for the field.
-/
namespace RtlSdr.Tuners.E4k

/-! ### Masked writes to a register file -/

/-- The bus of a register file, as long as `reg` is the only register that is read, and is not
written before. -/
def holding (fails : Nat → Bool) (reg : Nat) (s : State) : Bus := ⟨fails, fun _ => s.chip.regs reg⟩

section

variable (fails : Nat → Bool)

/-- `e4k_reg_set_mask` on a register file. -/
def regSetMask (reg : Nat) (mask val : UInt8) (s : State) : Int × State :=
  e4kRegSetMask (holding fails reg s) reg mask val s

/-- `e4k_field_write` on a register file. -/
def fieldWrite (field : RegField) (val : UInt8) (s : State) : Int × State :=
  e4kFieldWrite (holding fails field.reg s) field val s

def RegField.mask (field : RegField) : UInt8 := width2mask.getD field.width 0 <<< field.shift

/-- Whether a read that begins with transfer `t` fails: it sends the number of the register, then
reads. -/
def readFails (t : Nat) : Bool := fails t || fails (t + 1)

/-- The number of transfers after such a read. -/
def afterRead (t : Nat) : Nat := if fails t then t + 1 else t + 2

def State.read (s : State) : State :=
  { s with chip := { s.chip with transfers := afterRead fails s.chip.transfers } }

end

/-- On success the field has the value, and in any case nothing else changes. -/
structure TouchesOnly (reg : Nat) (mask val : UInt8) (before : State) (result : Int × State) :
    Prop where
  set : result.1 = 0 → result.2.chip.regs reg &&& mask = val
  outside : result.2.chip.regs reg &&& ~~~mask = before.chip.regs reg &&& ~~~mask
  others : ∀ other ≠ reg, result.2.chip.regs other = before.chip.regs other

/-- The read succeeds, or the ones that stand for it do no harm: a field that should be all ones is
so already, and otherwise the rest of the register is all ones or the write fails as well. -/
def Harmless (fails : Nat → Bool) (reg : Nat) (mask val : UInt8) (s : State) : Prop :=
  readFails fails s.chip.transfers = false ∨
    (val = mask ∧ s.chip.regs reg &&& mask = mask) ∨
    (val ≠ mask ∧ (fails (afterRead fails s.chip.transfers) = true ∨
      s.chip.regs reg &&& ~~~mask = ~~~mask))

/-! ### Bytes -/

theorem eq_of_bits {a b : UInt8}
    (same : ∀ i < 8, a.toBitVec.getLsbD i = b.toBitVec.getLsbD i) : a = b :=
  UInt8.toBitVec_inj.mp (BitVec.eq_of_getLsbD_eq same)

theorem bits_eq {a b : UInt8} (same : a = b) (i : Nat) :
    a.toBitVec.getLsbD i = b.toBitVec.getLsbD i := by
  rw [same]

theorem spliced_inside {val mask : UInt8} (old : UInt8) (within : val &&& ~~~mask = 0) :
    ((old &&& ~~~mask) ||| (val &&& mask)) &&& mask = val := by
  refine eq_of_bits fun i inside => ?_
  have bit := bits_eq within i
  simp at bit ⊢
  grind

theorem spliced_beside {mask own : UInt8} (old val : UInt8) (within : mask &&& ~~~own = 0) :
    ((old &&& ~~~mask) ||| (val &&& mask)) &&& ~~~own = old &&& ~~~own := by
  refine eq_of_bits fun i inside => ?_
  have bit := bits_eq within i
  simp at bit ⊢
  grind

theorem spliced_outside (old val mask : UInt8) :
    ((old &&& ~~~mask) ||| (val &&& mask)) &&& ~~~mask = old &&& ~~~mask :=
  spliced_beside old val (by simp)

theorem ones_and (mask : UInt8) : 0xff &&& mask = mask := by
  refine eq_of_bits fun i inside => ?_
  have ones : ∀ i < 8, (255#8).getLsbD i = true := by decide
  simp [ones i inside]

theorem ofInt_toNat (byte : UInt8) : UInt8.ofInt (byte.toNat : Int) = byte := by
  have small : ((byte.toNat : Int) % 2 ^ 8).toNat = byte.toNat := by
    have bound := byte.toNat_lt
    omega
  rw [UInt8.ofInt, small, UInt8.ofNat_toNat]

/-! ### What a masked write does -/

section

variable {fails : Nat → Bool} {reg : Nat} {mask val : UInt8}

theorem regRead_holding (fails : Nat → Bool) (reg : Nat) (s t : State) :
    e4kRegRead (holding fails reg t) s =
      (if readFails fails s.chip.transfers then -1 else ((t.chip.regs reg).toNat : Int),
        s.read fails) := by
  unfold e4kRegRead i2cRead State.read readFails afterRead holding
  cases address : fails s.chip.transfers
  · cases data : fails (s.chip.transfers + 1) <;> simp [address, data]
  · simp [address]

def taken (fails : Nat → Bool) (reg : Nat) (s : State) : UInt8 :=
  if readFails fails s.chip.transfers then 0xff else s.chip.regs reg

theorem regSetMask_eq (fails : Nat → Bool) (reg : Nat) (mask val : UInt8) (s : State) :
    regSetMask fails reg mask val s =
      if taken fails reg s &&& mask = val then (0, s.read fails)
      else e4kRegWrite (holding fails reg s) reg
        ((taken fails reg s &&& ~~~mask) ||| (val &&& mask)) (s.read fails) := by
  have byte : UInt8.ofInt (if readFails fails s.chip.transfers then -1
      else ((s.chip.regs reg).toNat : Int)) = taken fails reg s := by
    unfold taken
    split_ifs
    · rfl
    · exact ofInt_toNat _
  unfold regSetMask e4kRegSetMask
  rw [regRead_holding]
  simp only [byte]

theorem regWrite_cases (bus : Bus) (reg : Nat) (val : UInt8) (s : State) :
    (bus.fails s.chip.transfers = true ∧ (e4kRegWrite bus reg val s).1 = -1 ∧
        (e4kRegWrite bus reg val s).2.chip.regs = s.chip.regs) ∨
      (bus.fails s.chip.transfers = false ∧ (e4kRegWrite bus reg val s).1 = 0 ∧
        (e4kRegWrite bus reg val s).2.chip.regs = s.chip.regs.store reg [val]) := by
  unfold e4kRegWrite i2cWrite
  cases failed : bus.fails s.chip.transfers
  · exact .inr ⟨rfl, rfl, rfl⟩
  · exact .inl ⟨rfl, rfl, rfl⟩

theorem store_here (file : RegFile) (reg : Nat) (byte : UInt8) :
    RegFile.store file reg [byte] reg = byte :=
  RegFile.store_inside file reg [byte] 0 byte rfl

/-- A masked write leaves the registers alone, or stores the bits over what it took the register to
hold. -/
theorem regSetMask_cases (fails : Nat → Bool) (reg : Nat) (mask val : UInt8) (s : State) :
    (taken fails reg s &&& mask = val ∧ (regSetMask fails reg mask val s).1 = 0 ∧
        (regSetMask fails reg mask val s).2.chip.regs = s.chip.regs) ∨
      (taken fails reg s &&& mask ≠ val ∧
        fails (afterRead fails s.chip.transfers) = true ∧
        (regSetMask fails reg mask val s).1 = -1 ∧
        (regSetMask fails reg mask val s).2.chip.regs = s.chip.regs) ∨
      (taken fails reg s &&& mask ≠ val ∧
        fails (afterRead fails s.chip.transfers) = false ∧
        (regSetMask fails reg mask val s).1 = 0 ∧
        (regSetMask fails reg mask val s).2.chip.regs = s.chip.regs.store reg
          [(taken fails reg s &&& ~~~mask) ||| (val &&& mask)]) := by
  rw [regSetMask_eq]
  by_cases done : taken fails reg s &&& mask = val
  · rw [if_pos done]
    exact .inl ⟨done, rfl, rfl⟩
  · rw [if_neg done]
    rcases regWrite_cases (holding fails reg s) reg
      ((taken fails reg s &&& ~~~mask) ||| (val &&& mask)) (s.read fails) with
      ⟨failed, result, same⟩ | ⟨sent, result, stored⟩
    · exact .inr (.inl ⟨done, failed, result, same⟩)
    · exact .inr (.inr ⟨done, sent, result, stored⟩)

variable {s : State}

theorem taken_read (read : readFails fails s.chip.transfers = false) :
    taken fails reg s = s.chip.regs reg := by
  rw [taken, read]
  rfl

theorem taken_failed (failed : readFails fails s.chip.transfers = true) :
    taken fails reg s = 0xff := by
  rw [taken, if_pos failed]

theorem regSetMask_touchesOnly (fails : Nat → Bool) (reg : Nat) (s : State)
    (within : val &&& ~~~mask = 0) :
    TouchesOnly reg mask val s (regSetMask fails reg mask val s) ↔
      Harmless fails reg mask val s := by
  rcases regSetMask_cases fails reg mask val s with
    ⟨done, result, same⟩ | ⟨different, failed, result, same⟩ | ⟨different, sent, result, stored⟩
  · -- nothing is written: the field has to have its value
    have touches : TouchesOnly reg mask val s (regSetMask fails reg mask val s) ↔
        s.chip.regs reg &&& mask = val := by
      constructor
      · intro touches
        rw [← touches.set result, same]
      · intro value
        exact ⟨fun _ => same ▸ value, by rw [same], fun other _ => by rw [same]⟩
    rw [touches, Harmless]
    cases read : readFails fails s.chip.transfers
    · rw [taken_read read] at done
      simp [done]
    · rw [taken_failed read, ones_and] at done
      simp [done]
  · -- the write fails, and so does the call
    have touches : TouchesOnly reg mask val s (regSetMask fails reg mask val s) := by
      refine ⟨fun success => ?_, by rw [same], fun other _ => by rw [same]⟩
      rw [result] at success
      cases success
    refine ⟨fun _ => ?_, fun _ => touches⟩
    cases read : readFails fails s.chip.transfers
    · exact .inl read
    · rw [taken_failed read, ones_and] at different
      exact .inr (.inr ⟨Ne.symm different, .inl failed⟩)
  · -- the register is written: the other bits are what the read gave
    have touches : TouchesOnly reg mask val s (regSetMask fails reg mask val s) ↔
        taken fails reg s &&& ~~~mask = s.chip.regs reg &&& ~~~mask := by
      constructor
      · intro touches
        rw [← touches.outside, stored, store_here, spliced_outside]
      · intro background
        refine ⟨fun _ => ?_, ?_, fun other different => ?_⟩
        · rw [stored, store_here, spliced_inside _ within]
        · rw [stored, store_here, spliced_outside, background]
        · rw [stored, RegFile.store_other _ _ different]
    rw [touches, Harmless]
    cases read : readFails fails s.chip.transfers
    · simp [taken_read read]
    · rw [taken_failed read, ones_and] at different
      rw [taken_failed read, ones_and]
      simp [Ne.symm different, sent, eq_comm]

/-- The read succeeds, or nothing is written, or the bits outside of `own` are all ones already. -/
def Spares (fails : Nat → Bool) (own : UInt8) (reg : Nat) (mask val : UInt8) (s : State) : Prop :=
  readFails fails s.chip.transfers = false ∨ val = mask ∨
    fails (afterRead fails s.chip.transfers) = true ∨ s.chip.regs reg &&& ~~~own = ~~~own

/-- The bits of a register outside of `own`. -/
def State.others (s : State) (own : Nat → UInt8) (reg : Nat) : UInt8 :=
  s.chip.regs reg &&& ~~~own reg

/-- A write that does not spare the other bits turns them into ones. -/
theorem regSetMask_others {own : Nat → UInt8} (within : mask &&& ~~~own reg = 0) :
    (Spares fails (own reg) reg mask val s ∧
        (regSetMask fails reg mask val s).2.others own = s.others own) ∨
      (¬Spares fails (own reg) reg mask val s ∧ s.others own reg ≠ ~~~own reg ∧
        (regSetMask fails reg mask val s).2.others own =
          Function.update (s.others own) reg (~~~own reg)) := by
  rcases regSetMask_cases fails reg mask val s with
    ⟨done, _, same⟩ | ⟨_, failed, _, same⟩ | ⟨different, sent, _, stored⟩
  · refine .inl ⟨?_, by funext; rw [State.others, same, State.others]⟩
    cases read : readFails fails s.chip.transfers
    · exact .inl read
    · rw [taken_failed read, ones_and] at done
      exact .inr (.inl done.symm)
  · exact .inl ⟨.inr (.inr (.inl failed)), by funext; rw [State.others, same, State.others]⟩
  · have written : (regSetMask fails reg mask val s).2.others own =
        Function.update (s.others own) reg (taken fails reg s &&& ~~~own reg) := by
      rw [Function.eq_update_iff]
      refine ⟨?_, fun other ne => ?_⟩
      · rw [State.others, stored, store_here, spliced_beside _ _ within]
      · rw [State.others, stored, RegFile.store_other _ _ ne, State.others]
    rw [written]
    cases read : readFails fails s.chip.transfers
    · refine .inl ⟨.inl read, ?_⟩
      rw [taken_read read]
      exact Function.update_eq_self reg (s.others own)
    · rw [taken_failed read, ones_and] at different
      rw [taken_failed read, ones_and]
      by_cases ones : s.others own reg = ~~~own reg
      · exact .inl ⟨.inr (.inr (.inr ones)), by rw [← ones, Function.update_eq_self]⟩
      · refine .inr ⟨?_, ones, rfl⟩
        rintro (success | value | failed | already)
        · rw [success] at read
          cases read
        · exact different value.symm
        · rw [sent] at failed
          cases failed
        · exact ones already

/-! ### Fields -/

/-- A field is written after a read of its own, which has to succeed. -/
def FieldHarmless (fails : Nat → Bool) (field : RegField) (val : UInt8) (s : State) : Prop :=
  readFails fails s.chip.transfers = true ∨
    Harmless fails field.reg field.mask (val <<< field.shift) (s.read fails)

theorem fieldWrite_eq (fails : Nat → Bool) (field : RegField) (val : UInt8) (s : State) :
    fieldWrite fails field val s =
      if readFails fails s.chip.transfers then (-1, s.read fails)
      else regSetMask fails field.reg field.mask (val <<< field.shift) (s.read fails) := by
  unfold fieldWrite e4kFieldWrite
  rw [regRead_holding]
  cases read : readFails fails s.chip.transfers
  · rfl
  · rfl

theorem fieldWrite_touchesOnly (fails : Nat → Bool) (field : RegField) (s : State)
    (within : (val <<< field.shift) &&& ~~~field.mask = 0) :
    TouchesOnly field.reg field.mask (val <<< field.shift) s (fieldWrite fails field val s) ↔
      FieldHarmless fails field val s := by
  rw [fieldWrite_eq, FieldHarmless]
  cases read : readFails fails s.chip.transfers
  · have masked := regSetMask_touchesOnly fails field.reg (s.read fails) within
    rw [if_neg Bool.false_ne_true, ← masked]
    constructor
    · intro touches
      exact .inr ⟨touches.set, touches.outside, touches.others⟩
    · rintro (failed | touches)
      · cases failed
      · exact ⟨touches.set, touches.outside, touches.others⟩
  · rw [if_pos rfl]
    refine ⟨fun _ => .inl rfl, fun _ => ⟨fun success => ?_, rfl, fun _ _ => rfl⟩⟩
    cases success

end

/-! ### Setters -/

def ifStageGain : List (List Int) :=
  [[], [-3, 6], [0, 3, 6, 9], [0, 3, 6, 9], [0, 1, 2, 2], [3, 6, 9, 12, 15, 15, 15, 15],
    [3, 6, 9, 12, 15, 15, 15, 15]]

def ifStageGainRegs : List RegField :=
  [⟨0, 0, 0⟩, ⟨0x16, 0, 1⟩, ⟨0x16, 1, 2⟩, ⟨0x16, 3, 2⟩, ⟨0x16, 5, 2⟩, ⟨0x17, 0, 3⟩, ⟨0x17, 3, 3⟩]

def lnagain : List (Int × UInt8) :=
  [(-50, 0), (-25, 1), (0, 4), (25, 5), (50, 6), (75, 7), (100, 8), (125, 9), (150, 10), (175, 11),
    (200, 12), (250, 13), (300, 14)]

def enhgain : List Int := [10, 30, 50, 70]

def findStageGain (stage : Nat) (val : Int) : Int :=
  match (ifStageGain.getD stage []).findIdx? (· = val) with
  | some i => i
  | none => -einval

section

variable (fails : Nat → Bool)

def rfFilterSet (s : State) : Int × State := e4kRfFilterSet (holding fails 0x10 s) s

def ifFilterBwSet (filter : IfFilter) (bandwidth : UInt32) (s : State) : Int × State :=
  e4kIfFilterBwSet (holding fails filter.field.reg s) filter bandwidth s

def ifFilterChanEnable (on : Int) (s : State) : Int × State :=
  regSetMask fails 0x12 0x20 (if on ≠ 0 then 0 else 0x20) s

def bandSet (band : Band) (s : State) : Int × State :=
  let s := (e4kRegWrite (holding fails 0x78 s) 0x78 (if band = .l then 0 else 3) s).2
  let s := (regSetMask fails 0x07 0x06 0 s).2
  let set := regSetMask fails 0x07 0x06 (band.toUInt8 <<< 1) s
  (set.1, if set.1 ≥ 0 then { set.2 with band } else set.2)

def setLnaGain (gain : Int) (s : State) : Int × State :=
  match lnagain.find? fun row => row.1 = gain with
  | some row => (gain, (regSetMask fails 0x14 0x0f row.2 s).2)
  | none => (-einval, s)

def setEnhGain (gain : Int) (s : State) : Int × State :=
  match enhgain.findIdx? (· = gain) with
  | some i => (gain, (regSetMask fails 0x24 0x07 ((0x01 : UInt8) ||| (UInt8.ofNat i <<< 1)) s).2)
  | none => (if gain = 0 then 0 else -einval, (regSetMask fails 0x24 0x07 0 s).2)

def enableManualGain (manual : UInt8) (s : State) : Int × State :=
  if manual ≠ 0 then
    let s := (regSetMask fails 0x1a 0x0f 0x00 s).2
    (0, (regSetMask fails 0x20 0x01 0 s).2)
  else
    let s := (regSetMask fails 0x1a 0x0f 0x09 s).2
    let s := (regSetMask fails 0x20 0x01 1 s).2
    (0, (regSetMask fails 0x24 0x07 0 s).2)

def ifGainSet (stage : Nat) (value : Int) (s : State) : Int × State :=
  let rc := findStageGain stage value
  if rc < 0 then (rc, s)
  else
    let field := ifStageGainRegs.getD stage ⟨0, 0, 0⟩
    regSetMask fails field.reg field.mask (UInt8.ofInt rc <<< field.shift) s

def mixerGainSet (value : Int) (s : State) : Int × State :=
  if value = 4 then regSetMask fails 0x15 1 0 s
  else if value = 12 then regSetMask fails 0x15 1 1 s
  else (-einval, s)

end

/-- The setters of gains, filters and the band, with their arguments. -/
inductive Setter
  | rfFilter
  | ifFilterBw (filter : IfFilter) (bandwidth : UInt32)
  | ifFilterChan (on : Int)
  | band (chosen : Band)
  | lnaGain (gain : Int)
  | enhGain (gain : Int)
  | manualGain (manual : UInt8)
  | ifGain (stage : Nat) (value : Int)
  | mixerGain (value : Int)

def Setter.run (fails : Nat → Bool) : Setter → State → Int × State
  | .rfFilter => rfFilterSet fails
  | .ifFilterBw filter bandwidth => ifFilterBwSet fails filter bandwidth
  | .ifFilterChan on => ifFilterChanEnable fails on
  | .band chosen => bandSet fails chosen
  | .lnaGain gain => setLnaGain fails gain
  | .enhGain gain => setEnhGain fails gain
  | .manualGain manual => enableManualGain fails manual
  | .ifGain stage value => ifGainSet fails stage value
  | .mixerGain value => mixerGainSet fails value

inductive Access
  | write (reg : Nat) (val : UInt8)
  | masked (reg : Nat) (mask val : UInt8)
  | fieldWrite (field : RegField) (val : UInt8)

def Access.run (fails : Nat → Bool) (s : State) : Access → State
  | .write reg val => (e4kRegWrite (holding fails reg s) reg val s).2
  | .masked reg mask val => (regSetMask fails reg mask val s).2
  | .fieldWrite field val => (E4k.fieldWrite fails field val s).2

/-- The bits of register `reg` that an access is for. -/
def Access.bits (reg : Nat) : Access → UInt8
  | .write written _ => if reg = written then 0xff else 0
  | .masked written mask _ => if reg = written then mask else 0
  | .fieldWrite field _ => if reg = field.reg then field.mask else 0

/-- The access leaves the bits outside of `own` alone. -/
def Access.Spares (fails : Nat → Bool) (own : Nat → UInt8) (s : State) : Access → Prop
  | .write _ _ => True
  | .masked reg mask val => E4k.Spares fails (own reg) reg mask val s
  | .fieldWrite field val => readFails fails s.chip.transfers = true ∨
    E4k.Spares fails (own field.reg) field.reg field.mask (val <<< field.shift) (s.read fails)

def Setter.accesses (s : State) : Setter → List Access
  | .rfFilter => [.masked 0x10 0x0f (chooseRfFilter s.band s.vco.flo).toUInt8]
  | .ifFilterBw filter bandwidth =>
    [.fieldWrite filter.field (closestArrIdx filter.bandwidths bandwidth).toUInt8]
  | .ifFilterChan on => [.masked 0x12 0x20 (if on ≠ 0 then 0 else 0x20)]
  | .band chosen =>
    [.write 0x78 (if chosen = .l then 0 else 3), .masked 0x07 0x06 0,
      .masked 0x07 0x06 (chosen.toUInt8 <<< 1)]
  | .lnaGain gain =>
    match lnagain.find? fun row => row.1 = gain with
    | some row => [.masked 0x14 0x0f row.2]
    | none => []
  | .enhGain gain =>
    match enhgain.findIdx? (· = gain) with
    | some i => [.masked 0x24 0x07 ((0x01 : UInt8) ||| (UInt8.ofNat i <<< 1))]
    | none => [.masked 0x24 0x07 0]
  | .manualGain manual =>
    if manual ≠ 0 then [.masked 0x1a 0x0f 0x00, .masked 0x20 0x01 0]
    else [.masked 0x1a 0x0f 0x09, .masked 0x20 0x01 1, .masked 0x24 0x07 0]
  | .ifGain stage value =>
    let field := ifStageGainRegs.getD stage ⟨0, 0, 0⟩
    if findStageGain stage value < 0 then []
    else [.masked field.reg field.mask
      (UInt8.ofInt (findStageGain stage value) <<< field.shift)]
  | .mixerGain value =>
    if value = 4 then [.masked 0x15 1 0] else if value = 12 then [.masked 0x15 1 1] else []

def runAll (fails : Nat → Bool) (accesses : List Access) (s : State) : State :=
  accesses.foldl (Access.run fails) s

/-- Each access does so, in the state it starts from. -/
def AllSpare (fails : Nat → Bool) (own : Nat → UInt8) : List Access → State → Prop
  | [], _ => True
  | access :: rest, s =>
    access.Spares fails own s ∧ AllSpare fails own rest (access.run fails s)

/-- The bits of register `reg` that some access is for. -/
def bitsOf (reg : Nat) (accesses : List Access) : UInt8 :=
  accesses.foldr (fun access bits => access.bits reg ||| bits) 0

theorem Setter.run_chip (fails : Nat → Bool) (setter : Setter) (s : State) :
    (setter.run fails s).2.chip = (runAll fails (setter.accesses s) s).chip := by
  cases setter with
  | rfFilter => rfl
  | ifFilterBw filter bandwidth => rfl
  | ifFilterChan on => rfl
  | band chosen =>
    simp only [Setter.run, bandSet]
    rw [apply_ite State.chip, ite_self]
    rfl
  | lnaGain gain =>
    simp only [Setter.run, setLnaGain, Setter.accesses]
    split <;> rfl
  | enhGain gain =>
    simp only [Setter.run, setEnhGain, Setter.accesses]
    split <;> rfl
  | manualGain manual =>
    simp only [Setter.run, enableManualGain, Setter.accesses]
    split_ifs <;> rfl
  | ifGain stage value =>
    simp only [Setter.run, ifGainSet, Setter.accesses]
    split_ifs <;> rfl
  | mixerGain value =>
    simp only [Setter.run, mixerGainSet, Setter.accesses]
    split_ifs <;> rfl

/-! ### Neighbouring fields -/

theorem bits_within {access : Access} {accesses : List Access} (member : access ∈ accesses)
    (reg : Nat) : access.bits reg &&& ~~~bitsOf reg accesses = 0 := by
  have part (x y : UInt8) : x &&& ~~~(x ||| y) = 0 := by
    refine eq_of_bits fun i inside => ?_
    simp
    grind
  have more (x y z : UInt8) (within : x &&& ~~~y = 0) : x &&& ~~~(z ||| y) = 0 := by
    refine eq_of_bits fun i inside => ?_
    have bit := bits_eq within i
    simp at bit ⊢
    grind
  induction accesses with
  | nil => cases member
  | cons first rest ih =>
    rcases List.mem_cons.mp member with rfl | later
    · exact part _ _
    · exact more _ _ _ (ih later)

variable {s : State} {fails : Nat → Bool} {own : Nat → UInt8}

theorem Access.run_others (fails : Nat → Bool) (s : State) {access : Access}
    (within : ∀ reg, access.bits reg &&& ~~~own reg = 0) :
    (access.Spares fails own s ∧ (access.run fails s).others own = s.others own) ∨
      (¬access.Spares fails own s ∧ ∃ reg, s.others own reg ≠ ~~~own reg ∧
        (access.run fails s).others own = Function.update (s.others own) reg (~~~own reg)) := by
  cases access with
  | write written val =>
    refine .inl ⟨trivial, ?_⟩
    funext reg
    rcases regWrite_cases (holding fails written s) written val s with
      ⟨_, _, same⟩ | ⟨_, _, stored⟩
    · rw [State.others, Access.run, same, State.others]
    · have whole := within reg
      rw [State.others, Access.run, stored, State.others]
      rw [Access.bits] at whole
      split_ifs at whole with here
      · rw [ones_and] at whole
        rw [whole, UInt8.and_zero, UInt8.and_zero]
      · rw [RegFile.store_other _ _ here]
  | masked written mask val =>
    have whole := within written
    rw [Access.bits, if_pos rfl] at whole
    rcases regSetMask_others whole with spared | ⟨hurt, different, ones⟩
    · exact .inl spared
    · exact .inr ⟨hurt, written, different, ones⟩
  | fieldWrite field val =>
    have whole := within field.reg
    rw [Access.bits, if_pos rfl] at whole
    rw [Access.run, fieldWrite_eq, Access.Spares]
    cases read : readFails fails s.chip.transfers
    · rcases regSetMask_others (s := s.read fails) whole with ⟨spares, same⟩ | ⟨hurt, different, ones⟩
      · exact .inl ⟨.inr spares, same⟩
      · exact .inr ⟨by simpa using hurt, field.reg, different, ones⟩
    · exact .inl ⟨.inl rfl, rfl⟩

section

variable {accesses : List Access}
  (within : ∀ access ∈ accesses, ∀ reg, access.bits reg &&& ~~~own reg = 0)
include within

theorem runAll_ones {reg : Nat} (ones : s.others own reg = ~~~own reg) :
    (runAll fails accesses s).others own reg = ~~~own reg := by
  induction accesses generalizing s with
  | nil => exact ones
  | cons access rest ih =>
    refine ih (fun later member => within later (List.mem_cons_of_mem _ member)) ?_
    rcases access.run_others fails s (within access List.mem_cons_self) with
      ⟨_, same⟩ | ⟨_, hurt, _, update⟩
    · rw [same, ones]
    · rw [update, Function.update_apply, ones]
      split_ifs with here
      · rw [here]
      · rfl

/-- The other bits are what they were exactly if each access spares them: none of the accesses
makes a zero of a one. -/
theorem runAll_others :
    (runAll fails accesses s).others own = s.others own ↔ AllSpare fails own accesses s := by
  induction accesses generalizing s with
  | nil => exact iff_of_true rfl trivial
  | cons access rest ih =>
    have later := fun next member => within next (List.mem_cons_of_mem access member)
    rw [AllSpare]
    rcases access.run_others fails s (within access List.mem_cons_self) with
      ⟨spares, same⟩ | ⟨hurts, reg, different, update⟩
    · rw [and_iff_right spares, ← ih later, same]
      rfl
    · refine iff_of_false (fun kept => different ?_) fun spare => hurts spare.1
      rw [← kept]
      exact runAll_ones later (by rw [update, Function.update_self])

end

/-- Exactly when `e4k_reg_set_mask` and `e4k_field_write` touch only their field, and exactly when a
setter leaves the bits outside of its fields alone. -/
theorem maskedWrites_touchOnly (fails : Nat → Bool) (s : State) :
    (∀ (reg : Nat) (mask val : UInt8), val &&& ~~~mask = 0 →
      (TouchesOnly reg mask val s (regSetMask fails reg mask val s) ↔
        Harmless fails reg mask val s)) ∧
    (∀ (field : RegField) (val : UInt8), (val <<< field.shift) &&& ~~~field.mask = 0 →
      (TouchesOnly field.reg field.mask (val <<< field.shift) s (fieldWrite fails field val s) ↔
        FieldHarmless fails field val s)) ∧
    (∀ setter : Setter,
      (∀ reg : Nat, (setter.run fails s).2.chip.regs reg &&& ~~~bitsOf reg (setter.accesses s) =
          s.chip.regs reg &&& ~~~bitsOf reg (setter.accesses s)) ↔
        AllSpare fails (bitsOf · (setter.accesses s)) (setter.accesses s) s) := by
  refine ⟨?_, ?_, ?_⟩
  · intro reg mask val within
    exact regSetMask_touchesOnly fails reg s within
  · intro field val within
    exact fieldWrite_touchesOnly fails field s within
  · intro setter
    rw [setter.run_chip, ← runAll_others fun access member => bits_within member]
    exact funext_iff.symm

/-- A chip whose registers all hold 0x5a. -/
def filledState : State := ⟨.vhf2, ⟨0, 0, 0, 0, 0, 0, 0, 0⟩, ⟨fun _ => 0x5a, 0⟩⟩

/-- A bus on which nothing but the write after a read fails. -/
theorem maskedWrites_writeFails :
    TouchesOnly 0x10 0x0f 0x03 filledState
        (regSetMask (fun n => n == 2) 0x10 0x0f 0x03 filledState) ∧
      (regSetMask (fun n => n == 2) 0x10 0x0f 0x03 filledState).1 = -1 :=
  ⟨((maskedWrites_touchOnly (fun n => n == 2) filledState).1 0x10 0x0f 0x03 (by decide)).mpr
    (.inl (by decide)), by decide⟩

/-- A read that fails: a field that should become all ones is reported as set and is not; a field
that gets another value takes the rest of its register with it; and a field write whose second read
fails sets the whole bandwidth of its neighbour to ones. -/
theorem maskedWrites_readFails :
    ¬TouchesOnly 0x10 0x0f 0x0f filledState
        (regSetMask (fun n => n == 0) 0x10 0x0f 0x0f filledState) ∧
      ¬TouchesOnly 0x10 0x0f 0x03 filledState
        (regSetMask (fun n => n == 0) 0x10 0x0f 0x03 filledState) ∧
      (regSetMask (fun n => n == 0) 0x10 0x0f 0x03 filledState).2.chip.regs 0x10 = 0xf3 ∧
      (ifFilterBwSet (fun n => n == 2) .mix 4600000 filledState).1 = 0 ∧
      (ifFilterBwSet (fun n => n == 2) .mix 4600000 filledState).2.chip.regs 0x11 = 0x8f := by
  refine ⟨fun touches => ?_, fun touches => ?_, by decide⟩
  · exact absurd (touches.set (by decide)) (by decide)
  · exact absurd touches.outside (by decide)

end RtlSdr.Tuners.E4k
