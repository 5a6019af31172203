import RtlSdr.R82xx.IntFreq
import RtlSdr.R82xx.PllWords
import RtlSdr.R82xx.Registers

/-!
# The inputs of an RTL-SDR Blog V4

HF reaches the tuner through an upconverter of 28.8 MHz. The driver writes the registers of the
input only when the input changes, and decides by a comparison of its own whether to add the 28.8
MHz. The two comparisons differ in a single frequency.
-/
namespace RtlSdr.R82xx

open Prog

/-! ### What is selected -/

/-- The inputs that registers 0x05 and 0x06 select: cable 2 for HF, cable 1 for VHF, and the
air input, which is on where its bit is clear, for UHF. -/
def selectedInputs (chip : RegFile) : List UInt8 :=
  (if chip 0x06 &&& 0x08 = 0 then [] else [hf]) ++
    ((if chip 0x05 &&& 0x40 = 0 then [] else [vhf]) ++
      if chip 0x05 &&& 0x20 = 0 then [uhf] else [])

def blogV4Band (freq : UInt32) : UInt8 :=
  if freq ≤ 28800000 then hf else if freq < 250000000 then vhf else uhf

/-- `lo_freq`, for which `r82xx_set_freq` sets the multiplexer and the PLL. -/
def loFreq (cfg : Config) (priv : Priv) (freq : UInt32) : UInt32 :=
  (if cfg.isRtlsdrBlogV4 ∧ freq < 28800000 then freq + 28800000 else freq) + priv.intFreq

/-- The registers of the PLL hold the values for this frequency of the LO. -/
def ProgrammedFor (xtal lo : UInt32) (chip : RegFile) : Prop :=
  Decodes (fractionFor xtal lo).1.toNat (fractionFor xtal lo).2.toNat fun i => chip (0x14 + i)

section

variable (env : Env)

/-- The part of `r82xx_set_freq` after the PLL. -/
def selectInput (freq : UInt32) : Driver Unit := do
  let priv ← getPriv
  if priv.hasLock then
    if env.cfg.isRtlsdrBlogV4 then setBlogV4Input env freq else setAirCableInput env freq
  else pure ()

theorem r82xxSetFreq_run (freq : UInt32) (world : World) :
    r82xxSetFreq env freq world = (do
      r82xxSetMux env (loFreq env.cfg world.priv freq)
      r82xxSetPll env (loFreq env.cfg world.priv freq)
      selectInput env freq : Driver Unit) world := rfl

/-- The writes with which an input is selected. -/
def inputWrites (band : UInt8) : List RegWrite :=
  [.mask 0x06 (if band = hf then 0x08 else 0x00) 0x08,
    .mask 0x05 (if band = vhf then 0x40 else 0x00) 0x40,
    .mask 0x05 (if band = uhf then 0x00 else 0x20) 0x20]

end

theorem blogV4Band_cases (freq : UInt32) :
    blogV4Band freq = hf ∨ blogV4Band freq = vhf ∨ blogV4Band freq = uhf := by
  rw [blogV4Band]
  split_ifs
  · exact .inl rfl
  · exact .inr (.inl rfl)
  · exact .inr (.inr rfl)

theorem selectedInputs_writes (chip : RegFile) {band : UInt8}
    (one : band = hf ∨ band = vhf ∨ band = uhf) :
    selectedInputs ((inputWrites band).foldl RegWrite.apply chip) = [band] := by
  let written := (inputWrites band).foldl RegWrite.apply chip
  -- the last write leaves the bit of the one before it alone
  have cable2 : written 0x06 &&& 0x08 = (if band = hf then 0x08 else 0x00) &&& 0x08 :=
    maskReg8_inside _ _ _
  have cable1 : written 0x05 &&& 0x40 = (if band = vhf then 0x40 else 0x00) &&& 0x40 :=
    (maskReg8_outside _ _ (by decide)).trans (maskReg8_inside _ _ _)
  have air : written 0x05 &&& 0x20 = (if band = uhf then 0x00 else 0x20) &&& 0x20 :=
    maskReg8_inside _ _ _
  change selectedInputs written = [band]
  rw [selectedInputs, cable2, cable1, air]
  rcases one with rfl | rfl | rfl <;> decide

/-! ### On a bus that works -/

def RegWrite.register : RegWrite → Nat
  | .reg register _ => register
  | .mask register _ _ => register

/-- The copy is what the chip holds, `int_freq` is as after `r82xx_init`, and the input that the
driver remembers is the one that is selected. -/
structure Settled (world : World) : Prop where
  coherent : Coherent world
  intFreq : world.priv.intFreq = 3570000
  remembered : world.priv.input = hf ∨ world.priv.input = vhf ∨ world.priv.input = uhf →
    selectedInputs world.chip = [world.priv.input]

theorem Settled.of_same {world world' : World} (settled : Settled world)
    (coherent : Coherent world') (priv : SamePriv world world')
    (five : world'.chip 0x05 = world.chip 0x05) (six : world'.chip 0x06 = world.chip 0x06) :
    Settled world' := by
  obtain ⟨regs, priv⟩ := priv
  refine ⟨coherent, by rw [priv, settled.intFreq], ?_⟩
  rw [priv, selectedInputs, five, six]
  exact settled.remembered

section

variable {env : Env} (working : ∀ n, (env.bus n).failed = none)

include working

theorem no_failure : ∀ n rc, (env.bus n).failed = some rc → False := by
  intro n rc failed
  rw [working n] at failed
  cases failed

theorem r82xxWrite_working (reg : Nat) (val : List UInt8) (world : World) :
    ∃ world', r82xxWrite env reg val world = (.ok (), world') := by
  obtain ⟨_, world', run⟩ := (errors_r82xxWrite (no_failure working) reg val).ends world
  exact ⟨world', run⟩

theorem workingRules : Rules env Coherent Coherent where
  weaker _ coherent := coherent
  write reg val := by
    intro world coherent
    obtain ⟨world', run⟩ := r82xxWrite_working working reg val world
    rw [run]
    exact (r82xxWrite_ok coherent run).1
  read := by
    intro world coherent
    rw [i2cRead, working]
    exact coherent
  kept f same := by
    have kept (world : World) (coherent : Coherent world) :
        Coherent { world with priv := f world.priv } := by
      intro i inside
      change world.chip _ = (f world.priv).regs i
      rw [(same world.priv).1, coherent i inside]
    exact ⟨kept, kept⟩

theorem keeps_settled_write {reg : Nat} (behind : 6 < reg) (val : List UInt8) :
    Keeps Settled Settled (r82xxWrite env reg val) := by
  intro world settled
  obtain ⟨world', run⟩ := r82xxWrite_working working reg val world
  rw [run]
  obtain ⟨coherent, chip, priv⟩ := r82xxWrite_ok settled.coherent run
  refine settled.of_same coherent priv ?_ ?_
  · rw [chip]
    exact RegFile.store_outside _ _ _ _ (.inl (by omega))
  · rw [chip]
    exact RegFile.store_outside _ _ _ _ (.inl behind)

theorem keeps_settled_writeAll {writes : List RegWrite}
    (behind : ∀ write ∈ writes, 6 < write.register) :
    Keeps Settled Settled (writeAll env writes) := by
  induction writes with
  | nil => exact keeps_pure _
  | cons write writes ih =>
    have rest := ih fun other member => behind other (List.mem_cons_of_mem _ member)
    have here := behind write List.mem_cons_self
    cases write with
    | reg reg val => exact keeps_bind (keeps_settled_write working here [val]) fun _ => rest
    | mask reg val bitMask =>
      refine keeps_bind ?_ fun _ => rest
      apply keeps_bind keeps_getPriv
      intro priv
      cases r82xxReadCacheReg priv reg with
      | none => exact keeps_throw _ fun _ settled => settled
      | some cached => exact keeps_settled_write working here _

omit working in
theorem keeps_settled_read (len : Nat) : Keeps Settled Settled (r82xxRead env len) :=
  keeps_read_of env (fun _ _ settled => ⟨settled.1, settled.2, settled.3⟩) len

theorem keeps_settled_setMux (freq : UInt32) : Keeps Settled Settled (r82xxSetMux env freq) := by
  apply keeps_bind (keeps_settled_writeAll working (by simp [RegWrite.register]))
  intro _
  apply keeps_bind keeps_getPriv
  intro _
  exact keeps_settled_writeAll working (by simp [RegWrite.register])

theorem keeps_settled_checkLock : Keeps Settled Settled (checkLock env) := by
  apply keeps_bind (keeps_settled_read 3)
  intro _
  apply keeps_ite _ (keeps_pure _)
  apply keeps_bind (keeps_settled_writeAll working (by simp [RegWrite.register]))
  intro _
  exact keeps_bind (keeps_settled_read 3) fun _ => keeps_pure _

theorem keeps_settled_setPll (freq : UInt32) : Keeps Settled Settled (r82xxSetPll env freq) := by
  rw [r82xxSetPll_eq]
  apply keeps_bind (keeps_settled_writeAll working (by simp [RegWrite.register]))
  intro _
  apply keeps_bind keeps_getPriv
  intro _
  apply keeps_bind (keeps_settled_read 5)
  intro _
  -- the registers of the PLL and `has_lock`, or neither
  apply keeps_ite _ (keeps_throw _ fun _ settled => settled)
  apply keeps_bind (keeps_settled_write working (by decide) _)
  intro _
  apply keeps_bind (keeps_settled_checkLock working)
  intro lock
  apply keeps_bind (keeps_modify _ fun _ settled => ⟨settled.1, settled.2, settled.3⟩)
  intro _
  apply keeps_settled_writeAll working
  cases lock <;> simp [RegWrite.register]

theorem never_writeAll (writes : List RegWrite) (inside : ∀ write ∈ writes, write.Shadowed) :
    Errors (fun _ => False) (writeAll env writes) :=
  errors_writeAll (no_failure working) writes inside

theorem never_setBlogV4Input (freq : UInt32) :
    Errors (fun _ => False) (setBlogV4Input env freq) := by
  have write := never_writeAll working
  refine errors_bind (write _ (by simp)) fun _ => ?_
  refine errors_bind errors_getPriv fun priv => ?_
  refine errors_ite ?_ (errors_pure _)
  refine errors_bind (errors_modify _) fun _ => ?_
  exact write _ (by simp)

end

/-- Once the input has been chosen it is the one of the band, whichever it was before. The PLL is
left alone. -/
theorem setBlogV4Input_ok {env : Env} {freq : UInt32} {world world' : World}
    (settled : Settled world) (run : setBlogV4Input env freq world = (.ok (), world')) :
    Settled world' ∧ world'.priv.input = blogV4Band freq ∧
      ∀ reg, 6 < reg → reg < 0x17 → world'.chip reg = world.chip reg := by
  obtain ⟨_, notched, notch, run⟩ := bind_eq_ok run
  obtain ⟨coherent, chip, priv⟩ := writeAll_ok settled.coherent notch
  have other {reg : Nat} (apart : reg ≠ 0x17) : notched.chip reg = world.chip reg := by
    rw [chip]
    exact RegFile.store_other _ _ apart
  have kept : Settled notched :=
    settled.of_same coherent priv (other (by decide)) (other (by decide))
  have choice : (if blogV4Band freq ≠ notched.priv.input then (do
      modifyPriv fun priv => { priv with input := blogV4Band freq }
      writeAll env (inputWrites (blogV4Band freq))) else pure () : Driver Unit) notched =
        (.ok (), world') := run
  split_ifs at choice with changes
  · obtain ⟨_, chosen, set, choice⟩ := bind_eq_ok choice
    cases set
    have start : Coherent { notched with
        priv := { notched.priv with input := blogV4Band freq } } := coherent
    obtain ⟨coherent', chip', _, priv'⟩ := writeAll_ok start choice
    have input : world'.priv.input = blogV4Band freq := by rw [priv']
    refine ⟨⟨coherent', by rw [priv', kept.intFreq], fun one => ?_⟩, input, ?_⟩
    · rw [input] at one ⊢
      rw [chip']
      exact selectedInputs_writes _ one
    · intro reg behind before
      rw [chip', ← other (by omega)]
      simp only [inputWrites, List.foldl_cons, List.foldl_nil, RegWrite.apply]
      rw [RegFile.store_other _ _ (by omega), RegFile.store_other _ _ (by omega),
        RegFile.store_other _ _ (by omega)]
  · cases choice
    exact ⟨kept, (not_ne_iff.mp changes).symm, fun reg _ before => other (by omega)⟩

/-! ### Tuning -/

section

variable {env : Env} (blogV4 : env.cfg.isRtlsdrBlogV4 = true)
  (working : ∀ n, (env.bus n).failed = none)

include blogV4 working

theorem keeps_settled_setFreq (freq : UInt32) : Keeps Settled Settled (r82xxSetFreq env freq) := by
  apply keeps_bind keeps_getPriv
  intro _
  apply keeps_bind (keeps_settled_setMux working _)
  intro _
  apply keeps_bind (keeps_settled_setPll working _)
  intro _
  apply keeps_bind keeps_getPriv
  intro priv
  refine keeps_ite _ ?_ (keeps_pure _)
  rw [if_pos blogV4]
  intro world settled
  obtain ⟨_, world', run⟩ := (never_setBlogV4Input working freq).ends world
  rw [run]
  exact (setBlogV4Input_ok settled run).1

/-- A call that ends with a lock selects the input of its band, and has programmed the PLL. -/
theorem setFreq_selects {freq : UInt32} {world world' : World} (settled : Settled world)
    (run : r82xxSetFreq env freq world = (.ok (), world')) (lock : world'.priv.hasLock = true)
    (clocked : Clocked env.cfg) (low : 27657 ≤ kHz (loFreq env.cfg world.priv freq))
    (high : kHz (loFreq env.cfg world.priv freq) ≤ 1769999) :
    selectedInputs world'.chip = [blogV4Band freq] ∧
      ProgrammedFor env.cfg.xtal (loFreq env.cfg world.priv freq) world'.chip := by
  rw [r82xxSetFreq_run] at run
  obtain ⟨_, muxed, mux, run⟩ := bind_eq_ok run
  obtain ⟨_, tuned, pll, run⟩ := bind_eq_ok run
  have settled₁ := (keeps_settled_setMux working _).ok settled mux
  have settled₂ := (keeps_settled_setPll working _).ok settled₁ pll
  have choice : (if tuned.priv.hasLock then
      if env.cfg.isRtlsdrBlogV4 then setBlogV4Input env freq else setAirCableInput env freq
      else pure ()) tuned = (.ok (), world') := run
  rw [if_pos blogV4] at choice
  split_ifs at choice with locked
  · obtain ⟨settled', input, same⟩ := setBlogV4Input_ok settled₂ choice
    have selected := settled'.remembered (by rw [input]; exact blogV4Band_cases freq)
    rw [input] at selected
    refine ⟨selected, ?_⟩
    -- the chip holds what the copies do, and the input is in other registers
    obtain ⟨regs, divNum, copies⟩ := copy_of_setPll env _ muxed tuned pll
    refine decodes_pllRegs env.cfg clocked _ low high regs divNum _ fun i inside => ?_
    rw [← copies i inside, same _ (by omega) (by omega),
      ← settled₂.coherent _ (by unfold numRegs regShadowStart; omega)]
    congr 1
    unfold regShadowStart
    omega
  · cases choice
    exact absurd lock locked

end

/-! ### The frequency of the LO -/

theorem Decodes.unique {nint sdm nint' sdm' : Nat} {reg : Nat → UInt8}
    (one : Decodes nint sdm reg) (other : Decodes nint' sdm' reg) : nint = nint' ∧ sdm = sdm' := by
  obtain ⟨⟨ni, si, _, _, byte, rfl⟩, rfl⟩ := one
  obtain ⟨⟨ni', si', _, _, byte', rfl⟩, rfl⟩ := other
  omega

/-- Ratios that come out the same are of frequencies next to each other. -/
theorem vco_near {xtal vco vco' : Nat} (positive : 0 < xtal)
    (same : vcoRatio xtal vco = vcoRatio xtal vco') : 65536 * vco < 65536 * vco' + 2 * xtal := by
  have below := Nat.div_mul_le_self (xtal + 65536 * vco') (2 * xtal)
  have above := Nat.lt_div_mul_add (a := xtal + 65536 * vco) (b := 2 * xtal) (by omega)
  rw [← vcoRatio, ← same] at below
  rw [← vcoRatio] at above
  omega

/-- The 28.8 MHz show in the registers. -/
theorem not_upconverted {cfg : Config} (clocked : Clocked cfg) {lo : UInt32} {chip : RegFile}
    (least : 32370000 ≤ lo.toNat) (most : lo.toNat ≤ 1703570000)
    (programmed : ProgrammedFor cfg.xtal lo chip) :
    ¬ProgrammedFor cfg.xtal (lo + 28800000) chip := by
  intro upconverted
  have sum : (lo + 28800000).toNat = lo.toNat + 28800000 := by
    rw [UInt32.toNat_add]
    exact Nat.mod_eq_of_lt (by simp; omega)
  have range (freq : UInt32) (above : 32370000 ≤ freq.toNat) (below : freq.toNat ≤ 1732370000) :
      27657 ≤ kHz freq ∧ kHz freq ≤ 1769999 := by
    unfold kHz
    omega
  obtain ⟨low, high⟩ := range lo least (by omega)
  obtain ⟨low', high'⟩ := range (lo + 28800000) (by omega) (by omega)
  obtain ⟨nint, sdm⟩ := fractionFor_toNat cfg clocked lo low high
  obtain ⟨nint', sdm'⟩ := fractionFor_toNat cfg clocked _ low' high'
  obtain ⟨sameInt, sameSdm⟩ := programmed.unique upconverted
  rw [nint, nint'] at sameInt
  rw [sdm, sdm'] at sameSdm
  have same : vcoRatio cfg.xtal.toNat (vcoFor lo) =
      vcoRatio cfg.xtal.toNat (vcoFor (lo + 28800000)) := by omega
  have positive := (inRange_vcoFor cfg clocked lo low high).positive
  have near := vco_near positive same
  have near' := vco_near positive same.symm
  unfold Clocked Corrected at clocked
  -- the dividers are powers of two, and the quotient of the two frequencies is not
  obtain ⟨member, _⟩ := dividerFor_inside lo low high
  obtain ⟨member', _⟩ := dividerFor_inside (lo + 28800000) low' high'
  rw [vcoFor, vcoFor, sum] at near near'
  simp only [mixDividers, List.mem_cons, List.not_mem_nil, or_false] at member member'
  rcases member with m | m | m | m | m | m <;> rcases member' with m' | m' | m' | m' | m' | m' <;>
    rw [m, m'] at near near' <;> simp only [UInt8.reduceToNat] at near near' <;> omega

/-! ### The initialisation -/

theorem calibration_accepted {cfg : Config} (clocked : Clocked cfg) :
    ¬128 / (vcoPowerRef cfg.rafaelChip).toNat - 1 <
      (fractionFor cfg.xtal (56000 * 1000)).1.toNat := by
  rw [(fractionFor_toNat cfg clocked _ (by decide) (by decide)).1]
  exact Nat.not_lt.mpr (inRange_vcoFor cfg clocked _ (by decide) (by decide)).limit

section

variable {env : Env} (working : ∀ n, (env.bus n).failed = none)

include working

theorem never_calibrate (passes : Nat) (clocked : Clocked env.cfg) :
    Errors (fun _ => False) (calibrate env passes) := by
  have write := never_writeAll working
  induction passes with
  | zero => exact errors_pure _
  | succ passes ih =>
    refine errors_bind (write _ (by simp)) fun _ => ?_
    refine errors_bind (errors_setPll (no_failure working) _
      (calibration_accepted clocked)) fun _ => ?_
    refine errors_bind errors_getPriv fun priv => ?_
    refine errors_ite ?_ (errors_pure _)
    refine errors_bind (write _ (by simp)) fun _ => ?_
    refine errors_bind (errors_read (no_failure working) 5) fun data => ?_
    refine errors_bind (errors_modify _) fun _ => ?_
    exact errors_ite (errors_pure _) ih

theorem never_writeTvStandard (bw : Nat) (type : TunerType) (delsys : DeliverySystem)
    (clocked : Clocked env.cfg) :
    Errors (fun _ => False) (writeTvStandard env bw type delsys) := by
  have write := never_writeAll working
  refine errors_bind (write _ (by simp)) fun _ => ?_
  refine errors_bind (write _ ?_) fun _ => ?_
  · split <;> simp
  refine errors_bind (errors_modify _) fun _ => ?_
  refine errors_bind (never_calibrate working 2 clocked) fun goesOn => ?_
  refine errors_ite ?_ (errors_pure _)
  refine errors_bind (errors_modify _) fun _ => ?_
  refine errors_bind errors_getPriv fun priv => ?_
  refine errors_bind (write _ (by simp)) fun _ => ?_
  exact errors_modify _

theorem never_sysfreqSel (freq : UInt32) (type : TunerType) (delsys : DeliverySystem) :
    Errors (fun _ => False) (r82xxSysfreqSel env freq type delsys) := by
  have write := never_writeAll working
  refine errors_bind (write _ ?_) fun _ => ?_
  · split <;> simp
  refine errors_bind (write _ (by simp)) fun _ => ?_
  refine errors_bind (errors_modify _) fun _ => ?_
  refine errors_bind (write _ (by simp)) fun _ => ?_
  refine errors_ite ?_ ?_
  · exact write _ (by simp)
  · exact write _ (by simp)

omit working in
theorem sysfreqSel_input {freq : UInt32} {type : TunerType} {delsys : DeliverySystem}
    {world world' : World} (coherent : Coherent world)
    (run : r82xxSysfreqSel env freq type delsys world = (.ok (), world')) :
    Coherent world' ∧ world'.priv.input = (sysFreq freq delsys).airCable1In := by
  obtain ⟨_, world₁, first, run⟩ := bind_eq_ok run
  obtain ⟨coherent₁, _⟩ := writeAll_ok coherent first
  obtain ⟨_, world₂, second, run⟩ := bind_eq_ok run
  obtain ⟨coherent₂, _⟩ := writeAll_ok coherent₁ second
  obtain ⟨_, world₃, set, run⟩ := bind_eq_ok run
  cases set
  obtain ⟨_, world₄, third, run⟩ := bind_eq_ok run
  have start : Coherent { world₂ with priv := { world₂.priv with
    input := (sysFreq freq delsys).airCable1In } } := coherent₂
  obtain ⟨coherent₄, _, _, priv₄⟩ := writeAll_ok start third
  have input : world₄.priv.input = (sysFreq freq delsys).airCable1In := by rw [priv₄]
  have last : ∃ writes, writeAll env writes world₄ = (.ok (), world') := by
    split at run
    · exact ⟨_, run⟩
    · exact ⟨_, run⟩
  obtain ⟨writes, last⟩ := last
  obtain ⟨coherent', _, _, priv'⟩ := writeAll_ok coherent₄ last
  exact ⟨coherent', by rw [priv', input]⟩

omit working in
theorem writeTvStandard_intFreq {bw : Nat} {type : TunerType} {delsys : DeliverySystem}
    {world world' : World} (run : writeTvStandard env bw type delsys world = (.ok (), world')) :
    HasIntFreq 3570000 world' := by
  have rules := intFreqRules env 3570000
  obtain ⟨_, _, _, run⟩ := bind_eq_ok run
  obtain ⟨_, _, _, run⟩ := bind_eq_ok run
  obtain ⟨_, _, set, run⟩ := bind_eq_ok run
  cases set
  have rest := keeps_bind (keeps_calibrate rules 2) fun goesOn =>
    keeps_ite (goesOn = true) (keeps_finishTvStandard rules bw type delsys) (keeps_pure ())
  refine rest.ok ?_ run
  exact Eq.refl (3570000 : UInt32)

theorem init_settled (clocked : Clocked env.cfg) (world : World) :
    Settled (Call.init.run env world).2 := by
  obtain ⟨begun, coherent, _, run⟩ := init_run env world fun _ _ => working _
  have modify (f : Priv → Priv) (same : ∀ priv, (f priv).regs = priv.regs) :
      Keeps Coherent Coherent (modifyPriv f) := by
    apply keeps_modify
    intro world coherent i inside
    change world.chip _ = (f world.priv).regs i
    rw [same, coherent i inside]
  obtain ⟨_, standard, tv⟩ :=
    (never_writeTvStandard working 3 .digitalTv .undefined clocked).ends begun
  have coherent₁ :=
    (keeps_writeTvStandard (workingRules working) _ _ _ modify).ok coherent tv
  obtain ⟨_, world', sel⟩ := (never_sysfreqSel working 0 .digitalTv .dvbt).ends standard
  obtain ⟨coherent', input⟩ := sysfreqSel_input coherent₁ sel
  -- 0 is none of the inputs, so the next choice writes the registers
  rw [run, bind_ok tv]
  have ended : ((r82xxSysfreqSel env 0 .digitalTv .dvbt).thenDo fun world =>
      { world with priv := { world.priv with initDone := true } }) standard =
      (.ok (), { world' with priv := { world'.priv with initDone := true } }) := by
    rw [Prog.thenDo, sel]
  rw [ended]
  have intFreq := (keeps_sysfreqSel (intFreqRules env _) _ _ _).ok (writeTvStandard_intFreq tv) sel
  refine ⟨coherent', intFreq, fun one => ?_⟩
  change world'.priv.input = hf ∨ world'.priv.input = vhf ∨ world'.priv.input = uhf at one
  rw [input] at one
  exact absurd one (by decide)

end

/-! ### Sequences of calls -/

section

variable {env : Env} (blogV4 : env.cfg.isRtlsdrBlogV4 = true)
  (working : ∀ n, (env.bus n).failed = none) (clocked : Clocked env.cfg)

include blogV4 working clocked

theorem after_settled {calls : List Call}
    (only : ∀ call ∈ calls, call = .init ∨ ∃ freq, call = .setFreq freq) {world : World}
    (start : Settled world) : Settled (after env world calls) := by
  induction calls generalizing world with
  | nil => exact start
  | cons call calls ih =>
    rw [after, List.foldl_cons]
    apply ih fun other member => only other (List.mem_cons_of_mem _ member)
    rcases only call List.mem_cons_self with rfl | ⟨freq, rfl⟩
    · exact init_settled working clocked world
    · exact (keeps_settled_setFreq blogV4 working freq).stopped start fun _ settled => settled

omit blogV4 working clocked in
theorem hf_band_iff (freq : UInt32) : hf ∈ [blogV4Band freq] ↔ freq ≤ 28800000 := by
  rw [List.mem_singleton, blogV4Band]
  split_ifs with low
  · exact iff_of_true rfl low
  · exact iff_of_false (by decide) low
  · exact iff_of_false (by decide) low

/-- For every sequence of `r82xx_init` and `r82xx_set_freq` that begins with the former, on a
bus that works: a call of `r82xx_set_freq` that ends with a lock selects exactly one input, and
this is HF where the PLL is programmed with the 28.8 MHz added, except at 28.8 MHz. -/
theorem blogV4_input_iff (world : World) (calls : List Call)
    (only : ∀ call ∈ calls, call = .init ∨ ∃ freq, call = .setFreq freq) (freq : UInt32)
    (below : freq < 1700000000) {world' : World}
    (run : r82xxSetFreq env freq (after env world (.init :: calls)) = (.ok (), world'))
    (lock : world'.priv.hasLock = true) :
    (selectedInputs world'.chip).length = 1 ∧
      ((hf ∈ selectedInputs world'.chip ↔ ProgrammedFor env.cfg.xtal
          (freq + 28800000 + (after env world (.init :: calls)).priv.intFreq) world'.chip) ↔
        freq ≠ 28800000) := by
  have settled : Settled (after env world (.init :: calls)) :=
    after_settled blogV4 working clocked only (init_settled working clocked world)
  generalize after env world (.init :: calls) = start at settled run
  have below : freq.toNat < 1700000000 := UInt32.lt_iff_toNat_lt.mp below
  have frequency : (loFreq env.cfg start.priv freq).toNat =
      (if freq.toNat < 28800000 then freq.toNat + 28800000 else freq.toNat) + 3570000 := by
    rw [loFreq, settled.intFreq, blogV4]
    simp only [true_and, UInt32.lt_iff_toNat_lt]
    split_ifs <;> simp only [UInt32.toNat_add, UInt32.reduceToNat] at * <;> omega
  obtain ⟨selected, programmed⟩ := setFreq_selects blogV4 working settled run lock clocked
    (by unfold kHz; split_ifs at frequency <;> omega)
    (by unfold kHz; split_ifs at frequency <;> omega)
  rw [selected, hf_band_iff, UInt32.le_iff_toNat_le, ne_eq, ← UInt32.toNat_inj]
  change _ ∧ ((freq.toNat ≤ 28800000 ↔ _) ↔ ¬freq.toNat = 28800000)
  refine ⟨rfl, ?_⟩
  by_cases low : freq < 28800000
  · rw [loFreq, if_pos ⟨blogV4, low⟩] at programmed
    have less : freq.toNat < 28800000 := UInt32.lt_iff_toNat_lt.mp low
    simp only [programmed, iff_true]
    omega
  · have more : ¬freq.toNat < 28800000 := fun less => low (UInt32.lt_iff_toNat_lt.mpr less)
    rw [if_neg more] at frequency
    have plain := not_upconverted clocked (by omega) (by omega) programmed
    rw [loFreq, if_neg fun both => low both.2, UInt32.add_assoc,
      UInt32.add_comm start.priv.intFreq, ← UInt32.add_assoc] at plain
    simp only [plain, iff_false]
    omega

end

/-- A Blog V4 that locks, on a bus that works. -/
def blogV4Env : Env where
  cfg := { xtal := 28800000, rafaelChip := .r828d, usePredetect := false, isRtlsdrBlogV4 := true }
  bus := fun _ => ⟨none, List.replicate 5 0xff⟩

theorem blogV4Env_clocked : Clocked blogV4Env.cfg := .inr ⟨rfl, .inr (by unfold Corrected; decide)⟩

/-- From VHF to 10 MHz: HF, with the upconversion. -/
theorem blogV4_input_hf :
    hf ∈ selectedInputs
        (r82xxSetFreq blogV4Env 10000000
          (after blogV4Env newWorld [.init, .setFreq 100000000])).2.chip ↔
      ProgrammedFor 28800000 (10000000 + 28800000 + 3570000)
        (r82xxSetFreq blogV4Env 10000000
          (after blogV4Env newWorld [.init, .setFreq 100000000])).2.chip := by
  have only : ∀ call ∈ [Call.setFreq 100000000], call = .init ∨ ∃ freq, call = .setFreq freq :=
    fun call member => .inr ⟨_, List.mem_singleton.mp member⟩
  have ok : (r82xxSetFreq blogV4Env 10000000
      (after blogV4Env newWorld [.init, .setFreq 100000000])).1 = .ok () := by
    decide +kernel
  have lock : (r82xxSetFreq blogV4Env 10000000
      (after blogV4Env newWorld [.init, .setFreq 100000000])).2.priv.hasLock = true := by
    decide +kernel
  have matches_ := (blogV4_input_iff rfl (fun _ => rfl) blogV4Env_clocked newWorld
    [.setFreq 100000000] only 10000000 (by decide) (run_eq_ok ok) lock).2.mpr (by decide)
  have intFreq : (after blogV4Env newWorld [.init, .setFreq 100000000]).priv.intFreq =
      3570000 := by
    decide +kernel
  rwa [intFreq] at matches_

/-- At 28.8 MHz the HF input is selected, and the registers of the PLL hold the values for 28.8 MHz
and the intermediate frequency, with nothing added. -/
theorem blogV4_input_boundary :
    let reached := r82xxSetFreq blogV4Env 28800000 (after blogV4Env newWorld [.init])
    reached.1 = .ok () ∧ reached.2.priv.hasLock = true ∧ selectedInputs reached.2.chip = [hf] ∧
      ProgrammedFor 28800000 (28800000 + 3570000) reached.2.chip ∧
      ¬ProgrammedFor 28800000 (28800000 + 28800000 + 3570000) reached.2.chip := by
  have ok : (r82xxSetFreq blogV4Env 28800000 (after blogV4Env newWorld [.init])).1 = .ok () := by
    decide +kernel
  have lock : (r82xxSetFreq blogV4Env 28800000
      (after blogV4Env newWorld [.init])).2.priv.hasLock = true := by
    decide +kernel
  have settled : Settled (after blogV4Env newWorld [.init]) :=
    init_settled (fun _ => rfl) blogV4Env_clocked newWorld
  have lo : loFreq blogV4Env.cfg (after blogV4Env newWorld [.init]).priv 28800000 =
      28800000 + 3570000 := by
    decide +kernel
  obtain ⟨selected, programmed⟩ := setFreq_selects rfl (fun _ => rfl) settled (run_eq_ok ok) lock
    blogV4Env_clocked (by rw [lo]; decide) (by rw [lo]; decide)
  rw [lo] at programmed
  refine ⟨ok, lock, selected, programmed, ?_⟩
  rw [UInt32.add_assoc, UInt32.add_comm 28800000 3570000, ← UInt32.add_assoc]
  exact not_upconverted blogV4Env_clocked (by decide) (by decide) programmed

end RtlSdr.R82xx
