import RtlSdr.R82xx.Coherence

/-!
# What the writes leave in the chip

While the copy is what the chip holds, a masked write changes the bits of its mask in the chip
and no others, and it makes no difference whether it is sent or passed over. A row of writes
that succeeds is then a fold over the registers of the chip.
-/
namespace RtlSdr.R82xx

open Prog

/-! ### Masks -/

theorem maskReg8_inside (reg val mask : UInt8) : maskReg8 reg val mask &&& mask = val &&& mask := by
  apply UInt8.eq_of_toBitVec_eq
  simp only [maskReg8, UInt8.toBitVec_and, UInt8.toBitVec_or, UInt8.toBitVec_not]
  ext i inside
  simp only [BitVec.getElem_and, BitVec.getElem_or, BitVec.getElem_not]
  cases mask.toBitVec[i] with
  | false => simp
  | true => simp

theorem maskReg8_outside (reg val : UInt8) {mask other : UInt8} (disjoint : mask &&& other = 0) :
    maskReg8 reg val mask &&& other = reg &&& other := by
  have disjoint : mask.toBitVec &&& other.toBitVec = 0 := by
    rw [← UInt8.toBitVec_and, disjoint]
    rfl
  apply UInt8.eq_of_toBitVec_eq
  simp only [maskReg8, UInt8.toBitVec_and, UInt8.toBitVec_or, UInt8.toBitVec_not]
  ext i inside
  have apart : (mask.toBitVec[i] && other.toBitVec[i]) = false := by
    rw [← BitVec.getElem_and, disjoint]
    exact BitVec.getElem_zero inside
  simp only [BitVec.getElem_and, BitVec.getElem_or, BitVec.getElem_not]
  cases here : mask.toBitVec[i] with
  | false => simp
  | true =>
    rw [here, Bool.true_and] at apart
    simp [apart]

/-! ### Rows of writes -/

/-- What a write does to the registers of the chip. -/
def RegWrite.apply (chip : RegFile) : RegWrite → RegFile
  | .reg register val => chip.store register [val]
  | .mask register val bitMask => chip.store register [maskReg8 (chip register) val bitMask]

/-- The driver's state apart from the copy of the registers. -/
def SamePriv (world world' : World) : Prop := ∃ regs, world'.priv = { world.priv with regs }

theorem SamePriv.refl (world : World) : SamePriv world world := ⟨world.priv.regs, rfl⟩

theorem SamePriv.trans {world₁ world₂ world₃ : World} (first : SamePriv world₁ world₂)
    (second : SamePriv world₂ world₃) : SamePriv world₁ world₃ := by
  obtain ⟨regs₁, first⟩ := first
  obtain ⟨regs₂, second⟩ := second
  rw [first] at second
  exact ⟨regs₂, second⟩

section

variable {env : Env}

variable {world' world : World} {reg : Nat}

theorem r82xxWrite_ok {val : List UInt8} (coherent : Coherent world)
    (run : r82xxWrite env reg val world = (.ok (), world')) :
    Coherent world' ∧ world'.chip = world.chip.store reg val ∧ SamePriv world world' := by
  cases equal : shadowEqual world.priv.regs reg val with
  | true =>
    -- what is passed over is in the chip already
    rw [r82xxWrite_skipped env reg val world equal] at run
    cases run
    have loaded := shadowEqual_load _ _ reg val coherent equal
    exact ⟨coherent, (RegFile.store_load world.chip reg val loaded).symm, .refl world⟩
  | false =>
    rcases r82xxWrite_sent env reg val world equal with
      ⟨transfers, sent⟩ | ⟨rc, transfers, chip, failed, _⟩
    · rw [sent] at run
      cases run
      exact ⟨shadowStore_coherent _ _ reg val coherent, rfl, _, rfl⟩
    · rw [failed] at run
      cases run

theorem r82xxWriteRegMask_ok {val bitMask : UInt8} (coherent : Coherent world)
    (run : r82xxWriteRegMask env reg val bitMask world = (.ok (), world')) :
    Coherent world' ∧ world'.chip = RegWrite.apply world.chip (.mask reg val bitMask) ∧
      SamePriv world world' := by
  have read : getPriv world = (.ok world.priv, world) := rfl
  rw [r82xxWriteRegMask, bind_ok read, r82xxReadCacheReg] at run
  split_ifs at run with inside
  · have cached : world.chip reg = world.priv.regs (reg - regShadowStart) := by
      rw [← coherent _ inside.2, Nat.add_sub_cancel' inside.1]
    rw [← cached] at run
    exact r82xxWrite_ok coherent run
  · cases run

theorem writeAll_ok {writes : List RegWrite} (coherent : Coherent world)
    (run : writeAll env writes world = (.ok (), world')) :
    Coherent world' ∧ world'.chip = writes.foldl RegWrite.apply world.chip ∧
      SamePriv world world' := by
  induction writes generalizing world with
  | nil =>
    cases run
    exact ⟨coherent, rfl, .refl _⟩
  | cons write writes ih =>
    have step {first : Driver Unit}
        (one : ∀ world₁, first world = (.ok (), world₁) →
          Coherent world₁ ∧ world₁.chip = write.apply world.chip ∧ SamePriv world world₁)
        (run : (first >>= fun _ => writeAll env writes) world = (.ok (), world')) :
        Coherent world' ∧ world'.chip = (write :: writes).foldl RegWrite.apply world.chip ∧
          SamePriv world world' := by
      obtain ⟨_, world₁, now, later⟩ := bind_eq_ok run
      obtain ⟨coherent₁, chip, same⟩ := one world₁ now
      obtain ⟨coherent', rest, same'⟩ := ih coherent₁ later
      rw [chip] at rest
      exact ⟨coherent', rest, same.trans same'⟩
    cases write with
    | reg reg val => exact step (fun _ now => r82xxWrite_ok coherent now) run
    | mask reg val bitMask => exact step (fun _ now => r82xxWriteRegMask_ok coherent now) run

end

end RtlSdr.R82xx
