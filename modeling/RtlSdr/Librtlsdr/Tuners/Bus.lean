import RtlSdr.Lib.RegFile

/-!
# The bus of the other tuners

The drivers of the E4000, the FC0012, the FC0013 and the FC2580 keep no copy of the registers.
They write a register with one transfer and read one with two, for its number and for its
value. Any transfer may fail, and a read returns what the chip makes of it.
-/
namespace RtlSdr.Tuners

/-- Which transfers fail, and the byte that each read returns. -/
structure Bus where
  fails : Nat → Bool
  data : Nat → UInt8

def Bus.Working (bus : Bus) : Prop := ∀ n, bus.fails n = false

/-- What has been written to the chip, and the number of transfers so far. -/
structure Chip where
  regs : RegFile
  transfers : Nat

def Chip.set (chip : Chip) (reg : Nat) (val : UInt8) : Chip :=
  { chip with regs := chip.regs.store reg [val] }

section

variable (bus : Bus)

/-- `rtlsdr_i2c_write_fn` with the number of a register and its value, and whether it
succeeds. -/
def i2cWrite (reg : Nat) (val : UInt8) (chip : Chip) : Bool × Chip :=
  let sent := { chip with transfers := chip.transfers + 1 }
  if bus.fails chip.transfers then (false, sent) else (true, sent.set reg val)

/-- `rtlsdr_i2c_write_fn` with the number of a register, then `rtlsdr_i2c_read_fn`. -/
def i2cRead (chip : Chip) : Option UInt8 × Chip :=
  let addressed := { chip with transfers := chip.transfers + 1 }
  -- without the address there is no read
  if bus.fails chip.transfers then (none, addressed)
  else
    let read := { chip with transfers := chip.transfers + 2 }
    (if bus.fails (chip.transfers + 1) then none else some (bus.data (chip.transfers + 1)), read)

end

/-! ### Registers -/

theorem set_other (chip : Chip) {reg other : Nat} (val : UInt8) (different : other ≠ reg) :
    (chip.set reg val).regs other = chip.regs other :=
  RegFile.store_other chip.regs val different

variable {bus : Bus}

theorem i2cWrite_working (working : bus.Working) (reg : Nat) (val : UInt8) (chip : Chip) :
    i2cWrite bus reg val chip =
      (true, Chip.set { chip with transfers := chip.transfers + 1 } reg val) := by
  rw [i2cWrite, working]
  rfl

theorem i2cRead_working (working : bus.Working) (chip : Chip) :
    i2cRead bus chip =
      (some (bus.data (chip.transfers + 1)), { chip with transfers := chip.transfers + 2 }) := by
  rw [i2cRead, working, working]
  rfl

theorem i2cRead_regs (bus : Bus) (chip : Chip) : (i2cRead bus chip).2.regs = chip.regs := by
  unfold i2cRead
  dsimp only
  split <;> rfl

end RtlSdr.Tuners
