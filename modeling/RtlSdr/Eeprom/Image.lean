import RtlSdr.Lib.Memory
import Mathlib.Data.List.TakeWhile
import Mathlib.Tactic.Ring

/-!
# The EEPROM image of `rtl_eeprom.c`

A configuration is written as a header and three USB string descriptors laid end to end, and read
back by following their length bytes. The generator is modelled by its stores in order; the parser
on a memory that goes on behind the image, together with every offset it reads and writes.
-/
namespace RtlSdr.Eeprom

def eepromSize : Nat := 256
def maxStrSize : Nat := 256
def strOffset : Nat := 0x09

/-- The first offset a character may not be stored at. -/
def irConfig : Nat := 78

/-- The number of bytes `main` writes to the device. -/
def flashLen (flashFile : Bool) : Nat := if flashFile then eepromSize else 128

/-- A `char[MAX_STR_SIZE]` field that holds a string. -/
structure StrField where
  bytes : List UInt8
  length_eq : bytes.length = maxStrSize
  terminated : 0 ∈ bytes
deriving DecidableEq, Repr

/-- The string in a field: what stands before the first NUL. -/
def cString (bytes : List UInt8) : List UInt8 := bytes.takeWhile (· ≠ 0)

/-- `struct rtlsdr_config`. -/
structure RtlsdrConfig where
  vendorId : UInt16
  productId : UInt16
  manufacturer : StrField
  product : StrField
  serial : StrField
  haveSerial : Int
  enableIr : Int
  remoteWakeup : Int
deriving DecidableEq, Repr

/-- `strcpy` into a field, over what it held. -/
def StrField.strcpy (field : StrField) (str : List UInt8) (short : str.length < maxStrSize) :
    StrField where
  bytes := Memory.splice field.bytes 0 (str ++ [0x00])
  length_eq := by
    rw [Memory.splice_length, field.length_eq]
    rw [field.length_eq, List.length_append, List.length_singleton]
    omega
  terminated := by
    apply List.mem_append_left
    apply List.mem_append_right
    exact List.mem_append_right _ List.mem_cons_self

/-- `enum configs`. -/
inductive Configs
  | none
  | realtek
  | realtekEeprom
  | terratecNoxon
  | terratecTBlack
  | terratecTPlus
deriving DecidableEq, Repr

/-- The bytes of a string literal. -/
def ascii (literal : String) : List UInt8 := literal.toList.map Char.toUInt8

def genDefaultConf (conf : RtlsdrConfig) : Configs → RtlsdrConfig
  | .realtek =>
    { vendorId := 0x0bda
      productId := 0x2832
      manufacturer := conf.manufacturer.strcpy (ascii "Generic") (by decide)
      product := conf.product.strcpy (ascii "RTL2832U DVB-T") (by decide)
      serial := conf.serial.strcpy (ascii "0") (by decide)
      haveSerial := 1
      enableIr := 0
      remoteWakeup := 1 }
  | .realtekEeprom =>
    { vendorId := 0x0bda
      productId := 0x2838
      manufacturer := conf.manufacturer.strcpy (ascii "Realtek") (by decide)
      product := conf.product.strcpy (ascii "RTL2838UHIDIR") (by decide)
      serial := conf.serial.strcpy (ascii "00000001") (by decide)
      haveSerial := 1
      enableIr := 1
      remoteWakeup := 0 }
  | .terratecNoxon =>
    { vendorId := 0x0ccd
      productId := 0x00b3
      manufacturer := conf.manufacturer.strcpy (ascii "NOXON") (by decide)
      product := conf.product.strcpy (ascii "DAB Stick") (by decide)
      serial := conf.serial.strcpy (ascii "0") (by decide)
      haveSerial := 1
      enableIr := 0
      remoteWakeup := 1 }
  | .terratecTBlack =>
    { vendorId := 0x0ccd
      productId := 0x00a9
      manufacturer := conf.manufacturer.strcpy (ascii "Realtek") (by decide)
      product := conf.product.strcpy (ascii "RTL2838UHIDIR") (by decide)
      serial := conf.serial.strcpy (ascii "00000001") (by decide)
      haveSerial := 1
      enableIr := 1
      remoteWakeup := 0 }
  | .terratecTPlus =>
    { vendorId := 0x0ccd
      productId := 0x00d7
      manufacturer := conf.manufacturer.strcpy (ascii "Realtek") (by decide)
      product := conf.product.strcpy (ascii "RTL2838UHIDIR") (by decide)
      serial := conf.serial.strcpy (ascii "00000001") (by decide)
      haveSerial := 1
      enableIr := 1
      remoteWakeup := 0 }
  | .none => conf

/-! ### Writing -/

/-- A store of a byte at an offset of the image. -/
abbrev Store := Nat × UInt8

def applyStores (image : List UInt8) (stores : List Store) : List UInt8 :=
  stores.foldl (fun image store => image.set store.1 store.2) image

/-- The loop of `set_string_descriptor`, with the final value of `j` if no character is
refused. -/
def putString (pos j : Nat) : List UInt8 → List Store × Option Nat
  | [] => ([], some j)
  | ch :: str =>
    -- the loop ends at the NUL, whatever the field holds behind it
    if ch = 0x00 then ([], some j)
    -- the one check of the limit: `pos + j`, before the character is stored
    else if pos + j ≥ irConfig then ([], none)
    else
      let (stores, last) := putString pos (j + 2) str
      ((pos + j, ch) :: (pos + j + 1, 0x00) :: stores, last)

/-- `set_string_descriptor`: its stores and its return value. -/
def setStringDescriptor (pos : Int) (str : List UInt8) : List Store × Int :=
  -- a call before this one was refused
  if pos < 0 then ([], -1)
  else
    let start := pos.toNat
    match putString start 2 str with
    | (stores, none) => ((start + 1, 0x03) :: stores, -1)
    -- the length byte is stored last, when `j` is known
    | (stores, some j) => ((start + 1, 0x03) :: stores ++ [(start, j.toUInt8)], pos + j)

/-- The first nine bytes. `dat[7]` is assigned and then or-ed twice. -/
def headerStores (conf : RtlsdrConfig) : List Store :=
  let wakeup : UInt8 := 0x14 ||| (if conf.remoteWakeup ≠ 0 then 0x01 else 0x00)
  [(0, 0x28), (1, 0x32),
    (2, (conf.vendorId &&& 0xff).toUInt8), (3, ((conf.vendorId >>> 8) &&& 0xff).toUInt8),
    (4, (conf.productId &&& 0xff).toUInt8), (5, ((conf.productId >>> 8) &&& 0xff).toUInt8),
    (6, if conf.haveSerial ≠ 0 then 0xa5 else 0x00),
    -- one entry a store, so that `dat[7]` stands here three times
    (7, 0x14), (7, wakeup), (7, wakeup ||| (if conf.enableIr ≠ 0 then 0x02 else 0x00)),
    (8, 0x02)]

/-- What `gen_eeprom_from_conf` does: its stores in order, and its return value. -/
structure Generated where
  stores : List Store
  pos : Int

/-- `gen_eeprom_from_conf`. A refused string makes the following calls return at once,
but the store of the IR length is made all the same. -/
def genEepromFromConf (conf : RtlsdrConfig) : Generated :=
  let first := setStringDescriptor strOffset conf.manufacturer.bytes
  let second := setStringDescriptor first.2 conf.product.bytes
  let third := setStringDescriptor second.2 conf.serial.bytes
  ⟨headerStores conf ++ first.1 ++ second.1 ++ third.1 ++ [(irConfig, 0x00)], third.2⟩

def Generated.image (gen : Generated) (buf : List UInt8) : List UInt8 := applyStores buf gen.stores

/-! ### Reading -/

/-- The memory the parser reads: the image, and whatever lies behind it. -/
def memoryAt (image : List UInt8) (beyond : Nat → UInt8) (offset : Nat) : UInt8 :=
  (image[offset]?).getD (beyond offset)

/-- What `get_string_descriptor` does: the offsets it reads, whether it complains, what it
stores from `str[0]` on before the terminator, and its return value. -/
structure Descriptor where
  reads : List Nat
  invalid : Bool
  str : List UInt8
  next : Nat
deriving DecidableEq, Repr

/-- The loop of `get_string_descriptor`: offsets read, characters stored, last `i`. -/
def getLoop (dat : Nat → UInt8) (pos len i : Nat) : List Nat × List UInt8 × Nat :=
  if i < len then
    -- the high byte of a character is never read
    let (reads, str, last) := getLoop dat pos len (i + 2)
    ((pos + i) :: reads, dat (pos + i) :: str, last)
  else ([], [], i)
termination_by len - i

def getStringDescriptor (dat : Nat → UInt8) (pos : Nat) : Descriptor :=
  -- the length byte alone says how far the loop goes
  let (reads, str, last) := getLoop dat pos (dat pos).toNat 2
  { reads := pos :: (pos + 1) :: reads
    -- a wrong type byte is reported, and the string is read all the same
    invalid := dat (pos + 1) ≠ 0x03
    str
    next := pos + last }

/-- The messages of the parser. -/
inductive ParseError
  | invalidHeader
  | invalidDescriptor
deriving DecidableEq, Repr

/-- Which of the string fields is written. -/
inductive StrName
  | manufacturer
  | product
  | serial
deriving DecidableEq, Repr

/-- What `parse_eeprom_to_conf` does: the fields of the configuration, of which the
strings are what is stored up to and including the terminator, and its accesses. -/
structure Parsed where
  vendorId : UInt16
  productId : UInt16
  haveSerial : Int
  remoteWakeup : Int
  enableIr : Int
  manufacturer : List UInt8
  product : List UInt8
  serial : List UInt8
  errors : List ParseError
  reads : List Nat
  writes : List (StrName × Nat)
deriving DecidableEq, Repr

/-- `dat[lo] | (dat[lo + 1] << 8)`. -/
def word16 (dat : Nat → UInt8) (lo : Nat) : UInt16 :=
  (dat lo).toUInt16 ||| ((dat (lo + 1)).toUInt16 <<< 8)

/-- The offsets a string is stored at, with its terminator. -/
def strWrites (name : StrName) (str : List UInt8) : List (StrName × Nat) :=
  (List.range (str.length + 1)).map fun j => (name, j)

def parseEepromToConf (dat : Nat → UInt8) : Parsed :=
  let header := dat 0 ≠ 0x28 || dat 1 ≠ 0x32
  let manufacturer := getStringDescriptor dat strOffset
  let product := getStringDescriptor dat manufacturer.next
  let serial := getStringDescriptor dat product.next
  { vendorId := word16 dat 2
    productId := word16 dat 4
    haveSerial := if dat 6 = 0xa5 then 1 else 0
    remoteWakeup := if dat 7 &&& 0x01 ≠ 0 then 1 else 0
    enableIr := if dat 7 &&& 0x02 ≠ 0 then 1 else 0
    manufacturer := manufacturer.str ++ [0x00]
    product := product.str ++ [0x00]
    serial := serial.str ++ [0x00]
    errors :=
      (if header then [.invalidHeader] else []) ++
      ([manufacturer, product, serial].filter Descriptor.invalid).map fun _ => .invalidDescriptor
    -- `dat[1]` is not looked at when `dat[0]` is wrong already
    reads :=
      (if dat 0 ≠ 0x28 then [0] else [0, 1]) ++ [2, 3, 4, 5, 6, 7, 7] ++
      manufacturer.reads ++ product.reads ++ serial.reads
    writes :=
      strWrites .manufacturer manufacturer.str ++ strWrites .product product.str ++
      strWrites .serial serial.str }

/-! ### The loop of the reader -/

/-- How many characters a length byte stands for. -/
def charCount (len : UInt8) : Nat := (len.toNat - 1) / 2

/-- How far `get_string_descriptor` moves on: at least past the two header bytes. -/
def descriptorSize (len : UInt8) : Nat := 2 + 2 * charCount len

theorem getLoop_eq (dat : Nat → UInt8) (pos len i : Nat) :
    getLoop dat pos len i =
      ((List.range ((len + 1 - i) / 2)).map fun k => pos + i + 2 * k,
        (List.range ((len + 1 - i) / 2)).map fun k => dat (pos + i + 2 * k),
        i + 2 * ((len + 1 - i) / 2)) := by
  -- the loop moves in steps of two, so its count is half of what is left, rounded up
  induction i using getLoop.induct dat pos len with
  | case1 i more _ _ _ _ ih =>
    have count : (len + 1 - i) / 2 = (len + 1 - (i + 2)) / 2 + 1 := by omega
    rw [getLoop, if_pos more, ih, count, List.range_succ_eq_map]
    have shift (k : Nat) : pos + (i + 2) + 2 * k = pos + i + 2 * (k + 1) := by ring
    simp only [shift, List.map_cons, List.map_map, Function.comp_def, Nat.mul_zero, Nat.add_zero,
      Nat.succ_eq_add_one, Prod.mk.injEq, true_and]
    ring
  | case2 i done =>
    have count : (len + 1 - i) / 2 = 0 := by omega
    rw [getLoop, if_neg done, count]
    rfl

theorem getStringDescriptor_eq (dat : Nat → UInt8) (pos : Nat) :
    getStringDescriptor dat pos =
      { reads := pos :: (pos + 1) ::
          (List.range (charCount (dat pos))).map fun k => pos + 2 + 2 * k
        invalid := dat (pos + 1) ≠ 0x03
        str := (List.range (charCount (dat pos))).map fun k => dat (pos + 2 + 2 * k)
        next := pos + descriptorSize (dat pos) } := by
  have count : ((dat pos).toNat + 1 - 2) / 2 = charCount (dat pos) := rfl
  rw [getStringDescriptor, getLoop_eq, count]
  rfl

end RtlSdr.Eeprom
