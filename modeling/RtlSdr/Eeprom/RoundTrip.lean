import RtlSdr.Eeprom.Image
import RtlSdr.Lib.BigEndian

/-!
# What is generated is parsed back

The descriptors start at odd offsets, so their length bytes and their characters stand at
odd offsets too. The store of the IR length goes to an even one and cannot disturb them.
-/
namespace RtlSdr.Eeprom

/-! ### The bytes of a descriptor -/

/-- A string as UTF-16 in the lower half of its code units. -/
def wideBytes (str : List UInt8) : List UInt8 := str.flatMap fun ch => [ch, 0x00]

def descriptorBytes (str : List UInt8) : List UInt8 :=
  (2 + 2 * str.length).toUInt8 :: 0x03 :: wideBytes str

@[simp] theorem wideBytes_length (str : List UInt8) : (wideBytes str).length = 2 * str.length := by
  induction str with
  | nil => rfl
  | cons ch str ih =>
    rw [wideBytes, List.flatMap_cons, List.length_append, ← wideBytes, ih]
    simp only [List.length_cons, List.length_nil]
    omega

@[simp] theorem descriptorBytes_length (str : List UInt8) :
    (descriptorBytes str).length = 2 + 2 * str.length := by
  simp only [descriptorBytes, List.length_cons, wideBytes_length]
  omega

theorem wideBytes_getElem (str : List UInt8) (k : Nat) :
    (wideBytes str)[2 * k]? = str[k]? ∧
      (k < str.length → (wideBytes str)[2 * k + 1]? = some 0x00) := by
  induction str generalizing k with
  | nil => simp [wideBytes]
  | cons ch str ih =>
    cases k with
    | zero => simp [wideBytes]
    | succ k =>
      obtain ⟨char, high⟩ := ih k
      have step : wideBytes (ch :: str) = ch :: 0x00 :: wideBytes str := rfl
      rw [step, show 2 * (k + 1) = 2 * k + 1 + 1 by omega]
      simp only [List.getElem?_cons_succ, List.length_cons, Nat.add_lt_add_iff_right]
      exact ⟨char, high⟩

/-! ### The loop of the writer -/

/-- Whether all characters of a descriptor may be stored. -/
def Fits (pos : Nat) (str : List UInt8) : Prop := ∀ k < str.length, pos + 2 + 2 * k < irConfig

instance (pos : Nat) (str : List UInt8) : Decidable (Fits pos str) := by
  unfold Fits
  infer_instance

theorem putString_cString (pos j : Nat) (bytes : List UInt8) :
    putString pos j bytes = putString pos j (cString bytes) := by
  induction bytes generalizing j with
  | nil => rfl
  | cons ch bytes ih =>
    by_cases nul : ch = 0x00
    · simp [cString, putString, nul]
    · have kept : cString (ch :: bytes) = ch :: cString bytes := by simp [cString, nul]
      rw [kept, putString, putString, ih]

theorem putString_refused (pos j : Nat) (str : List UInt8) (nonzero : ∀ ch ∈ str, ch ≠ 0)
    (k : Nat) (inside : k < str.length) (late : irConfig ≤ pos + j + 2 * k) :
    (putString pos j str).2 = none := by
  induction str generalizing j k with
  -- induction along the string: `k` counts down to the character that comes too late
  | nil => simp at inside
  | cons ch str ih =>
    rw [putString, if_neg (nonzero ch List.mem_cons_self)]
    by_cases here : pos + j ≥ irConfig
    · rw [if_pos here]
    · rw [if_neg here]
      cases k with
      | zero => omega
      | succ k =>
        exact ih (j + 2) (fun c member => nonzero c (List.mem_cons_of_mem _ member)) k
          (by simpa using inside) (by omega)

/-- The stores of a string that fits, applied to a buffer of which everything before them
is written already. -/
theorem putString_fits (pos j : Nat) (str : List UInt8) (nonzero : ∀ ch ∈ str, ch ≠ 0)
    (fits : ∀ k < str.length, pos + j + 2 * k < irConfig) :
    (putString pos j str).2 = some (j + 2 * str.length) ∧
      (∀ store ∈ (putString pos j str).1, store.1 ≤ irConfig) ∧
      ∀ done rest : List UInt8, done.length = pos + j → 2 * str.length ≤ rest.length →
        applyStores (done ++ rest) (putString pos j str).1 =
          done ++ wideBytes str ++ rest.drop (2 * str.length) := by
  induction str generalizing j with
  | nil =>
    refine ⟨rfl, by simp [putString], fun done rest _ _ => ?_⟩
    simp [putString, applyStores, wideBytes]
  | cons ch str ih =>
    have here : ¬pos + j ≥ irConfig := by
      have := fits 0 (by simp)
      omega
    obtain ⟨last, low, applied⟩ := ih (j + 2)
      (fun c member => nonzero c (List.mem_cons_of_mem _ member))
      (fun k inside => by
        have := fits (k + 1) (by simpa using inside)
        omega)
    -- one turn of the loop: the character, a zero behind it, and two offsets further
    have step : putString pos j (ch :: str) =
        ((pos + j, ch) :: (pos + j + 1, 0x00) :: (putString pos (j + 2) str).1,
          (putString pos (j + 2) str).2) := by
      rw [putString, if_neg (nonzero ch List.mem_cons_self), if_neg here]
    rw [step]
    refine ⟨?_, ?_, fun done rest length room => ?_⟩
    · rw [last, List.length_cons]
      congr 1
      omega
    · rintro store (_ | ⟨_, _ | ⟨_, member⟩⟩)
      · exact Nat.le_of_lt (Nat.lt_of_not_le here)
      · exact Nat.lt_of_not_le here
      · exact low store member
    · -- the two cells that are written next
      obtain ⟨old, old', rest, rfl⟩ : ∃ a b more, rest = a :: b :: more := by
        match rest, room with
        | [], room => simp at room
        | [_], room =>
          simp only [List.length_cons, List.length_nil] at room
          omega
        | a :: b :: more, _ => exact ⟨a, b, more, rfl⟩
      have written : applyStores (done ++ old :: old' :: rest)
          [(pos + j, ch), (pos + j + 1, 0x00)] = (done ++ [ch, 0x00]) ++ rest := by
        simp only [applyStores, List.foldl_cons, List.foldl_nil]
        rw [List.set_append_right _ _ (by omega), List.set_append_right _ _ (by omega)]
        simp [← length]
      have next := applied (done ++ [ch, 0x00]) rest (by simp; omega)
        (by simp only [List.length_cons] at room; omega)
      rw [← written] at next
      simp only [applyStores, List.foldl_cons, List.foldl_nil] at next ⊢
      rw [next]
      simp only [wideBytes, List.flatMap_cons, List.length_cons, List.append_assoc,
        List.cons_append, List.nil_append]
      rw [show 2 * (str.length + 1) = 2 * str.length + 1 + 1 by omega, List.drop_succ_cons,
        List.drop_succ_cons]

/-! ### One descriptor -/

/-- Where the next descriptor starts. -/
def descriptorEnd (pos : Nat) (str : List UInt8) : Nat := pos + 2 + 2 * str.length

theorem cString_nonzero (bytes : List UInt8) : ∀ ch ∈ cString bytes, ch ≠ 0 := by
  intro ch member
  simpa using List.mem_takeWhile_imp member

theorem setStringDescriptor_poisoned (pos : Int) (negative : pos < 0) (str : List UInt8) :
    setStringDescriptor pos str = ([], -1) := by
  rw [setStringDescriptor, if_pos negative]

theorem setStringDescriptor_refused (pos : Nat) (bytes : List UInt8)
    (refused : ¬Fits pos (cString bytes)) : (setStringDescriptor pos bytes).2 = -1 := by
  simp only [Fits, not_forall, Nat.not_lt] at refused
  obtain ⟨k, inside, late⟩ := refused
  -- the loop stops at the terminator, so only the characters before it count
  have none := putString_refused pos 2 _ (cString_nonzero bytes) k inside late
  rw [← putString_cString] at none
  rcases put : putString pos 2 bytes with ⟨stores, last⟩
  rw [put] at none
  cases none
  rw [setStringDescriptor, if_neg (by omega)]
  simp [put]

theorem setStringDescriptor_fits (pos : Nat) (bytes : List UInt8)
    (fits : Fits pos (cString bytes)) :
    (setStringDescriptor pos bytes).2 = descriptorEnd pos (cString bytes) ∧
      (∀ store ∈ (setStringDescriptor pos bytes).1, store.1 ≤ max irConfig (pos + 1)) ∧
      ∀ done rest : List UInt8, done.length = pos →
        2 + 2 * (cString bytes).length ≤ rest.length →
        applyStores (done ++ rest) (setStringDescriptor pos bytes).1 =
          done ++ descriptorBytes (cString bytes) ++
            rest.drop (2 + 2 * (cString bytes).length) := by
  obtain ⟨last, low, applied⟩ := putString_fits pos 2 _ (cString_nonzero bytes) fits
  rw [← putString_cString] at last low applied
  rcases put : putString pos 2 bytes with ⟨stores, j⟩
  rw [put] at last low applied
  cases last
  have result : setStringDescriptor pos bytes =
      ((pos + 1, 0x03) :: stores ++ [(pos, (2 + 2 * (cString bytes).length).toUInt8)],
        pos + ((2 + 2 * (cString bytes).length : Nat) : Int)) := by
    rw [setStringDescriptor, if_neg (by omega)]
    simp [put]
  rw [result]
  refine ⟨?_, ?_, fun done rest length room => ?_⟩
  · simp only [descriptorEnd]
    omega
  · intro store member
    simp only [List.cons_append, List.mem_cons, List.mem_append, List.not_mem_nil,
      or_false] at member
    rcases member with rfl | member | rfl
    · exact Nat.le_max_right _ _
    · exact Nat.le_trans (low store member) (Nat.le_max_left _ _)
    · exact Nat.le_trans (Nat.le_succ pos) (Nat.le_max_right _ _)
  · obtain ⟨old, old', rest, rfl⟩ : ∃ a b more, rest = a :: b :: more := by
      match rest, room with
      | [], room =>
        simp only [List.length_nil] at room
        omega
      | [_], room =>
        simp only [List.length_cons, List.length_nil] at room
        omega
      | a :: b :: more, _ => exact ⟨a, b, more, rfl⟩
    -- the type byte goes first, the length byte last
    have type : (done ++ old :: old' :: rest).set (pos + 1) 0x03 =
        (done ++ [old, 0x03]) ++ rest := by
      rw [List.set_append_right _ _ (by omega)]
      simp [← length]
    have chars := applied (done ++ [old, 0x03]) rest (by simp; omega)
      (by simp only [List.length_cons] at room; omega)
    have all : applyStores (done ++ old :: old' :: rest)
        ((pos + 1, 0x03) :: stores ++ [(pos, (2 + 2 * (cString bytes).length).toUInt8)]) =
        (applyStores ((done ++ [old, 0x03]) ++ rest) stores).set pos
          (2 + 2 * (cString bytes).length).toUInt8 := by
      rw [← type]
      simp [applyStores]
    rw [all, chars, List.append_assoc, List.append_assoc, List.set_append_right _ _ (by omega)]
    simp only [length, Nat.sub_self, List.cons_append, List.set_cons_zero, List.nil_append,
      descriptorBytes, List.append_assoc]
    rw [show 2 + 2 * (cString bytes).length = 2 * (cString bytes).length + 1 + 1 by omega,
      List.drop_succ_cons, List.drop_succ_cons]

theorem setStringDescriptor_lays (pos : Nat) (bytes : List UInt8)
    (fits : Fits pos (cString bytes)) (done buf : List UInt8) (length : done.length = pos)
    (room : descriptorEnd pos (cString bytes) ≤ buf.length) :
    applyStores (done ++ buf.drop pos) (setStringDescriptor pos bytes).1 =
      done ++ descriptorBytes (cString bytes) ++ buf.drop (descriptorEnd pos (cString bytes)) := by
  unfold descriptorEnd at room ⊢
  rw [(setStringDescriptor_fits pos bytes fits).2.2 done _ length, List.drop_drop, Nat.add_assoc]
  rw [List.length_drop]
  omega

/-! ### Three descriptors -/

def RtlsdrConfig.manufacturerStr (conf : RtlsdrConfig) : List UInt8 :=
  cString conf.manufacturer.bytes

def RtlsdrConfig.productStr (conf : RtlsdrConfig) : List UInt8 := cString conf.product.bytes

def RtlsdrConfig.serialStr (conf : RtlsdrConfig) : List UInt8 := cString conf.serial.bytes

/-- Where the second descriptor starts, the third, and what follows them. -/
def RtlsdrConfig.productPos (conf : RtlsdrConfig) : Nat :=
  descriptorEnd strOffset conf.manufacturerStr

def RtlsdrConfig.serialPos (conf : RtlsdrConfig) : Nat :=
  descriptorEnd conf.productPos conf.productStr

def RtlsdrConfig.endPos (conf : RtlsdrConfig) : Nat := descriptorEnd conf.serialPos conf.serialStr

/-- Where the characters of a descriptor are stored. -/
def charOffsets (pos : Nat) (str : List UInt8) : List Nat :=
  (List.range str.length).map fun k => pos + 2 + 2 * k

/-- Where the characters of three descriptors laid end to end are stored. -/
def RtlsdrConfig.charOffsets (conf : RtlsdrConfig) : List Nat :=
  Eeprom.charOffsets strOffset conf.manufacturerStr ++
  Eeprom.charOffsets conf.productPos conf.productStr ++
  Eeprom.charOffsets conf.serialPos conf.serialStr

structure RtlsdrConfig.Fits (conf : RtlsdrConfig) : Prop where
  manufacturer : Eeprom.Fits strOffset conf.manufacturerStr
  product : Eeprom.Fits conf.productPos conf.productStr
  serial : Eeprom.Fits conf.serialPos conf.serialStr

theorem fits_iff_charOffsets (pos : Nat) (str : List UInt8) :
    Fits pos str ↔ ∀ offset ∈ charOffsets pos str, offset < irConfig := by
  simp [Fits, charOffsets]

theorem RtlsdrConfig.fits_iff (conf : RtlsdrConfig) :
    conf.Fits ↔ ∀ offset ∈ conf.charOffsets, offset < irConfig := by
  simp only [RtlsdrConfig.charOffsets, List.mem_append, or_imp, forall_and,
    ← fits_iff_charOffsets]
  exact ⟨fun fits => ⟨⟨fits.manufacturer, fits.product⟩, fits.serial⟩,
    fun ⟨⟨manufacturer, product⟩, serial⟩ => ⟨manufacturer, product, serial⟩⟩

variable {str : List UInt8} {pos : Nat}

/-- A string that fits ends right behind the limit at the latest, an empty one behind its
header. -/
theorem Fits.descriptorEnd_le (fits : Fits pos str) :
    descriptorEnd pos str ≤ max (pos + 2) (irConfig + 1) := by
  unfold descriptorEnd
  cases len : str.length with
  | zero => omega
  | succ n =>
    have := fits n (by omega)
    omega

theorem RtlsdrConfig.Fits.bounds {conf : RtlsdrConfig} (fits : conf.Fits) :
    conf.productPos ≤ 79 ∧ conf.serialPos ≤ 81 ∧ conf.endPos ≤ 83 := by
  -- an empty string is not checked at all, so each of the last two may add a header of two bytes
  have first : conf.productPos ≤ max (9 + 2) (78 + 1) := fits.manufacturer.descriptorEnd_le
  have second : conf.serialPos ≤ max (conf.productPos + 2) (78 + 1) := fits.product.descriptorEnd_le
  have third : conf.endPos ≤ max (conf.serialPos + 2) (78 + 1) := fits.serial.descriptorEnd_le
  omega

def headerBytes (conf : RtlsdrConfig) : List UInt8 :=
  [0x28, 0x32,
    (conf.vendorId &&& 0xff).toUInt8, ((conf.vendorId >>> 8) &&& 0xff).toUInt8,
    (conf.productId &&& 0xff).toUInt8, ((conf.productId >>> 8) &&& 0xff).toUInt8,
    if conf.haveSerial ≠ 0 then 0xa5 else 0x00,
    0x14 ||| (if conf.remoteWakeup ≠ 0 then 0x01 else 0x00) |||
      (if conf.enableIr ≠ 0 then 0x02 else 0x00),
    0x02]

theorem headerStores_apply (conf : RtlsdrConfig) (buf : List UInt8) (room : 9 ≤ buf.length) :
    applyStores buf (headerStores conf) = headerBytes conf ++ buf.drop 9 := by
  match buf, room with
  | _ :: _ :: _ :: _ :: _ :: _ :: _ :: _ :: _ :: rest, _ => rfl

/-- What is laid out from the start of the image. -/
def RtlsdrConfig.layout (conf : RtlsdrConfig) : List UInt8 :=
  headerBytes conf ++ descriptorBytes conf.manufacturerStr ++ descriptorBytes conf.productStr ++
  descriptorBytes conf.serialStr

theorem headerBytes_manufacturer_length (conf : RtlsdrConfig) :
    (headerBytes conf ++ descriptorBytes conf.manufacturerStr).length = conf.productPos := by
  rw [List.length_append, descriptorBytes_length, RtlsdrConfig.productPos, descriptorEnd,
    show (headerBytes conf).length = strOffset from rfl]
  omega

theorem headerBytes_product_length (conf : RtlsdrConfig) :
    (headerBytes conf ++ descriptorBytes conf.manufacturerStr ++
      descriptorBytes conf.productStr).length = conf.serialPos := by
  rw [List.length_append, headerBytes_manufacturer_length, descriptorBytes_length,
    RtlsdrConfig.serialPos, descriptorEnd]
  omega

theorem RtlsdrConfig.layout_length (conf : RtlsdrConfig) : conf.layout.length = conf.endPos := by
  rw [RtlsdrConfig.layout, List.length_append, headerBytes_product_length, descriptorBytes_length,
    RtlsdrConfig.endPos, descriptorEnd]
  omega

theorem genEepromFromConf_refused (conf : RtlsdrConfig) (refused : ¬conf.Fits) :
    (genEepromFromConf conf).pos = -1 := by
  -- a `pos` of -1 is passed on by the calls that follow, so one refusal is enough
  have poisoned (str : List UInt8) : (setStringDescriptor (-1) str).2 = -1 := by
    rw [setStringDescriptor_poisoned _ (by decide)]
  simp only [genEepromFromConf]
  by_cases first : Fits strOffset conf.manufacturerStr
  · rw [(setStringDescriptor_fits _ _ first).1]
    by_cases second : Fits conf.productPos conf.productStr
    · rw [show descriptorEnd strOffset (cString conf.manufacturer.bytes) = conf.productPos from rfl,
        (setStringDescriptor_fits _ _ second).1]
      have third : ¬Fits conf.serialPos conf.serialStr := fun third =>
        refused ⟨first, second, third⟩
      exact setStringDescriptor_refused _ _ third
    · rw [show descriptorEnd strOffset (cString conf.manufacturer.bytes) = conf.productPos from rfl,
        setStringDescriptor_refused _ _ second, poisoned]
  · rw [setStringDescriptor_refused _ _ first, poisoned, poisoned]

theorem genEepromFromConf_fits (conf : RtlsdrConfig) (fits : conf.Fits) :
    (genEepromFromConf conf).pos = conf.endPos ∧
      (∀ store ∈ (genEepromFromConf conf).stores, store.1 < flashLen false) ∧
      ∀ buf : List UInt8, buf.length = eepromSize →
        (genEepromFromConf conf).image buf =
          (conf.layout ++ buf.drop conf.endPos).set irConfig 0x00 := by
  obtain ⟨productPos, serialPos, endPos⟩ := fits.bounds
  obtain ⟨first, firstLow, firstApplied⟩ :=
    setStringDescriptor_fits strOffset conf.manufacturer.bytes fits.manufacturer
  obtain ⟨second, secondLow, secondApplied⟩ :=
    setStringDescriptor_fits conf.productPos conf.product.bytes fits.product
  obtain ⟨third, thirdLow, thirdApplied⟩ :=
    setStringDescriptor_fits conf.serialPos conf.serial.bytes fits.serial
  have result : genEepromFromConf conf =
      ⟨headerStores conf ++ (setStringDescriptor strOffset conf.manufacturer.bytes).1 ++
        (setStringDescriptor conf.productPos conf.product.bytes).1 ++
        (setStringDescriptor conf.serialPos conf.serial.bytes).1 ++ [(irConfig, 0x00)],
        conf.endPos⟩ := by
    simp only [genEepromFromConf]
    rw [first, show descriptorEnd strOffset (cString conf.manufacturer.bytes) = conf.productPos
      from rfl, second, show descriptorEnd conf.productPos (cString conf.product.bytes) =
      conf.serialPos from rfl, third]
    rfl
  rw [result]
  refine ⟨rfl, ?_, fun buf size => ?_⟩
  -- a descriptor is stored up to `pos + 1` or up to the limit, and both are flashed
  · have header : ∀ store ∈ headerStores conf, store.1 < 128 := by
      simp [headerStores]
    have far (pos : Nat) (near : pos ≤ 81) : max irConfig (pos + 1) < 128 := by
      simp only [irConfig]
      omega
    intro store member
    show store.1 < 128
    simp only [List.mem_append, List.mem_singleton] at member
    rcases member with (((member | member) | member) | member) | rfl
    · exact header store member
    · exact Nat.lt_of_le_of_lt (firstLow store member) (far _ (by decide))
    · exact Nat.lt_of_le_of_lt (secondLow store member) (far _ (by omega))
    · exact Nat.lt_of_le_of_lt (thirdLow store member) (far _ serialPos)
    · decide
  · -- the header and the three descriptors are laid down one after the other
    have size' : buf.length = 256 := size
    have laid₁ : applyStores (headerBytes conf ++ buf.drop 9)
        (setStringDescriptor strOffset conf.manufacturer.bytes).1 =
        headerBytes conf ++ descriptorBytes conf.manufacturerStr ++ buf.drop conf.productPos :=
      setStringDescriptor_lays strOffset _ fits.manufacturer _ buf rfl
        (show conf.productPos ≤ _ by omega)
    have laid₂ := setStringDescriptor_lays conf.productPos _ fits.product _ buf
      (headerBytes_manufacturer_length conf)
      (show conf.serialPos ≤ _ by omega)
    have laid₃ := setStringDescriptor_lays conf.serialPos _ fits.serial _ buf
      (headerBytes_product_length conf)
      (show conf.endPos ≤ _ by omega)
    have applied (image : List UInt8) (stores more : List Store) :
        applyStores image (stores ++ more) = applyStores (applyStores image stores) more := by
      simp [applyStores]
    simp only [Generated.image]
    rw [applied, applied, applied, applied, headerStores_apply conf buf (by omega), laid₁, laid₂]
    exact congrArg (fun image => image.set irConfig 0x00) laid₃

/-! ### Reading it back -/

/-- The bytes the reader goes by: the length and the characters of a string. -/
structure Carries (dat : Nat → UInt8) (pos : Nat) (str : List UInt8) : Prop where
  length : dat pos = (2 + 2 * str.length).toUInt8
  chars : ∀ k (inside : k < str.length), dat (pos + 2 + 2 * k) = str.get ⟨k, inside⟩

variable {dat : Nat → UInt8}

theorem Carries.read (carries : Carries dat pos str) (short : str.length < 127) :
    (getStringDescriptor dat pos).str = str ∧
      (getStringDescriptor dat pos).next = descriptorEnd pos str := by
  have toNat : ((2 + 2 * str.length).toUInt8).toNat = 2 + 2 * str.length :=
    UInt8.toNat_ofNat_of_lt' (show 2 + 2 * str.length < 2 ^ 8 by omega)
  -- the length byte holds `2 + 2 * length`, which is short of 256 and so not truncated
  have count : charCount (dat pos) = str.length := by
    rw [carries.length, charCount, toNat]
    omega
  rw [getStringDescriptor_eq]
  simp only [descriptorSize, count, descriptorEnd]
  constructor
  · apply List.ext_get
    · simp
    · intro k _ inside
      simpa using carries.chars k inside
  · omega

theorem memoryAt_set (image : List UInt8) (beyond : Nat → UInt8) (offset other : Nat) (byte : UInt8)
    (different : other ≠ offset) :
    memoryAt (image.set other byte) beyond offset = memoryAt image beyond offset := by
  rw [memoryAt, memoryAt, List.getElem?_set_ne different]

theorem memoryAt_done (done bytes rest : List UInt8) (beyond : Nat → UInt8) (k : Nat)
    (byte : UInt8) (here : bytes[k]? = some byte) :
    memoryAt (done ++ bytes ++ rest) beyond (done.length + k) = byte := by
  obtain ⟨inside, _⟩ := List.getElem?_eq_some_iff.mp here
  rw [memoryAt, List.append_assoc, List.getElem?_append_right (Nat.le_add_right _ _),
    Nat.add_sub_cancel_left, List.getElem?_append_left inside, here]
  rfl

/-- A whole USB string descriptor, with the bytes the reader passes by. -/
structure StringDescriptor (dat : Nat → UInt8) (pos : Nat) (str : List UInt8) : Prop
    extends Carries dat pos str where
  type : dat (pos + 1) = 0x03
  high : ∀ k < str.length, dat (pos + 3 + 2 * k) = 0x00

theorem descriptor_laid (done str rest : List UInt8) (beyond : Nat → UInt8) :
    StringDescriptor (memoryAt (done ++ descriptorBytes str ++ rest) beyond) done.length str where
  length := memoryAt_done done (descriptorBytes str) rest beyond 0 _ rfl
  type := memoryAt_done done (descriptorBytes str) rest beyond 1 _ rfl
  chars := by
    intro k inside
    rw [Nat.add_assoc, Nat.add_comm 2 (2 * k)]
    apply memoryAt_done
    show (wideBytes str)[2 * k]? = _
    rw [(wideBytes_getElem str k).1, List.getElem?_eq_getElem inside]
    rfl
  high := by
    intro k inside
    rw [Nat.add_assoc, Nat.add_comm 3 (2 * k)]
    apply memoryAt_done
    show (wideBytes str)[2 * k + 1]? = _
    exact (wideBytes_getElem str k).2 inside

/-- The reader goes by odd offsets only if it starts at one. -/
theorem Carries.of_odd {dat' : Nat → UInt8} (carries : Carries dat pos str) (odd : pos % 2 = 1)
    (same : ∀ i, i % 2 = 1 → dat' i = dat i) :
    Carries dat' pos str where
  length := by rw [same pos odd, carries.length]
  chars k inside := by rw [same _ (by omega), carries.chars k inside]

theorem word_split (v : UInt16) :
    (v &&& 0xff).toUInt8.toUInt16 ||| (((v >>> 8) &&& 0xff).toUInt8.toUInt16 <<< 8) = v := by
  have low : (v &&& 0xff).toUInt8.toNat = v.toNat % 256 := by
    rw [UInt16.toNat_toUInt8, UInt16.toNat_and, show (0xff : UInt16).toNat = 2 ^ 8 - 1 from rfl,
      Nat.and_two_pow_sub_one_eq_mod, Nat.mod_mod]
  have high : ((v >>> 8) &&& 0xff).toUInt8.toNat = v.toNat / 256 := by
    have := v.toNat_lt
    rw [UInt16.toNat_toUInt8, UInt16.toNat_and, show (0xff : UInt16).toNat = 2 ^ 8 - 1 from rfl,
      Nat.and_two_pow_sub_one_eq_mod, Nat.mod_mod, UInt16.toNat_shiftRight,
      show (8 : UInt16).toNat % 16 = 8 from rfl, Nat.shiftRight_eq_div_pow]
    omega
  have fits : ((v >>> 8) &&& 0xff).toUInt8.toNat <<< 8 % 2 ^ 16 =
      ((v >>> 8) &&& 0xff).toUInt8.toNat <<< 8 := by
    have := ((v >>> 8) &&& 0xff).toUInt8.toNat_lt
    rw [Nat.shiftLeft_eq]
    omega
  apply UInt16.toNat_inj.mp
  rw [UInt16.or_comm, UInt16.toNat_or, UInt16.toNat_shiftLeft, UInt8.toNat_toUInt16,
    UInt8.toNat_toUInt16, show (8 : UInt16).toNat % 16 = 8 from rfl, fits,
    BigEndian.shift_or_eq _ _ _ (UInt8.toNat_lt _), high, low]
  omega

/-- A string stored with its terminator over a field is the string in it. -/
theorem cString_stored (old str : List UInt8) (nonzero : ∀ ch ∈ str, ch ≠ 0) :
    cString (Memory.splice old 0 (str ++ [0x00])) = str := by
  rw [Memory.splice, List.take_zero, List.nil_append, cString, List.append_assoc,
    List.takeWhile_append_of_pos (by simpa using nonzero)]
  simp

section Layout

variable (conf : RtlsdrConfig)

theorem RtlsdrConfig.productPos_odd : conf.productPos % 2 = 1 := by
  simp only [RtlsdrConfig.productPos, descriptorEnd, strOffset]
  omega

theorem RtlsdrConfig.serialPos_odd : conf.serialPos % 2 = 1 := by
  have := conf.productPos_odd
  simp only [RtlsdrConfig.serialPos, descriptorEnd]
  omega

theorem layout_descriptors (rest : List UInt8) (beyond : Nat → UInt8) :
    let dat := memoryAt (conf.layout ++ rest) beyond
    StringDescriptor dat strOffset conf.manufacturerStr ∧
      StringDescriptor dat conf.productPos conf.productStr ∧
      StringDescriptor dat conf.serialPos conf.serialStr := by
  intro dat
  have length₁ := headerBytes_manufacturer_length conf
  have length₂ := headerBytes_product_length conf
  refine ⟨?_, ?_, ?_⟩
  · have laid := descriptor_laid (headerBytes conf) conf.manufacturerStr
      (descriptorBytes conf.productStr ++ descriptorBytes conf.serialStr ++ rest) beyond
    rw [show (headerBytes conf).length = strOffset from rfl] at laid
    simpa only [dat, RtlsdrConfig.layout, List.append_assoc] using laid
  · have laid := descriptor_laid (headerBytes conf ++ descriptorBytes conf.manufacturerStr)
      conf.productStr (descriptorBytes conf.serialStr ++ rest) beyond
    rw [length₁] at laid
    simpa only [dat, RtlsdrConfig.layout, List.append_assoc] using laid
  · have laid := descriptor_laid (headerBytes conf ++ descriptorBytes conf.manufacturerStr ++
      descriptorBytes conf.productStr) conf.serialStr rest beyond
    rw [length₂] at laid
    simpa only [dat, RtlsdrConfig.layout, List.append_assoc] using laid

end Layout

section Image

variable (conf : RtlsdrConfig) (fits : conf.Fits) (buf : List UInt8)
  (size : buf.length = eepromSize) (beyond : Nat → UInt8)

include fits size

theorem image_layout (i : Nat) (other : i ≠ irConfig) :
    memoryAt ((genEepromFromConf conf).image buf) beyond i =
      memoryAt (conf.layout ++ buf.drop conf.endPos) beyond i := by
  rw [(genEepromFromConf_fits conf fits).2.2 buf size, memoryAt_set _ _ _ _ _ other.symm]

theorem image_carries :
    let dat := memoryAt ((genEepromFromConf conf).image buf) beyond
    Carries dat strOffset conf.manufacturerStr ∧ Carries dat conf.productPos conf.productStr ∧
      Carries dat conf.serialPos conf.serialStr := by
  intro dat
  obtain ⟨first, second, third⟩ := layout_descriptors conf (buf.drop conf.endPos) beyond
  -- the IR length is stored at an even offset
  have same (i : Nat) (odd : i % 2 = 1) : dat i = memoryAt (conf.layout ++ _) beyond i :=
    image_layout conf fits buf size beyond i (by unfold irConfig; omega)
  exact ⟨first.toCarries.of_odd rfl same, second.toCarries.of_odd conf.productPos_odd same,
    third.toCarries.of_odd conf.serialPos_odd same⟩

theorem image_header (i : Nat) (byte : UInt8) (here : (headerBytes conf)[i]? = some byte) :
    memoryAt ((genEepromFromConf conf).image buf) beyond i = byte := by
  obtain ⟨inside, _⟩ := List.getElem?_eq_some_iff.mp here
  have nine : (headerBytes conf).length = 9 := rfl
  rw [image_layout conf fits buf size beyond i (by unfold irConfig; omega)]
  have found := memoryAt_done [] (headerBytes conf) (descriptorBytes conf.manufacturerStr ++
    descriptorBytes conf.productStr ++ descriptorBytes conf.serialStr ++ buf.drop conf.endPos)
    beyond i byte here
  simpa only [RtlsdrConfig.layout, List.append_assoc, List.nil_append, List.length_nil,
    Nat.zero_add] using found

theorem image_tail (i : Nat) (behind : conf.endPos ≤ i) (other : i ≠ irConfig) :
    ((genEepromFromConf conf).image buf)[i]? = buf[i]? := by
  rw [(genEepromFromConf_fits conf fits).2.2 buf size, List.getElem?_set_ne other.symm,
    List.getElem?_append_right (by rw [conf.layout_length]; exact behind), conf.layout_length,
    List.getElem?_drop, Nat.add_sub_cancel' behind]

theorem image_strings :
    let dat := memoryAt ((genEepromFromConf conf).image buf) beyond
    let manufacturer := getStringDescriptor dat strOffset
    let product := getStringDescriptor dat manufacturer.next
    let serial := getStringDescriptor dat product.next
    (manufacturer.next = conf.productPos ∧ product.next = conf.serialPos) ∧
      manufacturer.str = conf.manufacturerStr ∧ product.str = conf.productStr ∧
      serial.str = conf.serialStr := by
  intro dat manufacturer product serial
  obtain ⟨first, second, third⟩ := image_carries conf fits buf size beyond
  obtain ⟨productPos, serialPos, endPos⟩ := fits.bounds
  -- descriptors that end by offset 83 are short enough for their length bytes
  have short₁ : conf.manufacturerStr.length < 127 := by
    simp only [RtlsdrConfig.productPos, descriptorEnd] at productPos
    omega
  have short₂ : conf.productStr.length < 127 := by
    simp only [RtlsdrConfig.serialPos, descriptorEnd] at serialPos
    omega
  have short₃ : conf.serialStr.length < 127 := by
    simp only [RtlsdrConfig.endPos, descriptorEnd] at endPos
    omega
  have next₁ : manufacturer.next = conf.productPos := (first.read short₁).2
  have next₂ : product.next = conf.serialPos := by
    simp only [product, next₁]
    exact (second.read short₂).2
  refine ⟨⟨next₁, next₂⟩, (first.read short₁).1, ?_, ?_⟩
  · simp only [product, next₁]
    exact (second.read short₂).1
  · simp only [serial, next₂]
    exact (third.read short₃).1

end Image

/-- Every default configuration may be flashed, whatever the fields held before. -/
theorem genDefaultConf_fits (conf : RtlsdrConfig) (config : Configs) (chosen : config ≠ .none) :
    (genDefaultConf conf config).Fits := by
  -- `strcpy` leaves the old bytes behind the terminator, and no reader gets there
  have copied (field : StrField) (str : List UInt8) (short : str.length < maxStrSize)
      (nonzero : ∀ ch ∈ str, ch ≠ 0) : cString (field.strcpy str short).bytes = str :=
    cString_stored field.bytes str nonzero
  rw [RtlsdrConfig.fits_iff, RtlsdrConfig.charOffsets, RtlsdrConfig.serialPos,
    RtlsdrConfig.productPos, RtlsdrConfig.manufacturerStr, RtlsdrConfig.productStr,
    RtlsdrConfig.serialStr]
  cases config with
  | none => exact absurd rfl chosen
  | realtek | realtekEeprom | terratecNoxon | terratecTBlack | terratecTPlus =>
    simp only [genDefaultConf]
    rw [copied _ _ _ (by decide +kernel), copied _ _ _ (by decide +kernel),
      copied _ _ _ (by decide +kernel)]
    decide +kernel

/-- What a flag of the configuration comes back as. -/
def flagValue (flag : Int) : Int := if flag ≠ 0 then 1 else 0

theorem flags_split (remoteWakeup enableIr : Int) :
    let byte : UInt8 := 0x14 ||| (if remoteWakeup ≠ 0 then 0x01 else 0x00) |||
      (if enableIr ≠ 0 then 0x02 else 0x00)
    (if byte &&& 0x01 ≠ 0 then (1 : Int) else 0) = flagValue remoteWakeup ∧
      (if byte &&& 0x02 ≠ 0 then (1 : Int) else 0) = flagValue enableIr := by
  unfold flagValue
  by_cases wakeup : remoteWakeup ≠ 0 <;> by_cases ir : enableIr ≠ 0 <;> simp [wakeup, ir] <;> decide

/-- A generated image parses back to the configuration it was made from; only what goes to
the device is written; and only a character at the limit or behind it is refused. -/
theorem eeprom_round_trip (conf : RtlsdrConfig) (buf : List UInt8)
    (size : buf.length = eepromSize) (beyond : Nat → UInt8) :
    let gen := genEepromFromConf conf
    let image := gen.image buf
    let parsed := parseEepromToConf (memoryAt image beyond)
    (0 ≤ gen.pos →
      (parsed.vendorId = conf.vendorId ∧ parsed.productId = conf.productId ∧
        parsed.haveSerial = flagValue conf.haveSerial ∧
        parsed.remoteWakeup = flagValue conf.remoteWakeup ∧
        parsed.enableIr = flagValue conf.enableIr ∧
        ∀ field : StrField,
          cString (Memory.splice field.bytes 0 parsed.manufacturer) = conf.manufacturerStr ∧
          cString (Memory.splice field.bytes 0 parsed.product) = conf.productStr ∧
          cString (Memory.splice field.bytes 0 parsed.serial) = conf.serialStr) ∧
      (∀ store ∈ gen.stores, store.1 < flashLen false) ∧
      ∀ i : Nat, gen.pos ≤ i → i ≠ irConfig → image[i]? = buf[i]?) ∧
    (gen.pos < 0 ↔ ∃ offset ∈ conf.charOffsets, irConfig ≤ offset) := by
  intro gen image parsed
  -- every clause is decided by whether the three strings fit
  by_cases fits : conf.Fits
  · obtain ⟨pos, low, _⟩ := genEepromFromConf_fits conf fits
    constructor
    · rintro -
      refine ⟨⟨?_, ?_, ?_, ?_, ?_, ?_⟩, low, fun i behind other => ?_⟩
      · show word16 (memoryAt image beyond) 2 = _
        rw [word16, image_header conf fits buf size beyond 2 _ rfl,
          image_header conf fits buf size beyond 3 _ rfl, word_split]
      · show word16 (memoryAt image beyond) 4 = _
        rw [word16, image_header conf fits buf size beyond 4 _ rfl,
          image_header conf fits buf size beyond 5 _ rfl, word_split]
      · show (if memoryAt image beyond 6 = 0xa5 then (1 : Int) else 0) = _
        rw [image_header conf fits buf size beyond 6 _ rfl, flagValue]
        by_cases serial : conf.haveSerial ≠ 0 <;> simp [serial]
      · show (if memoryAt image beyond 7 &&& 0x01 ≠ 0 then (1 : Int) else 0) = _
        rw [image_header conf fits buf size beyond 7 _ rfl]
        exact (flags_split conf.remoteWakeup conf.enableIr).1
      · show (if memoryAt image beyond 7 &&& 0x02 ≠ 0 then (1 : Int) else 0) = _
        rw [image_header conf fits buf size beyond 7 _ rfl]
        exact (flags_split conf.remoteWakeup conf.enableIr).2
      · intro field
        obtain ⟨_, manufacturer, product, serial⟩ := image_strings conf fits buf size beyond
        simp only [parsed, parseEepromToConf, image, gen]
        rw [manufacturer, product, serial]
        exact ⟨cString_stored _ _ (cString_nonzero _), cString_stored _ _ (cString_nonzero _),
          cString_stored _ _ (cString_nonzero _)⟩
      · rw [pos] at behind
        exact image_tail conf fits buf size i (by omega) other
    · -- nothing is refused, and no character is at the limit
      have inside := conf.fits_iff.mp fits
      constructor
      · intro negative
        rw [pos] at negative
        omega
      · rintro ⟨offset, member, late⟩
        exact absurd (inside offset member) (Nat.not_lt.mpr late)
  · have refused : gen.pos = -1 := genEepromFromConf_refused conf fits
    rw [conf.fits_iff] at fits
    simp only [not_forall, Nat.not_lt, exists_prop] at fits
    exact ⟨fun nonneg => by omega, fun _ => fits, fun _ => by omega⟩

def StrField.zeros : StrField where
  bytes := List.replicate maxStrSize 0
  length_eq := List.length_replicate
  terminated := List.mem_replicate.mpr ⟨by decide, rfl⟩

def RtlsdrConfig.zeros : RtlsdrConfig where
  vendorId := 0
  productId := 0
  manufacturer := .zeros
  product := .zeros
  serial := .zeros
  haveSerial := 0
  enableIr := 0
  remoteWakeup := 0

theorem eeprom_round_trip_realtek :
    let conf := genDefaultConf .zeros .realtek
    let image := (genEepromFromConf conf).image (List.replicate eepromSize 0xff)
    (parseEepromToConf (memoryAt image fun _ => 0)).productId = 0x2832 :=
  ((eeprom_round_trip (genDefaultConf .zeros .realtek) (List.replicate eepromSize 0xff)
    List.length_replicate fun _ => 0).1 (by decide +kernel)).1.2.1

end RtlSdr.Eeprom
