import Mathlib.Algebra.Group.Nat.Defs
import Mathlib.Data.List.Basic

/-!
# Devices and their indices in `librtlsdr.c`

Five functions walk over the list of USB devices and count the known ones. The loops are
written separately, and each leaves its own variables behind when it runs off the end.
-/
namespace RtlSdr.Librtlsdr

/-- `rtlsdr_dongle_t`. -/
structure Dongle where
  vid : UInt16
  pid : UInt16
  name : String
deriving DecidableEq, Repr

def knownDevices : List Dongle := [
  ⟨0x0bda, 0x2832, "Generic RTL2832U"⟩,
  ⟨0x0bda, 0x2838, "Generic RTL2832U OEM"⟩,
  ⟨0x0413, 0x6680, "DigitalNow Quad DVB-T PCI-E card"⟩,
  ⟨0x0413, 0x6f0f, "Leadtek WinFast DTV Dongle mini D"⟩,
  ⟨0x0458, 0x707f, "Genius TVGo DVB-T03 USB dongle (Ver. B)"⟩,
  ⟨0x0ccd, 0x00a9, "Terratec Cinergy T Stick Black (rev 1)"⟩,
  ⟨0x0ccd, 0x00b3, "Terratec NOXON DAB/DAB+ USB dongle (rev 1)"⟩,
  ⟨0x0ccd, 0x00b4, "Terratec Deutschlandradio DAB Stick"⟩,
  ⟨0x0ccd, 0x00b5, "Terratec NOXON DAB Stick - Radio Energy"⟩,
  ⟨0x0ccd, 0x00b7, "Terratec Media Broadcast DAB Stick"⟩,
  ⟨0x0ccd, 0x00b8, "Terratec BR DAB Stick"⟩,
  ⟨0x0ccd, 0x00b9, "Terratec WDR DAB Stick"⟩,
  ⟨0x0ccd, 0x00c0, "Terratec MuellerVerlag DAB Stick"⟩,
  ⟨0x0ccd, 0x00c6, "Terratec Fraunhofer DAB Stick"⟩,
  ⟨0x0ccd, 0x00d3, "Terratec Cinergy T Stick RC (Rev.3)"⟩,
  ⟨0x0ccd, 0x00d7, "Terratec T Stick PLUS"⟩,
  ⟨0x0ccd, 0x00e0, "Terratec NOXON DAB/DAB+ USB dongle (rev 2)"⟩,
  ⟨0x1554, 0x5020, "PixelView PV-DT235U(RN)"⟩,
  ⟨0x15f4, 0x0131, "Astrometa DVB-T/DVB-T2"⟩,
  ⟨0x15f4, 0x0133, "HanfTek DAB+FM+DVB-T"⟩,
  ⟨0x185b, 0x0620, "Compro Videomate U620F"⟩,
  ⟨0x185b, 0x0650, "Compro Videomate U650F"⟩,
  ⟨0x185b, 0x0680, "Compro Videomate U680F"⟩,
  ⟨0x1b80, 0xd393, "GIGABYTE GT-U7300"⟩,
  ⟨0x1b80, 0xd394, "DIKOM USB-DVBT HD"⟩,
  ⟨0x1b80, 0xd395, "Peak 102569AGPK"⟩,
  ⟨0x1b80, 0xd397, "KWorld KW-UB450-T USB DVB-T Pico TV"⟩,
  ⟨0x1b80, 0xd398, "Zaapa ZT-MINDVBZP"⟩,
  ⟨0x1b80, 0xd39d, "SVEON STV20 DVB-T USB & FM"⟩,
  ⟨0x1b80, 0xd3a4, "Twintech UT-40"⟩,
  ⟨0x1b80, 0xd3a8, "ASUS U3100MINI_PLUS_V2"⟩,
  ⟨0x1b80, 0xd3af, "SVEON STV27 DVB-T USB & FM"⟩,
  ⟨0x1b80, 0xd3b0, "SVEON STV21 DVB-T USB & FM"⟩,
  ⟨0x1d19, 0x1101, "Dexatek DK DVB-T Dongle (Logilink VG0002A)"⟩,
  ⟨0x1d19, 0x1102, "Dexatek DK DVB-T Dongle (MSI DigiVox mini II V3.0)"⟩,
  ⟨0x1d19, 0x1103, "Dexatek Technology Ltd. DK 5217 DVB-T Dongle"⟩,
  ⟨0x1d19, 0x1104, "MSI DigiVox Micro HD"⟩,
  ⟨0x1f4d, 0xa803, "Sweex DVB-T USB"⟩,
  ⟨0x1f4d, 0xb803, "GTek T803"⟩,
  ⟨0x1f4d, 0xc803, "Lifeview LV5TDeluxe"⟩,
  ⟨0x1f4d, 0xd286, "MyGica TD312"⟩,
  ⟨0x1f4d, 0xd803, "PROlectrix DV107669"⟩ ]

def findKnownDevice (vid pid : UInt16) : Option Dongle :=
  knownDevices.find? fun device => device.vid = vid ∧ device.pid = pid

structure UsbStrings where
  manufact : String
  product : String
  serial : String
deriving DecidableEq, Repr

/-- An element of the list that libusb returns, with what the calls on it give. -/
structure UsbDevice where
  idVendor : UInt16
  idProduct : UInt16
  strings : UsbStrings
  /-- The result of `libusb_open`. -/
  openResult : Int
  /-- The result of `libusb_claim_interface`. -/
  claimResult : Int
deriving DecidableEq, Repr

def UsbDevice.dongle (device : UsbDevice) : Option Dongle :=
  findKnownDevice device.idVendor device.idProduct

/-- What libusb answers. The list is one that an `int` can count. -/
structure Usb where
  /-- The result of `libusb_init`, 0 on success. -/
  init : Int
  list : List UsbDevice
  countable : list.length < 2 ^ 31

/-! ### The functions -/

def countLoop : List UsbDevice → UInt32 → UInt32
  | [], deviceCount => deviceCount
  | device :: list, deviceCount =>
    countLoop list (if device.dongle.isSome then deviceCount + 1 else deviceCount)

def rtlsdrGetDeviceCount (usb : Usb) : UInt32 :=
  if usb.init < 0 then 0 else countLoop usb.list 0

/-- The value of `device` after the loop of `rtlsdr_get_device_name`. -/
def nameLoop (index : UInt32) : List UsbDevice → Option Dongle → UInt32 → Option Dongle
  | [], device, _ => device
  | element :: list, _, deviceCount =>
    match element.dongle with
    -- an unknown device leaves NULL in `device`, and the loop goes on
    | none => nameLoop index list none deviceCount
    | some device =>
      let deviceCount := deviceCount + 1
      if index = deviceCount - 1 then some device
      -- not the one: but `device` still points to it if the list ends here
      else nameLoop index list (some device) deviceCount

def rtlsdrGetDeviceName (usb : Usb) (index : UInt32) : String :=
  if usb.init < 0 then ""
  else
    match nameLoop index usb.list none 0 with
    | some device => device.name
    | none => ""

/-- `rtlsdr_get_usb_strings` on a device that is open. -/
def rtlsdrGetUsbStrings (device : UsbDevice) : Int × UsbStrings := (0, device.strings)

/-- What a call does that opens at most one device: its result, the list element it opens,
and the strings it stores. -/
structure StringsResult where
  r : Int
  opened : Option Nat
  strings : Option UsbStrings
deriving DecidableEq, Repr

/-- The loop of `rtlsdr_get_device_usb_strings`; `i` is the position in the list. -/
def stringsLoop (index : UInt32) : List UsbDevice → Nat → UInt32 → Int → StringsResult
  | [], _, _, r => ⟨r, none, none⟩
  | element :: list, i, deviceCount, r =>
    match element.dongle with
    | none => stringsLoop index list (i + 1) deviceCount r
    | some _ =>
      let deviceCount := deviceCount + 1
      if index = deviceCount - 1 then
        if element.openResult = 0 then
          ⟨(rtlsdrGetUsbStrings element).1, some i, some (rtlsdrGetUsbStrings element).2⟩
        -- the loop is left in either case, with what `libusb_open` returned
        else ⟨element.openResult, none, none⟩
      else stringsLoop index list (i + 1) deviceCount r

/-- `rtlsdr_get_device_usb_strings`. The initial value of `r` is lost in `libusb_init`. -/
def rtlsdrGetDeviceUsbStrings (usb : Usb) (index : UInt32) : StringsResult :=
  if usb.init < 0 then ⟨usb.init, none, none⟩
  else stringsLoop index usb.list 0 0 usb.init

/-- The loop of `rtlsdr_get_index_by_serial` over the indices that are left. -/
def serialLoop (usb : Usb) (serial : String) : List Nat → Int
  | [] => -3
  | i :: left =>
    let result := rtlsdrGetDeviceUsbStrings usb i.toUInt32
    if result.r = 0 ∧ result.strings.map UsbStrings.serial = some serial then i
    else serialLoop usb serial left

def rtlsdrGetIndexBySerial (usb : Usb) (serial : String) : Int :=
  let cnt := rtlsdrGetDeviceCount usb
  if cnt = 0 then -2 else serialLoop usb serial (List.range cnt.toNat)

/-- One call of the callback, and the list element it is about. -/
structure Visit where
  element : Nat
  deviceIndex : Nat
  name : String
  manufact : Option String
  product : Option String
  serial : Option String
deriving DecidableEq, Repr

/-- `str[0] ? str : NULL`. -/
def nonEmpty (str : String) : Option String := if str = "" then none else some str

def visitOf (deviceIndex element : Nat) (device : UsbDevice) (dongle : Dongle) : Visit :=
  -- a device that cannot be opened is reported with its name alone
  let strings := if device.openResult = 0 then (rtlsdrGetUsbStrings device).2 else ⟨"", "", ""⟩
  { element, deviceIndex
    name := dongle.name
    manufact := nonEmpty strings.manufact
    product := nonEmpty strings.product
    serial := nonEmpty strings.serial }

/-- The loop of `rtlsdr_device_enumerate`. The answer of the callback may depend on all
calls it has had. -/
def enumerateLoop (cb : List Visit → Int) :
    List UsbDevice → Nat → Nat → List Visit → List Visit × Nat
  | [], _, deviceIndex, visits => (visits, deviceIndex)
  | element :: list, i, deviceIndex, visits =>
    match element.dongle with
    | none => enumerateLoop cb list (i + 1) deviceIndex visits
    | some dongle =>
      let visits := visits ++ [visitOf deviceIndex i element dongle]
      -- the device that stopped the loop is counted as well
      if cb visits ≠ 0 then (visits, deviceIndex + 1)
      else enumerateLoop cb list (i + 1) (deviceIndex + 1) visits

/-- `rtlsdr_device_enumerate`: the calls it makes and its result. -/
def rtlsdrDeviceEnumerate (usb : Usb) (cb : List Visit → Int) : List Visit × Nat :=
  if usb.init < 0 then ([], 0) else enumerateLoop cb usb.list 0 0 []

/-- The value of `device` after the loop of `rtlsdr_open`, with its position in the list. -/
def openLoop (index : UInt32) : List UsbDevice → Nat → UInt32 → Option (Nat × UsbDevice)
  | [], _, _ => none
  | element :: list, i, deviceCount =>
    let deviceCount := if element.dongle.isSome then deviceCount + 1 else deviceCount
    -- this test is made for unknown devices as well
    if index = deviceCount - 1 then some (i, element)
    else openLoop index list (i + 1) deviceCount

/-- What `rtlsdr_open` returns, and the list element that it opens. What follows after
the interface is claimed does not change its result. -/
structure OpenResult where
  r : Int
  opened : Option Nat
deriving DecidableEq, Repr

def rtlsdrOpen (usb : Usb) (index : UInt32) : OpenResult :=
  if usb.init < 0 then ⟨-1, none⟩
  else
    match openLoop index usb.list 0 0 with
    | none => ⟨-1, none⟩
    | some (i, device) =>
      -- `libusb_open`, and then `libusb_claim_interface` on what it opened
      if device.openResult < 0 then ⟨device.openResult, none⟩
      else if device.claimResult < 0 then ⟨device.claimResult, some i⟩
      else ⟨0, some i⟩

/-! ### The known devices -/

/-- A known device and where it stands in the list. -/
structure Known where
  position : Nat
  device : UsbDevice
  dongle : Dongle
deriving DecidableEq, Repr

/-- The known devices of a list that starts at position `i`. -/
def knownFrom (i : Nat) (list : List UsbDevice) : List Known :=
  (list.zipIdx i).filterMap fun entry =>
    entry.1.dongle.map fun dongle => ⟨entry.2, entry.1, dongle⟩

def Usb.known (usb : Usb) : List Known := knownFrom 0 usb.list

theorem knownFrom_unknown (i : Nat) (element : UsbDevice) (list : List UsbDevice)
    (unknown : element.dongle = none) : knownFrom i (element :: list) = knownFrom (i + 1) list := by
  rw [knownFrom, List.zipIdx_cons, List.filterMap_cons_none (by rw [unknown]; rfl), knownFrom]

theorem knownFrom_known (i : Nat) (element : UsbDevice) (list : List UsbDevice) (dongle : Dongle)
    (known : element.dongle = some dongle) :
    knownFrom i (element :: list) = ⟨i, element, dongle⟩ :: knownFrom (i + 1) list := by
  rw [knownFrom, List.zipIdx_cons, List.filterMap_cons_some (by rw [known]; rfl), knownFrom]

theorem knownFrom_length (i : Nat) (list : List UsbDevice) :
    (knownFrom i list).length ≤ list.length := by
  have short := List.length_filterMap_le
    (fun entry : UsbDevice × Nat =>
      entry.1.dongle.map fun dongle => (⟨entry.2, entry.1, dongle⟩ : Known))
    (list.zipIdx i)
  rwa [List.length_zipIdx] at short

theorem knownFrom_element (i : Nat) (list : List UsbDevice) (known : Known)
    (member : known ∈ knownFrom i list) :
    i ≤ known.position ∧ list[known.position - i]? = some known.device := by
  rw [knownFrom, List.mem_filterMap] at member
  obtain ⟨⟨device, position⟩, entry, made⟩ := member
  obtain ⟨dongle, _, rfl⟩ := Option.map_eq_some_iff.mp made
  exact List.mk_mem_zipIdx_iff_le_and_getElem?_sub.mp entry

/-! ### The loops

Each loop is at a count of known devices that the index has not been passed by yet. -/

theorem count_succ (count : UInt32) (length : Nat) (room : count.toNat + (length + 1) < 2 ^ 32) :
    (count + 1).toNat = count.toNat + 1 := by
  rw [UInt32.toNat_add]
  show (count.toNat + 1) % 2 ^ 32 = _
  omega

theorem count_pred (count : UInt32) : count + 1 - 1 = count := by
  rw [UInt32.add_sub_cancel]

theorem index_reached {count index : UInt32} {length : Nat}
    (room : count.toNat + (length + 1) < 2 ^ 32) (ahead : count.toNat ≤ index.toNat)
    (other : index ≠ count) :
    (count + 1).toNat ≤ index.toNat ∧
      index.toNat - count.toNat = index.toNat - (count + 1).toNat + 1 := by
  have distinct : index.toNat ≠ count.toNat := fun same => other (UInt32.toNat_inj.mp same)
  rw [count_succ count length room]
  omega

theorem countLoop_eq (list : List UsbDevice) (i : Nat) (count : UInt32)
    (room : count.toNat + list.length < 2 ^ 32) :
    (countLoop list count).toNat = count.toNat + (knownFrom i list).length := by
  induction list generalizing i count with
  | nil => rfl
  | cons element list ih =>
    rw [List.length_cons] at room
    cases dongle : element.dongle with
    | none =>
      -- an unknown device changes neither the count nor the list of known ones
      simp only [countLoop, dongle, Option.isSome_none]
      rw [knownFrom_unknown i element list dongle]
      exact ih (i + 1) count (by omega)
    | some known =>
      have next := count_succ count list.length room
      simp only [countLoop, dongle, Option.isSome_some, if_true]
      rw [knownFrom_known i element list known dongle, ih (i + 1) (count + 1) (by omega), next,
        List.length_cons]
      omega

/-- What the last element leaves behind in `device`. -/
def leftover (list : List UsbDevice) (device : Option Dongle) : Option Dongle :=
  match list.getLast? with
  | none => device
  | some element => element.dongle

theorem leftover_cons (element : UsbDevice) (list : List UsbDevice) (device : Option Dongle) :
    leftover (element :: list) device = leftover list element.dongle := by
  cases list with
  | nil => rfl
  | cons next list =>
    rw [leftover, leftover, List.getLast?_cons_cons,
      List.getLast?_eq_some_getLast (List.cons_ne_nil next list)]

theorem nameLoop_eq (index : UInt32) (list : List UsbDevice) (i : Nat) (device : Option Dongle)
    (count : UInt32) (room : count.toNat + list.length < 2 ^ 32)
    (ahead : count.toNat ≤ index.toNat) :
    nameLoop index list device count =
      match (knownFrom i list)[index.toNat - count.toNat]? with
      | some known => some known.dongle
      | none => leftover list device := by
  induction list generalizing i device count with
  | nil => rfl
  | cons element list ih =>
    rw [List.length_cons] at room
    rw [nameLoop, leftover_cons]
    cases dongle : element.dongle with
    | none =>
      rw [knownFrom_unknown i element list dongle]
      exact ih (i + 1) none count (by omega) ahead
    | some known =>
      rw [knownFrom_known i element list known dongle]
      simp only [count_pred]
      by_cases here : index = count
      · rw [if_pos here, here, Nat.sub_self]
        rfl
      -- the index lies behind this device, and so does its place in the rest
      · obtain ⟨ahead', step⟩ := index_reached room ahead here
        have next := count_succ count list.length room
        rw [if_neg here, step, List.getElem?_cons_succ]
        exact ih (i + 1) (some known) (count + 1) (by omega) ahead'

theorem stringsLoop_eq (index : UInt32) (list : List UsbDevice) (i : Nat) (count : UInt32) (r : Int)
    (room : count.toNat + list.length < 2 ^ 32) (ahead : count.toNat ≤ index.toNat)
    (opens : ∀ element ∈ list, element.openResult = 0) :
    stringsLoop index list i count r =
      match (knownFrom i list)[index.toNat - count.toNat]? with
      | some known => ⟨0, some known.position, some known.device.strings⟩
      | none => ⟨r, none, none⟩ := by
  induction list generalizing i count with
  | nil => rfl
  | cons element list ih =>
    rw [List.length_cons] at room
    -- what is assumed of all devices holds of those behind this one
    have opens' : ∀ element ∈ list, element.openResult = 0 := fun other member =>
      opens other (List.mem_cons_of_mem _ member)
    rw [stringsLoop]
    cases dongle : element.dongle with
    | none =>
      rw [knownFrom_unknown i element list dongle]
      exact ih (i + 1) count (by omega) ahead opens'
    | some known =>
      rw [knownFrom_known i element list known dongle]
      simp only [count_pred]
      by_cases here : index = count
      · rw [if_pos here, if_pos (opens element List.mem_cons_self), here, Nat.sub_self]
        rfl
      · obtain ⟨ahead', step⟩ := index_reached room ahead here
        have next := count_succ count list.length room
        rw [if_neg here, step, List.getElem?_cons_succ]
        exact ih (i + 1) (count + 1) (by omega) ahead' opens'

/-- The count minus one is the index only where it wraps. -/
theorem index_ne_pred {count index : UInt32} (ahead : count.toNat ≤ index.toNat)
    (noWrap : count ≠ 0 ∨ index ≠ 0xffffffff) : index ≠ count - 1 := by
  rintro rfl
  rcases noWrap with nonzero | notMax
  -- one less than a positive count is below it, and the index is not
  · have positive : count.toNat ≠ 0 := fun zero => nonzero (UInt32.toNat_inj.mp zero)
    have bound := count.toNat_lt
    rw [UInt32.toNat_sub] at ahead
    have one : (1 : UInt32).toNat = 1 := rfl
    omega
  · apply notMax
    apply UInt32.toNat_inj.mp
    have bound := count.toNat_lt
    rw [UInt32.toNat_sub] at ahead ⊢
    have one : (1 : UInt32).toNat = 1 := rfl
    have max : (0xffffffff : UInt32).toNat = 2 ^ 32 - 1 := rfl
    omega

theorem openLoop_eq (index : UInt32) (list : List UsbDevice) (i : Nat) (count : UInt32)
    (room : count.toNat + list.length < 2 ^ 32) (ahead : count.toNat ≤ index.toNat)
    (noWrap : count ≠ 0 ∨ index ≠ 0xffffffff) :
    openLoop index list i count =
      ((knownFrom i list)[index.toNat - count.toNat]?).map fun known =>
        (known.position, known.device) := by
  induction list generalizing i count with
  | nil => rfl
  | cons element list ih =>
    rw [List.length_cons] at room
    rw [openLoop]
    cases dongle : element.dongle with
    | none =>
      rw [knownFrom_unknown i element list dongle]
      simp only [Option.isSome_none, Bool.false_eq_true, if_false]
      -- the test that is made for unknown devices fails, since the count does not wrap
      rw [if_neg (index_ne_pred ahead noWrap)]
      exact ih (i + 1) count (by omega) ahead noWrap
    | some known =>
      rw [knownFrom_known i element list known dongle]
      simp only [Option.isSome_some, if_true, count_pred]
      by_cases here : index = count
      · rw [if_pos here, here, Nat.sub_self]
        rfl
      · obtain ⟨ahead', step⟩ := index_reached room ahead here
        have next := count_succ count list.length room
        rw [if_neg here, step, List.getElem?_cons_succ]
        -- a count that has been raised is not zero, so it cannot wrap any more
        refine ih (i + 1) (count + 1) (by omega) ahead' (.inl fun zero => ?_)
        rw [zero] at next
        exact absurd next.symm (Nat.succ_ne_zero _)

theorem enumerateLoop_eq (cb : List Visit → Int) (goesOn : ∀ visits, cb visits = 0)
    (list : List UsbDevice) (i deviceIndex : Nat) (visits : List Visit) :
    enumerateLoop cb list i deviceIndex visits =
      (visits ++ (knownFrom i list).mapIdx fun j known =>
          visitOf (deviceIndex + j) known.position known.device known.dongle,
        deviceIndex + (knownFrom i list).length) := by
  induction list generalizing i deviceIndex visits with
  | nil => simp [enumerateLoop, knownFrom]
  | cons element list ih =>
    rw [enumerateLoop]
    cases dongle : element.dongle with
    | none =>
      rw [knownFrom_unknown i element list dongle]
      exact ih (i + 1) deviceIndex visits
    | some known =>
      rw [knownFrom_known i element list known dongle]
      simp only [goesOn, ne_eq, not_true, if_false]
      rw [ih (i + 1) (deviceIndex + 1)]
      have shift (j : Nat) : deviceIndex + 1 + j = deviceIndex + (j + 1) := by omega
      simp [List.mapIdx_cons, shift]

/-! ### The index of a device -/

section Calls

variable (usb : Usb) (init : usb.init = 0)

include init

theorem init_succeeds : ¬usb.init < 0 := by omega

theorem rtlsdrGetDeviceCount_eq : (rtlsdrGetDeviceCount usb).toNat = usb.known.length := by
  have countable := usb.countable
  rw [rtlsdrGetDeviceCount, if_neg (init_succeeds usb init),
    countLoop_eq usb.list 0 0 (show 0 + usb.list.length < 2 ^ 32 by omega)]
  exact Nat.zero_add _

theorem rtlsdrGetDeviceName_eq (index : UInt32) :
    rtlsdrGetDeviceName usb index =
      match usb.known[index.toNat]? with
      | some known => known.dongle.name
      | none => ((leftover usb.list none).map Dongle.name).getD "" := by
  have countable := usb.countable
  rw [rtlsdrGetDeviceName, if_neg (init_succeeds usb init),
    nameLoop_eq index usb.list 0 none 0 (show 0 + usb.list.length < 2 ^ 32 by omega)
      (Nat.zero_le _)]
  show (match (match usb.known[index.toNat]? with
      | some known => some known.dongle
      | none => leftover usb.list none) with
    | some device => device.name
    | none => "") = _
  cases usb.known[index.toNat]? with
  | some known => rfl
  -- the loop ran off the end: `device` is whatever the last element left in it
  | none => cases leftover usb.list none <;> rfl

/-- The device is the one at that index, unless the count below zero is taken for it. -/
theorem rtlsdrOpen_opened (opens : ∀ device ∈ usb.list, device.openResult = 0) (index : UInt32)
    (noWrap : index ≠ 0xffffffff) :
    (rtlsdrOpen usb index).opened = (usb.known[index.toNat]?).map Known.position ∧
      (usb.known[index.toNat]? = none → (rtlsdrOpen usb index).r < 0) := by
  have countable := usb.countable
  have loop : openLoop index usb.list 0 0 =
      (usb.known[index.toNat]?).map fun known => (known.position, known.device) :=
    openLoop_eq index usb.list 0 0 (show 0 + usb.list.length < 2 ^ 32 by omega) (Nat.zero_le _)
      (.inr noWrap)
  rw [rtlsdrOpen, if_neg (init_succeeds usb init), loop]
  cases found : usb.known[index.toNat]? with
  | none => exact ⟨rfl, fun _ => by decide⟩
  | some known =>
    have element := (knownFrom_element 0 usb.list known (List.mem_of_getElem? found)).2
    have opened := opens known.device (List.mem_of_getElem? element)
    refine ⟨?_, fun missing => by cases missing⟩
    show OpenResult.opened (if known.device.openResult < 0 then _ else _) = _
    rw [if_neg (by omega)]
    split <;> rfl

theorem rtlsdrGetDeviceUsbStrings_eq (opens : ∀ device ∈ usb.list, device.openResult = 0)
    (index : UInt32) :
    rtlsdrGetDeviceUsbStrings usb index =
      match usb.known[index.toNat]? with
      | some known => ⟨0, some known.position, some known.device.strings⟩
      | none => ⟨0, none, none⟩ := by
  have countable := usb.countable
  rw [rtlsdrGetDeviceUsbStrings, if_neg (init_succeeds usb init),
    stringsLoop_eq index usb.list 0 0 usb.init (show 0 + usb.list.length < 2 ^ 32 by omega)
      (Nat.zero_le _) opens, init]
  rfl

theorem rtlsdrDeviceEnumerate_eq (cb : List Visit → Int) (goesOn : ∀ visits, cb visits = 0) :
    rtlsdrDeviceEnumerate usb cb =
      (usb.known.mapIdx fun j known => visitOf j known.position known.device known.dongle,
        usb.known.length) := by
  rw [rtlsdrDeviceEnumerate, if_neg (init_succeeds usb init), enumerateLoop_eq cb goesOn]
  simp [Usb.known]

def Usb.hasSerial (usb : Usb) (serial : String) (i : Nat) : Bool :=
  usb.known[i]?.map (fun known => known.device.strings.serial) = some serial

theorem serialLoop_eq (opens : ∀ device ∈ usb.list, device.openResult = 0) (serial : String)
    (indices : List Nat) (inside : ∀ i ∈ indices, i < usb.known.length) :
    serialLoop usb serial indices = (indices.find? (usb.hasSerial serial)).elim (-3) Nat.cast := by
  have countable := usb.countable
  have short : usb.known.length ≤ usb.list.length := knownFrom_length 0 usb.list
  induction indices with
  | nil => rfl
  | cons i left ih =>
    rw [List.forall_mem_cons] at inside
    -- the loop variable is an `int` that is passed on as `uint32_t`
    have index : i.toUInt32.toNat = i := UInt32.toNat_ofNat_of_lt' (show i < 2 ^ 32 by omega)
    rw [serialLoop, rtlsdrGetDeviceUsbStrings_eq usb init opens, index, List.find?_cons,
      ih inside.2, Usb.hasSerial, List.getElem?_eq_getElem inside.1]
    by_cases here : usb.known[i].device.strings.serial = serial <;> simp [here]

/-- `rtlsdr_get_index_by_serial` returns the first index with the serial number. -/
theorem index_by_serial (opens : ∀ device ∈ usb.list, device.openResult = 0) (serial : String) :
    rtlsdrGetIndexBySerial usb serial =
      if usb.known = [] then -2
      else ((List.range usb.known.length).find? (usb.hasSerial serial)).elim (-3) Nat.cast := by
  have count := rtlsdrGetDeviceCount_eq usb init
  have empty : rtlsdrGetDeviceCount usb = 0 ↔ usb.known = [] := by
    rw [← List.length_eq_zero_iff, ← count, ← UInt32.toNat_inj]
    rfl
  simp only [rtlsdrGetIndexBySerial, empty, count]
  rw [serialLoop_eq usb init opens serial _ fun i => List.mem_range.mp]

end Calls

/-- What the functions should agree about for an index. -/
structure IndexAgreement (usb : Usb) (index : UInt32) : Prop where
  count : (rtlsdrGetDeviceCount usb).toNat = usb.known.length
  /-- A callback that never stops is called with `0`, `1`, and so on, for the known devices. -/
  enumerated : ∀ cb : List Visit → Int, (∀ visits, cb visits = 0) →
    rtlsdrDeviceEnumerate usb cb =
      (usb.known.mapIdx fun j known => visitOf j known.position known.device known.dongle,
        usb.known.length)
  below : ∀ known, usb.known[index.toNat]? = some known →
    rtlsdrGetDeviceName usb index = known.dongle.name ∧
      rtlsdrGetDeviceUsbStrings usb index =
        ⟨0, some known.position, some known.device.strings⟩ ∧
      (rtlsdrOpen usb index).opened = some known.position
  behind : usb.known.length ≤ index.toNat →
    rtlsdrGetDeviceName usb index = "" ∧ (rtlsdrGetDeviceUsbStrings usb index).r ≠ 0 ∧
      (rtlsdrOpen usb index).r < 0 ∧ (rtlsdrOpen usb index).opened = none

/-- The functions agree on the devices there are, and on no other index. -/
theorem indexAgreement_iff (usb : Usb) (init : usb.init = 0)
    (opens : ∀ device ∈ usb.list, device.openResult = 0) (index : UInt32) :
    IndexAgreement usb index ↔ index.toNat < usb.known.length := by
  constructor
  · intro agreement
    by_contra behind
    -- the result of `libusb_init` is left in `r`
    have missing : usb.known[index.toNat]? = none := List.getElem?_eq_none (by omega)
    have nonzero := (agreement.behind (by omega)).2.1
    rw [rtlsdrGetDeviceUsbStrings_eq usb init opens, missing] at nonzero
    exact nonzero rfl
  · intro below
    have countable := usb.countable
    have short := knownFrom_length 0 usb.list
    -- a list that an `int` can count never reaches the largest index
    have noWrap : index ≠ 0xffffffff := by
      rintro rfl
      have max : (0xffffffff : UInt32).toNat = 2 ^ 32 - 1 := rfl
      have : usb.known.length ≤ usb.list.length := short
      omega
    refine ⟨rtlsdrGetDeviceCount_eq usb init, rtlsdrDeviceEnumerate_eq usb init, ?_, ?_⟩
    · intro known found
      rw [rtlsdrGetDeviceName_eq usb init, rtlsdrGetDeviceUsbStrings_eq usb init opens,
        (rtlsdrOpen_opened usb init opens index noWrap).1, found]
      exact ⟨rfl, rfl, rfl⟩
    · intro behind
      omega

def plainDevice (idVendor idProduct : UInt16) : UsbDevice :=
  { idVendor, idProduct, strings := ⟨"", "", ""⟩, openResult := 0, claimResult := 0 }

def twoDevices : Usb where
  init := 0
  list := [plainDevice 0x1d6b 0x0002, plainDevice 0x0bda 0x2838]
  countable := by decide

theorem indexAgreement_two : IndexAgreement twoDevices 0 :=
  (indexAgreement_iff twoDevices rfl (by decide) 0).mpr (by decide +kernel)

def serialDevice (serial : String) : UsbDevice :=
  { plainDevice 0x0bda 0x2838 with strings := ⟨"", "", serial⟩ }

def twoSerials : Usb where
  init := 0
  list := [serialDevice "00000001", plainDevice 0x1d6b 0x0002, serialDevice "00000002"]
  countable := by decide

theorem index_by_serial_two : rtlsdrGetIndexBySerial twoSerials "00000002" = 1 := by
  rw [index_by_serial twoSerials rfl (by decide) "00000002"]
  decide +kernel

theorem indexAgreement_fails :
    twoDevices.known.length = 1 ∧
      rtlsdrGetDeviceName twoDevices 0xffffffff = "Generic RTL2832U OEM" ∧
      (rtlsdrGetDeviceUsbStrings twoDevices 0xffffffff).r = 0 ∧
      rtlsdrOpen twoDevices 0xffffffff = ⟨0, some 0⟩ ∧
      ¬IndexAgreement twoDevices 0xffffffff := by
  have strings : (rtlsdrGetDeviceUsbStrings twoDevices 0xffffffff).r = 0 := by decide +kernel
  refine ⟨by decide +kernel, by decide +kernel, strings, by decide +kernel, ?_⟩
  intro agreement
  exact (agreement.behind (by decide +kernel)).2.1 strings

end RtlSdr.Librtlsdr
