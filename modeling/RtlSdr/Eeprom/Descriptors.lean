import RtlSdr.Eeprom.RoundTrip

/-!
# Descriptors the tool does not handle

The limit is checked for every character, but not for the two bytes a descriptor begins
with. An empty string may therefore put its type byte where the IR length goes. The parser
checks no limit at all and follows whatever lengths the image holds.
-/
namespace RtlSdr.Eeprom

/-! ### The IR length and the type bytes -/

/-- Next to the type byte, the bytes at odd distance from the start are the high bytes. -/
theorem StringDescriptor.high_byte {dat : Nat → UInt8} {pos : Nat} {str : List UInt8}
    (whole : StringDescriptor dat pos str) (i : Nat) (behind : pos ≤ i)
    (before : i < descriptorEnd pos str) (odd : (i - pos) % 2 = 1) (notType : i ≠ pos + 1) :
    dat i = 0x00 := by
  unfold descriptorEnd at before
  obtain ⟨k, rfl⟩ : ∃ k, i = pos + 3 + 2 * k := ⟨(i - pos - 3) / 2, by omega⟩
  exact whole.high k (by omega)

section Damage

variable (conf : RtlsdrConfig) (fits : conf.Fits) (buf : List UInt8)
  (size : buf.length = eepromSize) (beyond : Nat → UInt8)

include fits size

theorem image_irConfig : memoryAt ((genEepromFromConf conf).image buf) beyond irConfig = 0x00 := by
  have inside : irConfig < (conf.layout ++ buf.drop conf.endPos).length := by
    have bound := fits.bounds.2.2
    rw [List.length_append, List.length_drop, conf.layout_length, size]
    simp only [irConfig, eepromSize]
    omega
  rw [(genEepromFromConf_fits conf fits).2.2 buf size, memoryAt, List.getElem?_set_self inside]
  rfl

/-- A descriptor at an odd offset keeps all its bytes unless its type byte is hit. -/
theorem image_descriptor (pos : Nat) (str : List UInt8) (odd : pos % 2 = 1)
    (laid : StringDescriptor (memoryAt (conf.layout ++ buf.drop conf.endPos) beyond) pos str) :
    StringDescriptor (memoryAt ((genEepromFromConf conf).image buf) beyond) pos str ↔
      pos + 1 ≠ irConfig := by
  have stored := image_irConfig conf fits buf size beyond
  have same := image_layout conf fits buf size beyond
  have odd_ne (i : Nat) (odd : i % 2 = 1) : i ≠ irConfig := by
    unfold irConfig
    omega
  constructor
  · intro whole hit
    have type := whole.type
    rw [hit, stored] at type
    exact absurd type (by decide)
  · intro missed
    refine ⟨laid.toCarries.of_odd odd fun i odd => same i (odd_ne i odd), ?_, fun k inside => ?_⟩
    · rw [same _ missed, laid.type]
    · -- a high byte may be hit: it is zero anyway
      by_cases hit : pos + 3 + 2 * k = irConfig
      · rw [hit, stored]
      · rw [same _ hit, laid.high k inside]

theorem image_kept (product : conf.productPos + 1 ≠ irConfig)
    (serial : conf.serialPos + 1 ≠ irConfig) (i : Nat) (inside : i < conf.endPos) :
    memoryAt ((genEepromFromConf conf).image buf) beyond i =
      memoryAt (conf.layout ++ buf.drop conf.endPos) beyond i := by
  by_cases hit : i = irConfig
  · obtain ⟨first, second, third⟩ := layout_descriptors conf (buf.drop conf.endPos) beyond
    have odd₁ := conf.productPos_odd
    have odd₂ := conf.serialPos_odd
    have even : i % 2 = 0 := by rw [hit]; rfl
    have behind : 9 + 1 < i := by rw [hit]; decide
    rw [hit, image_irConfig conf fits buf size beyond, ← hit]
    -- the descriptor in which the offset lies
    by_cases before₁ : i < conf.productPos
    · exact (first.high_byte i (show 9 ≤ i by omega) before₁ (show (i - 9) % 2 = 1 by omega)
        (show i ≠ 9 + 1 by omega)).symm
    · by_cases before₂ : i < conf.serialPos
      · exact (second.high_byte i (by omega) before₂ (by omega) (by omega)).symm
      · exact (third.high_byte i (by omega) inside (by omega) (by omega)).symm
  · exact image_layout conf fits buf size beyond i hit

end Damage

/-- No descriptor of an image is reported if the three type bytes are right. -/
theorem parse_accepts (dat : Nat → UInt8) (second third : Nat)
    (next₁ : (getStringDescriptor dat strOffset).next = second)
    (next₂ : (getStringDescriptor dat second).next = third)
    (type₁ : dat (strOffset + 1) = 0x03) (type₂ : dat (second + 1) = 0x03)
    (type₃ : dat (third + 1) = 0x03) : .invalidDescriptor ∉ (parseEepromToConf dat).errors := by
  have valid (pos : Nat) (type : dat (pos + 1) = 0x03) :
      (getStringDescriptor dat pos).invalid = false := by
    rw [getStringDescriptor_eq]
    simp [type]
  simp only [parseEepromToConf, next₁, next₂]
  rw [List.filter_eq_nil_iff.mpr]
  · split <;> simp
  · intro descriptor member
    simp only [List.mem_cons, List.not_mem_nil, or_false] at member
    rcases member with rfl | rfl | rfl
    · simp [valid _ type₁]
    · simp [valid _ type₂]
    · simp [valid _ type₃]

/-- What the image should be: three whole descriptors laid end to end, which the parser
accepts and which nothing written later has changed. -/
structure WellLaid (conf : RtlsdrConfig) (dat : Nat → UInt8) : Prop where
  manufacturer : StringDescriptor dat strOffset conf.manufacturerStr
  product : StringDescriptor dat conf.productPos conf.productStr
  serial : StringDescriptor dat conf.serialPos conf.serialStr
  accepted : .invalidDescriptor ∉ (parseEepromToConf dat).errors
  kept : ∀ i, strOffset ≤ i → i < conf.endPos → conf.layout[i]? = some (dat i)

/-- The store of the IR length damages a descriptor if and only if one begins right before
it, which two lengths decide. -/
theorem wellLaid_iff (conf : RtlsdrConfig) (buf : List UInt8) (size : buf.length = eepromSize)
    (beyond : Nat → UInt8) (returned : 0 ≤ (genEepromFromConf conf).pos) :
    WellLaid conf (memoryAt ((genEepromFromConf conf).image buf) beyond) ↔
      conf.manufacturerStr.length ≠ 33 ∧
        conf.manufacturerStr.length + conf.productStr.length ≠ 32 := by
  -- a configuration that does not fit returns -1
  have fits : conf.Fits := by
    by_contra refused
    rw [genEepromFromConf_refused conf refused] at returned
    exact absurd returned (by decide)
  -- the first descriptor begins at 9, so its own type byte is never at 78; the other two begin
  -- where the lengths before them say
  have productHit : conf.productPos + 1 ≠ irConfig ↔ conf.manufacturerStr.length ≠ 33 := by
    simp only [RtlsdrConfig.productPos, descriptorEnd, strOffset, irConfig]
    omega
  have serialHit : conf.serialPos + 1 ≠ irConfig ↔
      conf.manufacturerStr.length + conf.productStr.length ≠ 32 := by
    simp only [RtlsdrConfig.serialPos, RtlsdrConfig.productPos, descriptorEnd, strOffset, irConfig]
    omega
  obtain ⟨first, second, third⟩ := layout_descriptors conf (buf.drop conf.endPos) beyond
  -- at odd positions only the type byte can be at the even offset of the IR length and matter
  have first' := image_descriptor conf fits buf size beyond _ _ rfl first
  have second' := image_descriptor conf fits buf size beyond _ _ conf.productPos_odd second
  have third' := image_descriptor conf fits buf size beyond _ _ conf.serialPos_odd third
  rw [← productHit, ← serialHit]
  constructor
  · intro laid
    exact ⟨second'.mp laid.product, third'.mp laid.serial⟩
  · rintro ⟨product, serial⟩
    have manufacturer := first'.mpr (by decide)
    obtain ⟨⟨next₁, next₂⟩, _⟩ := image_strings conf fits buf size beyond
    rw [next₁] at next₂
    refine ⟨manufacturer, second'.mpr product, third'.mpr serial, ?_, fun i _ inside => ?_⟩
    · exact parse_accepts _ _ _ next₁ next₂ manufacturer.type (second'.mpr product).type
        (third'.mpr serial).type
    · have laid : i < conf.layout.length := by rw [conf.layout_length]; exact inside
      rw [image_kept conf fits buf size beyond product serial i inside, memoryAt,
        List.getElem?_append_left laid, List.getElem?_eq_getElem laid]
      rfl

theorem wellLaid_realtek :
    WellLaid (genDefaultConf .zeros .realtek)
      (memoryAt ((genEepromFromConf (genDefaultConf .zeros .realtek)).image
        (List.replicate eepromSize 0xff)) fun _ => 0) :=
  (wellLaid_iff (genDefaultConf .zeros .realtek) (List.replicate eepromSize 0xff)
    List.length_replicate (fun _ => 0) (by decide +kernel)).mpr (by decide +kernel)

/-- Sixteen characters of manufacturer and of product, and no serial number. -/
def emptySerialConf : RtlsdrConfig :=
  { RtlsdrConfig.zeros with
    manufacturer := .strcpy .zeros (List.replicate 16 0x41) (by decide)
    product := .strcpy .zeros (List.replicate 16 0x42) (by decide) }

theorem emptySerial_damaged :
    let gen := genEepromFromConf emptySerialConf
    let dat := memoryAt (gen.image (List.replicate eepromSize 0xff)) fun _ => 0
    gen.pos = 79 ∧ emptySerialConf.serialPos = 77 ∧ dat 78 = 0x00 ∧
      .invalidDescriptor ∈ (parseEepromToConf dat).errors ∧ ¬WellLaid emptySerialConf dat := by
  intro gen dat
  have type : dat 78 = 0x00 := by decide +kernel
  have reported : .invalidDescriptor ∈ (parseEepromToConf dat).errors := by
    simp only [parseEepromToConf, getStringDescriptor_eq]
    decide +kernel
  refine ⟨by decide +kernel, by decide +kernel, type, reported, ?_⟩
  intro laid
  exact laid.accepted reported

/-! ### The offsets the parser goes to -/

theorem getStringDescriptor_reads (dat : Nat → UInt8) (pos size : Nat) :
    (∀ offset ∈ (getStringDescriptor dat pos).reads, offset < size) ↔
      pos + 1 < size ∧ pos + descriptorSize (dat pos) ≤ size + 1 := by
  rw [getStringDescriptor_eq]
  simp only [List.mem_cons, List.mem_map, List.mem_range, descriptorSize]
  constructor
  · intro inside
    have type := inside (pos + 1) (.inr (.inl rfl))
    refine ⟨type, ?_⟩
    -- with no character to read, the type byte is the last one
    cases count : charCount (dat pos) with
    | zero => omega
    | succ n =>
      have := inside (pos + 2 + 2 * n) (.inr (.inr ⟨n, by omega, rfl⟩))
      omega
  · rintro ⟨type, last⟩ offset (rfl | rfl | ⟨k, bound, rfl⟩) <;> omega

/-- A length byte never stands for more characters than a field has room for. -/
theorem strWrites_fit (name : StrName) (dat : Nat → UInt8) (pos : Nat) :
    ∀ write ∈ strWrites name (getStringDescriptor dat pos).str, write.2 < maxStrSize := by
  intro write member
  have bound := (dat pos).toNat_lt
  rw [getStringDescriptor_eq] at member
  simp only [strWrites, List.mem_map, List.mem_range, List.length_map, List.length_range] at member
  obtain ⟨j, inside, rfl⟩ := member
  simp only [charCount, maxStrSize] at inside ⊢
  omega

/-- Where the descriptor behind the one at `pos` begins, by its length byte. -/
def follows (image : List UInt8) (pos : Nat) : Nat := pos + descriptorSize (image.getD pos 0)

/-- The length bytes lead nowhere outside the image: the second and the third descriptor
begin in it, and so does the last character of the third. -/
structure LengthsFit (image : List UInt8) : Prop where
  product : follows image strOffset + 1 < eepromSize
  serial : follows image (follows image strOffset) + 1 < eepromSize
  last : follows image (follows image (follows image strOffset)) ≤ eepromSize + 1

theorem follows_eq (image : List UInt8) (beyond : Nat → UInt8) (pos : Nat)
    (inside : pos < image.length) :
    pos + descriptorSize (memoryAt image beyond pos) = follows image pos := by
  rw [follows, memoryAt, List.getD_eq_getElem?_getD, List.getElem?_eq_getElem inside]
  rfl

/-- The parser stays within the image if and only if the length bytes do. -/
theorem parse_in_bounds_iff (image : List UInt8) (size : image.length = eepromSize)
    (beyond : Nat → UInt8) :
    let parsed := parseEepromToConf (memoryAt image beyond)
    ((∀ offset ∈ parsed.reads, offset < eepromSize) ∧
      ∀ write ∈ parsed.writes, write.2 < maxStrSize) ↔ LengthsFit image := by
  intro parsed
  have writes : ∀ write ∈ parsed.writes, write.2 < maxStrSize := by
    simp only [parsed, parseEepromToConf, List.mem_append, or_imp, forall_and]
    exact ⟨⟨strWrites_fit _ _ _, strWrites_fit _ _ _⟩, strWrites_fit _ _ _⟩
  -- `dat[1]` is compared only if `dat[0]` is right
  have header : ∀ offset ∈ (if memoryAt image beyond 0 ≠ 0x28 then [0] else [0, 1]) ++
      [2, 3, 4, 5, 6, 7, 7], offset < eepromSize := by
    split <;> decide
  -- inside the image, a length byte is that of the image and not of what lies behind it
  have next (pos : Nat) (inside : pos < eepromSize) :
      (getStringDescriptor (memoryAt image beyond) pos).next = follows image pos := by
    rw [getStringDescriptor_eq]
    exact follows_eq image beyond pos (by rw [size]; exact inside)
  have reads (pos : Nat) (inside : pos < eepromSize) :
      (∀ offset ∈ (getStringDescriptor (memoryAt image beyond) pos).reads, offset < eepromSize) ↔
        pos + 1 < eepromSize ∧ follows image pos ≤ eepromSize + 1 := by
    rw [getStringDescriptor_reads, follows_eq image beyond pos (by rw [size]; exact inside)]
  have next₁ := next strOffset (by decide)
  have reads₁ := reads strOffset (by decide)
  have all : (∀ offset ∈ parsed.reads, offset < eepromSize) ↔
      (∀ offset ∈ (getStringDescriptor (memoryAt image beyond) strOffset).reads,
        offset < eepromSize) ∧
      (∀ offset ∈ (getStringDescriptor (memoryAt image beyond) (follows image strOffset)).reads,
        offset < eepromSize) ∧
      ∀ offset ∈ (getStringDescriptor (memoryAt image beyond) (getStringDescriptor
        (memoryAt image beyond) (follows image strOffset)).next).reads, offset < eepromSize := by
    simp only [parsed, parseEepromToConf, next₁]
    rw [List.forall_mem_append, List.forall_mem_append, List.forall_mem_append]
    constructor
    · rintro ⟨⟨⟨_, first⟩, second⟩, third⟩
      exact ⟨first, second, third⟩
    · rintro ⟨first, second, third⟩
      exact ⟨⟨⟨header, first⟩, second⟩, third⟩
  rw [all]
  constructor
  · rintro ⟨⟨_, second, third⟩, -⟩
    have product := (getStringDescriptor_reads _ _ _).mp second
    have inside₁ : follows image strOffset < eepromSize := by omega
    -- only now is the length byte of the second descriptor known to be read from the image
    rw [next _ inside₁] at third
    have serial := (getStringDescriptor_reads _ _ _).mp third
    have inside₂ : follows image (follows image strOffset) < eepromSize := by omega
    exact ⟨product.1, serial.1, ((reads _ inside₂).mp third).2⟩
  · intro fit
    have inside₁ : follows image strOffset < eepromSize := Nat.lt_of_succ_lt fit.product
    have inside₂ : follows image (follows image strOffset) < eepromSize :=
      Nat.lt_of_succ_lt fit.serial
    rw [next _ inside₁, reads₁, reads _ inside₁, reads _ inside₂]
    have product := fit.product
    have serial := fit.serial
    exact ⟨⟨⟨by decide, by omega⟩, ⟨product, by omega⟩, serial, fit.last⟩, writes⟩

theorem parse_in_bounds_realtek :
    let image := (genEepromFromConf (genDefaultConf .zeros .realtek)).image
      (List.replicate eepromSize 0xff)
    (∀ offset ∈ (parseEepromToConf (memoryAt image fun _ => 0)).reads, offset < eepromSize) :=
  ((parse_in_bounds_iff _ (by decide +kernel) _).mpr
    ⟨by decide +kernel, by decide +kernel, by decide +kernel⟩).1

/-- A blank chip reads `0xff` everywhere, and the parser goes past its end. -/
theorem parse_blank_out_of_bounds :
    263 ∈ (parseEepromToConf (memoryAt (List.replicate eepromSize 0xff) fun _ => 0)).reads := by
  simp only [parseEepromToConf, getStringDescriptor_eq]
  decide +kernel

end RtlSdr.Eeprom
