import Mathlib.Data.List.Nodup
import Mathlib.Data.List.Range
import RtlSdr.Lib.Guarded

/-!
# Writing the EEPROM (`rtlsdr_write_eeprom`)

Each byte is read first, and written only if it differs. The results of the two transfers of the
read are thrown away: where it fails, `cmd[1]` still holds another byte. If that happens to equal
the new one, the write is left out.
-/
namespace RtlSdr.Librtlsdr

/-- The EEPROM: 256 bytes, and the address the next read starts at. -/
structure Chip where
  content : UInt8 → UInt8
  pointer : UInt8

/-- Which of the transfers for a byte succeed; one that fails changes nothing. -/
structure Fate where
  /-- The write of `cmd[0]`, which sets the address. -/
  addressed : Bool
  /-- The read into `cmd[1]`. -/
  read : Bool
  /-- The write of both, which stores the byte. -/
  written : Bool
deriving DecidableEq, Repr

/-- One round of the loop: `cmd[0]`, `data[i]`, and what becomes of its transfers. -/
structure Job where
  address : UInt8
  byte : UInt8
  fate : Fate
deriving DecidableEq, Repr

/-- The EEPROM, `cmd[1]`, and whether the function has returned -3. -/
structure Writer where
  chip : Chip
  cmd1 : UInt8
  failed : Bool

/-- The first transfer. -/
def Writer.address (w : Writer) (job : Job) : Chip :=
  if job.fate.addressed then { w.chip with pointer := job.address } else w.chip

/-- `cmd[1]` after the second transfer. -/
def Writer.seen (w : Writer) (job : Job) : UInt8 :=
  if job.fate.read then (w.address job).content (w.address job).pointer else w.cmd1

def writeByte (w : Writer) (job : Job) : Writer :=
  if w.failed then w
  else
    let chip := w.address job
    -- only write the byte if it differs
    if w.seen job = job.byte then { chip, cmd1 := job.byte, failed := false }
    else if job.fate.written then
      { chip := { chip with content := Function.update chip.content job.address job.byte }
        cmd1 := job.byte
        failed := false }
    else { chip, cmd1 := job.byte, failed := true }

/-- The rounds of the loop for `data`. -/
def jobs (data : List UInt8) (offset : UInt8) (fates : Nat → Fate) : List Job :=
  data.zipIdx.map fun entry => ⟨UInt8.ofNat (entry.2 + offset.toNat), entry.1, fates entry.2⟩

/-- `rtlsdr_write_eeprom` on a device, with what `cmd[1]` holds before it is set: its result,
and the EEPROM after it. -/
def rtlsdrWriteEeprom (chip : Chip) (garbage : UInt8) (fates : Nat → Fate) (data : List UInt8)
    (offset : UInt8) : Int × Chip :=
  if data.length + offset.toNat > 256 then (-2, chip)
  else
    let w := (jobs data offset fates).foldl writeByte ⟨chip, garbage, false⟩
    (if w.failed then -3 else 0, w.chip)

/-! ### One byte -/

/-- The byte is taken to be there, or its write succeeds. -/
def Passes (w : Writer) (job : Job) : Prop := w.seen job = job.byte ∨ job.fate.written = true

/-- A byte that is taken to be there is there. -/
def Judges (w : Writer) (job : Job) : Prop :=
  w.seen job = job.byte → w.chip.content job.address = job.byte

instance (w : Writer) (job : Job) : Decidable (Passes w job) :=
  inferInstanceAs (Decidable (_ ∨ _))

instance (w : Writer) (job : Job) : Decidable (Judges w job) :=
  inferInstanceAs (Decidable (_ → _))

variable (w : Writer) (job : Job)

/-- What is read is what is there, if both transfers of the read succeed. -/
theorem judges_of_read (addressed : job.fate.addressed = true) (read : job.fate.read = true) :
    Judges w job := by
  intro same
  rw [Writer.seen, if_pos read, Writer.address, if_pos addressed] at same
  exact same

theorem address_content : (w.address job).content = w.chip.content := by
  rw [Writer.address]
  split <;> rfl

theorem writeByte_elsewhere (a : UInt8) (other : a ≠ job.address) :
    (writeByte w job).chip.content a = w.chip.content a := by
  rw [writeByte]
  split
  · rfl
  · dsimp only
    split
    · rw [address_content]
    · split
      · dsimp only
        rw [Function.update_of_ne other, address_content]
      · rw [address_content]

theorem writeByte_failed (going : w.failed = false) :
    (writeByte w job).failed = false ↔ Passes w job := by
  rw [writeByte, if_neg (by simp [going]), Passes]
  dsimp only
  split
  · next same => exact iff_of_true rfl (.inl same)
  · next differs =>
    split
    · next written => exact iff_of_true rfl (.inr written)
    · next failed =>
      refine iff_of_false nofun ?_
      rintro (same | written)
      · exact differs same
      · exact failed written

/-- After its round a byte is there, unless it was taken to be there wrongly. -/
theorem writeByte_content (going : w.failed = false) (passes : Passes w job) :
    (writeByte w job).chip.content job.address = job.byte ↔ Judges w job := by
  rw [writeByte, if_neg (by simp [going]), Judges]
  dsimp only
  split
  · next same =>
    rw [address_content]
    exact ⟨fun there _ => there, fun judges => judges same⟩
  · next differs =>
    rw [if_pos (passes.resolve_left differs)]
    dsimp only
    rw [Function.update_self]
    exact iff_of_true rfl fun same => absurd same differs

/-! ### The loop -/

theorem foldl_failed (failed : w.failed = true) (rounds : List Job) :
    rounds.foldl writeByte w = w := by
  induction rounds with
  | nil => rfl
  | cons job rounds ih =>
    rw [List.foldl_cons, writeByte, if_pos failed]
    exact ih

theorem foldl_elsewhere (rounds : List Job) (a : UInt8) (other : ∀ job ∈ rounds, a ≠ job.address) :
    (rounds.foldl writeByte w).chip.content a = w.chip.content a := by
  induction rounds generalizing w with
  | nil => rfl
  | cons job rounds ih =>
    rw [List.foldl_cons, ih _ fun next member => other next (List.mem_cons_of_mem _ member),
      writeByte_elsewhere w job a (other job List.mem_cons_self)]

theorem foldl_passes (going : w.failed = false) (rounds : List Job) :
    (rounds.foldl writeByte w).failed = false ↔ Guarded.Meets writeByte Passes w rounds := by
  induction rounds generalizing w with
  | nil => exact iff_of_true going trivial
  | cons job rounds ih =>
    rw [List.foldl_cons, Guarded.Meets, ← writeByte_failed w job going]
    cases next : (writeByte w job).failed with
    | false => rw [ih _ next, and_iff_right rfl]
    | true =>
      rw [foldl_failed _ next, next]
      simp

/-- Where the loop comes to its end, each byte is there exactly if none was taken to be there
wrongly. Every address has one round, so nothing is made up for later. -/
theorem foldl_content (going : w.failed = false) (rounds : List Job)
    (distinct : (rounds.map Job.address).Nodup) (passes : Guarded.Meets writeByte Passes w rounds) :
    (∀ job ∈ rounds, (rounds.foldl writeByte w).chip.content job.address = job.byte) ↔
      Guarded.Meets writeByte Judges w rounds := by
  induction rounds generalizing w with
  | nil => exact iff_of_true nofun trivial
  | cons job rounds ih =>
    obtain ⟨here, later⟩ := passes
    rw [List.map_cons, List.nodup_cons] at distinct
    have next := (writeByte_failed w job going).mpr here
    have kept : (rounds.foldl writeByte (writeByte w job)).chip.content job.address =
        (writeByte w job).chip.content job.address := by
      apply foldl_elsewhere
      intro other member same
      exact distinct.1 (same ▸ List.mem_map_of_mem member)
    rw [List.foldl_cons, Guarded.Meets, ← ih _ next distinct.2 later,
      ← writeByte_content w job going here, List.forall_mem_cons, kept]

/-! ### The function -/

section

variable (data : List UInt8) (offset : UInt8) (fates : Nat → Fate)

theorem jobs_address :
    (jobs data offset fates).map Job.address =
      (List.range data.length).map fun i => UInt8.ofNat (i + offset.toNat) := by
  rw [jobs, List.map_map]
  apply List.ext_getElem
  · simp
  · intro i _ _
    simp

theorem jobs_nodup (fits : data.length + offset.toNat ≤ 256) :
    ((jobs data offset fates).map Job.address).Nodup := by
  rw [jobs_address]
  apply List.Nodup.map_on _ List.nodup_range
  intro i first j second same
  have value := congrArg UInt8.toNat same
  rw [List.mem_range] at first second
  rw [UInt8.toNat_ofNat_of_lt' (show i + offset.toNat < 2 ^ 8 by omega),
    UInt8.toNat_ofNat_of_lt' (show j + offset.toNat < 2 ^ 8 by omega)] at value
  omega

/-- A statement about all rounds is one about all indices. -/
theorem forall_jobs (P : UInt8 → UInt8 → Prop) :
    (∀ job ∈ jobs data offset fates, P job.address job.byte) ↔
      ∀ i (inside : i < data.length),
        P (UInt8.ofNat (i + offset.toNat)) (data.get ⟨i, inside⟩) := by
  constructor
  · intro all i inside
    apply all ⟨UInt8.ofNat (i + offset.toNat), data.get ⟨i, inside⟩, fates i⟩
    rw [jobs, List.mem_map]
    exact ⟨(data.get ⟨i, inside⟩, i), List.mk_mem_zipIdx_iff_getElem?.mpr
      (List.getElem?_eq_getElem inside), rfl⟩
  · intro all job member
    rw [jobs, List.mem_map] at member
    obtain ⟨⟨byte, i⟩, entry, rfl⟩ := member
    obtain ⟨inside, rfl⟩ := List.getElem?_eq_some_iff.mp (List.mk_mem_zipIdx_iff_getElem?.mp entry)
    exact all i inside

end

/-- Every byte of the data is in the EEPROM. -/
def Stored (chip : Chip) (data : List UInt8) (offset : UInt8) : Prop :=
  ∀ i (inside : i < data.length),
    chip.content (UInt8.ofNat (i + offset.toNat)) = data.get ⟨i, inside⟩

/-- A result of 0 means that the data is in the EEPROM if and only if no byte is taken to be
there wrongly in a loop that comes to its end; and the bytes outside the range are kept. -/
theorem write_eeprom_iff (chip : Chip) (garbage : UInt8) (fates : Nat → Fate)
    (data : List UInt8) (offset : UInt8) (fits : offset.toNat + data.length ≤ 256) :
    let out := rtlsdrWriteEeprom chip garbage fates data offset
    let w : Writer := ⟨chip, garbage, false⟩
    (((out.1 = 0 → Stored out.2 data offset) ∧
        ∀ a : UInt8, a.toNat < offset.toNat ∨ offset.toNat + data.length ≤ a.toNat →
          out.2.content a = chip.content a) ↔
      (Guarded.Meets writeByte Passes w (jobs data offset fates) →
        Guarded.Meets writeByte Judges w (jobs data offset fates))) ∧
    ∀ a : UInt8, a.toNat < offset.toNat ∨ offset.toNat + data.length ≤ a.toNat →
      out.2.content a = chip.content a := by
  intro out w
  have room : data.length + offset.toNat ≤ 256 := by omega
  have run : out = (if ((jobs data offset fates).foldl writeByte w).failed then -3 else 0,
      ((jobs data offset fates).foldl writeByte w).chip) :=
    if_neg (Nat.not_lt.mpr room)
  have outside : ∀ a : UInt8, a.toNat < offset.toNat ∨ offset.toNat + data.length ≤ a.toNat →
      out.2.content a = chip.content a := by
    intro a away
    rw [run]
    apply foldl_elsewhere w
    rw [forall_jobs data offset fates fun address _ => a ≠ address]
    rintro i inside rfl
    rw [UInt8.toNat_ofNat_of_lt' (show i + offset.toNat < 2 ^ 8 by omega)] at away
    omega
  have passes := foldl_passes w rfl (jobs data offset fates)
  have zero : out.1 = 0 ↔ Guarded.Meets writeByte Passes w (jobs data offset fates) := by
    rw [← passes, run]
    cases ((jobs data offset fates).foldl writeByte w).failed <;> simp
  refine ⟨?_, outside⟩
  rw [and_iff_left outside, zero]
  refine forall_congr' fun met => ?_
  rw [← foldl_content w rfl _ (jobs_nodup data offset fates room) met,
    forall_jobs data offset fates fun address byte =>
      ((jobs data offset fates).foldl writeByte w).chip.content address = byte, run]
  rfl

theorem judges_of_reads (fates : Nat → Fate) (data : List UInt8) (offset : UInt8)
    (reads : ∀ i < data.length, (fates i).addressed = true ∧ (fates i).read = true)
    (w : Writer) : Guarded.Meets writeByte Judges w (jobs data offset fates) := by
  have all : ∀ job ∈ jobs data offset fates,
      job.fate.addressed = true ∧ job.fate.read = true := by
    intro job member
    rw [jobs, List.mem_map] at member
    obtain ⟨⟨byte, i⟩, entry, rfl⟩ := member
    exact reads i (List.getElem?_eq_some_iff.mp (List.mk_mem_zipIdx_iff_getElem?.mp entry)).1
  generalize jobs data offset fates = rounds at all
  induction rounds generalizing w with
  | nil => trivial
  | cons job rounds ih =>
    obtain ⟨addressed, read⟩ := all job List.mem_cons_self
    exact ⟨judges_of_read w job addressed read,
      ih _ fun other member => all other (List.mem_cons_of_mem _ member)⟩

def blankChip : Chip := ⟨fun _ => 0, 0⟩

/-- Two equal bytes are written to a blank EEPROM, and every transfer succeeds. -/
theorem write_eeprom_two :
    Stored (rtlsdrWriteEeprom blankChip 0 (fun _ => ⟨true, true, true⟩) [1, 1] 0).2 [1, 1] 0 :=
  ((write_eeprom_iff blankChip 0 (fun _ => ⟨true, true, true⟩) [1, 1] 0 (by decide)).1.mpr
    fun _ => judges_of_reads _ _ _ (fun _ _ => ⟨rfl, rfl⟩) _).1 (by decide)

/-- The read of the second byte fails: `cmd[1]` still holds the first, the write is left out,
and the result is 0. -/
theorem write_eeprom_skipped :
    let out := rtlsdrWriteEeprom blankChip 0 (fun i => ⟨true, i ≠ 1, true⟩) [1, 1] 0
    out.1 = 0 ∧ out.2.content 0 = 1 ∧ out.2.content 1 = 0 ∧ ¬Stored out.2 [1, 1] 0 := by
  refine ⟨by decide, by decide, by decide, fun stored => ?_⟩
  exact absurd (stored 1 (by decide)) (by decide)

end RtlSdr.Librtlsdr
