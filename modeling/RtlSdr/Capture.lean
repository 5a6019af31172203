import Mathlib.Algebra.Group.Nat.Defs
import Mathlib.Data.List.Induction

/-!
# Recording a number of samples (`rtl_sdr -n`)

`bytes_to_read` counts down to the end of the recording, and 0 stands for no end. A block that
reaches beyond the end stops the recording. One that ends exactly there does not: it brings the
count to 0, and the recording goes on without an end.
-/
namespace RtlSdr.Capture

/-- A block of samples as it comes from the device, with the number of bytes `fwrite` writes of
it at most. Its length is a `uint32_t`. -/
structure Block where
  bytes : List UInt8
  accepts : Nat
  nonempty : 0 < bytes.length
  fits : bytes.length < 2 ^ 32
deriving DecidableEq

def Block.len (block : Block) : UInt32 := block.bytes.length.toUInt32

/-- The static variables, the file, and whether `rtlsdr_cancel_async` has been called. -/
structure State where
  bytesToRead : UInt32
  doExit : Bool
  cancelled : Bool
  file : List UInt8
deriving DecidableEq

/-- After `-n samples`. -/
def start (samples : UInt32) : State := ⟨samples * 2, false, false, []⟩

/-- `if ((bytes_to_read > 0) && (bytes_to_read < len))`: the length to write, and whether the
recording ends with it. -/
def cut (bytesToRead len : UInt32) : UInt32 × Bool :=
  if bytesToRead > 0 ∧ bytesToRead < len then (bytesToRead, true) else (len, false)

/-- `if (bytes_to_read > 0) bytes_to_read -= len`. -/
def countDown (bytesToRead len : UInt32) : UInt32 :=
  if bytesToRead > 0 then bytesToRead - len else bytesToRead

/-- `rtlsdr_callback`, with a file as its context. -/
def rtlsdrCallback (s : State) (block : Block) : State :=
  if s.doExit then s
  else
    let (len, last) := cut s.bytesToRead block.len
    let written := min len.toNat block.accepts
    { bytesToRead := countDown s.bytesToRead len
      doExit := last
      -- at the end, and after a short write
      cancelled := s.cancelled || last || written ≠ len.toNat
      file := s.file ++ block.bytes.take written }

/-- What `rtlsdr_read_sync` returns: an error, or a block. -/
inductive SyncRead
  | failed
  | read (block : Block)

/-- The loop of `main` in synchronous mode, with the results of its reads. -/
def syncLoop (outBlockSize : UInt32) (s : State) : List SyncRead → State
  | [] => s
  | result :: results =>
    if s.doExit then s
    else
      match result with
      | .failed => s
      | .read block =>
        let (nRead, last) := cut s.bytesToRead block.len
        let written := min nRead.toNat block.accepts
        let s := { s with doExit := last, file := s.file ++ block.bytes.take written }
        -- a short write, and a short read: the block that is cut is one
        if written ≠ nRead.toNat then s
        else if nRead < outBlockSize then s
        else syncLoop outBlockSize { s with bytesToRead := countDown s.bytesToRead nRead } results

/-! ### The bytes of blocks -/

def concat (blocks : List Block) : List UInt8 := blocks.flatMap Block.bytes

def total (blocks : List Block) : Nat := (concat blocks).length

/-- `fwrite` writes all of the block. -/
def Block.Complete (block : Block) : Prop := block.bytes.length ≤ block.accepts

instance (block : Block) : Decidable block.Complete := inferInstanceAs (Decidable (_ ≤ _))

/-- Some of the blocks end exactly at a number of bytes. -/
def EndsAt (size : Nat) (blocks : List Block) : Prop :=
  ∃ before, before <+: blocks ∧ total before = size

theorem concat_append (blocks more : List Block) :
    concat (blocks ++ more) = concat blocks ++ concat more := by
  simp [concat]

theorem concat_singleton (block : Block) : concat [block] = block.bytes := by
  simp [concat]

theorem total_concat (blocks : List Block) (block : Block) :
    total (blocks ++ [block]) = total blocks + block.bytes.length := by
  rw [total, concat_append, concat_singleton, List.length_append, total]

theorem endsAt_concat (size : Nat) (blocks : List Block) (block : Block) :
    EndsAt size (blocks ++ [block]) ↔ EndsAt size blocks ∨ total (blocks ++ [block]) = size := by
  constructor
  · rintro ⟨before, within, ends⟩
    rcases List.prefix_concat_iff.mp within with rfl | earlier
    · exact .inr ends
    · exact .inl ⟨before, earlier, ends⟩
  · rintro (⟨before, within, ends⟩ | ends)
    · exact ⟨before, within.trans (List.prefix_append _ _), ends⟩
    · exact ⟨_, List.prefix_rfl, ends⟩

theorem Block.len_toNat (block : Block) : block.len.toNat = block.bytes.length :=
  UInt32.toNat_ofNat_of_lt' block.fits

/-! ### The recording after some blocks -/

/-- The recording goes on, without an end if the count has come to 0, or has ended. -/
inductive Recorded (size : Nat) (blocks : List Block) (s : State) : Prop
  | counting (less : total blocks < size) (left : s.bytesToRead.toNat = size - total blocks)
      (going : s.doExit = false) (file : s.file = concat blocks) : Recorded size blocks s
  | endless (passed : EndsAt size blocks) (none : s.bytesToRead = 0) (going : s.doExit = false)
      (file : s.file = concat blocks) : Recorded size blocks s
  | ended (between : ¬EndsAt size blocks) (beyond : size < total blocks) (stopped : s.doExit = true)
      (file : s.file = (concat blocks).take size) : Recorded size blocks s

variable {blocks : List Block} {size : Nat} {s : State}

theorem not_endsAt_of_less (less : total blocks < size) : ¬EndsAt size blocks := by
  rintro ⟨before, ⟨rest, rfl⟩, ends⟩
  rw [total, concat_append, List.length_append] at less
  rw [total] at ends
  omega

theorem recorded_step (recorded : Recorded size blocks s) (block : Block)
    (complete : block.Complete) : Recorded size (blocks ++ [block]) (rtlsdrCallback s block) := by
  have length := block.len_toNat
  have grown := total_concat blocks block
  have whole : concat (blocks ++ [block]) = concat blocks ++ block.bytes := by
    rw [concat_append, concat_singleton]
  have written : min block.bytes.length block.accepts = block.bytes.length :=
    Nat.min_eq_left complete
  cases recorded with
  | counting less left going file =>
    have positive : s.bytesToRead > 0 := UInt32.lt_iff_toNat_lt.mpr (by
      show 0 < s.bytesToRead.toNat
      omega)
    rw [rtlsdrCallback, going]
    by_cases beyond : s.bytesToRead < block.len
    · -- the block is cut, and the recording ends
      have over_ := UInt32.lt_iff_toNat_lt.mp beyond
      have some : min s.bytesToRead.toNat block.accepts = s.bytesToRead.toNat := by
        have := complete
        unfold Block.Complete at this
        omega
      have taken : cut s.bytesToRead block.len = (s.bytesToRead, true) :=
        if_pos ⟨positive, beyond⟩
      simp only [taken, some, Bool.false_eq_true, if_false]
      refine .ended ?_ (by omega) rfl ?_
      · rw [endsAt_concat]
        rintro (earlier | now)
        · exact not_endsAt_of_less less earlier
        · omega
      · rw [whole, file, List.take_append, left]
        rw [List.take_of_length_le (Nat.le_of_lt less)]
        rfl
    · -- the whole block is written; if it ends at the end, the count is 0
      have within := Nat.le_of_not_lt fun more => beyond (UInt32.lt_iff_toNat_lt.mpr more)
      have taken : cut s.bytesToRead block.len = (block.len, false) :=
        if_neg fun both => beyond both.2
      have counted : (s.bytesToRead - block.len).toNat =
          s.bytesToRead.toNat - block.bytes.length := by
        rw [UInt32.toNat_sub_of_le _ _ (UInt32.le_iff_toNat_le.mpr within), length]
      simp only [taken, length, written, Bool.false_eq_true, if_false, countDown, positive,
        if_true, List.take_length]
      by_cases exactly : s.bytesToRead.toNat = block.bytes.length
      · refine .endless ?_ ?_ rfl (by rw [whole, file])
        · rw [endsAt_concat]
          exact .inr (by omega)
        · exact UInt32.toNat_inj.mp (by rw [counted, exactly, Nat.sub_self]; rfl)
      · refine .counting (by omega) ?_ rfl (by rw [whole, file])
        rw [counted, left, grown]
        omega
  | endless passed none going file =>
    rw [rtlsdrCallback, going, none]
    have taken : cut 0 block.len = (block.len, false) :=
      if_neg fun both => absurd both.1 (by decide)
    simp only [taken, length, written, Bool.false_eq_true, if_false, List.take_length]
    refine .endless ?_ rfl rfl (by rw [whole, file])
    rw [endsAt_concat]
    exact .inl passed
  | ended between beyond stopped file =>
    rw [rtlsdrCallback, if_pos stopped]
    refine .ended ?_ (by omega) stopped ?_
    · rw [endsAt_concat]
      rintro (earlier | now)
      · exact between earlier
      · omega
    · rw [whole, file, List.take_append_of_le_length]
      exact Nat.le_of_lt beyond

theorem recorded_run (samples : UInt32) (some : 1 ≤ samples.toNat)
    (fits : 2 * samples.toNat < 2 ^ 32) (blocks : List Block)
    (complete : ∀ block ∈ blocks, block.Complete) :
    Recorded (2 * samples.toNat) blocks (blocks.foldl rtlsdrCallback (start samples)) := by
  induction blocks using List.reverseRecOn with
  | nil =>
    refine .counting ?_ ?_ rfl rfl
    · show 0 < 2 * samples.toNat
      omega
    · show (samples * 2).toNat = 2 * samples.toNat - 0
      rw [UInt32.toNat_mul]
      show samples.toNat * 2 % 2 ^ 32 = _
      omega
  | append_singleton blocks block ih =>
    rw [List.foldl_append]
    apply recorded_step
    · exact ih fun other member => complete other (List.mem_append_left _ member)
    · exact complete block (List.mem_append_right _ List.mem_cons_self)

/-- With enough bytes, the recording is right exactly if no block ends at its end. -/
theorem Recorded.right_iff (recorded : Recorded size blocks s) (enough : size ≤ total blocks) :
    (s.file = (concat blocks).take size ∧ s.doExit = true) ↔ ¬EndsAt size blocks := by
  cases recorded with
  | counting less => omega
  | endless passed none going file =>
    refine iff_of_false ?_ (not_not_intro passed)
    rintro ⟨-, stopped⟩
    rw [going] at stopped
    cases stopped
  | ended between beyond stopped file => exact iff_of_true ⟨file, stopped⟩ between

/-! ### The synchronous loop -/

theorem foldl_stopped (s : State) (stopped : s.doExit = true) (blocks : List Block) :
    blocks.foldl rtlsdrCallback s = s := by
  induction blocks with
  | nil => rfl
  | cons block blocks ih =>
    rw [List.foldl_cons, rtlsdrCallback, if_pos stopped]
    exact ih

theorem syncLoop_eq (outBlockSize : UInt32) (blocks : List Block)
    (full : ∀ block ∈ blocks, block.Complete ∧ block.len = outBlockSize) (s t : State)
    (count : s.bytesToRead = t.bytesToRead) (going : s.doExit = t.doExit)
    (file : s.file = t.file) :
    (syncLoop outBlockSize s (blocks.map SyncRead.read)).file =
        (blocks.foldl rtlsdrCallback t).file ∧
      (syncLoop outBlockSize s (blocks.map SyncRead.read)).doExit =
        (blocks.foldl rtlsdrCallback t).doExit := by
  induction blocks generalizing s t with
  | nil => exact ⟨file, going⟩
  | cons block blocks ih =>
    rw [List.map_cons, syncLoop, List.foldl_cons]
    by_cases stopped : t.doExit = true
    · rw [if_pos (going.trans stopped), rtlsdrCallback, if_pos stopped, foldl_stopped t stopped]
      exact ⟨file, going⟩
    · obtain ⟨complete, size⟩ := full block List.mem_cons_self
      have length := block.len_toNat
      rw [if_neg (going ▸ stopped), rtlsdrCallback, if_neg stopped, count, file]
      by_cases last : t.bytesToRead > 0 ∧ t.bytesToRead < block.len
      · -- the block that is cut ends both, before the loop has counted it
        have taken : cut t.bytesToRead block.len = (t.bytesToRead, true) := if_pos last
        have written : min t.bytesToRead.toNat block.accepts = t.bytesToRead.toNat := by
          have less := UInt32.lt_iff_toNat_lt.mp last.2
          have := complete
          unfold Block.Complete at this
          omega
        simp only [taken, written, ne_eq, not_true_eq_false, if_false]
        rw [if_pos (size ▸ last.2), foldl_stopped _ rfl]
        exact ⟨rfl, rfl⟩
      · have taken : cut t.bytesToRead block.len = (block.len, false) := if_neg last
        have written : min block.len.toNat block.accepts = block.len.toNat :=
          Nat.min_eq_left (length ▸ complete)
        simp only [taken, written, ne_eq, not_true_eq_false, if_false]
        rw [if_neg (by rw [size]; exact UInt32.lt_irrefl _)]
        exact ih (fun other member => full other (List.mem_cons_of_mem _ member)) _ _ rfl rfl rfl

theorem total_full (outBlockSize : UInt32) (blocks : List Block)
    (full : ∀ block ∈ blocks, block.Complete ∧ block.len = outBlockSize) :
    total blocks = blocks.length * outBlockSize.toNat := by
  induction blocks with
  | nil => exact (Nat.zero_mul _).symm
  | cons block blocks ih =>
    have here : block.bytes.length = outBlockSize.toNat := by
      rw [← block.len_toNat, (full block List.mem_cons_self).2]
    have others := ih fun other member => full other (List.mem_cons_of_mem _ member)
    rw [total] at others ⊢
    rw [concat, List.flatMap_cons, List.length_append, here, List.length_cons, Nat.add_one_mul,
      ← concat, others, Nat.add_comm]

/-- Blocks of one size end at a number of bytes exactly if the size divides it. -/
theorem endsAt_full (size : Nat) (positive : 0 < size) (outBlockSize : UInt32)
    (blocks : List Block)
    (full : ∀ block ∈ blocks, block.Complete ∧ block.len = outBlockSize)
    (enough : size ≤ total blocks) : EndsAt size blocks ↔ outBlockSize.toNat ∣ size := by
  have length := total_full outBlockSize blocks full
  constructor
  · rintro ⟨before, within, rfl⟩
    rw [total_full outBlockSize before fun block member => full block (within.subset member)]
    exact Nat.dvd_mul_left _ _
  · rintro ⟨k, rfl⟩
    have some : 0 < outBlockSize.toNat := Nat.pos_of_mul_pos_right positive
    have few : k ≤ blocks.length := by
      rw [length, Nat.mul_comm] at enough
      exact Nat.le_of_mul_le_mul_right enough some
    refine ⟨blocks.take k, List.take_prefix k blocks, ?_⟩
    rw [total_full outBlockSize _ fun block member => full block (List.mem_of_mem_take member),
      List.length_take, Nat.min_eq_left few, Nat.mul_comm]

/-- Exactly the number of samples asked for is recorded, and the recording ended, if and only if
no block ends at its last byte; in synchronous mode, unless the block size divides the number
of bytes. -/
theorem capture_iff (samples : UInt32) (some : 1 ≤ samples.toNat)
    (fits : 2 * samples.toNat < 2 ^ 32) :
    (∀ blocks : List Block, (∀ block ∈ blocks, block.Complete) →
      2 * samples.toNat ≤ total blocks →
      let s := blocks.foldl rtlsdrCallback (start samples)
      (s.file = (concat blocks).take (2 * samples.toNat) ∧ s.doExit = true ↔
        ¬EndsAt (2 * samples.toNat) blocks)) ∧
    ∀ (outBlockSize : UInt32) (blocks : List Block),
      (∀ block ∈ blocks, block.Complete ∧ block.len = outBlockSize) →
      2 * samples.toNat ≤ total blocks →
      let s := syncLoop outBlockSize (start samples) (blocks.map SyncRead.read)
      (s.file = (concat blocks).take (2 * samples.toNat) ∧ s.doExit = true ↔
        ¬outBlockSize.toNat ∣ 2 * samples.toNat) := by
  constructor
  · intro blocks complete enough
    exact (recorded_run samples some fits blocks complete).right_iff enough
  · intro outBlockSize blocks full enough s
    obtain ⟨file, exits⟩ := syncLoop_eq outBlockSize blocks full (start samples) (start samples)
      rfl rfl rfl
    have recorded := recorded_run samples some fits blocks fun block member =>
      (full block member).1
    rw [show s.file = _ from file, show s.doExit = _ from exits, recorded.right_iff enough,
      endsAt_full _ (by omega) outBlockSize blocks full enough]

/-- A full-size block of equal bytes. -/
def plainBlock (byte : UInt8) : Block where
  bytes := List.replicate 512 byte
  accepts := 512
  nonempty := by
    rw [List.length_replicate]
    decide
  fits := by
    rw [List.length_replicate]
    decide

theorem capture_three_hundred :
    ([plainBlock 1, plainBlock 2].foldl rtlsdrCallback (start 300)).file =
        List.replicate 512 1 ++ List.replicate 88 2 ∧
      (syncLoop 512 (start 300) [.read (plainBlock 1), .read (plainBlock 2)]).doExit = true := by
  obtain ⟨async, sync⟩ := capture_iff 300 (by decide) (by decide)
  constructor
  · have right := (async [plainBlock 1, plainBlock 2] (by decide +kernel)
      (by decide +kernel)).mpr ?_
    · rw [right.1]
      decide +kernel
    · rw [endsAt_full (2 * UInt32.toNat 300) (by decide) 512 [plainBlock 1, plainBlock 2]
        (by decide +kernel) (by decide +kernel)]
      decide
  · exact ((sync 512 [plainBlock 1, plainBlock 2] (by decide +kernel) (by decide +kernel)).mpr
      (by decide)).2

/-- 256 samples are the 512 bytes of one block: the next block is recorded as well, in both
modes, and the recording has not ended. -/
theorem capture_goes_on :
    let async := [plainBlock 1, plainBlock 2].foldl rtlsdrCallback (start 256)
    let sync := syncLoop 512 (start 256) [.read (plainBlock 1), .read (plainBlock 2)]
    (async.file.length = 1024 ∧ async.doExit = false) ∧
      sync.file.length = 1024 ∧ sync.doExit = false := by
  decide +kernel

end RtlSdr.Capture
