import RtlSdr.Lib.Memory
import Mathlib.Data.List.GetD
import Mathlib.Data.Nat.ModEq

/-!
# The copying ring of `rtl_ring.c`

One mutex guards every operation, so each call is one atomic function of the ring.
Sequence numbers, generations and the retained count are `uint64_t`; the ring
carries the bounds that keep `next_seq - retained` from wrapping.
-/
namespace RtlSdr

def uint64Max : Nat := 2 ^ 64 - 1

def sizeMax : Nat := 2 ^ 64 - 1

/-- `a - b` on `uint64_t`. -/
def sub64 (a b : Nat) : Nat := (a + 2 ^ 64 - b) % 2 ^ 64

theorem sub64_of_le (a b : Nat) (le : b ≤ a) (bound : a < 2 ^ 64) : sub64 a b = a - b := by
  unfold sub64
  rw [show a + 2 ^ 64 - b = (a - b) + 2 ^ 64 by omega, Nat.add_mod_right]
  exact Nat.mod_eq_of_lt (by omega)

/-- `struct rtlsdr_ring_cursor`. -/
structure Cursor where
  nextSeq : Nat
  generation : Nat
deriving DecidableEq, Repr

/-- `struct rtlsdr_ring` with the facts every operation maintains. -/
@[ext] structure Ring where
  data : List UInt8
  slotLens : List Nat
  slotCount : Nat
  slotSize : Nat
  nextSeq : Nat
  generation : Nat
  retained : Nat
  slotCount_pos : 0 < slotCount
  slotSize_pos : 0 < slotSize
  data_length : data.length = slotCount * slotSize
  slotLens_length : slotLens.length = slotCount
  slotLens_le : ∀ len ∈ slotLens, len ≤ slotSize
  nextSeq_le : nextSeq ≤ uint64Max
  generation_lt : generation < 2 ^ 64
  retained_le : retained ≤ slotCount
  retained_le_nextSeq : retained ≤ nextSeq

/-- `enum rtlsdr_ring_result`. -/
inductive RingResult
  | error
  | empty
  | data
  | gap
deriving DecidableEq, Repr

/-- `rtlsdr_ring_create`. The heap answers with uninitialised bytes, or not at all. -/
def ringCreate (slotCount slotSize : Nat) (heap : Option (Nat → UInt8)) : Option Ring :=
  if reject : slotCount = 0 ∨ slotSize = 0 ∨ slotCount > sizeMax / slotSize ∨
      slotCount > sizeMax / 8 then none
  else
    match heap with
    | none => none
    | some bytes => some
      { data := (List.range (slotCount * slotSize)).map bytes
        slotLens := List.replicate slotCount 0
        slotCount, slotSize
        nextSeq := 0
        generation := 1
        retained := 0
        slotCount_pos := by omega
        slotSize_pos := by omega
        data_length := by simp
        slotLens_length := by simp
        slotLens_le := by
          intro len member
          rw [List.eq_of_mem_replicate member]
          exact Nat.zero_le _
        nextSeq_le := Nat.zero_le _
        generation_lt := by decide
        retained_le := Nat.zero_le _
        retained_le_nextSeq := Nat.le_refl _ }

/-- The rollover branch of `rtlsdr_ring_write_copy`. -/
def Ring.rollOver (r : Ring) : Ring :=
  { r with
    generation := (r.generation + 1) % 2 ^ 64
    nextSeq := 0
    retained := 0
    nextSeq_le := Nat.zero_le _
    generation_lt := Nat.mod_lt _ (by decide)
    retained_le := Nat.zero_le _
    retained_le_nextSeq := Nat.le_refl _ }

variable (r : Ring) (src : List UInt8)

theorem Ring.slot_lt (seq : Nat) : seq % r.slotCount < r.slotCount :=
  Nat.mod_lt _ r.slotCount_pos

theorem Ring.slot_fits (seq len : Nat) (fits : len ≤ r.slotSize) :
    seq % r.slotCount * r.slotSize + len ≤ r.data.length := by
  have bound := Nat.mul_le_mul_right r.slotSize (Nat.succ_le_of_lt (r.slot_lt seq))
  rw [Nat.succ_mul] at bound
  rw [r.data_length]
  omega

/-- The copy into the next slot and the counter updates of `rtlsdr_ring_write_copy`. -/
def Ring.store (r : Ring) (src : List UInt8) (fits : src.length ≤ r.slotSize)
    (room : r.nextSeq < uint64Max) : Ring :=
  let slot := r.nextSeq % r.slotCount
  { r with
    data := Memory.splice r.data (slot * r.slotSize) src
    slotLens := r.slotLens.set slot src.length
    nextSeq := r.nextSeq + 1
    retained := if r.retained < r.slotCount then r.retained + 1 else r.retained
    data_length := by
      rw [Memory.splice_length _ _ _ (r.slot_fits r.nextSeq _ fits), r.data_length]
    slotLens_length := by rw [List.length_set, r.slotLens_length]
    slotLens_le := by
      intro len member
      rcases List.mem_or_eq_of_mem_set member with old | rfl
      · exact r.slotLens_le len old
      · exact fits
    nextSeq_le := room
    retained_le := by have := r.retained_le; split <;> omega
    retained_le_nextSeq := by have := r.retained_le_nextSeq; split <;> omega }

/-- `rtlsdr_ring_write_copy`; `none` is the return value -1, which leaves the ring alone. -/
def ringWriteCopy (r : Ring) (src : List UInt8) : Option Ring :=
  if fits : src.length ≤ r.slotSize then
    if src.length = 0 then some r
    else if full : r.nextSeq = uint64Max then
      some (r.rollOver.store src fits (by show 0 < uint64Max; decide))
    else some (r.store src fits (by have := r.nextSeq_le; omega))
  else none

def ringCursorNow (r : Ring) : Cursor := ⟨r.nextSeq, r.generation⟩

/-- What `rtlsdr_ring_read_copy` leaves in its out-parameters. -/
structure ReadCopy where
  result : RingResult
  cursor : Cursor
  dst : List UInt8
  len : Nat
deriving DecidableEq, Repr

/-- The bytes a `RTL_RING_DATA` result hands to the reader. -/
def ReadCopy.block (out : ReadCopy) : List UInt8 := out.dst.take out.len

/-- `rtlsdr_ring_read_copy` with a destination of `dst.length` bytes. -/
def ringReadCopy (r : Ring) (cursor : Cursor) (dst : List UInt8) : ReadCopy :=
  if cursor.generation ≠ r.generation ∨ cursor.nextSeq < sub64 r.nextSeq r.retained then
    ⟨.gap, cursor, dst, 0⟩
  else if cursor.nextSeq = r.nextSeq then ⟨.empty, cursor, dst, 0⟩
  else if cursor.nextSeq < r.nextSeq then
    let slot := cursor.nextSeq % r.slotCount
    let bytes := r.slotLens.getD slot 0
    if bytes ≤ dst.length then
      ⟨.data, { cursor with nextSeq := cursor.nextSeq + 1 },
        Memory.splice dst 0 (Memory.slice r.data (slot * r.slotSize) bytes), bytes⟩
    else ⟨.error, cursor, dst, 0⟩
  else ⟨.error, cursor, dst, 0⟩

def ringMarkGap (r : Ring) : Ring :=
  { r with
    generation := (r.generation + 1) % 2 ^ 64
    retained := 0
    generation_lt := Nat.mod_lt _ (by decide)
    retained_le := Nat.zero_le _
    retained_le_nextSeq := Nat.zero_le _ }

/-- A block is stored iff the call is accepted and not empty. -/
def Ring.accepts (r : Ring) (src : List UInt8) : Bool :=
  decide (0 < src.length ∧ src.length ≤ r.slotSize)

/-- The write that finds `next_seq == UINT64_MAX` starts a new generation. -/
def Ring.rollsOver (r : Ring) (src : List UInt8) : Bool :=
  r.accepts src && decide (r.nextSeq = uint64Max)

/-! ### One lemma per operation -/

@[simp] theorem store_slotSize (fits : src.length ≤ r.slotSize) (room : r.nextSeq < uint64Max) :
    (r.store src fits room).slotSize = r.slotSize := rfl

@[simp] theorem ringMarkGap_slotSize :
    (ringMarkGap r).slotSize = r.slotSize := rfl

theorem ringWriteCopy_slotSize (r' : Ring) (src : List UInt8)
    (returned : ringWriteCopy r src = some r') : r'.slotSize = r.slotSize := by
  unfold ringWriteCopy at returned
  split at returned
  · split at returned
    · cases returned; rfl
    · split at returned <;> cases returned <;> rfl
  · cases returned

theorem ringWriteCopy_cases :
    (r.accepts src = false ∧ (ringWriteCopy r src).getD r = r) ∨
    (∃ fits room, r.accepts src = true ∧ r.rollsOver src = false ∧
      ringWriteCopy r src = some (r.store src fits room)) ∨
    (∃ fits room, r.accepts src = true ∧ r.rollsOver src = true ∧
      ringWriteCopy r src = some (r.rollOver.store src fits room)) := by
  unfold ringWriteCopy
  by_cases fits : src.length ≤ r.slotSize
  · by_cases blank : src.length = 0
    · left
      simp [Ring.accepts, blank]
    · have accepted : r.accepts src = true := by simp [Ring.accepts]; omega
      by_cases full : r.nextSeq = uint64Max
      · right; right
        refine ⟨fits, by show 0 < uint64Max; decide, accepted, ?_, ?_⟩
        · simp [Ring.rollsOver, accepted, full]
        · simp [fits, blank, full]
      · right; left
        have room : r.nextSeq < uint64Max := Nat.lt_of_le_of_ne r.nextSeq_le full
        refine ⟨fits, room, accepted, ?_, ?_⟩
        · simp [Ring.rollsOver, full]
        · simp [fits, blank, full]
  · left
    simp [Ring.accepts, fits]

/-! ### Following a cursor -/

/-- Slot `seq mod slot_count` still carries the block written under `seq`. -/
structure Ring.Holds (r : Ring) (seq : Nat) (block : List UInt8) : Prop where
  len : r.slotLens.getD (seq % r.slotCount) 0 = block.length
  bytes : Memory.slice r.data (seq % r.slotCount * r.slotSize) block.length = block

theorem Ring.Holds.length_le {r : Ring} {seq : Nat} {block : List UInt8}
    (holds : r.Holds seq block) : block.length ≤ r.slotSize := by
  have bound : seq % r.slotCount < r.slotLens.length := by
    rw [r.slotLens_length]
    exact r.slot_lt _
  rw [← holds.len, List.getD_eq_getElem _ _ bound]
  exact r.slotLens_le _ (List.getElem_mem bound)

/-- The cursor belongs to the ring's generation and is owed the blocks `pending`, of
which the most recent `retained` are still in their slots. -/
structure Tracks (r : Ring) (c : Cursor) (pending : List (List UInt8)) : Prop where
  generation : c.generation = r.generation
  nextSeq : r.nextSeq = c.nextSeq + pending.length
  held : ∀ k (bound : k < pending.length), pending.length ≤ r.retained + k →
    r.Holds (c.nextSeq + k) (pending.get ⟨k, bound⟩)

theorem ringCursorNow_tracks :
    Tracks r (ringCursorNow r) [] where
  generation := rfl
  nextSeq := rfl
  held := fun k bound => absurd bound (Nat.not_lt_zero k)

/-- Two sequence numbers less than one revolution apart use different slots. -/
private theorem slot_ne (old new : Nat) (below : old < new) (within : new < old + r.slotCount) :
    new % r.slotCount ≠ old % r.slotCount := by
  intro same
  have congruent : old ≡ new [MOD r.slotCount] := same.symm
  have divides := (Nat.modEq_iff_dvd' (Nat.le_of_lt below)).mp congruent
  have := Nat.le_of_dvd (by omega) divides
  omega

theorem store_holds_new (fits : src.length ≤ r.slotSize) (room : r.nextSeq < uint64Max) :
    (r.store src fits room).Holds r.nextSeq src where
  len := by
    have bound : r.nextSeq % r.slotCount < r.slotLens.length := by
      rw [r.slotLens_length]; exact r.slot_lt _
    simp [Ring.store, List.getD_eq_getElem?_getD, bound]
  bytes := by
    apply Memory.slice_splice_self
    have := r.slot_fits r.nextSeq 0 (Nat.zero_le _)
    omega

theorem store_holds_old (fits : src.length ≤ r.slotSize) (room : r.nextSeq < uint64Max)
    (seq : Nat) (block : List UInt8) (holds : r.Holds seq block) (below : seq < r.nextSeq)
    (within : r.nextSeq < seq + r.slotCount) : (r.store src fits room).Holds seq block := by
  have distinct := slot_ne r seq r.nextSeq below within
  constructor
  · simpa [Ring.store, List.getD_eq_getElem?_getD, List.getElem?_set_ne distinct] using holds.len
  · refine Eq.trans ?_ holds.bytes
    apply Memory.slice_splice_slot _ _ _ _ _ _ distinct fits holds.length_le
    have := r.slot_fits r.nextSeq 0 (Nat.zero_le _)
    omega

theorem store_tracks (fits : src.length ≤ r.slotSize) (room : r.nextSeq < uint64Max) (c : Cursor)
    (pending : List (List UInt8)) (tracks : Tracks r c pending) :
    Tracks (r.store src fits room) c (pending ++ [src]) where
  generation := tracks.generation
  nextSeq := by
    have seq := tracks.nextSeq
    simp only [Ring.store, List.length_append, List.length_singleton]
    omega
  held := by
    intro k bound recent
    have seq := tracks.nextSeq
    have window := r.retained_le
    simp only [List.length_append, List.length_singleton] at bound recent
    by_cases last : k = pending.length
    · have here : c.nextSeq + k = r.nextSeq := by omega
      have item : (pending ++ [src]).get ⟨k, by simp; omega⟩ = src := by simp [last]
      rw [item, here]
      exact store_holds_new r src fits room
    · have inside : k < pending.length := by omega
      have item : (pending ++ [src]).get ⟨k, by simp; omega⟩ = pending.get ⟨k, inside⟩ := by
        simp [inside]
      have kept : pending.length ≤ r.retained + k ∧ pending.length < r.slotCount + k := by
        simp only [Ring.store] at recent
        split at recent <;> omega
      rw [item]
      exact store_holds_old r src fits room _ _ (tracks.held k inside kept.1) (by omega) (by omega)

/-- A read through a tracked cursor answers exactly as a queue of the owed blocks
would, as long as the next one is retained. -/
theorem ringReadCopy_tracks (c : Cursor) (pending : List (List UInt8)) (dst : List UInt8)
    (tracks : Tracks r c pending) (capacity : r.slotSize ≤ dst.length) :
    (r.retained < pending.length ∧ ringReadCopy r c dst = ⟨.gap, c, dst, 0⟩) ∨
    (pending = [] ∧ ringReadCopy r c dst = ⟨.empty, c, dst, 0⟩) ∨
    (∃ block rest, pending = block :: rest ∧ pending.length ≤ r.retained ∧
      (ringReadCopy r c dst).result = .data ∧ (ringReadCopy r c dst).block = block ∧
      block.length ≤ r.slotSize ∧ Tracks r (ringReadCopy r c dst).cursor rest) := by
  have seq := tracks.nextSeq
  have low := sub64_of_le r.nextSeq r.retained r.retained_le_nextSeq
    (by have := r.nextSeq_le; unfold uint64Max at this; omega)
  have age := r.retained_le_nextSeq
  have sameGeneration : ¬c.generation ≠ r.generation := fun differs => differs tracks.generation
  by_cases overrun : r.retained < pending.length
  · left
    refine ⟨overrun, ?_⟩
    rw [ringReadCopy, if_pos (Or.inr (by omega))]
  · right
    have live : ¬(c.generation ≠ r.generation ∨ c.nextSeq < sub64 r.nextSeq r.retained) := by
      rintro (differs | behind)
      · exact sameGeneration differs
      · omega
    cases pending with
    | nil =>
      left
      refine ⟨rfl, ?_⟩
      rw [ringReadCopy, if_neg live, if_pos (by simpa using seq.symm)]
    | cons block rest =>
      right
      simp only [List.length_cons] at seq overrun
      have holds := tracks.held 0 (by simp) (by simp; omega)
      simp only [Nat.add_zero, List.get_eq_getElem, List.getElem_cons_zero] at holds
      have blockFits := holds.length_le
      have read : ringReadCopy r c dst = ⟨.data, { c with nextSeq := c.nextSeq + 1 },
          Memory.splice dst 0 block, block.length⟩ := by
        rw [ringReadCopy, if_neg live, if_neg (by omega), if_pos (by omega)]
        simp only [holds.len, holds.bytes, if_pos (Nat.le_trans blockFits capacity)]
      refine ⟨block, rest, rfl, by simpa using by omega, by rw [read], ?_, blockFits, ?_⟩
      · rw [read, ReadCopy.block, Memory.splice, List.take_zero, List.nil_append, List.take_left]
      · rw [read]
        refine ⟨tracks.generation, by simp only; omega, ?_⟩
        intro k kBound recent
        have later := tracks.held (k + 1) (by simpa using kBound)
          (by simp only [List.length_cons]; omega)
        simpa [Nat.add_assoc, Nat.add_comm 1 k] using later

theorem ringReadCopy_len (c : Cursor) (dst : List UInt8) :
    (ringReadCopy r c dst).len = (ringReadCopy r c dst).block.length := by
  unfold ReadCopy.block ringReadCopy
  split_ifs
  · rfl
  · rfl
  · simp only
    split_ifs
    · simp only [Memory.splice, List.take_zero, List.nil_append, List.length_take,
        List.length_append, List.length_drop]
      omega
    · rfl
  · rfl

/-- A cursor of another generation only ever sees a gap. -/
theorem ringReadCopy_stale (c : Cursor) (dst : List UInt8) (stale : c.generation ≠ r.generation) :
    ringReadCopy r c dst = ⟨.gap, c, dst, 0⟩ := by
  rw [ringReadCopy, if_pos (Or.inl stale)]

/-- Fewer than `2^64` increments never bring a generation back. -/
theorem generation_ne_of_increments (generation increments : Nat)
    (some : 0 < increments) (few : increments < 2 ^ 64) :
    generation ≠ (generation + increments) % 2 ^ 64 := by
  intro same
  by_cases wraps : generation + increments < 2 ^ 64
  · rw [Nat.mod_eq_of_lt wraps] at same; omega
  · rw [Nat.mod_eq_sub_mod (by omega), Nat.mod_eq_of_lt (by omega)] at same; omega

end RtlSdr
