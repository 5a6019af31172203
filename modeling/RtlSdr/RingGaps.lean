import RtlSdr.RingDelivery

/-!
# Gaps of the ring

A reader that keeps to one cursor is told of a gap exactly when it has lost something, or may have.
The ring decides this by `retained`, which starts again from zero at a marked gap; a cursor that was
taken later is not misled by that, since `retained` counts the blocks written since.
-/
namespace RtlSdr

/-! ### Increments of the generation -/

/-- A call that marks a gap, or a write with which the sequence rolls over. -/
def RingSystem.Ages (s : RingSystem) : RingCall → Prop
  | .writeCopy src => s.ring.rollsOver src = true
  | .markGap => True
  | .cursorNow _ | .readCopy _ _ => False

/-- One of the calls ages every cursor taken before. -/
def Aged (s : RingSystem) (calls : List RingCall) : Prop :=
  ∃ earlier call later, calls = earlier ++ call :: later ∧ (ringRun s earlier).1.Ages call

theorem increments_pos_iff (s : RingSystem) (call : RingCall) :
    0 < s.increments call ↔ s.Ages call := by
  cases call with
  | writeCopy src =>
    rw [RingSystem.increments, RingSystem.Ages]
    split <;> simp_all
  | markGap => exact iff_of_true Nat.one_pos trivial
  | cursorNow reader | readCopy reader dst => exact iff_of_false (Nat.lt_irrefl 0) id

theorem generationIncrements_pos_iff (s : RingSystem) (calls : List RingCall) :
    0 < generationIncrements s calls ↔ Aged s calls := by
  induction calls generalizing s with
  | nil =>
    refine iff_of_false (Nat.lt_irrefl 0) ?_
    rintro ⟨earlier, call, later, split, _⟩
    simp at split
  | cons first calls ih =>
    rw [generationIncrements, Nat.add_pos_iff_pos_or_pos, increments_pos_iff, ih]
    constructor
    · rintro (here | ⟨earlier, call, later, rfl, ages⟩)
      · exact ⟨[], first, calls, rfl, here⟩
      · exact ⟨first :: earlier, call, later, rfl, ages⟩
    · rintro ⟨earlier, call, later, split, ages⟩
      cases earlier with
      | nil =>
        obtain ⟨rfl, -⟩ := List.cons.inj split
        exact .inl ages
      | cons head earlier =>
        obtain ⟨rfl, rfl⟩ := List.cons.inj split
        exact .inr ⟨earlier, call, later, rfl, ages⟩

/-! ### How far a cursor is behind -/

/-- The cursor is of the ring's generation and has returned `received` of the `written` blocks
since it was taken. -/
structure Level (r : Ring) (c : Cursor) (written received : Nat) : Prop where
  generation : c.generation = r.generation
  nextSeq : r.nextSeq + received = c.nextSeq + written
  received_le : received ≤ written
  /-- What was written since is retained, up to the number of slots. -/
  window : min r.slotCount written ≤ r.retained

theorem ringCursorNow_level (r : Ring) : Level r (ringCursorNow r) 0 0 where
  generation := rfl
  nextSeq := rfl
  received_le := Nat.le_refl 0
  window := by
    rw [Nat.min_zero]
    exact Nat.zero_le _

variable {c : Cursor} {r : Ring} {received written i : Nat}

theorem Level.store (level : Level r c written received) (src : List UInt8)
    (fits : src.length ≤ r.slotSize) (room : r.nextSeq < uint64Max) :
    Level (r.store src fits room) c (written + 1) received where
  generation := level.generation
  nextSeq := by
    have seq := level.nextSeq
    simp only [Ring.store]
    omega
  received_le := Nat.le_succ_of_le level.received_le
  window := by
    have window := level.window
    have full := r.retained_le
    simp only [Ring.store]
    split <;> omega

/-- The sequence numbers differ by what is waiting, so the check for a gap compares that with
what is retained. -/
theorem Level.gap_iff (level : Level r c written received) (dst : List UInt8) :
    (ringReadCopy r c dst).result = .gap ↔ r.slotCount < written - received := by
  have seq := level.nextSeq
  have within := level.received_le
  have window := level.window
  have full := r.retained_le
  have age := r.retained_le_nextSeq
  have low := sub64_of_le r.nextSeq r.retained age
    (by have := r.nextSeq_le; unfold uint64Max at this; omega)
  have lost : (c.generation ≠ r.generation ∨ c.nextSeq < sub64 r.nextSeq r.retained) ↔
      r.slotCount < written - received := by
    rw [low]
    constructor
    · rintro (differs | behind)
      · exact absurd level.generation differs
      · omega
    · intro more
      exact .inr (by omega)
  rw [← lost, ringReadCopy]
  by_cases gap : c.generation ≠ r.generation ∨ c.nextSeq < sub64 r.nextSeq r.retained
  · rw [if_pos gap]
    exact iff_of_true rfl gap
  · rw [if_neg gap]
    refine iff_of_false ?_ gap
    -- the other answers
    dsimp only
    split_ifs <;> simp

theorem ringReadCopy_cursor (r : Ring) (c : Cursor) (dst : List UInt8) :
    ((ringReadCopy r c dst).result = .data ∧ c.nextSeq < r.nextSeq ∧
      (ringReadCopy r c dst).cursor = { c with nextSeq := c.nextSeq + 1 }) ∨
    ((ringReadCopy r c dst).result ≠ .data ∧ (ringReadCopy r c dst).cursor = c ∧
      (ringReadCopy r c dst).dst = dst ∧ (ringReadCopy r c dst).len = 0) := by
  unfold ringReadCopy
  dsimp only
  split_ifs with gap empty ahead room
  · exact .inr ⟨by simp, rfl, rfl, rfl⟩
  · exact .inr ⟨by simp, rfl, rfl, rfl⟩
  · exact .inl ⟨rfl, ahead, rfl⟩
  · exact .inr ⟨by simp, rfl, rfl, rfl⟩
  · exact .inr ⟨by simp, rfl, rfl, rfl⟩

theorem Level.read (level : Level r c written received) (dst : List UInt8) :
    Level r (ringReadCopy r c dst).cursor written
      (received + if (ringReadCopy r c dst).result = .data then 1 else 0) := by
  have seq := level.nextSeq
  rcases ringReadCopy_cursor r c dst with ⟨data, ahead, moved⟩ | ⟨other, stays, -⟩
  · rw [if_pos data, moved]
    refine ⟨level.generation, ?_, ?_, level.window⟩
    · dsimp only
      omega
    · omega
  · rw [if_neg other, stays]
    exact level

/-! ### Along a run -/

/-- What holds of reader `i` since it took its cursor, whatever its buffers are. -/
structure Backlog (slotCount slotSize i : Nat) (start : RingSystem) (calls : List RingCall)
    (reached : RingSystem × List RingReply) : Prop where
  counted : reached.1.ring.slotCount = slotCount
  sized : reached.1.ring.slotSize = slotSize
  level : generationIncrements start calls = 0 →
    Level reached.1.ring (reached.1.cursors i) (writtenBlocks slotSize calls).length
      (receivedBlocks i reached.2).length
  aged : reached.1.ring.generation =
    ((reached.1.cursors i).generation + generationIncrements start calls) % 2 ^ 64

theorem backlog_start (s : RingSystem) (i : Nat) :
    Backlog s.ring.slotCount s.ring.slotSize i (ringCall s (.cursorNow i)).1 []
      ((ringCall s (.cursorNow i)).1, []) where
  counted := rfl
  sized := rfl
  level _ := by
    simp only [ringCall, Function.update_self]
    exact ringCursorNow_level s.ring
  aged := by
    simp only [ringCall, Function.update_self, ringCursorNow, generationIncrements]
    exact (Nat.mod_eq_of_lt s.ring.generation_lt).symm

section Step

variable {slotCount slotSize i : Nat} {start : RingSystem} {calls : List RingCall}
  {reached : RingSystem × List RingReply}
  (backlog : Backlog slotCount slotSize i start calls reached)
include backlog

theorem Backlog.write (here : reached = ringRun start calls) (src : List UInt8) :
    Backlog slotCount slotSize i start (calls ++ [RingCall.writeCopy src])
      ((ringCall reached.1 (.writeCopy src)).1,
        reached.2 ++ (ringCall reached.1 (.writeCopy src)).2) := by
  obtain ⟨next, accepted, reply⟩ := ringCall_write reached.1 src
  have received := receivedBlocks_quiet i reached.2 (.wrote accepted) (by simp)
  have written : (writtenBlocks slotSize (calls ++ [RingCall.writeCopy src])).length =
      (writtenBlocks slotSize calls).length +
        if reached.1.ring.accepts src then 1 else 0 := by
    rw [writtenBlocks_write slotSize calls reached.1.ring backlog.sized, List.length_append]
    split <;> rfl
  have count : generationIncrements start (calls ++ [RingCall.writeCopy src]) =
      generationIncrements start calls + if reached.1.ring.rollsOver src then 1 else 0 := by
    rw [generationIncrements_concat, ← here]
    rfl
  obtain ⟨slots, size⟩ := ringWriteCopy_slots reached.1.ring src
  have aged := backlog.aged
  rw [next, reply]
  refine ⟨slots.trans backlog.counted, size.trans backlog.sized, ?_, ?_⟩
  · rw [count, received, written]
    intro young
    have level := backlog.level (by omega)
    rcases ringWriteCopy_cases reached.1.ring src with ⟨refused, same⟩ |
      ⟨fits, room, taken, _, stored⟩ | ⟨_, _, _, rolls, _⟩
    · rw [same, refused]
      exact level
    · rw [stored, taken]
      exact level.store src fits room
    · rw [if_pos rolls] at young
      omega
  · rw [count]
    dsimp only
    rcases ringWriteCopy_cases reached.1.ring src with ⟨refused, same⟩ |
      ⟨_, _, _, stays, stored⟩ | ⟨_, _, _, rolls, stored⟩
    · rw [same, Ring.rollsOver, refused]
      exact aged
    · rw [stored, stays]
      exact aged
    · rw [stored, if_pos rolls, ← Nat.add_assoc, ← Nat.mod_add_mod, ← aged]
      rfl

theorem Backlog.markGap :
    Backlog slotCount slotSize i start (calls ++ [RingCall.markGap])
      ((ringCall reached.1 .markGap).1, reached.2 ++ (ringCall reached.1 .markGap).2) := by
  have count : generationIncrements start (calls ++ [RingCall.markGap]) =
      generationIncrements start calls + 1 := generationIncrements_concat start calls _
  refine ⟨backlog.counted, backlog.sized, ?_, ?_⟩
  · rw [count]
    intro young
    omega
  · rw [count, ← Nat.add_assoc, ← Nat.mod_add_mod]
    change (reached.1.ring.generation + 1) % 2 ^ 64 = _
    rw [backlog.aged]
    rfl

theorem Backlog.read (dst : List UInt8) :
    Backlog slotCount slotSize i start (calls ++ [RingCall.readCopy i dst])
      ((ringCall reached.1 (.readCopy i dst)).1,
        reached.2 ++ (ringCall reached.1 (.readCopy i dst)).2) := by
  have count : generationIncrements start (calls ++ [RingCall.readCopy i dst]) =
      generationIncrements start calls := generationIncrements_concat start calls _
  have written := writtenBlocks_quiet slotSize calls (.readCopy i dst) (by simp)
  refine ⟨backlog.counted, backlog.sized, ?_, ?_⟩
  · rw [count, written]
    intro young
    have level := (backlog.level young).read dst
    simp only [ringCall, Function.update_self, receivedBlocks_append, receivedBlocks, true_and,
      List.length_append]
    split at level <;> split <;> simp_all
  · rw [count]
    simp only [ringCall, Function.update_self]
    rcases ringReadCopy_cursor reached.1.ring (reached.1.cursors i) dst with
      ⟨_, _, moved⟩ | ⟨_, stays, -⟩
    · rw [moved]
      exact backlog.aged
    · rw [stays]
      exact backlog.aged

theorem Backlog.other (call : RingCall) (cursors : Nat → Cursor) (reply : RingReply)
    (stepped : ringCall reached.1 call = ({ reached.1 with cursors }, [reply]))
    (untouched : cursors i = reached.1.cursors i) (quiet : Quiet i call reply) :
    Backlog slotCount slotSize i start (calls ++ [call])
      ((ringCall reached.1 call).1, reached.2 ++ (ringCall reached.1 call).2) := by
  have written := writtenBlocks_quiet slotSize calls call quiet.noWrite
  have received := receivedBlocks_quiet i reached.2 reply quiet.unanswered
  have count := generationIncrements_concat start calls call
  rw [quiet.increments, Nat.add_zero] at count
  rw [stepped]
  refine ⟨backlog.counted, backlog.sized, ?_, ?_⟩
  · rw [count, written, received]
    simpa only [untouched] using backlog.level
  · rw [count]
    simpa only [untouched] using backlog.aged

omit backlog in
theorem backlog_step (call : RingCall)
    (backlog : Backlog slotCount slotSize i start calls (ringRun start calls))
    (keeps : call ≠ .cursorNow i) :
    Backlog slotCount slotSize i start (calls ++ [call]) (ringRun start (calls ++ [call])) := by
  rw [ringRun, Transducer.run_concat]
  cases call with
  | writeCopy src => exact backlog.write rfl src
  | markGap => exact backlog.markGap
  | cursorNow j =>
    have other : i ≠ j := fun same => keeps (same ▸ rfl)
    exact backlog.other _ _ _ rfl (Function.update_of_ne other _ _) (quiet_cursorNow i j)
  | readCopy j dst =>
    by_cases same : j = i
    · subst same
      exact backlog.read dst
    · exact backlog.other _ _ _ rfl (Function.update_of_ne (Ne.symm same) _ _)
        (quiet_readCopy i j dst _ same)

end Step

theorem backlog_run (s : RingSystem) (i : Nat) (calls : List RingCall)
    (keeps : ∀ call ∈ calls, call ≠ .cursorNow i) :
    Backlog s.ring.slotCount s.ring.slotSize i (ringCall s (.cursorNow i)).1 calls
      (ringRun (ringCall s (.cursorNow i)).1 calls) := by
  apply Transducer.run_history ringCall _ _ (backlog_start s i) calls
  intro before call after split backlog
  exact backlog_step call backlog (keeps call (by simp [split]))

variable {start : RingSystem} {calls : List RingCall}

/-- The answer at any point of a run, by the calls since the cursor was taken. -/
theorem Backlog.gap_iff {slotCount slotSize : Nat} {reached : RingSystem × List RingReply}
    (backlog : Backlog slotCount slotSize i start calls reached)
    (few : generationIncrements start calls < 2 ^ 64) (dst : List UInt8) :
    (ringReadCopy reached.1.ring (reached.1.cursors i) dst).result = .gap ↔
      Aged start calls ∨ slotCount < (writtenBlocks slotSize calls).length -
        (receivedBlocks i reached.2).length := by
  rw [← generationIncrements_pos_iff]
  rcases Nat.eq_zero_or_pos (generationIncrements start calls) with young | aged
  · rw [(backlog.level young).gap_iff dst, backlog.counted, young]
    simp
  · have stale : (reached.1.cursors i).generation ≠ reached.1.ring.generation := by
      rw [backlog.aged]
      exact generation_ne_of_increments _ _ aged few
    rw [ringReadCopy_stale _ _ dst stale]
    exact iff_of_true rfl (.inl aged)

theorem Aged.append {s : RingSystem} (aged : Aged s calls) (more : List RingCall) :
    Aged s (calls ++ more) := by
  obtain ⟨earlier, call, later, rfl, ages⟩ := aged
  exact ⟨earlier, call, later ++ more, by simp, ages⟩

/-- What is waiting for a cursor does not get less while its reads report a gap. -/
theorem gap_sticks {slotCount slotSize : Nat}
    (run : ∀ more, (∀ call ∈ more, call ≠ .cursorNow i) →
      Backlog slotCount slotSize i start (calls ++ more) (ringRun start (calls ++ more)))
    (more : List RingCall) (keeps : ∀ call ∈ more, call ≠ .cursorNow i)
    (few : generationIncrements start (calls ++ more) < 2 ^ 64)
    (gap : Aged start calls ∨ slotCount < (writtenBlocks slotSize calls).length -
      (receivedBlocks i (ringRun start calls).2).length) :
    Aged start (calls ++ more) ∨ slotCount < (writtenBlocks slotSize (calls ++ more)).length -
      (receivedBlocks i (ringRun start (calls ++ more)).2).length := by
  induction more using List.reverseRecOn with
  | nil => simpa using gap
  | append_singleton more call ih =>
    have keeps' : ∀ other ∈ more, other ≠ .cursorNow i := fun other member =>
      keeps other (by simp [member])
    have few' : generationIncrements start (calls ++ more) < 2 ^ 64 := by
      rw [← List.append_assoc, generationIncrements_append] at few
      omega
    have backlog := run more keeps'
    have before := ih keeps' few'
    rw [← List.append_assoc]
    rcases before with aged | behind
    · exact .inl (aged.append [call])
    · -- a read of this reader would report the gap, so none of them returns a block
      right
      have unread : (receivedBlocks i (ringRun start (calls ++ more ++ [call])).2).length =
          (receivedBlocks i (ringRun start (calls ++ more)).2).length := by
        rw [ringRun, Transducer.run_concat]
        cases call with
        | writeCopy src =>
          obtain ⟨_, accepted, reply⟩ :=
            ringCall_write (Transducer.run ringCall start (calls ++ more)).1 src
          rw [reply, receivedBlocks_quiet i _ _ (by simp)]
        | markGap => exact congrArg List.length (receivedBlocks_quiet i _ .marked (by simp))
        | cursorNow j =>
          exact congrArg List.length (receivedBlocks_quiet i _ (.positioned j) (by simp))
        | readCopy j dst =>
          by_cases same : j = i
          · subst same
            have reports := (backlog.gap_iff few' dst).mpr (.inr behind)
            rw [ringRun] at reports
            simp [ringCall, receivedBlocks_read, reports]
          · exact congrArg List.length
              (receivedBlocks_quiet i _ _ (quiet_readCopy i j dst _ same).unanswered)
      have grown : (writtenBlocks slotSize (calls ++ more)).length ≤
          (writtenBlocks slotSize (calls ++ more ++ [call])).length := by
        rw [writtenBlocks_append slotSize (calls ++ more), List.length_append]
        exact Nat.le_add_right _ _
      omega

/-- **Gaps**: a reader that keeps to the cursor it took is told of a gap exactly when one was
marked since, the sequence rolled over, or more blocks wait for it than there are slots. Any
answer but data leaves everything as it was, and after a gap every later answer is a gap. -/
theorem ring_gap_exact (slotCount slotSize : Nat) (heap : Option (Nat → UInt8)) (ring : Ring)
    (created : ringCreate slotCount slotSize heap = some ring) (cursors : Nat → Cursor)
    (reader : Nat) (before after : List RingCall)
    (keeps : ∀ call ∈ after, call ≠ .cursorNow reader)
    (few : generationIncrements ⟨ring, cursors⟩ (before ++ .cursorNow reader :: after) < 2 ^ 64)
    (earlier later : List RingCall) (dst : List UInt8)
    (here : after = earlier ++ .readCopy reader dst :: later) :
    let taken := (ringRun ⟨ring, cursors⟩ (before ++ [.cursorNow reader])).1
    let reached := ringRun taken earlier
    let out := ringReadCopy reached.1.ring (reached.1.cursors reader) dst
    (out.result = .gap ↔ Aged taken earlier ∨
      slotCount < (writtenBlocks slotSize earlier).length -
        (receivedBlocks reader reached.2).length) ∧
    (out.result ≠ .data → (ringCall reached.1 (.readCopy reader dst)).1 = reached.1 ∧
      out.dst = dst) ∧
    (out.result = .gap → ∀ middle dst' rest, later = middle ++ .readCopy reader dst' :: rest →
      let reached' := ringRun taken (earlier ++ .readCopy reader dst :: middle)
      (ringReadCopy reached'.1.ring (reached'.1.cursors reader) dst').result = .gap) := by
  intro taken reached out
  obtain ⟨slotsOf, sizeOf⟩ := ringCreate_slots _ _ _ _ created
  obtain ⟨slotsAt, sizeAt⟩ := ringRun_slots ⟨ring, cursors⟩ before
  have size := sizeAt.trans sizeOf
  have slots := slotsAt.trans slotsOf
  have start : taken = _ := ringRun_cursorNow ⟨ring, cursors⟩ before reader
  have fewAfter : generationIncrements taken after < 2 ^ 64 :=
    Nat.lt_of_le_of_lt (generationIncrements_since _ _ _ _) few
  have fewIn (calls rest : List RingCall) (split : after = calls ++ rest) :
      generationIncrements taken calls < 2 ^ 64 := by
    rw [split, generationIncrements_append] at fewAfter
    omega
  have run (calls : List RingCall) (kept : ∀ call ∈ calls, call ≠ .cursorNow reader) :
      Backlog slotCount slotSize reader taken calls (ringRun taken calls) := by
    have backlog := backlog_run (ringRun ⟨ring, cursors⟩ before).1 reader calls kept
    rwa [size, slots, ← start] at backlog
  have kept : ∀ call ∈ earlier, call ≠ .cursorNow reader := fun call member =>
    keeps call (by simp [here, member])
  have exactly := (run earlier kept).gap_iff (fewIn earlier _ here) dst
  refine ⟨exactly, ?_, ?_⟩
  · intro other
    rcases ringReadCopy_cursor reached.1.ring (reached.1.cursors reader) dst with
      ⟨data, -⟩ | ⟨_, stays, kept, -⟩
    · exact absurd data other
    · refine ⟨?_, kept⟩
      simp only [ringCall, stays, Function.update_eq_self]
  · intro gap middle dst' rest split reached'
    have whole : after = (earlier ++ .readCopy reader dst :: middle) ++
        .readCopy reader dst' :: rest := by
      rw [here, split]
      simp
    have keepsMiddle : ∀ call ∈ RingCall.readCopy reader dst :: middle,
        call ≠ .cursorNow reader := fun call member =>
      keeps call (by rw [whole]; simp only [List.mem_append]; exact .inl (.inr member))
    have fewMiddle := fewIn _ _ whole
    rw [(run _ fun call member => keeps call (by
      rw [whole]; exact List.mem_append_left _ member)).gap_iff fewMiddle dst']
    apply gap_sticks _ _ keepsMiddle fewMiddle (exactly.mp gap)
    intro more keepsMore
    apply run
    intro call member
    rcases List.mem_append.mp member with old | new
    · exact kept call old
    · exact keepsMore call new

/-- One slot: with two blocks waiting the reader is told of the gap, and again after it. -/
theorem ring_gap_exact_one_slot :
    ∃ ring, ringCreate 1 4 (some fun _ => 0) = some ring ∧
      let taken := (ringRun ⟨ring, fun _ => ⟨9, 9⟩⟩ [.writeCopy [7], .cursorNow 0]).1
      let reached := (ringRun taken [.writeCopy [1], .writeCopy [2]]).1
      (ringReadCopy reached.ring (reached.cursors 0) [0, 0, 0, 0]).result = .gap := by
  refine ⟨_, rfl, ?_⟩
  apply (ring_gap_exact 1 4 (some fun _ => 0) _ rfl (fun _ => ⟨9, 9⟩) 0 [.writeCopy [7]]
    [.writeCopy [1], .writeCopy [2], .readCopy 0 [0, 0, 0, 0]] (by decide) (by decide +kernel)
    [.writeCopy [1], .writeCopy [2]] [] [0, 0, 0, 0] rfl).1.mpr
  exact .inr (by decide +kernel)

end RtlSdr
