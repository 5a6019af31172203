import RtlSdr.Ring
import RtlSdr.Lib.Transducer

/-!
# Delivery through the ring

Any interleaving of one writer with any number of readers is a list of calls, each
atomic under the ring's mutex. A reader that keeps to one cursor is compared with
an unbounded queue of the blocks written since it took the cursor.
-/
namespace RtlSdr

/-- A call on the ring, by the writer or by a numbered reader with its own cursor. -/
inductive RingCall
  | writeCopy (src : List UInt8)
  | markGap
  | cursorNow (reader : Nat)
  | readCopy (reader : Nat) (dst : List UInt8)
deriving DecidableEq, Repr

inductive RingReply
  | wrote (accepted : Bool)
  | marked
  | positioned (reader : Nat)
  | read (reader : Nat) (out : ReadCopy)
deriving DecidableEq, Repr

/-- The ring and every reader's cursor variable. -/
structure RingSystem where
  ring : Ring
  cursors : Nat → Cursor

def ringCall (s : RingSystem) : RingCall → RingSystem × List RingReply
  | .writeCopy src =>
    match ringWriteCopy s.ring src with
    | none => (s, [.wrote false])
    | some ring => ({ s with ring }, [.wrote true])
  | .markGap => ({ s with ring := ringMarkGap s.ring }, [.marked])
  | .cursorNow reader =>
    ({ s with cursors := Function.update s.cursors reader (ringCursorNow s.ring) },
      [.positioned reader])
  | .readCopy reader dst =>
    let out := ringReadCopy s.ring (s.cursors reader) dst
    ({ s with cursors := Function.update s.cursors reader out.cursor }, [.read reader out])

def ringRun : RingSystem → List RingCall → RingSystem × List RingReply :=
  Transducer.run ringCall

/-- The nonempty blocks a list of calls writes to a ring with slots of `slotSize` bytes. -/
def writtenBlocks (slotSize : Nat) : List RingCall → List (List UInt8)
  | [] => []
  | .writeCopy src :: calls =>
    if 0 < src.length ∧ src.length ≤ slotSize then src :: writtenBlocks slotSize calls
    else writtenBlocks slotSize calls
  | _ :: calls => writtenBlocks slotSize calls

/-- The blocks a reader got back as `RTL_RING_DATA`, in order. -/
def receivedBlocks (reader : Nat) : List RingReply → List (List UInt8)
  | [] => []
  | .read other out :: replies =>
    if other = reader ∧ out.result = .data then out.block :: receivedBlocks reader replies
    else receivedBlocks reader replies
  | _ :: replies => receivedBlocks reader replies

/-- Whether a call increments the generation. -/
def RingSystem.increments (s : RingSystem) : RingCall → Nat
  | .writeCopy src => if s.ring.rollsOver src then 1 else 0
  | .markGap => 1
  | _ => 0

def generationIncrements (s : RingSystem) : List RingCall → Nat
  | [] => 0
  | call :: calls => s.increments call + generationIncrements (ringCall s call).1 calls

variable (s : RingSystem)

theorem generationIncrements_append (before after : List RingCall) :
    generationIncrements s (before ++ after) =
      generationIncrements s before + generationIncrements (ringRun s before).1 after := by
  induction before generalizing s with
  | nil => simp [generationIncrements, ringRun]
  | cons call calls ih =>
    simp only [List.cons_append, generationIncrements, ih, Nat.add_assoc]
    rfl

theorem writtenBlocks_append (slotSize : Nat) (before after : List RingCall) :
    writtenBlocks slotSize (before ++ after) =
      writtenBlocks slotSize before ++ writtenBlocks slotSize after := by
  induction before with
  | nil => rfl
  | cons call calls ih =>
    cases call with
    | writeCopy src =>
      simp only [List.cons_append, writtenBlocks, ih]
      split <;> rfl
    | _ => simpa only [List.cons_append, writtenBlocks] using ih

theorem receivedBlocks_append (reader : Nat) (before after : List RingReply) :
    receivedBlocks reader (before ++ after) =
      receivedBlocks reader before ++ receivedBlocks reader after := by
  induction before with
  | nil => rfl
  | cons reply replies ih =>
    cases reply with
    | read other out =>
      simp only [List.cons_append, receivedBlocks, ih]
      split <;> rfl
    | _ => simpa only [List.cons_append, receivedBlocks] using ih

/-! ### One more call -/

theorem generationIncrements_concat (calls : List RingCall) (call : RingCall) :
    generationIncrements s (calls ++ [call]) =
      generationIncrements s calls + (ringRun s calls).1.increments call := by
  rw [generationIncrements_append, generationIncrements, generationIncrements, Nat.add_zero]

theorem writtenBlocks_write (slotSize : Nat) (calls : List RingCall) (ring : Ring)
    (sized : ring.slotSize = slotSize) (src : List UInt8) :
    writtenBlocks slotSize (calls ++ [RingCall.writeCopy src]) =
      writtenBlocks slotSize calls ++ if ring.accepts src then [src] else [] := by
  simp only [writtenBlocks_append, writtenBlocks, Ring.accepts, sized, decide_eq_true_eq]

theorem writtenBlocks_quiet (slotSize : Nat) (calls : List RingCall) (call : RingCall)
    (noWrite : ∀ src, call ≠ .writeCopy src) :
    writtenBlocks slotSize (calls ++ [call]) = writtenBlocks slotSize calls := by
  rw [writtenBlocks_append]
  cases call with
  | writeCopy src => exact absurd rfl (noWrite src)
  | _ => exact List.append_nil _

theorem receivedBlocks_quiet (reader : Nat) (replies : List RingReply) (reply : RingReply)
    (unanswered : ∀ out, reply ≠ .read reader out) :
    receivedBlocks reader (replies ++ [reply]) = receivedBlocks reader replies := by
  rw [receivedBlocks_append]
  cases reply with
  | read other out =>
    have apart : ¬(other = reader ∧ out.result = .data) := by
      rintro ⟨rfl, _⟩
      exact unanswered out rfl
    rw [receivedBlocks, if_neg apart]
    exact List.append_nil _
  | _ => exact List.append_nil _

theorem receivedBlocks_read (reader : Nat) (replies : List RingReply) (out : ReadCopy) :
    receivedBlocks reader (replies ++ [RingReply.read reader out]) =
      receivedBlocks reader replies ++ if out.result = .data then [out.block] else [] := by
  simp only [receivedBlocks_append, receivedBlocks, true_and]

/-- A call that neither writes nor marks a gap, with an answer to somebody else. -/
structure Quiet (i : Nat) (call : RingCall) (reply : RingReply) : Prop where
  noWrite : ∀ src, call ≠ .writeCopy src
  noGap : call ≠ .markGap
  unanswered : ∀ out, reply ≠ .read i out

theorem Quiet.increments {i : Nat} {call : RingCall} {reply : RingReply}
    (quiet : Quiet i call reply) (s : RingSystem) : s.increments call = 0 := by
  cases call with
  | writeCopy src => exact absurd rfl (quiet.noWrite src)
  | markGap => exact absurd rfl quiet.noGap
  | _ => rfl

theorem quiet_cursorNow (i j : Nat) : Quiet i (.cursorNow j) (.positioned j) where
  noWrite _ := by simp
  noGap := by simp
  unanswered _ := by simp

theorem quiet_readCopy (i j : Nat) (dst : List UInt8) (out : ReadCopy) (other : j ≠ i) :
    Quiet i (.readCopy j dst) (.read j out) where
  noWrite _ := by simp
  noGap := by simp
  unanswered _ := by
    intro equal
    cases equal
    exact other rfl

/-! ### Following a cursor through increments -/

/-- With no generation increment since it was taken the cursor is owed `pending`;
otherwise its generation is out of date by the number of increments. -/
def Follows (r : Ring) (c : Cursor) (pending : List (List UInt8)) (increments : Nat) : Prop :=
  if increments = 0 then Tracks r c pending
  else r.generation = (c.generation + increments) % 2 ^ 64

variable {pending : List (List UInt8)} {r : Ring} {increments : Nat} {c : Cursor}

theorem Follows.stale (follows : Follows r c pending increments) (some : 0 < increments)
    (few : increments < 2 ^ 64) : c.generation ≠ r.generation := by
  rw [Follows, if_neg (by omega)] at follows
  rw [follows]
  exact generation_ne_of_increments _ _ some few

theorem Follows.increment {r' : Ring} {next : List (List UInt8)}
    (follows : Follows r c pending increments)
    (generation : r'.generation = (r.generation + 1) % 2 ^ 64) :
    Follows r' c next (increments + 1) := by
  rw [Follows, if_neg (by omega), generation]
  by_cases none : increments = 0
  · rw [Follows, if_pos none] at follows
    rw [none, ← follows.generation]
  · rw [Follows, if_neg none] at follows
    rw [follows, Nat.mod_add_mod, Nat.add_assoc]

/-- A write extends what the cursor is owed, or ages it by a rollover. -/
theorem Follows.write (follows : Follows r c pending increments) (src : List UInt8) :
    Follows ((ringWriteCopy r src).getD r) c
      (if r.accepts src then pending ++ [src] else pending)
      (increments + if r.rollsOver src then 1 else 0) := by
  rcases ringWriteCopy_cases r src with ⟨refused, same⟩ | ⟨fits, room, accepted, stays, stored⟩ |
    ⟨fits, room, accepted, rolls, stored⟩
  · have stays : r.rollsOver src = false := by simp [Ring.rollsOver, refused]
    simpa [same, refused, stays] using follows
  · simp only [stored, accepted, stays, Option.getD_some, if_true, Bool.false_eq_true, if_false,
      Nat.add_zero]
    unfold Follows at *
    split
    next none =>
      rw [if_pos none] at follows
      exact store_tracks r src fits room c pending follows
    next some =>
      rw [if_neg some] at follows
      exact follows
  · simp only [stored, accepted, rolls, Option.getD_some, if_true]
    exact follows.increment rfl

/-- What holds of reader `i` at every point after it took its cursor. -/
structure Delivered (slotSize i : Nat) (start : RingSystem) (calls : List RingCall)
    (reached : RingSystem × List RingReply) : Prop where
  sized : reached.1.ring.slotSize = slotSize
  sound : receivedBlocks i reached.2 <+: writtenBlocks slotSize calls
  noError : ∀ out, .read i out ∈ reached.2 → out.result ≠ .error
  follows : Follows reached.1.ring (reached.1.cursors i)
    ((writtenBlocks slotSize calls).drop (receivedBlocks i reached.2).length)
    (generationIncrements start calls)

theorem ringWriteCopy_slots (r : Ring) (src : List UInt8) :
    ((ringWriteCopy r src).getD r).slotCount = r.slotCount ∧
      ((ringWriteCopy r src).getD r).slotSize = r.slotSize := by
  rcases ringWriteCopy_cases r src with ⟨_, same⟩ | ⟨_, _, _, _, stored⟩ | ⟨_, _, _, _, stored⟩
  · rw [same]
    exact ⟨rfl, rfl⟩
  · rw [stored]
    exact ⟨rfl, rfl⟩
  · rw [stored]
    exact ⟨rfl, rfl⟩

theorem ringCall_write (src : List UInt8) :
    (ringCall s (.writeCopy src)).1 = { s with ring := (ringWriteCopy s.ring src).getD s.ring } ∧
    ∃ accepted, (ringCall s (.writeCopy src)).2 = [.wrote accepted] := by
  simp only [ringCall]
  cases ringWriteCopy s.ring src with
  | none => exact ⟨rfl, false, rfl⟩
  | some ring => exact ⟨rfl, true, rfl⟩

section Step

variable {slotSize i : Nat} {start : RingSystem} {calls : List RingCall}
  {reached : RingSystem × List RingReply} (inv : Delivered slotSize i start calls reached)
include inv

theorem Delivered.write (src : List UInt8) (here : reached = ringRun start calls) :
    Delivered slotSize i start (calls ++ [RingCall.writeCopy src])
      ((ringCall reached.1 (.writeCopy src)).1,
        reached.2 ++ (ringCall reached.1 (.writeCopy src)).2) := by
  obtain ⟨next, accepted, reply⟩ := ringCall_write reached.1 src
  have same := receivedBlocks_quiet i reached.2 (.wrote accepted) (by simp)
  have written := writtenBlocks_write slotSize calls reached.1.ring inv.sized src
  have count := generationIncrements_concat start calls (.writeCopy src)
  rw [← here] at count
  rw [next, reply]
  constructor
  · exact (ringWriteCopy_slots reached.1.ring src).2.trans inv.sized
  · rw [same, written]
    exact inv.sound.trans (List.prefix_append _ _)
  · intro out member
    exact inv.noError out (by simpa using member)
  · rw [same, written, count]
    have moved := inv.follows.write src
    have split : ((writtenBlocks slotSize calls) ++
        (if reached.1.ring.accepts src then [src] else [])).drop
          (receivedBlocks i reached.2).length =
        if reached.1.ring.accepts src then
          (writtenBlocks slotSize calls).drop (receivedBlocks i reached.2).length ++ [src]
        else (writtenBlocks slotSize calls).drop (receivedBlocks i reached.2).length := by
      rw [List.drop_append_of_le_length inv.sound.length_le]
      split <;> simp
    rw [split]
    exact moved

theorem Delivered.read (dst : List UInt8) (few : generationIncrements start calls < 2 ^ 64)
    (capacity : slotSize ≤ dst.length) :
    let out := ringReadCopy reached.1.ring (reached.1.cursors i) dst
    Delivered slotSize i start (calls ++ [RingCall.readCopy i dst])
      ((ringCall reached.1 (.readCopy i dst)).1, reached.2 ++ [RingReply.read i out]) ∧
    (out.result = .empty → receivedBlocks i reached.2 = writtenBlocks slotSize calls) := by
  intro out
  have written := writtenBlocks_quiet slotSize calls (.readCopy i dst) (by simp)
  have count : generationIncrements start (calls ++ [RingCall.readCopy i dst]) =
      generationIncrements start calls := generationIncrements_concat start calls _
  have received := receivedBlocks_read i reached.2 out
  -- the three answers that leave the cursor where it is
  have unmoved : out.cursor = reached.1.cursors i → out.result ≠ .data → out.result ≠ .error →
      Delivered slotSize i start (calls ++ [RingCall.readCopy i dst])
        ((ringCall reached.1 (.readCopy i dst)).1, reached.2 ++ [RingReply.read i out]) := by
    intro cursor notData notError
    rw [if_neg notData, List.append_nil] at received
    refine ⟨inv.sized, ?_, ?_, ?_⟩
    · rw [received, written]
      exact inv.sound
    · intro other member
      simp only [List.mem_append, List.mem_singleton, RingReply.read.injEq] at member
      rcases member with old | ⟨_, rfl⟩
      · exact inv.noError other old
      · exact notError
    · have here : (ringCall reached.1 (.readCopy i dst)).1.cursors i = reached.1.cursors i := by
        simp only [ringCall, Function.update_self]
        exact cursor
      rw [here, received, written, count]
      exact inv.follows
  by_cases aged : generationIncrements start calls = 0
  · have tracks := inv.follows
    rw [Follows, if_pos aged] at tracks
    rcases ringReadCopy_tracks _ _ _ dst tracks (by rw [inv.sized]; exact capacity) with
      ⟨_, gap⟩ | ⟨drained, empty⟩ | ⟨block, rest, pending, _, result, delivered, _, moved⟩
    · have gap : out = ⟨.gap, reached.1.cursors i, dst, 0⟩ := gap
      refine ⟨unmoved ?_ ?_ ?_, ?_⟩ <;> rw [gap] <;> simp
    · have empty : out = ⟨.empty, reached.1.cursors i, dst, 0⟩ := empty
      refine ⟨unmoved ?_ ?_ ?_, ?_⟩
      · rw [empty]
      · rw [empty]; simp
      · rw [empty]; simp
      · intro _
        exact inv.sound.eq_of_length_le (List.drop_eq_nil_iff.mp drained)
    · have result : out.result = .data := result
      have delivered : out.block = block := delivered
      have whole := List.prefix_iff_eq_append.mp inv.sound
      rw [pending] at whole
      rw [if_pos result, delivered] at received
      refine ⟨⟨inv.sized, ?_, ?_, ?_⟩, fun empty => ?_⟩
      · rw [received, written, ← whole]
        exact ⟨rest, by simp⟩
      · intro other member
        simp only [List.mem_append, List.mem_singleton, RingReply.read.injEq] at member
        rcases member with old | ⟨_, rfl⟩
        · exact inv.noError other old
        · rw [result]; simp
      · have here : (ringCall reached.1 (.readCopy i dst)).1.cursors i = out.cursor := by
          simp only [ringCall, Function.update_self]
          rfl
        have left : (writtenBlocks slotSize calls).drop
            (receivedBlocks i reached.2 ++ [block]).length = rest := by
          rw [List.length_append, ← List.drop_drop, pending]
          rfl
        rw [here, received, written, count, left, Follows, if_pos aged]
        exact moved
      · rw [result] at empty
        cases empty
  · have stale := inv.follows.stale (Nat.pos_of_ne_zero aged) few
    have gap : out = ⟨.gap, reached.1.cursors i, dst, 0⟩ := ringReadCopy_stale _ _ dst stale
    refine ⟨unmoved ?_ ?_ ?_, ?_⟩ <;> rw [gap] <;> simp

theorem Delivered.other (call : RingCall) (cursors : Nat → Cursor) (reply : RingReply)
    (stepped : ringCall reached.1 call = ({ reached.1 with cursors }, [reply]))
    (untouched : cursors i = reached.1.cursors i) (quiet : Quiet i call reply) :
    Delivered slotSize i start (calls ++ [call])
      ((ringCall reached.1 call).1, reached.2 ++ (ringCall reached.1 call).2) := by
  have written := writtenBlocks_quiet slotSize calls call quiet.noWrite
  have received := receivedBlocks_quiet i reached.2 reply quiet.unanswered
  have count := generationIncrements_concat start calls call
  rw [quiet.increments, Nat.add_zero] at count
  rw [stepped]
  refine ⟨inv.sized, ?_, ?_, ?_⟩
  · rw [received, written]
    exact inv.sound
  · intro out member
    simp only [List.mem_append, List.mem_singleton] at member
    rcases member with old | new
    · exact inv.noError out old
    · exact absurd new.symm (quiet.unanswered out)
  · rw [received, written, count]
    simpa only [untouched] using inv.follows

theorem Delivered.markGap :
    Delivered slotSize i start (calls ++ [RingCall.markGap])
      ((ringCall reached.1 .markGap).1, reached.2 ++ (ringCall reached.1 .markGap).2) := by
  have written := writtenBlocks_quiet slotSize calls .markGap (by simp)
  have received := receivedBlocks_quiet i reached.2 .marked (by simp)
  have count : generationIncrements start (calls ++ [RingCall.markGap]) =
      generationIncrements start calls + 1 := generationIncrements_concat start calls _
  refine ⟨inv.sized, ?_, ?_, ?_⟩
  · simp only [ringCall, received, written]
    exact inv.sound
  · intro out member
    exact inv.noError out (by simpa [ringCall] using member)
  · rw [count]
    exact inv.follows.increment rfl

end Step

theorem delivered_step (slotSize i : Nat) (start : RingSystem) (calls : List RingCall)
    (call : RingCall) (inv : Delivered slotSize i start calls (ringRun start calls))
    (few : generationIncrements start calls < 2 ^ 64) (keeps : call ≠ .cursorNow i)
    (capacity : ∀ dst, call = .readCopy i dst → slotSize ≤ dst.length) :
    Delivered slotSize i start (calls ++ [call]) (ringRun start (calls ++ [call])) := by
  rw [ringRun, Transducer.run_concat]
  cases call with
  | writeCopy src => exact inv.write src rfl
  | markGap => exact inv.markGap
  | cursorNow j =>
    have other : i ≠ j := fun same => keeps (same ▸ rfl)
    exact inv.other _ _ _ rfl (Function.update_of_ne other _ _) (quiet_cursorNow i j)
  | readCopy j dst =>
    by_cases same : j = i
    · subst same
      exact (inv.read dst few (capacity dst rfl)).1
    · exact inv.other _ _ _ rfl (Function.update_of_ne (Ne.symm same) _ _)
        (quiet_readCopy i j dst _ same)

theorem delivered_start (i : Nat) :
    Delivered s.ring.slotSize i (ringCall s (.cursorNow i)).1 []
      ((ringCall s (.cursorNow i)).1, []) where
  sized := rfl
  sound := List.nil_prefix
  noError := by simp
  follows := by
    simpa [Follows, generationIncrements, writtenBlocks, ringCall] using
      ringCursorNow_tracks s.ring

theorem delivered_run (i : Nat) (calls : List RingCall)
    (keeps : ∀ call ∈ calls, call ≠ .cursorNow i)
    (capacity : ∀ dst, .readCopy i dst ∈ calls → s.ring.slotSize ≤ dst.length)
    (few : generationIncrements (ringCall s (.cursorNow i)).1 calls < 2 ^ 64) :
    Delivered s.ring.slotSize i (ringCall s (.cursorNow i)).1 calls
      (ringRun (ringCall s (.cursorNow i)).1 calls) := by
  apply Transducer.run_history ringCall _ _ (delivered_start s i) calls
  intro before call after split inv
  have member : call ∈ calls := by simp [split]
  have early : generationIncrements (ringCall s (.cursorNow i)).1 before < 2 ^ 64 := by
    rw [split, generationIncrements_append] at few
    omega
  refine delivered_step _ _ _ before call inv early (keeps call member) ?_
  intro dst equal
  exact capacity dst (equal ▸ member)

theorem ringRun_slots (calls : List RingCall) :
    (ringRun s calls).1.ring.slotCount = s.ring.slotCount ∧
      (ringRun s calls).1.ring.slotSize = s.ring.slotSize := by
  apply Transducer.run_invariant ringCall
    (fun t => t.ring.slotCount = s.ring.slotCount ∧ t.ring.slotSize = s.ring.slotSize) _ s
    ⟨rfl, rfl⟩
  intro t call same
  cases call with
  | writeCopy src =>
    obtain ⟨count, size⟩ := ringWriteCopy_slots t.ring src
    rw [(ringCall_write t src).1]
    exact ⟨count.trans same.1, size.trans same.2⟩
  | _ => exact same

theorem ringCreate_slots (slotCount slotSize : Nat) (heap : Option (Nat → UInt8)) (ring : Ring)
    (created : ringCreate slotCount slotSize heap = some ring) :
    ring.slotCount = slotCount ∧ ring.slotSize = slotSize := by
  unfold ringCreate at created
  split at created
  · cases created
  · cases heap with
    | none => cases created
    | some bytes =>
      cases created
      exact ⟨rfl, rfl⟩

theorem ringRun_cursorNow (before : List RingCall) (reader : Nat) :
    (ringRun s (before ++ [.cursorNow reader])).1 =
      (ringCall (ringRun s before).1 (.cursorNow reader)).1 := by
  rw [ringRun, Transducer.run_concat]

/-- The increments since a cursor was taken are some of all of them. -/
theorem generationIncrements_since (before after : List RingCall) (reader : Nat) :
    generationIncrements (ringRun s (before ++ [.cursorNow reader])).1 after ≤
      generationIncrements s (before ++ .cursorNow reader :: after) := by
  rw [ringRun_cursorNow, generationIncrements_append, generationIncrements]
  omega

/-- **Ring delivery**: after `rtlsdr_ring_cursor_now` a reader's `RTL_RING_DATA` results
are a prefix of the nonempty blocks written since, `RTL_RING_EMPTY` means that it has
them all, and `RTL_RING_ERROR` does not occur, however the other calls interleave. -/
theorem ring_delivery (slotCount slotSize : Nat) (heap : Option (Nat → UInt8)) (ring : Ring)
    (created : ringCreate slotCount slotSize heap = some ring) (cursors : Nat → Cursor)
    (reader : Nat) (before after : List RingCall)
    (keeps : ∀ call ∈ after, call ≠ .cursorNow reader)
    (capacity : ∀ dst, .readCopy reader dst ∈ after → slotSize ≤ dst.length)
    (few : generationIncrements ⟨ring, cursors⟩ (before ++ .cursorNow reader :: after) < 2 ^ 64) :
    let taken := (ringRun ⟨ring, cursors⟩ (before ++ [.cursorNow reader])).1
    receivedBlocks reader (ringRun taken after).2 <+: writtenBlocks slotSize after ∧
    (∀ out, .read reader out ∈ (ringRun taken after).2 → out.result ≠ .error) ∧
    (∀ earlier dst later, after = earlier ++ .readCopy reader dst :: later →
      let reached := ringRun taken earlier
      (ringReadCopy reached.1.ring (reached.1.cursors reader) dst).result = .empty →
      receivedBlocks reader reached.2 = writtenBlocks slotSize earlier) := by
  intro taken
  have size : (ringRun ⟨ring, cursors⟩ before).1.ring.slotSize = slotSize :=
    (ringRun_slots _ _).2.trans (ringCreate_slots _ _ _ _ created).2
  have start : taken = _ := ringRun_cursorNow ⟨ring, cursors⟩ before reader
  have fewAfter : generationIncrements taken after < 2 ^ 64 :=
    Nat.lt_of_le_of_lt (generationIncrements_since _ _ _ _) few
  have run : ∀ calls rest, after = calls ++ rest →
      Delivered slotSize reader taken calls (ringRun taken calls) ∧
      generationIncrements taken calls < 2 ^ 64 := by
    intro calls rest split
    have early : generationIncrements taken calls < 2 ^ 64 := by
      rw [split, generationIncrements_append] at fewAfter
      omega
    refine ⟨?_, early⟩
    have inv := delivered_run (ringRun ⟨ring, cursors⟩ before).1 reader calls
      (fun call member => keeps call (by simp [split, member]))
      (fun dst member => size ▸ capacity dst (by simp [split, member])) (start ▸ early)
    rw [size, ← start] at inv
    exact inv
  have final := (run after [] (by simp)).1
  refine ⟨final.sound, final.noError, ?_⟩
  intro earlier dst later split reached empty
  obtain ⟨inv, early⟩ := run earlier _ split
  exact (inv.read dst early
    (capacity dst (by simp [split]))).2 empty

/-- Two slots of four bytes, one reader that reads once after two writes. -/
theorem ring_delivery_two_slots :
    ∃ ring, ringCreate 2 4 (some fun _ => 0) = some ring ∧
      let taken := (ringRun ⟨ring, fun _ => ⟨9, 9⟩⟩ [.writeCopy [7], .cursorNow 0]).1
      let calls := [RingCall.writeCopy [1, 2], .writeCopy [3], .readCopy 0 [0, 0, 0, 0]]
      receivedBlocks 0 (ringRun taken calls).2 = [[1, 2]] ∧
      receivedBlocks 0 (ringRun taken calls).2 <+: writtenBlocks 4 calls := by
  refine ⟨_, rfl, by decide +kernel, ?_⟩
  exact (ring_delivery 2 4 (some fun _ => 0) _ rfl (fun _ => ⟨9, 9⟩) 0 [.writeCopy [7]]
    [.writeCopy [1, 2], .writeCopy [3], .readCopy 0 [0, 0, 0, 0]] (by decide) (by simp)
    (by decide +kernel)).1

end RtlSdr
