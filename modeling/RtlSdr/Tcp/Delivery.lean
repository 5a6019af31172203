import Mathlib.Data.Nat.Bitwise
import RtlSdr.Lib.Guarded
import RtlSdr.Lib.Selection

/-!
# The ring of `rtl_tcp` and a client that reads it

The send worker of a client looks once for a whole batch how far it is behind, and the ring goes on
while the batch is sent. As long as no slot is overwritten before its turn, the client gets the
blocks published since it joined, except for skipped ones that its `overflows` counts.
-/
namespace RtlSdr.TcpRing

open Selection

/-! ### The ring -/

def ringSlotCount : Nat := 512
def ringSlotMask : UInt32 := 511
def ringSlotSize : Nat := 256 * 1024

abbrev Block := List UInt8

/-- `struct ring_buffer`; of a slot only the first `len` bytes are ever read. -/
structure RingBuffer where
  slots : Nat → Block
  writePos : UInt32

def ringInit : RingBuffer := ⟨fun _ => [], 0⟩

/-- The copy at `ring_write_ptr` and `ring_publish`. -/
def ringPublish (ring : RingBuffer) (block : Block) : RingBuffer where
  slots := Function.update ring.slots (ring.writePos &&& ringSlotMask).toNat block
  writePos := ring.writePos + 1

/-! ### The client -/

/-- Where `client_send_worker` stands. -/
inductive Pc
  /-- At the head of the loop. -/
  | top
  /-- In `pthread_cond_timedwait`. -/
  | waiting
  /-- Behind it. -/
  | ready
  /-- In the loop over a batch, with its local variables. -/
  | sending (wp rp : UInt32)
  | ended
deriving DecidableEq, Repr

/-- `struct client_state` as its send worker sees it; `active` also stands for `!do_exit`. -/
structure Client where
  readPos : UInt32
  active : Bool
  overflows : Int32
  pc : Pc

/-- The ring and one client, with what has been published and what the client has sent. -/
structure System where
  ring : RingBuffer
  client : Client
  published : List Block
  joined : Nat
  sent : List Block

/-- `rtlsdr_callback`: a block that is too long is cut, an empty one ignored. -/
def rtlsdrCallback (s : System) (buf : Block) : System :=
  if buf = [] then s
  else
    -- `RING_SLOT_SIZE` is the room in a slot
    let block := buf.take ringSlotSize
    { s with ring := ringPublish s.ring block, published := s.published ++ [block] }

def System.blank : System where
  ring := ringInit
  client := ⟨0, false, 0, .ended⟩
  published := []
  joined := 0
  sent := []

/-- What `add_client` sets for the worker, after some blocks have been published. -/
def addClient (before : List Block) : System :=
  let s := before.foldl rtlsdrCallback .blank
  { s with
    client := ⟨s.ring.writePos, true, 0, .top⟩
    joined := s.published.length
    sent := [] }

/-- The start of a batch: the load of `write_pos` and the check for a wrapped ring. -/
def startBatch (writePos : UInt32) (client : Client) : Client :=
  let behind := writePos - client.readPos
  if behind > 512 then
    -- far behind: the worker goes on a quarter of the ring before the producer
    let rp := writePos - 128
    { client with
      overflows := client.overflows + (behind - 128).toInt32
      readPos := rp
      pc := .sending writePos rp }
  else { client with pc := .sending writePos client.readPos }

/-- `client_send_worker`, one step. -/
def clientSendWorker (s : System) : System :=
  match s.client.pc with
  | .top =>
    let pc :=
      if s.client.active then if s.ring.writePos = s.client.readPos then .waiting else .ready
      else .ended
    { s with client := { s.client with pc } }
  -- data, a time-out or nothing at all ends the wait
  | .waiting => { s with client := { s.client with pc := .ready } }
  | .ready =>
    if s.client.active then { s with client := startBatch s.ring.writePos s.client }
    else { s with client := { s.client with pc := .ended } }
  | .sending wp rp =>
    if rp ≠ wp ∧ s.client.active then
      { s with
        sent := s.sent ++ [s.ring.slots (rp &&& ringSlotMask).toNat]
        client := { s.client with pc := .sending wp (rp + 1) } }
    -- `read_pos` is stored once, at the end of the batch
    else { s with client := { s.client with readPos := rp, pc := .top } }
  | .ended => s

/-- `send_all` fails for the slot in turn. -/
def sendError (s : System) : System :=
  match s.client.pc with
  | .sending wp rp =>
    if rp ≠ wp ∧ s.client.active then
      -- the slot in turn has not been sent, so `rp` stays on it
      { s with client := { s.client with active := false, readPos := rp, pc := .top } }
    else s
  | _ => s

inductive Action
  | publish (buf : Block)
  | work
  | sendError
  /-- Another thread clears `active`, or the server is stopped. -/
  | deactivate
deriving DecidableEq, Repr

def step (s : System) : Action → System
  | .publish buf => rtlsdrCallback s buf
  | .work => clientSendWorker s
  | .sendError => sendError s
  | .deactivate => { s with client := { s.client with active := false } }

def run (s : System) (actions : List Action) : System := actions.foldl step s

/-! ### Delivery -/

/-- The position the client goes on with. -/
def Client.position (client : Client) : UInt32 :=
  match client.pc with
  | .sending _ rp => rp
  | .top | .waiting | .ready | .ended => client.readPos

/-- What was sent are blocks published since the client joined, in their order and each at most
once, and `overflows` is the number of the other ones before the client's position. -/
def Delivered (s : System) : Prop :=
  ∃ next places, Picked s.published s.joined next places s.sent ∧
    UInt32.ofNat next = s.client.position ∧
    (next : Int) - s.joined - s.sent.length = s.client.overflows.toInt

/-- The number of blocks published up to the client's position, by its counters. -/
def System.next (s : System) : Nat :=
  s.joined + s.sent.length + s.client.overflows.toInt.toNat

/-- The distance to the producer at this moment. -/
def System.lag (s : System) : Nat := s.published.length - s.next

/-- What is asked of a step of the worker. -/
def System.keepsUp (s : System) : Bool :=
  match s.client.pc with
  -- the blocks skipped so far and now can be counted
  | .ready => s.lag ≤ 512 ∨ s.client.overflows.toInt + (s.lag - 128) < 2 ^ 31
  -- the slot in turn has not been overwritten
  | .sending wp rp => rp = wp ∨ s.lag ≤ 512
  | .top | .waiting | .ended => true

def KeepsUp (s : System) (action : Action) : Prop := action = .work → s.keepsUp = true

instance (s : System) (action : Action) : Decidable (KeepsUp s action) :=
  inferInstanceAs (Decidable (_ → _))

/-! ### Positions modulo 2^32 -/

theorem mask_ofNat (k : Nat) : (UInt32.ofNat k &&& ringSlotMask).toNat = k % ringSlotCount := by
  rw [UInt32.toNat_and, UInt32.toNat_ofNat', show ringSlotMask.toNat = 2 ^ 9 - 1 from rfl,
    Nat.and_two_pow_sub_one_eq_mod, ringSlotCount]
  omega

theorem behind_toNat (a b : Nat) (le : b ≤ a) (near : a - b < 2 ^ 32) :
    (UInt32.ofNat a - UInt32.ofNat b).toNat = a - b := by
  rw [UInt32.toNat_sub, UInt32.toNat_ofNat', UInt32.toNat_ofNat']
  omega

theorem ofNat_ne (a b : Nat) (le : a ≤ b)
    (different : UInt32.ofNat a ≠ UInt32.ofNat b) : a < b := by
  rcases Nat.lt_or_eq_of_le le with less | same
  · exact less
  · rw [same] at different
    exact absurd rfl different

theorem overflows_toInt (overflows : Int32) (skipped : UInt32) (counted : 0 ≤ overflows.toInt)
    (room : overflows.toInt + skipped.toNat < 2 ^ 31) :
    (overflows + skipped.toInt32).toInt = overflows.toInt + skipped.toNat := by
  have value : skipped.toInt32.toInt = skipped.toNat :=
    BitVec.toInt_eq_toNat_of_lt (show 2 * skipped.toNat < 2 ^ 32 by omega)
  rw [Int32.toInt_add, value]
  exact Int.bmod_eq_of_le (by omega) (by omega)

/-! ### The ring holds the last blocks -/

structure Holds (ring : RingBuffer) (published : List Block) : Prop where
  writePos : ring.writePos = UInt32.ofNat published.length
  recent : ∀ k < published.length, published.length ≤ k + ringSlotCount →
    published[k]? = some (ring.slots (k % ringSlotCount))

theorem holds_init : Holds ringInit [] where
  writePos := rfl
  recent := nofun

theorem Holds.publish {ring : RingBuffer} {published : List Block} (holds : Holds ring published)
    (block : Block) : Holds (ringPublish ring block) (published ++ [block]) where
  writePos := by
    rw [ringPublish, holds.writePos, List.length_append, UInt32.ofNat_add]
    rfl
  recent := by
    intro k inside near
    rw [List.length_append, List.length_singleton] at inside near
    rw [ringPublish, holds.writePos, mask_ofNat]
    dsimp only
    rcases Nat.lt_or_eq_of_le (Nat.lt_succ_iff.mp inside) with earlier | rfl
    · -- the slot written is another one
      have other : k % ringSlotCount ≠ published.length % ringSlotCount := by
        unfold ringSlotCount at near ⊢
        omega
      rw [Function.update_of_ne other, List.getElem?_append_left earlier]
      exact holds.recent k earlier (by omega)
    · rw [Function.update_self, List.getElem?_concat_length]

/-! ### What holds throughout -/

structure Inv (s : System) : Prop where
  holds : Holds s.ring s.published
  picked : ∃ places, Picked s.published s.joined s.next places s.sent
  position : s.client.position = UInt32.ofNat s.next
  counted : 0 ≤ s.client.overflows.toInt
  /-- The end of a batch, as it was when the batch began. -/
  batch : ∀ wp rp, s.client.pc = .sending wp rp →
    ∃ limit, UInt32.ofNat limit = wp ∧ s.next ≤ limit ∧ limit ≤ s.next + 512 ∧
      limit ≤ s.published.length

variable {s : System}

theorem Inv.delivered (inv : Inv s) : Delivered s := by
  obtain ⟨places, picked⟩ := inv.picked
  refine ⟨s.next, places, picked, inv.position.symm, ?_⟩
  have counted := inv.counted
  unfold System.next
  omega

theorem Holds.callback (holds : Holds s.ring s.published) (buf : Block) :
    Holds (rtlsdrCallback s buf).ring (rtlsdrCallback s buf).published := by
  rw [rtlsdrCallback]
  split
  · exact holds
  · exact holds.publish _

theorem holds_callbacks (holds : Holds s.ring s.published) (bufs : List Block) :
    Holds (bufs.foldl rtlsdrCallback s).ring (bufs.foldl rtlsdrCallback s).published := by
  induction bufs generalizing s with
  | nil => exact holds
  | cons buf bufs ih => exact ih (holds.callback buf)

theorem inv_addClient (before : List Block) : Inv (addClient before) := by
  have holds := holds_callbacks (s := .blank) holds_init before
  refine ⟨holds, ⟨[], picked_start _⟩, holds.writePos, Int.le_refl 0, nofun⟩

/-! ### One step -/

theorem inv_publish (inv : Inv s) (buf : Block) : Inv (rtlsdrCallback s buf) := by
  have holds := inv.holds.callback buf
  rw [rtlsdrCallback] at holds ⊢
  split
  · exact inv
  · next filled =>
    rw [if_neg filled] at holds
    obtain ⟨places, picked⟩ := inv.picked
    refine ⟨holds, ⟨places, picked.grow _⟩, inv.position, inv.counted, ?_⟩
    intro wp rp here
    obtain ⟨limit, wraps, low, high, bound⟩ := inv.batch wp rp here
    refine ⟨limit, wraps, low, high, ?_⟩
    rw [List.length_append]
    exact Nat.le_add_right_of_le bound

theorem position_outside {client : Client} (outside : ∀ wp rp, client.pc ≠ .sending wp rp) :
    client.position = client.readPos := by
  rw [Client.position]
  split
  · next wp rp here => exact absurd here (outside wp rp)
  all_goals rfl

/-- A step out of a batch or between batches: the counters and the position stay. -/
theorem Inv.move (inv : Inv s) (readPos : UInt32) (active : Bool) (pc : Pc)
    (outside : ∀ wp rp, pc ≠ .sending wp rp) (position : s.client.position = readPos) :
    Inv { s with client := ⟨readPos, active, s.client.overflows, pc⟩ } := by
  refine ⟨inv.holds, inv.picked, ?_, inv.counted, fun wp rp here => absurd here (outside wp rp)⟩
  rw [position_outside outside, ← position]
  exact inv.position

theorem inv_startBatch (inv : Inv s) (here : s.client.pc = .ready)
    (room : s.lag ≤ 512 ∨ s.client.overflows.toInt + (s.lag - 128) < 2 ^ 31) :
    Inv { s with client := startBatch s.ring.writePos s.client } := by
  obtain ⟨places, picked⟩ := inv.picked
  have counted := inv.counted
  have bound := picked.bound
  -- between batches the stored position is the current one
  have readPos : s.client.readPos = UInt32.ofNat s.next := by
    rw [← inv.position, Client.position, here]
  have lag : s.lag = s.published.length - s.next := rfl
  -- the difference of the positions modulo 2^32 is the lag
  have behind := behind_toNat s.published.length s.next bound (by omega)
  rw [startBatch, inv.holds.writePos, readPos]
  dsimp only
  generalize UInt32.ofNat s.published.length - UInt32.ofNat s.next = distance at behind ⊢
  split
  · next far =>
    -- the client goes on 128 blocks behind the producer
    have far' : 512 < distance.toNat := UInt32.lt_iff_toNat_lt.mp far
    have skipped : (distance - 128).toNat = s.lag - 128 := by
      rw [UInt32.toNat_sub_of_le _ _ (UInt32.le_iff_toNat_le.mpr (by simp; omega)), behind, lag]
      rfl
    have overflows := overflows_toInt s.client.overflows (distance - 128) counted (by omega)
    rw [skipped] at overflows
    have next : s.joined + s.sent.length +
        (s.client.overflows + (distance - 128).toInt32).toInt.toNat =
        s.published.length - 128 := by
      have before : s.next = s.joined + s.sent.length + s.client.overflows.toInt.toNat := rfl
      rw [overflows]
      omega
    have position : UInt32.ofNat (s.published.length - 128) =
        UInt32.ofNat s.published.length - 128 :=
      UInt32.ofNat_sub (by omega)
    refine ⟨inv.holds, ⟨places, ?_⟩, ?_, ?_, ?_⟩
    · rw [System.next, next]
      exact picked.skip _ (by omega) (by omega)
    · rw [System.next, next, position]
      rfl
    · show 0 ≤ (s.client.overflows + (distance - 128).toInt32).toInt
      omega
    · rintro wp rp ⟨rfl, rfl⟩
      rw [System.next, next]
      exact ⟨s.published.length, rfl, by omega, by omega, Nat.le_refl _⟩
  -- a batch from here to the producer, of 512 blocks at most
  · next near =>
    have near' : distance.toNat ≤ 512 := by
      have := UInt32.lt_iff_toNat_lt.not.mp near
      exact Nat.not_lt.mp this
    refine ⟨inv.holds, ⟨places, picked⟩, rfl, counted, ?_⟩
    rintro wp rp ⟨rfl, rfl⟩
    exact ⟨s.published.length, rfl, bound, by show _ ≤ s.next + 512; omega, Nat.le_refl _⟩

theorem inv_send (inv : Inv s) (wp rp : UInt32) (here : s.client.pc = .sending wp rp)
    (more : rp ≠ wp) (near : s.lag ≤ 512) :
    Inv { s with
      sent := s.sent ++ [s.ring.slots (rp &&& ringSlotMask).toNat]
      client := { s.client with pc := .sending wp (rp + 1) } } := by
  obtain ⟨places, picked⟩ := inv.picked
  have position : rp = UInt32.ofNat s.next := by
    rw [← inv.position, Client.position, here]
  obtain ⟨limit, wraps, low, high, bound⟩ := inv.batch wp rp here
  -- the loop compares positions modulo 2^32, and the batch is short enough for that
  have unsent : s.next < limit := ofNat_ne _ _ low (by rwa [← position, wraps])
  -- the slot still holds the block it was published with
  have block : s.published[s.next]? = some (s.ring.slots (rp &&& ringSlotMask).toNat) := by
    rw [position, mask_ofNat]
    apply inv.holds.recent s.next (Nat.lt_of_lt_of_le unsent bound)
    have lag : s.lag = s.published.length - s.next := rfl
    unfold ringSlotCount
    omega
  generalize s.ring.slots (rp &&& ringSlotMask).toNat = sent at block ⊢
  have next : System.next { s with
      sent := s.sent ++ [sent], client := { s.client with pc := .sending wp (rp + 1) } } =
      s.next + 1 := by
    unfold System.next
    simp only [List.length_append, List.length_singleton]
    omega
  refine ⟨inv.holds, ?_, ?_, inv.counted, ?_⟩
  · rw [next]
    exact ⟨_, picked.take sent block⟩
  · rw [next, UInt32.ofNat_add, ← position]
    rfl
  · rintro wp' rp' ⟨rfl, rfl⟩
    rw [next]
    exact ⟨limit, wraps, unsent, by omega, bound⟩

theorem inv_work (inv : Inv s) (keeps : s.keepsUp = true) : Inv (clientSendWorker s) := by
  rw [System.keepsUp] at keeps
  rw [clientSendWorker]
  split
  · next here =>
    apply inv.move
    · intro wp rp
      split
      · split <;> exact nofun
      · exact nofun
    · rw [Client.position, here]
  · next here =>
    exact inv.move _ _ .ready nofun (by rw [Client.position, here])
  · next here =>
    rw [here] at keeps
    split
    · exact inv_startBatch inv here (of_decide_eq_true keeps)
    · exact inv.move _ _ .ended nofun (by rw [Client.position, here])
  · next wp rp here =>
    rw [here] at keeps
    split
    · next going =>
      -- a slot is sent: it is not the end of the batch, so the worker has kept up
      rcases of_decide_eq_true keeps with done | near
      · exact absurd done going.1
      · exact inv_send inv wp rp here going.1 near
    · exact inv.move _ _ .top nofun (by rw [Client.position, here])
  · exact inv

theorem inv_sendError (inv : Inv s) : Inv (sendError s) := by
  rw [sendError]
  split
  · next wp rp here =>
    split
    · exact inv.move _ _ .top nofun (by rw [Client.position, here])
    · exact inv
  · exact inv

theorem inv_step (inv : Inv s) (action : Action) (keeps : KeepsUp s action) :
    Inv (step s action) := by
  cases action with
  | publish buf => exact inv_publish inv buf
  | work => exact inv_work inv (keeps rfl)
  | sendError => exact inv_sendError inv
  | deactivate => exact ⟨inv.holds, inv.picked, inv.position, inv.counted, inv.batch⟩

/-- For every interleaving of publishes with the worker in which no slot is overwritten before
its turn and the skipped blocks can be counted, from a client's connection on. -/
theorem tcp_ring_delivery (before : List Block) (actions : List Action)
    (keeps : Guarded.Meets step KeepsUp (addClient before) actions) :
    Delivered (run (addClient before) actions) := by
  have inv : Inv (run (addClient before) actions) :=
    keeps.invariant Inv (fun s action _ inv keeps => inv_step inv action keeps)
      (inv_addClient before)
  exact inv.delivered

/-- A client joins after one block, falls behind by 600, and sends two of the blocks left. -/
def slowRun : List Action :=
  List.replicate 600 (Action.publish [1]) ++ List.replicate 4 Action.work

theorem tcp_ring_delivery_slow :
    Delivered (run (addClient [[7]]) slowRun) ∧
      (run (addClient [[7]]) slowRun).client.overflows = 472 ∧
      (run (addClient [[7]]) slowRun).sent = [[1], [1]] :=
  ⟨tcp_ring_delivery [[7]] slowRun (by decide +kernel), by decide +kernel, by decide +kernel⟩

/-- A batch of one block begins, and the ring goes around before it is sent. -/
def lappedRun : List Action :=
  Action.publish [1] :: Action.work :: Action.work ::
    (List.replicate 512 (Action.publish [2]) ++ [Action.work])

theorem tcp_ring_lapped : ¬Delivered (run (addClient []) lappedRun) := by
  rintro ⟨next, places, picked, -, counted⟩
  have sent : (run (addClient []) lappedRun).sent = [[2]] := by decide +kernel
  have joined : (run (addClient []) lappedRun).joined = 0 := by decide +kernel
  have overflows : (run (addClient []) lappedRun).client.overflows.toInt = 0 := by decide +kernel
  have first : (run (addClient []) lappedRun).published[0]? = some [1] := by decide +kernel
  rw [joined, overflows, sent] at counted
  have elements := picked.elements
  rw [sent] at elements
  -- the only place is the first, where another block was published
  obtain ⟨place, rfl⟩ := List.length_eq_one_iff.mp (by simpa using congrArg List.length elements)
  have inside := (picked.inside place (by simp)).2
  have zero : place = 0 := by
    rw [List.length_singleton] at counted
    omega
  rw [zero, List.map_singleton, first] at elements
  exact absurd elements (by decide)

end RtlSdr.TcpRing
