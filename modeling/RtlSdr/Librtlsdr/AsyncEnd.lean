import RtlSdr.Librtlsdr.Async

/-!
# How `rtlsdr_read_async` leaves the device

Nothing is assumed of libusb here. When the function returns, the buffers are freed, and
`async_status` becomes `next_status`. This is `RTLSDR_CANCELING` if libusb has accepted a cancel in
the last pass, which is meant for another pass: a lost device and an error of
`libusb_handle_events` leave the loop all the same, and the device refuses to be read again.
-/
namespace RtlSdr.AsyncEnd

open ReadAsync (TransferStatus AsyncStatus libusbErrorInterrupted defaultBufNumber)

/-! ### The device -/

def defaultBufLength : UInt32 := 16 * 32 * 512

/-- The part of `struct rtlsdr_dev` in use. Allocations succeed. -/
structure Device where
  asyncStatus : AsyncStatus
  xferBufNum : UInt32
  xferBufLen : UInt32
  /-- The status of each transfer, or `NULL`. -/
  xfer : Option (Nat → TransferStatus)
  /-- The length of the buffers, or `NULL`. -/
  xferBuf : Option UInt32
  devLost : Bool
  xferErrors : UInt32

def rtlsdrAllocAsyncBuffers (dev : Device) : Int × Device :=
  let dev := { dev with xfer := some (dev.xfer.getD fun _ => .completed) }
  match dev.xferBuf with
  | some _ => (-2, dev)
  | none => (0, { dev with xferBuf := some dev.xferBufLen })

def rtlsdrFreeAsyncBuffers (dev : Device) : Device := { dev with xfer := none, xferBuf := none }

/-- `_libusb_callback`. The transfer is submitted again after `COMPLETED`, which leaves no trace
here. -/
def libusbCallback (dev : Device) (i : Nat) (status : TransferStatus) : Device :=
  let dev := { dev with xfer := dev.xfer.map fun xfer => Function.update xfer i status }
  if status = .completed then { dev with xferErrors := 0 }
  else if status ≠ .cancelled then
    let xferErrors := if status = .error then dev.xferErrors + 1 else dev.xferErrors
    let lost := xferErrors ≥ dev.xferBufNum || status = .noDevice
    { dev with xferErrors, devLost := dev.devLost || lost }
  else dev

def rtlsdrCancelAsync (dev : Device) : Int × Device :=
  if dev.asyncStatus = .running then (0, { dev with asyncStatus := .canceling }) else (-2, dev)

/-- A lost device is taken as one that is cancelled. -/
def cancelLost (dev : Device) : Device :=
  if dev.devLost ∧ dev.asyncStatus = .running then { dev with asyncStatus := .canceling } else dev

/-! ### The reader -/

/-- Where `rtlsdr_read_async` stands. -/
inductive Pc
  /-- Before the submit of a transfer. -/
  | submitting (i : Nat)
  /-- At the condition of the loop. -/
  | loop
  /-- In the call of `libusb_handle_events` that waits. -/
  | events
  /-- Behind it. -/
  | check
  /-- In a pass, before a transfer. -/
  | pass (i : Nat)
  /-- In the call of `libusb_cancel_transfer`. -/
  | cancelling (i : Nat)
  /-- In the call of `libusb_handle_events` after it. -/
  | settling (i : Nat)
  /-- In the last call of `libusb_handle_events`. -/
  | draining
  /-- Before `_rtlsdr_free_async_buffers`. -/
  | freeing
  | returned
deriving DecidableEq, Repr

/-- The device with the local variables of `rtlsdr_read_async`. -/
structure Reader where
  dev : Device
  nextStatus : AsyncStatus
  r : Int
  pc : Pc
  /-- Whether libusb has accepted a cancel since the last pass began. -/
  accepted : Bool

/-- `rtlsdr_read_async` up to the first submit, or the error with which it is refused. -/
def rtlsdrReadAsync (dev : Device) (bufNum bufLen : UInt32) : Except Int Reader :=
  if dev.asyncStatus ≠ .inactive then .error (-2)
  else
    let dev := { dev with
      asyncStatus := .running
      xferBufNum := if bufNum > 0 then bufNum else defaultBufNumber
      xferBufLen := if bufLen > 0 ∧ bufLen % 512 = 0 then bufLen else defaultBufLength }
    -- the result of the allocation is not looked at
    .ok ⟨(rtlsdrAllocAsyncBuffers dev).2, .inactive, 0, .submitting 0, false⟩

/-- It is refused while the device is not inactive, and only then. -/
theorem enters_iff (dev : Device) (bufNum bufLen : UInt32) :
    (∃ s, rtlsdrReadAsync dev bufNum bufLen = .ok s) ↔ dev.asyncStatus = .inactive := by
  rw [rtlsdrReadAsync]
  by_cases inactive : dev.asyncStatus = .inactive
  · rw [if_neg (not_not.mpr inactive)]
    exact iff_of_true ⟨_, rfl⟩ inactive
  · rw [if_pos inactive]
    refine iff_of_false ?_ inactive
    rintro ⟨_, ⟨⟩⟩

/-- What can happen next. -/
inductive Action
  /-- `libusb_submit_transfer` returns. -/
  | submitted (r : Int)
  /-- libusb ends a transfer and runs its callback. -/
  | callback (i : Nat) (status : TransferStatus)
  /-- `libusb_handle_events_timeout_completed` returns. -/
  | handled (r : Int)
  /-- `libusb_cancel_transfer` returns. -/
  | cancelled (r : Int)
  /-- `rtlsdr_cancel_async`, from another thread or from a callback. -/
  | cancelAsync
  /-- `rtlsdr_read_async` goes on. -/
  | go
deriving DecidableEq, Repr

/-- Callbacks run only inside `libusb_handle_events`. -/
def Pc.handlesEvents : Pc → Bool
  | .events | .settling _ | .draining => true
  | _ => false

/-- `rtlsdr_read_async` from one call of libusb to the next. -/
def go (s : Reader) : Reader :=
  match s.pc with
  | .submitting i => if i < s.dev.xferBufNum.toNat then s else { s with pc := .loop }
  | .loop => { s with pc := if s.dev.asyncStatus = .inactive then .freeing else .events }
  | .check =>
    let dev := cancelLost s.dev
    if dev.asyncStatus = .canceling then
      { s with
        dev
        nextStatus := .inactive
        accepted := false
        pc := if dev.xfer.isNone then .freeing else .pass 0 }
    else { s with dev, pc := .loop }
  | .pass i =>
    if i < s.dev.xferBufNum.toNat then
      { s with
        pc := if s.dev.xfer.map (· i) = some .cancelled then .pass (i + 1) else .cancelling i }
    else
      { s with pc := if s.dev.devLost ∨ s.nextStatus = .inactive then .draining else .loop }
  | .freeing =>
    { s with
      dev := { rtlsdrFreeAsyncBuffers s.dev with asyncStatus := s.nextStatus }
      r := if s.dev.devLost then -1 else s.r
      pc := .returned }
  | .events | .cancelling _ | .settling _ | .draining | .returned => s

/-- One step; an action that cannot happen changes nothing. -/
def step (s : Reader) : Action → Reader
  | .submitted r =>
    match s.pc with
    | .submitting i =>
      if i < s.dev.xferBufNum.toNat then
        if r < 0 then
          { s with r, dev := { s.dev with asyncStatus := .canceling }, pc := .loop }
        else { s with r, pc := .submitting (i + 1) }
      else s
    | _ => s
  | .callback i status =>
    if s.pc.handlesEvents then { s with dev := libusbCallback s.dev i status } else s
  | .handled r =>
    match s.pc with
    | .events =>
      { s with
        r
        pc :=
          if r < 0 then
            -- a stray signal
            if r = libusbErrorInterrupted then .loop else .freeing
          else .check }
    | .settling i =>
      -- the result of the cancel, not of this call
      { s with
        nextStatus := if s.r < 0 then s.nextStatus else .canceling
        pc := .pass (i + 1) }
    | .draining => { s with pc := .freeing }
    | _ => s
  | .cancelled r =>
    match s.pc with
    | .cancelling i => { s with r, accepted := s.accepted || decide (0 ≤ r), pc := .settling i }
    | _ => s
  | .cancelAsync => { s with dev := (rtlsdrCancelAsync s.dev).2 }
  | .go => go s

def run (s : Reader) (actions : List Action) : Reader := actions.foldl step s

/-! ### What holds throughout -/

def statusOf (accepted : Bool) : AsyncStatus := if accepted then .canceling else .inactive

structure Inv (s : Reader) : Prop where
  tracks : (∀ i, s.pc ≠ .settling i) → s.nextStatus = statusOf s.accepted
  settles : ∀ i, s.pc = .settling i →
    (if s.r < 0 then s.nextStatus else .canceling) = statusOf s.accepted
  going : s.pc ≠ .returned → s.dev.asyncStatus ≠ .inactive
  freed : s.pc = .returned →
    s.dev.xfer = none ∧ s.dev.xferBuf = none ∧ s.dev.asyncStatus = s.nextStatus

variable {dev : Device} {s : Reader}

theorem inv_start {bufNum bufLen : UInt32} (entered : rtlsdrReadAsync dev bufNum bufLen = .ok s) :
    Inv s := by
  rw [rtlsdrReadAsync] at entered
  split at entered
  · cases entered
  cases entered
  refine ⟨fun _ => rfl, nofun, fun _ => ?_, nofun⟩
  rw [rtlsdrAllocAsyncBuffers]
  dsimp only
  split <;> exact nofun

/-- Outside of a pass only the status and the place matter. -/
theorem Inv.moved {s' : Reader} (inv : Inv s) (before : ∀ i, s.pc ≠ .settling i)
    (next : s'.nextStatus = s.nextStatus) (accepted : s'.accepted = s.accepted)
    (going : s'.dev.asyncStatus ≠ .inactive)
    (place : s'.pc ≠ .returned ∧ ∀ i, s'.pc ≠ .settling i) :
    Inv s' where
  tracks _ := by rw [next, accepted, inv.tracks before]
  settles i here := absurd here (place.2 i)
  going _ := going
  freed here := absurd here place.1

theorem inv_submitted (inv : Inv s) (r : Int) : Inv (step s (.submitted r)) := by
  rw [step]
  split
  · next i here =>
    have going := inv.going (by rw [here]; nofun)
    have before : ∀ j, s.pc ≠ .settling j := by
      rw [here]
      nofun
    split_ifs
    · exact inv.moved before rfl rfl nofun ⟨nofun, nofun⟩
    · exact inv.moved before rfl rfl going ⟨nofun, nofun⟩
    · exact inv
  · exact inv

theorem callback_asyncStatus (dev : Device) (i : Nat) (status : TransferStatus) :
    (libusbCallback dev i status).asyncStatus = dev.asyncStatus := by
  rw [libusbCallback]
  dsimp only
  split_ifs <;> rfl

theorem inv_callback (inv : Inv s) (i : Nat) (status : TransferStatus) :
    Inv (step s (.callback i status)) := by
  rw [step]
  split_ifs with events
  · refine ⟨inv.tracks, inv.settles, fun place => ?_, fun here => ?_⟩
    · rw [callback_asyncStatus]
      exact inv.going place
    · rw [show s.pc = .returned from here] at events
      cases events
  · exact inv

theorem inv_handled (inv : Inv s) (r : Int) : Inv (step s (.handled r)) := by
  rw [step]
  split
  · next here =>
    have going := inv.going (by rw [here]; nofun)
    refine inv.moved (by rw [here]; nofun) rfl rfl going ?_
    dsimp only
    split_ifs
    · exact ⟨nofun, nofun⟩
    · exact ⟨nofun, nofun⟩
    · exact ⟨nofun, nofun⟩
  · next i here =>
    have going := inv.going (by rw [here]; nofun)
    exact ⟨fun _ => inv.settles i here, nofun, fun _ => going, nofun⟩
  · next here =>
    have going := inv.going (by rw [here]; nofun)
    exact inv.moved (by rw [here]; nofun) rfl rfl going ⟨nofun, nofun⟩
  · exact inv

theorem inv_cancelled (inv : Inv s) (r : Int) : Inv (step s (.cancelled r)) := by
  rw [step]
  split
  · next i here =>
    have going := inv.going (by rw [here]; nofun)
    have next := inv.tracks (by rw [here]; nofun)
    refine ⟨fun outside => absurd rfl (outside i), fun _ _ => ?_, fun _ => going, nofun⟩
    dsimp only
    -- a refused cancel leaves both as they were
    split_ifs with refused
    · rw [next, decide_eq_false (Int.not_le.mpr refused), Bool.or_false]
    · rw [decide_eq_true (Int.not_lt.mp refused), Bool.or_true]
      rfl
  · exact inv

theorem statusOf_ne_running (accepted : Bool) : statusOf accepted ≠ .running := by
  cases accepted <;> exact nofun

theorem inv_cancelAsync (inv : Inv s) : Inv (step s .cancelAsync) := by
  rw [step, rtlsdrCancelAsync]
  split_ifs with running
  · refine ⟨inv.tracks, inv.settles, fun _ => nofun, fun here => ?_⟩
    -- when it has returned, the device is not running
    have place : s.pc = .returned := here
    obtain ⟨_, _, status⟩ := inv.freed place
    rw [running, inv.tracks (by rw [place]; nofun)] at status
    exact absurd status.symm (statusOf_ne_running s.accepted)
  · exact inv

theorem cancelLost_going (going : dev.asyncStatus ≠ .inactive) :
    (cancelLost dev).asyncStatus ≠ .inactive := by
  rw [cancelLost]
  split
  · nofun
  · exact going

theorem inv_go (inv : Inv s) : Inv (go s) := by
  rw [go]
  split
  · next i here =>
    have going := inv.going (by rw [here]; nofun)
    split_ifs
    · exact inv
    · exact inv.moved (by rw [here]; nofun) rfl rfl going ⟨nofun, nofun⟩
  · next here =>
    have going := inv.going (by rw [here]; nofun)
    rw [if_neg going]
    exact inv.moved (by rw [here]; nofun) rfl rfl going ⟨nofun, nofun⟩
  · next here =>
    have going := cancelLost_going (inv.going (by rw [here]; nofun))
    dsimp only
    split
    -- a pass begins, or there is nothing to pass over
    · have place (fresh : Bool) : (if fresh then Pc.freeing else .pass 0) ≠ .returned ∧
          ∀ i, (if fresh then Pc.freeing else .pass 0) ≠ .settling i := by
        cases fresh <;> exact ⟨nofun, nofun⟩
      exact ⟨fun _ => rfl, fun i place' => absurd place' ((place _).2 i), fun _ => going,
        fun place' => absurd place' (place _).1⟩
    · exact inv.moved (by rw [here]; nofun) rfl rfl going ⟨nofun, nofun⟩
  · next i here =>
    have going := inv.going (by rw [here]; nofun)
    have before : ∀ j, s.pc ≠ .settling j := by
      rw [here]
      nofun
    split
    all_goals
      refine inv.moved before rfl rfl going ?_
      dsimp only
      split <;> exact ⟨nofun, nofun⟩
  · next here =>
    have next := inv.tracks (by rw [here]; nofun)
    exact ⟨fun _ => next, nofun, fun place => absurd rfl place, fun _ => ⟨rfl, rfl, rfl⟩⟩
  all_goals exact inv

theorem inv_step (inv : Inv s) (action : Action) : Inv (step s action) := by
  cases action with
  | submitted r => exact inv_submitted inv r
  | callback i status => exact inv_callback inv i status
  | handled r => exact inv_handled inv r
  | cancelled r => exact inv_cancelled inv r
  | cancelAsync => exact inv_cancelAsync inv
  | go => exact inv_go inv

/-! ### Leaving the loop -/

def Pc.leaving : Pc → Bool
  | .draining | .freeing | .returned => true
  | _ => false

/-- The loop has been left after a pass in which libusb accepted a cancel. -/
def Doomed (s : Reader) : Prop := s.pc.leaving = true ∧ s.accepted = true

def Reader.passEnds (s : Reader) : Bool :=
  match s.pc with
  | .pass i => s.dev.xferBufNum.toNat ≤ i
  | _ => false

/-- What is asked of libusb and of the device once a cancel has been accepted: no error of
`libusb_handle_events` while the next pass is waited for, and no device that is lost when the
pass ends. -/
def Clean (s : Reader) : Action → Prop
  | .handled r => s.pc = .events → s.accepted = true → 0 ≤ r ∨ r = libusbErrorInterrupted
  | .go => s.passEnds = true → s.accepted = true → s.dev.devLost = false
  | .submitted _ | .callback _ _ | .cancelled _ | .cancelAsync => True

instance (s : Reader) : (action : Action) → Decidable (Clean s action)
  | .handled r => inferInstanceAs (Decidable (s.pc = .events → s.accepted = true →
      0 ≤ r ∨ r = libusbErrorInterrupted))
  | .go => inferInstanceAs (Decidable (s.passEnds = true → s.accepted = true →
      s.dev.devLost = false))
  | .submitted _ | .callback _ _ | .cancelled _ | .cancelAsync => isTrue trivial

/-- There is no way back, and no further cancel. -/
theorem step_leaving (leaving : s.pc.leaving = true) (action : Action) :
    (step s action).pc.leaving = true ∧ (step s action).accepted = s.accepted := by
  cases action with
  | submitted r =>
    rw [step]
    split
    · next i here =>
      rw [here] at leaving
      cases leaving
    · exact ⟨leaving, rfl⟩
  | callback i status =>
    rw [step]
    split
    · exact ⟨leaving, rfl⟩
    · exact ⟨leaving, rfl⟩
  | handled r =>
    rw [step]
    split
    · next here =>
      rw [here] at leaving
      cases leaving
    · next i here =>
      rw [here] at leaving
      cases leaving
    · exact ⟨rfl, rfl⟩
    · exact ⟨leaving, rfl⟩
  | cancelled r =>
    rw [step]
    split
    · next i here =>
      rw [here] at leaving
      cases leaving
    · exact ⟨leaving, rfl⟩
  | cancelAsync => exact ⟨leaving, rfl⟩
  | go =>
    rw [step, go]
    cases here : s.pc with
    | freeing => exact ⟨rfl, rfl⟩
    | draining | returned => exact ⟨by rw [here]; rfl, rfl⟩
    | submitting | loop | events | check | pass | cancelling | settling =>
      rw [here] at leaving
      cases leaving

theorem doomed_step (doomed : Doomed s) (action : Action) : Doomed (step s action) := by
  obtain ⟨leaving, accepted⟩ := step_leaving doomed.1 action
  exact ⟨leaving, accepted.trans doomed.2⟩

theorem not_doomed (inside : s.pc.leaving = false) : ¬Doomed s := by
  rintro ⟨leaving, _⟩
  rw [inside] at leaving
  cases leaving

theorem clean_leaving (leaving : s.pc.leaving = true) (action : Action) : Clean s action := by
  cases action with
  | handled r =>
    intro here
    rw [here] at leaving
    cases leaving
  | go =>
    intro ends
    rw [Reader.passEnds] at ends
    split at ends
    · next i here =>
      rw [here] at leaving
      cases leaving
    · cases ends
  | submitted | callback | cancelled | cancelAsync => trivial

section

variable {s : Reader} (inside : s.pc.leaving = false)

include inside

theorem handled_doomed_iff (r : Int) : Doomed (step s (.handled r)) ↔ ¬Clean s (.handled r) := by
  have elsewhere (place : s.pc ≠ .events) {s' : Reader} (inside' : s'.pc.leaving = false) :
      Doomed s' ↔ ¬Clean s (.handled r) :=
    iff_of_false (not_doomed inside') (not_not.mpr fun here => absurd here place)
  rw [step]
  split
  · next here =>
    rw [Clean]
    split_ifs with negative stray
    · exact iff_of_false (not_doomed rfl) (not_not.mpr fun _ _ => .inr stray)
    · constructor
      · rintro ⟨_, accepted⟩ clean
        rcases clean here accepted with fine | interrupted
        · exact absurd fine (Int.not_le.mpr negative)
        · exact stray interrupted
      · intro unclean
        refine ⟨rfl, ?_⟩
        by_contra refused
        exact unclean fun _ accepted => absurd accepted refused
    · exact iff_of_false (not_doomed rfl)
        (not_not.mpr fun _ _ => .inl (Int.not_lt.mp negative))
  · next i here => exact elsewhere (by rw [here]; nofun) rfl
  · next here =>
    rw [here] at inside
    cases inside
  · next other _ _ => exact elsewhere other inside

theorem go_doomed_iff (inv : Inv s) : Doomed (go s) ↔ ¬Clean s .go := by
  have elsewhere (place : ∀ i, s.pc ≠ .pass i) {s' : Reader} (fine : ¬Doomed s') :
      Doomed s' ↔ ¬Clean s .go :=
    iff_of_false fine (not_not.mpr fun ends => by
      rw [Reader.passEnds] at ends
      split at ends
      · next i here => exact absurd here (place i)
      · cases ends)
  rw [go]
  split
  · next i here =>
    refine elsewhere (by rw [here]; nofun) ?_
    split
    · exact not_doomed inside
    · exact not_doomed rfl
  · next here =>
    refine elsewhere (by rw [here]; nofun) (not_doomed ?_)
    rw [if_neg (inv.going (by rw [here]; nofun))]
    rfl
  · next here =>
    refine elsewhere (by rw [here]; nofun) ?_
    dsimp only
    split
    -- what was accepted in an earlier pass no longer counts
    · rintro ⟨_, ⟨⟩⟩
    · exact not_doomed rfl
  · next i here =>
    have next := inv.tracks (by rw [here]; nofun)
    split
    · next more =>
      refine iff_of_false (not_doomed ?_) (not_not.mpr ?_)
      · dsimp only
        split <;> rfl
      · intro ends
        rw [Reader.passEnds, here] at ends
        exact absurd more (Nat.not_lt.mpr (of_decide_eq_true ends))
    · next beyond =>
      have ends : s.passEnds = true := by
        rw [Reader.passEnds, here]
        exact decide_eq_true (Nat.not_lt.mp beyond)
      cases accepted : s.accepted with
      | false =>
        refine iff_of_false (fun doomed => ?_) (not_not.mpr fun _ again => ?_)
        · exact absurd doomed.2 nofun
        · exact absurd (accepted.symm.trans again) nofun
      | true =>
        -- another pass would follow, unless the device is lost
        rw [next, accepted]
        cases lost : s.dev.devLost with
        | true =>
          refine iff_of_true ⟨rfl, rfl⟩ fun clean => ?_
          exact absurd (lost.symm.trans (clean ends accepted)) nofun
        | false => exact iff_of_false (not_doomed rfl) (not_not.mpr fun _ _ => lost)
  · next here =>
    rw [here] at inside
    cases inside
  all_goals
    next here => exact elsewhere (by rw [here]; nofun) (not_doomed inside)

end

/-- A step leaves the loop at the wrong moment exactly if it is not clean. -/
theorem doomed_iff (inv : Inv s) (fine : ¬Doomed s) (action : Action) :
    Doomed (step s action) ↔ ¬Clean s action := by
  cases leaves : s.pc.leaving with
  | true =>
    have kept := step_leaving leaves action
    exact iff_of_false (fun doomed => fine ⟨leaves, kept.2.symm.trans doomed.2⟩)
      (not_not.mpr (clean_leaving leaves action))
  | false =>
    cases action with
    | handled r => exact handled_doomed_iff leaves r
    | go => exact go_doomed_iff leaves inv
    | submitted r =>
      refine iff_of_false ?_ (not_not.mpr trivial)
      rw [step]
      split
      · split_ifs
        · exact not_doomed rfl
        · exact not_doomed rfl
        · exact fine
      · exact fine
    | callback i status =>
      refine iff_of_false ?_ (not_not.mpr trivial)
      rw [step]
      split
      · exact not_doomed leaves
      · exact fine
    | cancelled r =>
      refine iff_of_false ?_ (not_not.mpr trivial)
      rw [step]
      split
      · exact not_doomed rfl
      · exact fine
    | cancelAsync => exact iff_of_false (not_doomed leaves) (not_not.mpr trivial)

/-! ### Whole runs -/

theorem start_inside {bufNum bufLen : UInt32}
    (entered : rtlsdrReadAsync dev bufNum bufLen = .ok s) : s.pc.leaving = false := by
  rw [rtlsdrReadAsync] at entered
  split at entered
  · cases entered
  cases entered
  rfl

theorem inv_run (inv : Inv s) (actions : List Action) : Inv (run s actions) := by
  induction actions generalizing s with
  | nil => exact inv
  | cons action actions ih => exact ih (inv_step inv action)

/-- A call of `rtlsdr_read_async` that was not refused and has returned leaves the device so
that it can be read again, exactly if every step of the run was clean. -/
theorem readAsync_ends_iff {dev : Device} {bufNum bufLen : UInt32} {s : Reader}
    (entered : rtlsdrReadAsync dev bufNum bufLen = .ok s) (actions : List Action)
    (returned : (run s actions).pc = .returned) :
    (run s actions).dev.xfer = none ∧ (run s actions).dev.xferBuf = none ∧
      (((run s actions).dev.asyncStatus = .inactive ∧ ∀ bufNum' bufLen',
        ∃ s', rtlsdrReadAsync (run s actions).dev bufNum' bufLen' = .ok s') ↔
        Guarded.Meets step Clean s actions) := by
  have start := inv_start entered
  have fine : ¬Doomed s := not_doomed (start_inside entered)
  have inv := inv_run start actions
  obtain ⟨xfer, xferBuf, status⟩ := inv.freed returned
  have next := inv.tracks (by rw [returned]; nofun)
  refine ⟨xfer, xferBuf, ?_⟩
  rw [← Guarded.end_iff_meets Inv Doomed (fun _ action inv => inv_step inv action)
    (fun _ action doomed => doomed_step doomed action)
    (fun _ action inv fine => doomed_iff inv fine action) start fine actions]
  change _ ↔ ¬Doomed (run s actions)
  have later : (∀ bufNum' bufLen', ∃ s', rtlsdrReadAsync (run s actions).dev bufNum' bufLen' =
      .ok s') ↔ (run s actions).dev.asyncStatus = .inactive :=
    ⟨fun all => (enters_iff _ 0 0).mp (all 0 0), fun inactive _ _ => (enters_iff _ _ _).mpr inactive⟩
  rw [later, and_self, status, next, Doomed, returned]
  cases (run s actions).accepted with
  | false => exact iff_of_true rfl nofun
  | true => exact iff_of_false nofun (not_not.mpr ⟨rfl, rfl⟩)

/-! ### Two runs -/

def idleDevice : Device where
  asyncStatus := .inactive
  xferBufNum := 0
  xferBufLen := 0
  xfer := none
  xferBuf := none
  devLost := false
  xferErrors := 0

/-- The device with two transfers, before the first submit. -/
def startedReader : Reader where
  dev :=
    { idleDevice with
      asyncStatus := .running
      xferBufNum := 2
      xferBufLen := defaultBufLength
      xfer := some fun _ => .completed
      xferBuf := some defaultBufLength }
  nextStatus := .inactive
  r := 0
  pc := .submitting 0
  accepted := false

theorem startedReader_entered : rtlsdrReadAsync idleDevice 2 0 = .ok startedReader := rfl

/-- Both transfers are submitted, and the loop waits for events. -/
def submitBoth : List Action := [.submitted 0, .submitted 0, .go, .go]

/-- `rtlsdr_cancel_async`, a pass that cancels both transfers, and one that finds them ended. -/
def cancelBoth : List Action :=
  submitBoth ++ [.cancelAsync, .handled 0, .go, .go, .cancelled 0, .callback 0 .cancelled,
    .handled 0, .go, .cancelled 0, .callback 1 .cancelled, .handled 0, .go, .go, .handled 0, .go,
    .go, .go, .go, .handled 0, .go]

theorem readAsync_ends_cancelled :
    (run startedReader cancelBoth).dev.asyncStatus = .inactive ∧
      (run startedReader cancelBoth).dev.xfer = none ∧
      (run startedReader cancelBoth).dev.xferBuf = none := by
  have returned : (run startedReader cancelBoth).pc = .returned := by decide +kernel
  obtain ⟨xfer, xferBuf, inactive⟩ :=
    readAsync_ends_iff startedReader_entered cancelBoth returned
  exact ⟨(inactive.mpr (by decide +kernel)).1, xfer, xferBuf⟩

/-- The device is lost while the second transfer is in flight: its cancel is accepted, and the
loop is left at the end of the pass. -/
def loseDevice : List Action :=
  submitBoth ++ [.callback 0 .noDevice, .handled 0, .go, .go, .cancelled (-5), .handled 0, .go,
    .cancelled 0, .callback 1 .cancelled, .handled 0, .go, .handled 0, .go]

theorem readAsync_lost_refused :
    (run startedReader loseDevice).pc = .returned ∧
      (run startedReader loseDevice).dev.asyncStatus = .canceling ∧
      rtlsdrReadAsync (run startedReader loseDevice).dev 0 0 = .error (-2) := by
  have status : (run startedReader loseDevice).dev.asyncStatus = .canceling := by decide +kernel
  refine ⟨by decide +kernel, status, ?_⟩
  rw [rtlsdrReadAsync, status]
  rfl

end RtlSdr.AsyncEnd
