import RtlSdr.Lib.Guarded

/-!
# The transfers of `rtlsdr_read_async`

A transfer is in flight from a successful submit until its callback runs inside a call of
`libusb_handle_events`; freeing one before is a use after free by the USB stack. The passes at the
end take a negative result of `libusb_cancel_transfer` to mean that a transfer is not in flight. It
is negative as well for one that has been cancelled and whose callback has not run yet.
-/
namespace RtlSdr.ReadAsync

/-! ### What libusb does -/

/-- `enum libusb_transfer_status`. -/
inductive TransferStatus
  | completed | error | timedOut | cancelled | stall | noDevice | overflow
deriving DecidableEq, Repr

def libusbErrorNotFound : Int := -5
def libusbErrorInterrupted : Int := -10

structure Transfer where
  /-- Written before the callback runs, and left as it is by a submit. -/
  status : TransferStatus
  inFlight : Bool
  /-- `libusb_cancel_transfer` has been called since the submit. -/
  cancelled : Bool

/-- `libusb_alloc_transfer`. -/
def Transfer.alloc : Transfer := ⟨.completed, false, false⟩

/-- `libusb_submit_transfer` when it returns `r`. -/
def Transfer.submit (xfer : Transfer) (r : Int) : Transfer :=
  if r < 0 then xfer else { xfer with inFlight := true, cancelled := false }

/-- `libusb_cancel_transfer`. -/
def Transfer.cancel (xfer : Transfer) : Int × Transfer :=
  if xfer.inFlight && !xfer.cancelled then (0, { xfer with cancelled := true })
  else (libusbErrorNotFound, xfer)

/-! ### The reader -/

/-- `enum rtlsdr_async_status`. -/
inductive AsyncStatus
  | inactive | canceling | running
deriving DecidableEq, Repr

/-- Where `rtlsdr_read_async` stands. -/
inductive Pc
  /-- Before the submit of a transfer. -/
  | submitting (i : Nat)
  /-- At the condition of the loop. -/
  | loop
  /-- In the call of `libusb_handle_events` that waits. -/
  | events
  /-- Behind it. -/
  | check
  /-- In a pass, before a transfer. -/
  | pass (i : Nat)
  /-- In the call of `libusb_handle_events` after the cancel of a transfer. -/
  | settling (i : Nat)
  /-- In the last call of `libusb_handle_events`. -/
  | draining
  /-- Before `_rtlsdr_free_async_buffers`. -/
  | freeing
  | returned
deriving DecidableEq, Repr

/-- The fields of `struct rtlsdr_dev` in use, with the local variables `next_status` and `r`.
Allocations succeed; `async_cancel` only lets libusb return earlier, which it may do anyway. -/
structure Reader where
  xferBufNum : UInt32
  xfer : Nat → Transfer
  asyncStatus : AsyncStatus
  devLost : Bool
  xferErrors : UInt32
  nextStatus : AsyncStatus
  r : Int
  pc : Pc

def defaultBufNumber : UInt32 := 15

/-- `rtlsdr_read_async` up to the first submit, on a device that is not streaming. -/
def rtlsdrReadAsync (devLost : Bool) (xferErrors bufNum : UInt32) : Reader where
  xferBufNum := if bufNum > 0 then bufNum else defaultBufNumber
  xfer := fun _ => .alloc
  asyncStatus := .running
  devLost := devLost
  xferErrors := xferErrors
  nextStatus := .inactive
  r := 0
  pc := .submitting 0

def Reader.setXfer (s : Reader) (i : Nat) (xfer : Transfer) : Reader :=
  { s with xfer := Function.update s.xfer i xfer }

/-- `_libusb_callback`, where `r` is the result of the submit in it. -/
def libusbCallback (s : Reader) (i : Nat) (status : TransferStatus) (r : Int) : Reader :=
  -- libusb has set the status and taken the transfer back
  let done : Transfer := { s.xfer i with status, inFlight := false }
  if status = .completed then
    -- resubmitted at once, and the status stays `COMPLETED`
    { s.setXfer i (done.submit r) with xferErrors := 0 }
  else if status ≠ .cancelled then
    let xferErrors := if status = .error then s.xferErrors + 1 else s.xferErrors
    -- too many errors in a row, or the stick is gone
    let lost := xferErrors ≥ s.xferBufNum || status = .noDevice
    { s.setXfer i done with xferErrors, devLost := s.devLost || lost }
  else s.setXfer i done

/-- What can happen next. -/
inductive Action
  /-- `libusb_submit_transfer` returns. -/
  | submitted (r : Int)
  /-- libusb ends a transfer and runs its callback. -/
  | callback (i : Nat) (status : TransferStatus) (r : Int)
  /-- `libusb_handle_events_timeout_completed` returns. -/
  | handled (r : Int)
  /-- `rtlsdr_cancel_async`, from another thread or from a callback. -/
  | cancelAsync
  /-- `rtlsdr_read_async` goes on. -/
  | go
deriving DecidableEq, Repr

/-- Callbacks run only inside `libusb_handle_events`. -/
def Pc.handlesEvents : Pc → Bool
  | .events | .settling _ | .draining => true
  | _ => false

def visit (s : Reader) (i : Nat) : Reader :=
  if (s.xfer i).status ≠ .cancelled then
    -- a negative result is taken for a transfer that is not in flight: the pass goes on
    let (r, xfer) := (s.xfer i).cancel
    { s.setXfer i xfer with
      r
      nextStatus := if r < 0 then s.nextStatus else .canceling
      pc := .settling i }
  else { s with pc := .pass (i + 1) }

/-- `rtlsdr_read_async` from one call of libusb to the next. -/
def go (s : Reader) : Reader :=
  match s.pc with
  | .submitting i => if i < s.xferBufNum.toNat then s else { s with pc := .loop }
  | .loop => { s with pc := if s.asyncStatus = .inactive then .freeing else .events }
  | .check =>
    -- `rtlsdr_cancel_async` on a lost device
    let asyncStatus :=
      if s.devLost ∧ s.asyncStatus = .running then .canceling else s.asyncStatus
    if asyncStatus = .canceling then
      { s with asyncStatus, nextStatus := .inactive, pc := .pass 0 }
    else { s with asyncStatus, pc := .loop }
  | .pass i =>
    if i < s.xferBufNum.toNat then visit s i
    -- nothing was cancelled in this pass, so nothing is thought to be in flight
    else { s with pc := if s.devLost ∨ s.nextStatus = .inactive then .draining else .loop }
  | .freeing =>
    { s with asyncStatus := s.nextStatus, r := if s.devLost then -1 else s.r, pc := .returned }
  | .events | .settling _ | .draining | .returned => s

/-- One step; an action that cannot happen changes nothing. -/
def step (s : Reader) : Action → Reader
  | .submitted r =>
    match s.pc with
    | .submitting i =>
      if i < s.xferBufNum.toNat then
        let s := { s.setXfer i ((s.xfer i).submit r) with r }
        -- the transfers submitted so far are cancelled by the loop
        if r < 0 then { s with asyncStatus := .canceling, pc := .loop }
        else { s with pc := .submitting (i + 1) }
      else s
    | _ => s
  | .callback i status r =>
    if s.pc.handlesEvents ∧ (s.xfer i).inFlight then libusbCallback s i status r else s
  | .handled r =>
    match s.pc with
    | .events =>
      { s with
        r
        pc :=
          if r < 0 then
            -- a stray signal
            if r = libusbErrorInterrupted then .loop else .freeing
          else .check }
    | .settling i => { s with pc := .pass (i + 1) }
    | .draining => { s with pc := .freeing }
    | _ => s
  | .cancelAsync =>
    if s.asyncStatus = .running then { s with asyncStatus := .canceling } else s
  | .go => go s

def run (s : Reader) (actions : List Action) : Reader := actions.foldl step s

/-! ### What holds throughout -/

/-- The number of transfers a pass has been over. -/
def Reader.passed (s : Reader) : Nat :=
  match s.pc with
  | .pass i => i
  | .settling i => i + 1
  | .draining | .freeing => s.xferBufNum.toNat
  | .submitting _ | .loop | .events | .check | .returned => 0

/-- A transfer that ended cancelled is not submitted again. -/
def Transfer.Landed (xfer : Transfer) : Prop := xfer.status = .cancelled → xfer.inFlight = false

structure Inv (s : Reader) : Prop where
  landed : ∀ i, (s.xfer i).Landed
  going : s.pc ≠ .returned → s.asyncStatus ≠ .inactive
  /-- No transfer has ended before all have been submitted. -/
  fresh : ∀ i, s.pc = .submitting i → ∀ j, (s.xfer j).status = .completed
  /-- As long as a pass has nothing to wait for, what it has been over is not in flight. -/
  idle : s.nextStatus = .inactive → ∀ i < s.passed, (s.xfer i).inFlight = false
  leaving : s.pc = .draining ∨ s.pc = .freeing → s.devLost = false → s.nextStatus = .inactive

theorem inv_start (devLost : Bool) (xferErrors bufNum : UInt32) :
    Inv (rtlsdrReadAsync devLost xferErrors bufNum) where
  landed _ _ := rfl
  going _ running := by cases running
  fresh _ _ _ := rfl
  idle _ i before := absurd before (Nat.not_lt_zero i)
  leaving := by rintro (here | here) <;> cases here

/-- The next transfer of a pass is in flight and has been cancelled before. -/
def Reader.repeatsCancel (s : Reader) : Bool :=
  match s.pc with
  | .pass i => decide (i < s.xferBufNum.toNat) && (s.xfer i).inFlight && (s.xfer i).cancelled
  | _ => false

/-- The condition under which a pass judges rightly. -/
def CancelsOnce (s : Reader) (action : Action) : Prop := action = .go → s.repeatsCancel = false

instance (s : Reader) (action : Action) : Decidable (CancelsOnce s action) :=
  inferInstanceAs (Decidable (_ → _))

/-! ### Transfers -/

variable {s : Reader} {xfer : Transfer}

theorem setXfer_all {P : Transfer → Prop} (i : Nat) (others : ∀ j, P (s.xfer j)) (this : P xfer) :
    ∀ j, P ((s.setXfer i xfer).xfer j) := by
  intro j
  dsimp only [Reader.setXfer]
  by_cases same : j = i
  · rw [same, Function.update_self]
    exact this
  · rw [Function.update_of_ne same]
    exact others j

theorem setXfer_ne {i j : Nat} (xfer : Transfer) (other : j ≠ i) :
    (s.setXfer i xfer).xfer j = s.xfer j := by
  dsimp only [Reader.setXfer]
  rw [Function.update_of_ne other]

theorem submit_status (xfer : Transfer) (r : Int) : (xfer.submit r).status = xfer.status := by
  rw [Transfer.submit]
  split <;> rfl

theorem landed_of_status (ended : xfer.status ≠ .cancelled) : xfer.Landed :=
  fun cancelled => absurd cancelled ended

/-- A negative result means that the transfer is not in flight, or has been cancelled before. -/
theorem cancel_negative (negative : xfer.cancel.1 < 0)
    (once : (xfer.inFlight && xfer.cancelled) = false) : xfer.cancel.2.inFlight = false := by
  unfold Transfer.cancel at negative ⊢
  split at negative
  · exact absurd negative (Int.lt_irrefl 0)
  · next refused =>
    rw [if_neg refused]
    cases flying : xfer.inFlight with
    | false => rfl
    | true =>
      rw [flying, Bool.true_and] at once
      rw [flying, once] at refused
      exact absurd rfl refused

theorem cancel_landed (landed : xfer.Landed) : xfer.cancel.2.Landed := by
  rw [Transfer.cancel]
  split
  · exact landed
  · exact landed

/-! ### One step -/

theorem Inv.going_at (inv : Inv s) {pc : Pc} (here : s.pc = pc) (before : pc ≠ .returned) :
    s.asyncStatus ≠ .inactive := by
  apply inv.going
  rw [here]
  exact before

theorem Inv.of_same {s' : Reader} (inv : Inv s) (xfer : s'.xfer = s.xfer)
    (going : s'.pc ≠ .returned → s'.asyncStatus ≠ .inactive) (passed : s'.passed = 0)
    (outside : ∀ i, s'.pc ≠ .submitting i ∧ s'.pc ≠ .draining ∧ s'.pc ≠ .freeing) :
    Inv s' where
  landed := by
    rw [xfer]
    exact inv.landed
  going := going
  fresh i here := absurd here (outside i).1
  idle _ i before := absurd before (by rw [passed]; exact Nat.not_lt_zero i)
  leaving := by
    rintro (here | here)
    · exact absurd here (outside 0).2.1
    · exact absurd here (outside 0).2.2

theorem inv_submitted (inv : Inv s) (r : Int) : Inv (step s (.submitted r)) := by
  rw [step]
  split
  · next i here =>
    have going := inv.going_at here nofun
    -- a submit does not touch the status, and no callback can have run yet
    have fresh : ∀ j, ((s.setXfer i ((s.xfer i).submit r)).xfer j).status = .completed := by
      apply setXfer_all (P := fun xfer => xfer.status = .completed) i (inv.fresh i here)
      rw [submit_status]
      exact inv.fresh i here i
    have landed : ∀ j, ((s.setXfer i ((s.xfer i).submit r)).xfer j).Landed := fun j =>
      landed_of_status (by rw [fresh j]; exact TransferStatus.noConfusion)
    split
    · dsimp only
      split
      · exact ⟨landed, fun _ => AsyncStatus.noConfusion, fun _ => Pc.noConfusion,
          fun _ i before => absurd before (Nat.not_lt_zero i), by rintro (h | h) <;> cases h⟩
      · exact ⟨landed, fun _ => going, fun _ _ => fresh,
          fun _ i before => absurd before (Nat.not_lt_zero i), by rintro (h | h) <;> cases h⟩
    · exact inv
  · exact inv

theorem callback_xfer (s : Reader) (i : Nat) (status : TransferStatus) (r : Int) :
    ∃ xfer : Transfer, xfer.Landed ∧ ∃ devLost xferErrors,
      libusbCallback s i status r =
        { s.setXfer i xfer with devLost := s.devLost || devLost, xferErrors } := by
  unfold libusbCallback
  dsimp only
  split
  -- submitted again, so it may be in flight: but then it has not ended cancelled
  · next completed =>
    let again := { s.xfer i with status, inFlight := false }.submit r
    have landed : again.Landed :=
      landed_of_status (by rw [submit_status, completed]; exact TransferStatus.noConfusion)
    exact ⟨again, landed, false, 0, by rw [Bool.or_false]; rfl⟩
  · split
    · exact ⟨_, fun _ => rfl, _, _, rfl⟩
    · exact ⟨_, fun _ => rfl, false, s.xferErrors, by rw [Bool.or_false]; rfl⟩

theorem inv_callback (inv : Inv s) (i : Nat) (status : TransferStatus) (r : Int) :
    Inv (step s (.callback i status r)) := by
  rw [step]
  split
  · next enabled =>
    obtain ⟨events, flying⟩ := enabled
    obtain ⟨xfer, landed, devLost, xferErrors, result⟩ := callback_xfer s i status r
    rw [result]
    refine ⟨setXfer_all i inv.landed landed, inv.going, ?_, ?_, ?_⟩
    · intro j here
      rw [show s.pc = .submitting j from here] at events
      cases events
    · -- a transfer the pass has been over has no callback left
      intro waiting j before
      have grounded := inv.idle waiting j before
      have other : j ≠ i := by
        rintro rfl
        rw [flying] at grounded
        cases grounded
      rw [← grounded]
      exact congrArg Transfer.inFlight (setXfer_ne xfer other)
    · intro leaves kept
      exact inv.leaving leaves (Bool.or_eq_false_iff.mp kept).1
  · exact inv

theorem inv_handled (inv : Inv s) (r : Int) (documented : 0 ≤ r ∨ r = libusbErrorInterrupted) :
    Inv (step s (.handled r)) := by
  rw [step]
  split
  · next here =>
    have going := inv.going_at here nofun
    -- any other negative result would leave the loop at once, with everything in flight
    rcases documented with fine | rfl
    · rw [if_neg (Int.not_lt.mpr fine)]
      exact inv.of_same rfl (fun _ => going) rfl fun _ => ⟨nofun, nofun, nofun⟩
    · rw [if_pos (by decide), if_pos rfl]
      exact inv.of_same rfl (fun _ => going) rfl fun _ => ⟨nofun, nofun, nofun⟩
  · next i here =>
    have going := inv.going_at here nofun
    refine ⟨inv.landed, fun _ => going, nofun, ?_, nofun⟩
    intro waiting j before
    apply inv.idle waiting j
    rw [Reader.passed, here]
    exact before
  · next here =>
    have going := inv.going_at here nofun
    refine ⟨inv.landed, fun _ => going, nofun, ?_, fun _ => inv.leaving (.inl here)⟩
    intro waiting j before
    apply inv.idle waiting j
    rw [Reader.passed, here]
    exact before
  · exact inv

theorem inv_cancelAsync (inv : Inv s) : Inv (step s .cancelAsync) := by
  rw [step]
  split
  · exact ⟨inv.landed, fun _ => nofun, inv.fresh, inv.idle, inv.leaving⟩
  · exact inv

/-- A pass goes on to the next transfer, with nothing to wait for only if this one is not in
flight. -/
theorem inv_visit (inv : Inv s) (i : Nat) (here : s.pc = .pass i)
    (once : ((s.xfer i).inFlight && (s.xfer i).cancelled) = false) : Inv (visit s i) := by
  have going := inv.going_at here nofun
  have earlier (waiting : s.nextStatus = .inactive) (j : Nat) (before : j < i) :
      (s.xfer j).inFlight = false := by
    apply inv.idle waiting j
    rw [Reader.passed, here]
    exact before
  rw [visit]
  split
  · dsimp only
    refine ⟨setXfer_all i inv.landed (cancel_landed (inv.landed i)), fun _ => going, nofun, ?_,
      nofun⟩
    intro waiting j before
    -- `next_status` is still inactive only if this cancel was refused as well
    dsimp only at waiting
    split at waiting
    · next negative =>
      have upTo : j ≤ i := Nat.lt_succ_iff.mp before
      rcases Nat.lt_or_eq_of_le upTo with less | rfl
      · rw [← earlier waiting j less]
        exact congrArg Transfer.inFlight (setXfer_ne _ (Nat.ne_of_lt less))
      · rw [← cancel_negative negative once]
        exact congrArg Transfer.inFlight (Function.update_self j _ s.xfer)
    · cases waiting
  · next ended =>
    refine ⟨inv.landed, fun _ => going, nofun, ?_, nofun⟩
    intro waiting j before
    have upTo : j ≤ i := Nat.lt_succ_iff.mp before
    rcases Nat.lt_or_eq_of_le upTo with less | rfl
    · exact earlier waiting j less
    · exact inv.landed j (Decidable.not_not.mp ended)

theorem inv_go (inv : Inv s) (once : CancelsOnce s .go) : Inv (go s) := by
  rw [go]
  split
  · next i here =>
    have going := inv.going_at here nofun
    split
    · exact inv
    · exact inv.of_same rfl (fun _ => going) rfl fun _ => ⟨nofun, nofun, nofun⟩
  · next here =>
    have going := inv.going_at here nofun
    rw [if_neg going]
    exact inv.of_same rfl (fun _ => going) rfl fun _ => ⟨nofun, nofun, nofun⟩
  · next here =>
    have going := inv.going_at here nofun
    -- the status only goes from running to canceling here
    have still : (if s.devLost = true ∧ s.asyncStatus = .running then AsyncStatus.canceling
        else s.asyncStatus) ≠ .inactive := by
      split
      · exact nofun
      · exact going
    dsimp only
    generalize (if s.devLost = true ∧ s.asyncStatus = .running then AsyncStatus.canceling
      else s.asyncStatus) = status at still ⊢
    split
    · exact inv.of_same rfl (fun _ => still) rfl fun _ => ⟨nofun, nofun, nofun⟩
    · exact inv.of_same rfl (fun _ => still) rfl fun _ => ⟨nofun, nofun, nofun⟩
  · next i here =>
    have going := inv.going_at here nofun
    split
    · next more =>
      apply inv_visit inv i here
      have found := once rfl
      rw [Reader.repeatsCancel, here] at found
      rw [← found]
      simp [more]
    · next beyond =>
      split
      · next leaves =>
        -- the pass is over, and `idle` covers all transfers
        refine ⟨inv.landed, fun _ => going, nofun, ?_, ?_⟩
        · intro waiting j before
          apply inv.idle waiting j
          rw [Reader.passed, here]
          exact Nat.lt_of_lt_of_le before (Nat.not_lt.mp beyond)
        · intro _ kept
          rcases leaves with lost | waiting
          · rw [show s.devLost = false from kept] at lost
            cases lost
          · exact waiting
      · exact inv.of_same rfl (fun _ => going) rfl fun _ => ⟨nofun, nofun, nofun⟩
  · exact inv.of_same rfl (fun ended => absurd rfl ended) rfl fun _ => ⟨nofun, nofun, nofun⟩
  all_goals exact inv

theorem inv_step (inv : Inv s) (action : Action) (once : CancelsOnce s action)
    (documented : ∀ r, action = .handled r → 0 ≤ r ∨ r = libusbErrorInterrupted) :
    Inv (step s action) := by
  cases action with
  | submitted r => exact inv_submitted inv r
  | callback i status r => exact inv_callback inv i status r
  | handled r => exact inv_handled inv r (documented r rfl)
  | cancelAsync => exact inv_cancelAsync inv
  | go => exact inv_go inv once

/-- Where no transfer is cancelled a second time while it is in flight, nothing is freed in
flight: for every order of completions, errors, resubmissions and calls of
`rtlsdr_cancel_async`, as long as the device is not lost and events are handled without an
error but `LIBUSB_ERROR_INTERRUPTED`. -/
theorem readAsync_frees_idle (devLost : Bool) (xferErrors bufNum : UInt32)
    (actions : List Action)
    (documented : ∀ r, Action.handled r ∈ actions → 0 ≤ r ∨ r = libusbErrorInterrupted)
    (once : Guarded.Meets step CancelsOnce (rtlsdrReadAsync devLost xferErrors bufNum) actions)
    (freeing : (run (rtlsdrReadAsync devLost xferErrors bufNum) actions).pc = .freeing)
    (kept : (run (rtlsdrReadAsync devLost xferErrors bufNum) actions).devLost = false) :
    ∀ i < (run (rtlsdrReadAsync devLost xferErrors bufNum) actions).xferBufNum.toNat,
      ((run (rtlsdrReadAsync devLost xferErrors bufNum) actions).xfer i).inFlight = false := by
  -- the invariant along the run, and then `leaving` and `idle` at its end
  have inv : Inv (run (rtlsdrReadAsync devLost xferErrors bufNum) actions) := by
    apply once.invariant Inv _ (inv_start devLost xferErrors bufNum)
    intro s action member inv once
    exact inv_step inv action once fun r handled => documented r (handled ▸ member)
  intro i inside
  apply inv.idle (inv.leaving (.inr freeing) kept) i
  rw [Reader.passed, freeing]
  exact inside

/-- One transfer is submitted, the run is cancelled and the transfer ends in the next call of
`libusb_handle_events`. -/
def cancelledRun : List Action :=
  [.submitted 0, .go, .go, .cancelAsync, .handled 0, .go, .go, .callback 0 .cancelled 0, .handled 0,
    .go, .go, .handled 0, .go, .go, .go, .handled 0]

theorem readAsync_frees_idle_cancelled :
    (run (rtlsdrReadAsync false 0 1) cancelledRun).pc = .freeing ∧
      ((run (rtlsdrReadAsync false 0 1) cancelledRun).xfer 0).inFlight = false := by
  refine ⟨by decide, ?_⟩
  apply readAsync_frees_idle false 0 1 cancelledRun _ _ (by decide) (by decide) 0 (by decide)
  · intro r handled
    simp [cancelledRun] at handled
    omega
  · decide

/-- The same run, but libusb does not come to the callback: the second cancel is refused, and
the transfer is freed while it is in flight. -/
theorem readAsync_frees_in_flight :
    let s := run (rtlsdrReadAsync false 0 1)
      [.submitted 0, .go, .go, .cancelAsync, .handled 0, .go, .go, .handled 0, .go, .go, .handled 0,
        .go, .go, .handled 0, .go, .handled 0]
    s.pc = .freeing ∧ s.devLost = false ∧ 0 < s.xferBufNum.toNat ∧
      (s.xfer 0).inFlight = true := by
  decide

end RtlSdr.ReadAsync
