import RtlSdr.Lib.Transducer
import RtlSdr.Stream.Proto

/-!
# The commands of `rtl_tcp`

A command is one byte and a parameter of four, and arrives in as many pieces as the network makes
of it.
-/
namespace RtlSdr.TcpCommands

open Transducer

/-! ### The worker -/

/-- What the worker calls in `librtlsdr`. -/
inductive DeviceCall
  | setCenterFreq (freq : UInt32)
  | setSampleRate (rate : UInt32)
  | setTunerGainMode (manual : Int32)
  | setTunerGain (gain : Int32)
  | setFreqCorrection (ppm : Int32)
  | setTunerIfGain (stage : Int32) (gain : Int16)
  | setTestmode (on : Int32)
  | setAgcMode (on : Int32)
  | setDirectSampling (on : Int32)
  | setOffsetTuning (on : Int32)
  | setXtalFreq (rtlFreq tunerFreq : UInt32)
  | setBiasTee (on : Int32)
deriving DecidableEq, Repr

/-- `set_gain_by_index`, for what `rtlsdr_get_tuner_gains` returns. -/
def setGainByIndex (gains : List Int32) (index : UInt32) : List DeviceCall :=
  (gains[index.toNat]?.map .setTunerGain).toList

/-- The `switch` of `client_cmd_worker`. -/
def execute (gains : List Int32) (cmd : List UInt8) : List DeviceCall :=
  let param := get32 (cmd.drop 1)
  let value := param.toInt32
  match (cmd.getD 0 0).toNat with
  | 0x01 => [.setCenterFreq param]
  | 0x02 => [.setSampleRate param]
  | 0x03 => [.setTunerGainMode value]
  | 0x04 => [.setTunerGain value]
  | 0x05 => [.setFreqCorrection value]
  | 0x06 => [.setTunerIfGain (param >>> 16).toInt32 param.toUInt16.toInt16]
  | 0x07 => [.setTestmode value]
  | 0x08 => [.setAgcMode value]
  | 0x09 => [.setDirectSampling value]
  | 0x0a => [.setOffsetTuning value]
  | 0x0b => [.setXtalFreq param 0]
  | 0x0c => [.setXtalFreq 0 param]
  | 0x0d => setGainByIndex gains param
  | 0x0e => [.setBiasTee value]
  | _ => []

/-- What `client_cmd_worker` does next. -/
inductive Place
  | check
  | recv
  | done
deriving DecidableEq, Repr

/-- A worker, and the slot that it shares with `add_client` and with the workers of later clients. -/
structure Worker where
  /-- What has been received of `cmd`; before it is whole, no byte of it is read. -/
  cmd : List UInt8
  place : Place
  /-- What there is to receive from the `sock` of the slot. -/
  incoming : List UInt8
  active : Bool
  doExit : Bool
deriving DecidableEq, Repr

inductive Event
  | exit
  /-- Another thread clears `active`. -/
  | clear
  /-- `add_client` gives a free slot to a client that is going to send `bytes`. -/
  | reuse (bytes : List UInt8)
  /-- Another worker of the slot receives `n` bytes. -/
  | other (n : Nat)
  /-- The worker looks at the flags, at the head of its loop or behind `select`. -/
  | check
  /-- `recv` returns at most `n` bytes, and fails for `n = 0`. -/
  | recv (n : Nat)
deriving DecidableEq, Repr

/-- What the worker receives in an event, and the calls that follow. -/
def step (gains : List Int32) (w : Worker) : Event → Worker × List (List UInt8 × List DeviceCall)
  | .exit => ({ w with doExit := true }, [])
  | .clear => ({ w with active := false }, [])
  | .reuse bytes => (if w.active then w else { w with incoming := bytes, active := true }, [])
  | .other n => ({ w with incoming := w.incoming.drop n }, [])
  | .check =>
    if w.place = .done then (w, [])
    else ({ w with place := if w.doExit ∨ ¬w.active then .done else .recv }, [])
  | .recv n =>
    let received := w.incoming.take (min n (5 - w.cmd.length))
    let incoming := w.incoming.drop (min n (5 - w.cmd.length))
    if w.place ≠ .recv then (w, [])
    else if received = [] then ({ w with active := false, place := .done }, [])
    else if (w.cmd ++ received).length = 5 then
      ({ w with cmd := [], incoming, place := .check },
        [(received, execute gains (w.cmd ++ received))])
    else ({ w with cmd := w.cmd ++ received, incoming, place := .check }, [(received, [])])

def started (bytes : List UInt8) : Worker := ⟨[], .check, bytes, true, false⟩

/-! ### What it makes of the bytes -/

/-- Nobody else takes bytes of the client, and no other client gets the slot. -/
def Event.Apart : Event → Prop
  | .reuse _ | .other _ => False
  | _ => True

section

variable {gains : List Int32} {bytes : List UInt8} {w : Worker} {cells : List (List UInt8)}
  {out : List (List UInt8 × List DeviceCall)}

/-- The worker has received `cells` and a part of the next one, and made the calls of `cells`. -/
def Received (gains : List Int32) (w : Worker) (out : List (List UInt8 × List DeviceCall))
    (cells : List (List UInt8)) : Prop :=
  out.flatMap Prod.fst = cells.flatten ++ w.cmd ∧ w.cmd.length < 5 ∧
    (∀ cell ∈ cells, cell.length = 5) ∧ out.flatMap Prod.snd = cells.flatMap (execute gains)

theorem received_step (received : Received gains w out cells) (event : Event) :
    ∃ more, Received gains (step gains w event).1 (out ++ (step gains w event).2)
      (cells ++ more) := by
  have same : Received gains w (out ++ []) (cells ++ []) := by
    simpa only [List.append_nil] using received
  cases event with
  | exit | clear | other => exact ⟨[], same⟩
  | reuse | check =>
    refine ⟨[], ?_⟩
    dsimp only [step]
    split <;> exact same
  | recv n =>
    obtain ⟨all, part, whole, calls⟩ := received
    dsimp only [step]
    split_ifs with other none full
    · exact ⟨[], same⟩
    · exact ⟨[], same⟩
    · refine ⟨[w.cmd ++ w.incoming.take (min n (5 - w.cmd.length))], ?_, Nat.succ_pos 4, ?_, ?_⟩
      · simp [all]
      · exact List.forall_mem_append.mpr ⟨whole, List.forall_mem_singleton.mpr full⟩
      · simp [calls]
    · refine ⟨[], ?_, ?_, same.2.2.1, ?_⟩
      · simp [all]
      · rw [List.length_append, List.length_take] at full ⊢
        omega
      · simp [calls]

theorem step_apart {event : Event} (apart : event.Apart) :
    (step gains w event).2.flatMap Prod.fst ++ (step gains w event).1.incoming = w.incoming := by
  cases event with
  | exit | clear => rfl
  | reuse | other => exact apart.elim
  | check =>
    rw [step]
    split <;> rfl
  | recv n =>
    dsimp only [step]
    split_ifs <;> simp

theorem run_apart (w : Worker) {events : List Event} (apart : ∀ event ∈ events, event.Apart) :
    (run (step gains) w events).2.flatMap Prod.fst ++ (run (step gains) w events).1.incoming =
      w.incoming := by
  induction events generalizing w with
  | nil => rfl
  | cons event events ih =>
    obtain ⟨here, later⟩ := List.forall_mem_cons.mp apart
    rw [run_cons, List.flatMap_append, List.append_assoc, ih _ later, step_apart here]

/-- As long as nothing stops the worker, each `recv` takes at least one byte, if there is one. -/
theorem drains (sizes : List Nat) (going : w.place = .check ∧ w.active = true ∧ w.doExit = false)
    (part : w.cmd.length < 5) (enough : w.incoming.length ≤ sizes.length) :
    (run (step gains) w (sizes.flatMap fun n => [.check, .recv (n + 1)])).1.incoming = [] := by
  induction sizes generalizing w with
  | nil => exact List.length_eq_zero_iff.mp (Nat.le_zero.mp enough)
  | cons n sizes ih =>
    by_cases none : w.incoming = []
    · have apart : ∀ event ∈ (n :: sizes).flatMap fun n => [Event.check, .recv (n + 1)],
          event.Apart := by
        intro event here
        obtain ⟨_, _, here⟩ := List.mem_flatMap.mp here
        rcases List.mem_pair.mp here with rfl | rfl <;> trivial
      exact (List.append_eq_nil_iff.mp ((run_apart w apart).trans none)).2
    · have positive := List.length_pos_iff.mpr none
      obtain ⟨ready, active, runs⟩ := going
      rw [List.length_cons] at enough
      rw [List.flatMap_cons, List.cons_append, run_cons, List.singleton_append, run_cons]
      have checked : step gains w .check = (⟨w.cmd, .recv, w.incoming, true, false⟩, []) := by
        simp [step, ready, active, runs]
      rw [checked]
      dsimp only [step]
      rw [if_neg (not_not.mpr rfl), if_neg (by simp [none]; omega)]
      split_ifs with full
      · exact ih ⟨rfl, rfl, rfl⟩ (Nat.succ_pos 4) (by rw [List.length_drop]; omega)
      · refine ih ⟨rfl, rfl, rfl⟩ ?_ (by rw [List.length_drop]; omega)
        rw [List.length_append, List.length_take] at full ⊢
        omega

end

/-- **The commands of a client**: whatever becomes of its slot, the worker makes the calls of the
commands that it has received whole, in their order. As long as it has the slot to itself, what it
receives is what the client sends. If nothing stops it, as many rounds as there are bytes are enough
for all of them. -/
theorem commands_executed (gains : List Int32) (bytes : List UInt8) :
    (∀ events, ∃ (cells : List (List UInt8)) (part : List UInt8),
      let reached := run (step gains) (started bytes) events
      let received := reached.2.flatMap Prod.fst
      received = cells.flatten ++ part ∧ part.length < 5 ∧ (∀ cell ∈ cells, cell.length = 5) ∧
      reached.2.flatMap Prod.snd = cells.flatMap (execute gains) ∧
      ((∀ event ∈ events, event.Apart) → received ++ reached.1.incoming = bytes)) ∧
    ∀ sizes : List Nat, bytes.length ≤ sizes.length →
      (run (step gains) (started bytes)
        (sizes.flatMap fun n => [.check, .recv (n + 1)])).1.incoming = [] := by
  refine ⟨fun events => ?_, fun sizes =>
    drains (w := started bytes) sizes ⟨rfl, rfl, rfl⟩ (Nat.succ_pos 4)⟩
  have all := run_observed (step gains) (fun w out => ∃ cells, Received gains w out cells) ?_
    (started bytes) ⟨[], rfl, Nat.succ_pos 4, nofun, rfl⟩ events
  · obtain ⟨cells, all, part, whole, calls⟩ := all
    exact ⟨cells, _, all, part, whole, calls, run_apart (started bytes)⟩
  · rintro w out event ⟨cells, received⟩
    obtain ⟨more, next⟩ := received_step received event
    exact ⟨cells ++ more, next⟩

end RtlSdr.TcpCommands
