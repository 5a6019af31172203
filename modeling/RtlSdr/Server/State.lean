import RtlSdr.Server.ProcessFft
import RtlSdr.Stream.RoundTrip
import RtlSdr.Dsp.Partition
import Mathlib.Data.Fintype.Card

/-!
# The state of the `rtl_stream` server

`struct rtlsdr_server`, together with where each of its threads is: the run loop, the FFT compute
thread, one worker for each client slot and any number of others. A descriptor is the number of the
connection, never used twice, so that a second use of a closed one can be seen.
-/
namespace RtlSdr

def maxClients : Nat := 32

theorem maxClients_pos : 0 < maxClients := by decide

/-- `enum rtlsdr_client_state`. -/
inductive ClientState
  | free
  | starting
  | running
  | done
  | joining
deriving DecidableEq, Repr

/-- What a worker goes on with when `client_current` returns 1. -/
inductive Task (F : Type)
  /-- `client_handler`, with the decoded request -/
  | setup (req : StreamReq)
  /-- the body of the loop of `iq_client_handler` -/
  | readRing (seq : UInt64)
  /-- its encoding and sending, with `seq` already incremented -/
  | sendIq (seq : UInt64) (hdr : IqHdr) (samples : List Int16)
  /-- the body of the loop of `fft_client_handler` -/
  | readPower (lastSeq : UInt64)
  | sendFft (hdr : FftHdr) (snapshot : List F)

/-- Where a worker is. Every constructor is at most one critical section. -/
inductive WorkerPc (F : Type)
  | receiveRequest
  /-- `client_current`: the load of `stopping` -/
  | load (next : Task F)
  /-- `client_current`: `session_current` -/
  | session (next : Task F)
  | run (next : Task F)
  /-- `client_current` with a stale epoch -/
  | sendChange (freq : UInt64)
  | sendEnd
  | cursorNow (req : StreamReq)
  | setRunning
  | ringEmpty (seq : UInt64)
  | powerEmpty (lastSeq : UInt64)
  | setDone
  | exited

/-- `struct rtlsdr_client`, and the thread that has not been joined yet. -/
structure Client (F D : Type) where
  fd : Int
  state : ClientState
  freq : UInt64
  rate : UInt64
  epoch : UInt64
  fftGeneration : UInt64
  mode : UInt8
  cursor : Cursor
  dsp : Option (Dsp F D)
  thread : Option (WorkerPc F)

/-- A slot after `memset`, with `fd = -1`. -/
def Client.empty {F D : Type} : Client F D :=
  { fd := -1, state := .free, freq := 0, rate := 0, epoch := 0, fftGeneration := 0, mode := 0
    cursor := ⟨0, 0⟩, dsp := none, thread := none }

/-- The spectrum that `fft_mutex` guards. -/
structure FftShared (F : Type) where
  power : List F
  seq : UInt64
  generation : UInt64
  ready : Bool

inductive FftPc
  | absent
  | load
  | session
  | read
  | process (input : List UInt8)
  | gapPower
  | gapClients (generation : UInt64)
  | cursorNow
  | stop
  | stopLock
  | exited
deriving DecidableEq, Repr

/-- Which of the three calls of `reap_clients` is running; only the first passes
`all = 0`. -/
inductive Reap
  | scan
  | final
  | shutdown
deriving DecidableEq, Repr

/-- Where the thread of `rtlsdr_server_run`, and of the shutdown that follows it, is. -/
inductive RunPc
  | idle
  | started
  | createFft
  | loop
  /-- `reap_clients`, before slot `i` is looked at -/
  | reap (call : Reap) (i : Nat)
  | join (call : Reap) (slot : Fin maxClients)
  | close (call : Reap) (slot : Fin maxClients)
  /-- the loop over the listeners -/
  | listen (k : Nat)
  | nonblocking (k : Nat) (fd : Int)
  | session (k : Nat) (fd : Int)
  | place (k : Nat) (fd : Int)
  /-- `accept_client` with a free slot; it holds `client_lock` -/
  | create (k : Nat) (fd : Int) (slot : Fin maxClients)
  | stop
  | stopLock
  | joinFft
  | returned
  | shutdownStop
  | shutdownLock
  | shutDown
deriving DecidableEq, Repr

/-- A call of `rtlsdr_server_publish`. -/
inductive Publisher
  | idle
  | writing (input : List UInt8)
  | gap
deriving DecidableEq, Repr

/-- The fields that are set once. -/
structure Config (F : Type) where
  captureFreq : UInt64
  captureRate : UInt64
  plan : Option (FftPlan F)

/-- `struct rtlsdr_server` and its threads. -/
structure Server (F D : Type) where
  stopping : Bool
  ring : Ring
  captureEpoch : UInt64
  newFreq : UInt64
  clientCount : Int
  clients : Fin maxClients → Client F D
  fft : FftShared F
  fftLocal : FftLocal F
  fftThread : FftPc
  run : RunPc
  publishers : Nat → Publisher
  /-- calls of `rtlsdr_server_request_stop` on their way to `client_lock` -/
  stops : Nat
  /-- calls of `rtlsdr_server_notify_frequency_change` on their way to `client_lock` -/
  notifies : Nat
  /-- the number of the next connection -/
  nextFd : Nat

/-- Whether `accept_client` holds `client_lock` between two steps. -/
def Server.locked {F D : Type} (srv : Server F D) : Bool :=
  match srv.run with
  | .create _ _ _ => true
  | _ => false

def Server.occupied {F D : Type} (srv : Server F D) : Nat :=
  (Finset.univ.filter fun i => (srv.clients i).state ≠ .free).card

/-- Why `iq_client_handler` gives up on a block it has read. -/
inductive IqFailure
  | oddBlock
  | dspProcess
  | encode
deriving DecidableEq, Repr

/-- What the threads do that another party, or a proof, can observe. -/
inductive Obs
  | accepted (fd : Int)
  | created (slot : Fin maxClients) (fd : Int) (generation : UInt64)
  | joined (slot : Fin maxClients) (fd : Int)
  | closed (fd : Int)
  | shutdown (fd : Int)
  /-- `rtlsdr_server_request_stop` releases `client_lock` -/
  | stopReleased
  | notified (freq : UInt64)
  /-- a block enters the ring; `rolled` if the sequence numbers started again with it -/
  | wrote (block : List UInt8) (rolled : Bool)
  | gapMarked
  | cursorTaken (fd : Int) (req : StreamReq)
  /-- the FFT thread's cursor is set to the end of the ring -/
  | fftCursorTaken
  /-- `client_current` finds another epoch than the client's -/
  | stale (fd : Int)
  /-- `rtlsdr_stream_sendv` starts on a frame, and whether it returns 0 -/
  | sent (fd : Int) (frame : Frame) (whole : Bool)
  | failed (fd : Int) (failure : IqFailure)
  | spectrum (seq generation : UInt64) (power : List UInt32)
deriving DecidableEq, Repr

variable {F D : Type} [CFloat F]

/-- The server between a successful `rtlsdr_server_init` and any call. -/
def Server.initial (cfg : Config F) (ring : Ring) : Server F D :=
  let bins := (cfg.plan.map FftPlan.bins).getD 0
  { stopping := false
    ring
    captureEpoch := 1
    newFreq := 0
    clientCount := 0
    clients := fun _ => .empty
    fft := ⟨List.replicate bins 0.0, 0, 1, false⟩
    fftLocal := ⟨⟨0, 0⟩, 0, 0, List.replicate (2 * bins) 0.0, List.replicate bins 0.0⟩
    fftThread := .absent
    run := .idle
    publishers := fun _ => .idle
    stops := 0
    notifies := 0
    nextFd := 0 }

/-- The plan `rtlsdr_server_init` sets up on the transform the backend creates. -/
def FftPlan.default (transform : FftTransform F fftDefaultBins) : FftPlan F :=
  { bins := fftDefaultBins
    step := fftDefaultStep
    accum := fftDefaultAccum
    transform
    bins_ge := by decide
    step_ge := by decide
    accum_pos := by decide }

/-- `rtlsdr_server_init`. `works` says whether the mutexes, the pipe, the listeners and
the buffers can be had, `backend` is `fft_plan_create`. -/
def serverInit (works : Bool) (iqPort fftPort : Int) (ring : Option Ring)
    (captureFreq captureRate : UInt64)
    (backend : (bins : Nat) → Option (FftTransform F bins)) : Option (Config F × Server F D) :=
  match ring with
  | none => none
  | some ring =>
    if ring.slotSize &&& 1 ≠ 0 ∨ ring.slotSize > maxIqComponents ∨
        iqPort < 0 ∨ iqPort > 65535 ∨ fftPort < 0 ∨ fftPort > 65535 ∨
        captureFreq.toNat > uint32Max ∨ captureRate = 0 ∨ captureRate.toNat > uint32Max then none
    else if !works then none
    else if fftPort > 0 then
      match backend fftDefaultBins with
      | none => none
      | some transform =>
        let cfg := ⟨captureFreq, captureRate, some (.default transform)⟩
        some (cfg, .initial cfg ring)
    else
      let cfg := ⟨captureFreq, captureRate, none⟩
      some (cfg, .initial cfg ring)

end RtlSdr
