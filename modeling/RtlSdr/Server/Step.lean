import RtlSdr.Server.State

/-!
# The steps of the `rtl_stream` server

One step of one thread is at most one critical section, load or store of shared state. Whatever the
operating system may answer is a parameter of the step, so a list of actions is one interleaving
with one behaviour of the environment. A thread that would block does not move.
-/
namespace RtlSdr

variable {F D : Type} [CFloat F] [CDouble D F]

/-! ### Workers -/

def Client.goto (cl : Client F D) (pc : WorkerPc F) : Client F D := { cl with thread := some pc }

/-- `client_handler` after its check: the rest of the request's validation. -/
def setupStep (cfg : Config F) (cl : Client F D) (req : StreamReq) (works : Bool) :
    Client F D :=
  if cl.mode = modeFft then
    if req.freq ≠ 0 ∨ req.rate ≠ 0 ∨ req.bandwidth ≠ 0 ∨ cfg.plan.isNone then cl.goto .setDone
    else cl.goto .setRunning
  else if req.freq.toNat > uint32Max ∨ cfg.captureFreq.toNat > uint32Max then cl.goto .setDone
  else
    let offset : Int := req.freq.toNat - cfg.captureFreq.toNat
    match dspValidate D cfg.captureRate.toNat req.rate.toNat req.bandwidth.toNat offset with
    | none => cl.goto .setDone
    | some bandwidth =>
      let dsp := dspCreate works cfg.captureRate.toNat req.rate.toNat bandwidth offset
      let cl := { cl with freq := req.freq, rate := req.rate, dsp }
      if dsp.isNone then cl.goto .setDone else cl.goto (.cursorNow req)

/-- The body of the loop of `iq_client_handler` up to its second check. The buffers are
written before they are read, so they are given as zeros. -/
def readRingStep (ring : Ring) (cl : Client F D) (seq : UInt64) : Client F D × List Obs :=
  let capacity := ring.slotSize
  let read := ringReadCopy ring cl.cursor (List.replicate capacity 0)
  let cl := { cl with cursor := read.cursor }
  match read.result, cl.dsp with
  | .empty, _ => (cl.goto (.ringEmpty seq), [])
  | .data, some dsp =>
    if read.len &&& 1 ≠ 0 then (cl.goto .setDone, [.failed cl.fd .oddBlock])
    else
      let result := dspProcess dsp
        ⟨some read.dst, read.len, some (List.replicate capacity 0), capacity, some 0⟩
      let cl := { cl with dsp := some result.dsp }
      if !result.ok then (cl.goto .setDone, [.failed cl.fd .dspProcess])
      else
        let samples := result.returned
        if samples.length = 0 then (cl.goto (.load (.readRing seq)), [])
        else
          let hdr : IqHdr := ⟨magicIq, cl.freq, cl.rate, seq, samples.length.toUInt32⟩
          (cl.goto (.load (.sendIq (seq + 1) hdr samples)), [])
  | .data, none => (cl.goto .setDone, [.failed cl.fd .dspProcess])
  | _, _ => (cl.goto .setDone, [])

/-- The critical section of `fft_client_handler`. -/
def readPowerStep (cfg : Config F) (fft : FftShared F) (cl : Client F D) (lastSeq : UInt64) :
    Client F D :=
  if cl.fftGeneration ≠ fft.generation then cl.goto .setDone
  else if !fft.ready || fft.seq == lastSeq then cl.goto (.powerEmpty lastSeq)
  else
    let bins := (cfg.plan.map FftPlan.bins).getD 0
    cl.goto (.load (.sendFft ⟨magicFft, cfg.captureFreq, cfg.captureRate, fft.seq, bins.toUInt32⟩
      fft.power))

/-- What a worker does with the answer 1 of `client_current`. -/
def taskStep (cfg : Config F) (srv : Server F D) (cl : Client F D) (works : Bool) :
    Task F → Client F D × List Obs
  | .setup req => (setupStep cfg cl req works, [])
  | .readRing seq => readRingStep srv.ring cl seq
  | .sendIq seq hdr samples =>
    match encodeIqHdr (List.replicate iqHdrSize 0) hdr,
        encodeIqPayload (List.replicate (srv.ring.slotSize * 2) 0) samples with
    | some _, some _ =>
      (cl.goto (if works then .load (.readRing seq) else .setDone),
        [.sent cl.fd (.iq hdr samples) works])
    | _, _ => (cl.goto .setDone, [.failed cl.fd .encode])
  | .readPower lastSeq => (readPowerStep cfg srv.fft cl lastSeq, [])
  | .sendFft hdr snapshot =>
    let power := snapshot.map CFloat.toBits
    match encodeFftHdr (List.replicate fftHdrSize 0) hdr,
        encodeFftPayload (List.replicate (power.length * 4) 0) power with
    | some _, some _ =>
      (cl.goto (if works then .load (.readPower hdr.seq) else .setDone),
        [.sent cl.fd (.fft hdr power) works])
    | _, _ => (cl.goto .setDone, [])

/-- One step of a worker. It changes nothing but its own slot. -/
def workerStep (cfg : Config F) (srv : Server F D) (cl : Client F D) (works : Bool)
    (arrived : List UInt8) : WorkerPc F → Client F D × List Obs
  | .receiveRequest =>
    let (req, valid) := decodeReq arrived
    -- an incomplete request, an invalid one or one for the other listener
    if arrived.length ≠ reqSize ∨ !valid ∨ req.magic ≠ magicReq ∨ req.mode ≠ cl.mode then
      (cl.goto .setDone, [])
    else (cl.goto (.load (.setup req)), [])
  | .load next => (cl.goto (if srv.stopping then .setDone else .session next), [])
  | .session next =>
    if srv.captureEpoch = cl.epoch then (cl.goto (.run next), [])
    else (cl.goto (.sendChange srv.newFreq), [.stale cl.fd])
  | .run next => taskStep cfg srv cl works next
  | .sendChange freq =>
    (cl.goto (if works then .sendEnd else .setDone),
      [.sent cl.fd (.event evtFreqChange freq) works])
  | .sendEnd => (cl.goto .setDone, [.sent cl.fd (.event evtStreamEnd 0) works])
  | .cursorNow req =>
    ({ cl with cursor := ringCursorNow srv.ring }.goto .setRunning, [.cursorTaken cl.fd req])
  | .setRunning =>
    let first : WorkerPc F :=
      if !works then .setDone
      else .load (if cl.mode = modeFft then .readPower 0 else .readRing 0)
    ({ cl with state := .running }.goto first, [])
  -- `works` is the answer of `socket_closed`
  | .ringEmpty seq => (cl.goto (if works then .load (.readRing seq) else .setDone), [])
  | .powerEmpty lastSeq => (cl.goto (if works then .load (.readPower lastSeq) else .setDone), [])
  | .setDone => ({ cl with state := .done }.goto .exited, [])
  | .exited => (cl, [])

/-- The two places where a worker takes `client_lock`. -/
def WorkerPc.locks : WorkerPc F → Bool
  | .setRunning => true
  | .setDone => true
  | _ => false

/-! ### Calls to `shutdown` -/

/-- The loops over the slots that shut the descriptors of some of them down. -/
def Server.shutdowns (srv : Server F D) (which : Client F D → Bool) : List Obs :=
  (List.finRange maxClients).filterMap fun i =>
    if which (srv.clients i) then some (.shutdown (srv.clients i).fd) else none

def Client.active (cl : Client F D) : Bool := cl.state == .starting || cl.state == .running

/-- The critical section of `rtlsdr_server_request_stop`. -/
def Server.stopSection (srv : Server F D) : List Obs :=
  srv.shutdowns Client.active ++ [.stopReleased]

/-! ### The FFT compute thread -/

/-- One step of `fft_compute_thread`. -/
def fftStep (plan : FftPlan F) (srv : Server F D) : Server F D × List Obs :=
  match srv.fftThread with
  | .load => ({ srv with fftThread := if srv.stopping then .exited else .session }, [])
  | .session => ({ srv with fftThread := if srv.captureEpoch = 1 then .read else .exited }, [])
  | .read =>
    let read := ringReadCopy srv.ring srv.fftLocal.cursor (List.replicate srv.ring.slotSize 0)
    let fftThread : FftPc :=
      match read.result with
      | .gap => .gapPower
      | .empty => .load
      | .error => .stop
      | .data => if read.len &&& 1 ≠ 0 then .stop else .process read.block
    ({ srv with fftLocal := { srv.fftLocal with cursor := read.cursor }, fftThread }, [])
  | .process [] => ({ srv with fftThread := .load }, [])
  | .process input =>
    let (fftLocal, rest, round) := processFftRound plan srv.fftLocal input
    match round with
    | .collecting => ({ srv with fftLocal, fftThread := .process rest }, [])
    | .failed => ({ srv with fftLocal, fftThread := .stop }, [])
    | .spectrum power =>
      let fft := { srv.fft with power, seq := srv.fft.seq + 1, ready := true }
      ({ srv with fftLocal, fft, fftThread := .process rest },
        [.spectrum fft.seq fft.generation (power.map CFloat.toBits)])
  | .gapPower =>
    let fft : FftShared F :=
      { power := List.replicate plan.bins 0.0
        seq := srv.fft.seq
        generation := srv.fft.generation + 1
        ready := false }
    ({ srv with fftLocal := srv.fftLocal.clear plan, fft, fftThread := .gapClients fft.generation },
      [])
  | .gapClients generation =>
    if srv.locked then (srv, [])
    else
      ({ srv with fftThread := .cursorNow },
        srv.shutdowns fun cl =>
          cl.active && cl.mode == modeFft && cl.fftGeneration != generation)
  | .cursorNow =>
    ({ srv with
        fftLocal := { srv.fftLocal with cursor := ringCursorNow srv.ring }, fftThread := .load },
      [.fftCursorTaken])
  | .stop => ({ srv with stopping := true, fftThread := .stopLock }, [])
  | .stopLock =>
    if srv.locked then (srv, []) else ({ srv with fftThread := .exited }, srv.stopSection)
  | .absent => (srv, [])
  | .exited => (srv, [])

/-! ### The run loop -/

/-- What the operating system answers to the run loop. -/
inductive Answer
  | ok
  | retry
  | fail
deriving DecidableEq, Repr

def Server.setClient (srv : Server F D) (slot : Fin maxClients) (cl : Client F D) : Server F D :=
  { srv with clients := Function.update srv.clients slot cl }

/-- The mode of the `k`-th listener. -/
def listenerMode (k : Nat) : UInt8 := if k = 1 then modeIq else modeFft

/-- Where the three calls of `reap_clients` return to. -/
def Reap.next : Reap → RunPc
  | .scan => .listen 1
  | .final => .joinFft
  | .shutdown => .shutDown

/-- The slots `reap_clients` passes over. -/
def Reap.skips (call : Reap) (state : ClientState) : Bool :=
  state == .free || state == .joining || (call == .scan && state != .done)

def Server.freeSlot (srv : Server F D) : Option (Fin maxClients) :=
  (List.finRange maxClients).find? fun i => (srv.clients i).state == .free

/-- A slot filled by `accept_client`, before its thread exists. -/
def Server.newClient (srv : Server F D) (k : Nat) (fd : Int) : Client F D :=
  { Client.empty with fd, mode := listenerMode k, epoch := 1, fftGeneration := srv.fft.generation }

/-- `accept_client` drops the connection. -/
def Server.drop (srv : Server F D) (k : Nat) (fd : Int) : Server F D × List Obs :=
  ({ srv with run := .listen (k + 1) }, [.closed fd])

/-- One step of `rtlsdr_server_run`, and of the part of `rtlsdr_server_shutdown` that
waits for it. -/
def runStep (cfg : Config F) (srv : Server F D) (answer : Answer) : Server F D × List Obs :=
  match srv.run with
  | .idle => ({ srv with run := if srv.stopping then .returned else .started }, [])
  | .started =>
    if cfg.plan.isNone then ({ srv with run := .loop }, [])
    else
      ({ srv with
          fftLocal := { srv.fftLocal with cursor := ringCursorNow srv.ring }, run := .createFft },
        [.fftCursorTaken])
  | .createFft =>
    if answer = .ok then ({ srv with fftThread := .load, run := .loop }, [])
    else ({ srv with run := .stop }, [])
  | .loop =>
    let run :=
      if srv.stopping then .stop
      else
        match answer with
        | .ok => .reap .scan 0
        | .retry => .loop
        | .fail => .stop
    ({ srv with run }, [])
  | .reap call i =>
    if inside : i < maxClients then
      let slot : Fin maxClients := ⟨i, inside⟩
      let cl := srv.clients slot
      if call.skips cl.state then ({ srv with run := .reap call (i + 1) }, [])
      else ({ srv.setClient slot { cl with state := .joining } with run := .join call slot }, [])
    else ({ srv with run := call.next }, [])
  | .join call slot =>
    let cl := srv.clients slot
    match cl.thread with
    | some .exited =>
      ({ srv.setClient slot { cl with thread := none } with run := .close call slot },
        [.joined slot cl.fd])
    | _ => (srv, [])
  | .close call slot =>
    let cl := srv.clients slot
    ({ srv.setClient slot { cl with fd := -1, dsp := none, state := .free } with
        clientCount := srv.clientCount - 1
        run := .reap call (slot + 1) },
      [.closed cl.fd])
  | .listen k =>
    if k ≥ 3 ∨ srv.stopping then ({ srv with run := .loop }, [])
    else
      match answer with
      | .ok =>
        ({ srv with nextFd := srv.nextFd + 1, run := .nonblocking k srv.nextFd },
          [.accepted srv.nextFd])
      | .retry => ({ srv with run := .listen (k + 1) }, [])
      | .fail => ({ srv with run := .stop }, [])
  | .nonblocking k fd =>
    if answer = .ok then ({ srv with run := .session k fd }, []) else srv.drop k fd
  | .session k fd =>
    if srv.captureEpoch = 1 then ({ srv with run := .place k fd }, []) else srv.drop k fd
  | .place k fd =>
    if srv.stopping then srv.drop k fd
    else
      match srv.freeSlot with
      | none => srv.drop k fd
      | some slot => ({ srv with run := .create k fd slot }, [])
  | .create k fd slot =>
    let cl := srv.newClient k fd
    if answer = .ok then
      ({ srv.setClient slot { cl with state := .starting, thread := some .receiveRequest } with
          clientCount := srv.clientCount + 1
          run := .listen (k + 1) },
        [.created slot fd cl.fftGeneration])
    else
      ({ srv.setClient slot { cl with fd := -1 } with run := .listen (k + 1) }, [.closed fd])
  | .stop => ({ srv with stopping := true, run := .stopLock }, [])
  | .stopLock => ({ srv with run := .reap .final 0 }, srv.stopSection)
  | .joinFft =>
    if srv.fftThread = .absent ∨ srv.fftThread = .exited then ({ srv with run := .returned }, [])
    else (srv, [])
  | .shutdownStop => ({ srv with stopping := true, run := .shutdownLock }, [])
  | .shutdownLock => ({ srv with run := .reap .shutdown 0 }, srv.stopSection)
  | .returned => (srv, [])
  | .shutDown => (srv, [])

/-! ### All threads -/

/-- Who moves, and what it is told. -/
inductive Action
  | publish (p : Nat) (input : List UInt8)
  | publishNext (p : Nat)
  /-- another holder of the ring calls `rtlsdr_ring_mark_gap` -/
  | ringGap
  | requestStop
  | requestStopLock
  | notify (freq : UInt64)
  | notifyLock
  | run (answer : Answer)
  | shutdown
  | fft
  | worker (slot : Fin maxClients) (works : Bool) (arrived : List UInt8)
deriving DecidableEq, Repr

def Server.setPublisher (srv : Server F D) (p : Nat) (publisher : Publisher) : Server F D :=
  { srv with publishers := Function.update srv.publishers p publisher }

/-- The entry of `rtlsdr_server_publish`. -/
def publishStep (srv : Server F D) (p : Nat) (input : List UInt8) : Server F D :=
  if srv.publishers p ≠ .idle ∨ srv.stopping ∨ input.length = 0 then srv
  else if input.length &&& 1 ≠ 0 then srv.setPublisher p .gap
  else srv.setPublisher p (.writing input)

/-- One critical section of `rtlsdr_server_publish`: a block of at most a slot, or the gap
that stands for what could not be written. -/
def publishNextStep (srv : Server F D) (p : Nat) : Server F D × List Obs :=
  match srv.publishers p with
  | .idle => (srv, [])
  | .gap => ({ srv.setPublisher p .idle with ring := ringMarkGap srv.ring }, [.gapMarked])
  | .writing input =>
    let count := min input.length srv.ring.slotSize
    let block := input.take count
    match ringWriteCopy srv.ring block with
    | none => (srv.setPublisher p .gap, [])
    | some ring =>
      let rest := input.drop count
      let publisher : Publisher := if rest.length = 0 then .idle else .writing rest
      ({ srv.setPublisher p publisher with ring }, [.wrote block (srv.ring.rollsOver block)])

def serverStep (cfg : Config F) (srv : Server F D) : Action → Server F D × List Obs
  | .publish p input => (publishStep srv p input, [])
  | .publishNext p => publishNextStep srv p
  | .ringGap => ({ srv with ring := ringMarkGap srv.ring }, [.gapMarked])
  | .requestStop => ({ srv with stopping := true, stops := srv.stops + 1 }, [])
  | .requestStopLock =>
    if srv.locked ∨ srv.stops = 0 then (srv, [])
    else ({ srv with stops := srv.stops - 1 }, srv.stopSection)
  | .notify freq =>
    ({ srv with
        newFreq := freq, captureEpoch := srv.captureEpoch + 1, notifies := srv.notifies + 1 },
      [.notified freq])
  | .notifyLock =>
    if srv.locked ∨ srv.notifies = 0 then (srv, [])
    else
      ({ srv with notifies := srv.notifies - 1 }, srv.shutdowns fun cl => cl.state == .starting)
  | .run answer => runStep cfg srv answer
  | .shutdown =>
    if srv.run = .idle ∨ srv.run = .returned then ({ srv with run := .shutdownStop }, [])
    else (srv, [])
  | .fft =>
    match cfg.plan with
    | none => (srv, [])
    | some plan => fftStep plan srv
  | .worker slot works arrived =>
    let cl := srv.clients slot
    match cl.thread with
    | none => (srv, [])
    | some pc =>
      if srv.locked && pc.locks then (srv, [])
      else
        let (cl, observed) := workerStep cfg srv cl works arrived pc
        (srv.setClient slot cl, observed)

/-- A run of the server: the state it reaches and what could be observed. -/
def serverRun (cfg : Config F) : Server F D → List Action → Server F D × List Obs :=
  Transducer.run (serverStep cfg)

end RtlSdr
