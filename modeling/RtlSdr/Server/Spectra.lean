import RtlSdr.Server.Compute

/-!
# The spectra of a connection

An FFT client is sent spectra that were published in the generation it recorded when it
was accepted, each with a higher number than the one before. Together with what the
compute thread publishes, no frame carries a spectrum that reaches over a gap.
-/
namespace RtlSdr

variable {F D : Type} [CFloat F] [CDouble D F]

/-- The FFT frames that were started on a connection. -/
def fftFrames (fd : Int) (t : List Obs) : List (FftHdr × List UInt32) :=
  t.filterMap fun
    | .sent other (.fft hdr power) _ => if other = fd then some (hdr, power) else none
    | _ => none

/-- An FFT frame carries a spectrum of the generation in which its client was accepted. -/
def Current (before : List Obs) (e : Obs) : Prop :=
  ∀ fd hdr power whole, e = .sent fd (.fft hdr power) whole →
    ∃ slot generation, .created slot fd generation ∈ before ∧
      .spectrum hdr.seq generation power ∈ before

/-- What was sent on a connection is in order. -/
def Ascending (t : List Obs) (fd : Int) : Prop :=
  spectraOf t < 2 ^ 64 → (fftFrames fd t).Pairwise fun a b => a.1.seq < b.1.seq

/-- A worker that has sent nothing past number `last`, which was published. -/
def Heard (srv : Server F D) (t : List Obs) (cl : Client F D) (last : UInt64) : Prop :=
  spectraOf t < 2 ^ 64 → last ≤ srv.fft.seq ∧ ∀ frame ∈ fftFrames cl.fd t, frame.1.seq ≤ last

/-- A worker that holds a published spectrum it has not sent yet. -/
structure Holds (srv : Server F D) (t : List Obs) (cl : Client F D) (hdr : FftHdr)
    (snapshot : List F) : Prop where
  published : .spectrum hdr.seq cl.fftGeneration (snapshot.map CFloat.toBits) ∈ t
  next : spectraOf t < 2 ^ 64 → hdr.seq ≤ srv.fft.seq ∧
    ∀ frame ∈ fftFrames cl.fd t, frame.1.seq < hdr.seq

/-- What a task the worker goes on with rests on. -/
def Task.Follows (srv : Server F D) (t : List Obs) (cl : Client F D) : Task F → Prop
  | .setup _ => fftFrames cl.fd t = []
  | .readPower lastSeq => Heard srv t cl lastSeq
  | .sendFft hdr snapshot => Holds srv t cl hdr snapshot
  | _ => True

def WorkerPc.Follows (srv : Server F D) (t : List Obs) (cl : Client F D) : WorkerPc F → Prop
  | .receiveRequest => fftFrames cl.fd t = []
  | .load next => next.Follows srv t cl
  | .session next => next.Follows srv t cl
  | .run next => next.Follows srv t cl
  | .setRunning => fftFrames cl.fd t = []
  | .cursorNow _ => fftFrames cl.fd t = []
  | .powerEmpty lastSeq => Heard srv t cl lastSeq
  | _ => True

structure Listening (srv : Server F D) (t : List Obs) (cl : Client F D) : Prop where
  ascending : Ascending t cl.fd
  follows : ∀ pc, cl.thread = some pc → pc.Follows srv t cl

/-! ### Steps that send no spectrum -/

theorem fftFrames_append (fd : Int) (t later : List Obs) :
    fftFrames fd (t ++ later) = fftFrames fd t ++ fftFrames fd later := by
  simp [fftFrames]

theorem fftFrames_quiet (fd : Int) (t : List Obs) (quiet : ∀ e ∈ t, e.speaker ≠ some fd) :
    fftFrames fd t = [] := by
  rw [fftFrames, List.filterMap_eq_nil_iff]
  intro e member
  have other := quiet e member
  cases e with
  | sent dest frame whole =>
    cases frame with
    | fft hdr power => simpa [Obs.speaker] using other
    | _ => rfl
  | _ => rfl

omit [CDouble D F] in
/-- A step of the FFT thread moves the shared number on by the spectra it publishes. -/
theorem fftStep_seq (plan : FftPlan F) (srv : Server F D) :
    (fftStep plan srv).1.fft.seq.toNat =
      (srv.fft.seq.toNat + spectraOf (fftStep plan srv).2) % 2 ^ 64 := by
  have same := (Nat.mod_eq_of_lt srv.fft.seq.toNat_lt).symm
  have shutdowns (which : Client F D → Bool) : spectraOf (srv.shutdowns which) = 0 := by
    apply spectraOf_part
    intro e member
    obtain ⟨_, _, rfl⟩ := (mem_shutdowns srv which e).mp member
    simp [Obs.part]
  unfold fftStep
  split
  · exact same
  · exact same
  · exact same
  · exact same
  · simp only
    split
    · exact same
    · exact same
    · simp [UInt64.toNat_add, spectraOf, Obs.isSpectrum]
  · exact same
  · split_ifs
    · exact same
    · rw [shutdowns]
      exact same
  · exact same
  · exact same
  · split_ifs
    · exact same
    · rw [Server.stopSection, spectraOf_append, shutdowns]
      exact same
  · exact same
  · exact same

variable {srv srv' : Server F D} {observed t : List Obs} {cfg : Config F}

theorem StepEffect.seq (effect : StepEffect cfg srv srv' observed) :
    srv'.fft.seq.toNat = (srv.fft.seq.toNat + spectraOf observed) % 2 ^ 64 := by
  have same := (Nat.mod_eq_of_lt srv.fft.seq.toNat_lt).symm
  cases effect with
  | publish => exact same
  | write => exact same
  | gap => exact same
  | aside _ _ _ _ _ _ part =>
    rw [spectraOf_part _ fun e member => by simp [part e member]]
    exact same
  | notify => exact same
  | run _ _ effect =>
    rw [effect.fft, spectraOf_part _ fun e member => by
      rcases effect.part member with part | taken
      · simp [part]
      · exact .inr taken]
    exact same
  | fft plan => exact fftStep_seq plan srv
  | worker slot works arrived pc thread =>
    have spoken := workerStep_effect cfg srv (srv.clients slot) works arrived pc thread
    rw [spectraOf_part _ fun e member => by simp [part_of_speaker e _ (spoken.speaks e member)]]
    exact same

def Advances (srv srv' : Server F D) (t observed : List Obs) : Prop :=
  spectraOf (t ++ observed) < 2 ^ 64 → srv.fft.seq ≤ srv'.fft.seq

theorem StepEffect.advances (effect : StepEffect cfg srv srv' observed)
    (computing : Computing cfg srv t) : Advances srv srv' t observed := by
  intro few
  have now := effect.seq
  have numbered := computing.numbered
  rw [spectraOf_append] at few
  rw [Nat.mod_eq_of_lt (by omega)] at numbered
  rw [numbered, Nat.mod_eq_of_lt few] at now
  rw [UInt64.le_iff_toNat_le]
  omega

section Quiet

variable {srv srv' : Server F D} {t observed : List Obs} {cl cl' : Client F D}
  (advances : Advances srv srv' t observed) (silent : fftFrames cl.fd observed = [])
  (fd : cl'.fd = cl.fd) (generation : cl'.fftGeneration = cl.fftGeneration)

omit [CFloat F] [CDouble D F] in
include silent in
theorem Ascending.quiet (ascending : Ascending t cl.fd) : Ascending (t ++ observed) cl.fd := by
  intro few
  rw [spectraOf_append] at few
  rw [fftFrames_append, silent, List.append_nil]
  exact ascending (by omega)

include advances silent fd

omit [CFloat F] [CDouble D F] in
theorem Heard.quiet {last : UInt64} (heard : Heard srv t cl last) :
    Heard srv' (t ++ observed) cl' last := by
  intro few
  obtain ⟨published, sent⟩ := heard (by rw [spectraOf_append] at few; omega)
  refine ⟨UInt64.le_trans published (advances few), ?_⟩
  rw [fd, fftFrames_append, silent, List.append_nil]
  exact sent

include generation

omit [CDouble D F] in
theorem Holds.quiet {hdr : FftHdr} {snapshot : List F} (holds : Holds srv t cl hdr snapshot) :
    Holds srv' (t ++ observed) cl' hdr snapshot where
  published := by
    rw [generation]
    exact List.mem_append_left _ holds.published
  next := by
    intro few
    obtain ⟨published, sent⟩ := holds.next (by rw [spectraOf_append] at few; omega)
    refine ⟨UInt64.le_trans published (advances few), ?_⟩
    rw [fd, fftFrames_append, silent, List.append_nil]
    exact sent

omit [CDouble D F] in
theorem Task.Follows.quiet {task : Task F} (follows : task.Follows srv t cl) :
    task.Follows srv' (t ++ observed) cl' := by
  have unsent (none : fftFrames cl.fd t = []) : fftFrames cl'.fd (t ++ observed) = [] := by
    rw [fd, fftFrames_append, none, silent, List.append_nil]
  cases task with
  | setup req => exact unsent follows
  | readPower last => exact Heard.quiet advances silent fd follows
  | sendFft hdr snapshot => exact Holds.quiet advances silent fd generation follows
  | readRing => trivial
  | sendIq => trivial

omit [CDouble D F] in
theorem WorkerPc.Follows.quiet {pc : WorkerPc F} (follows : pc.Follows srv t cl) :
    pc.Follows srv' (t ++ observed) cl' := by
  have unsent (none : fftFrames cl.fd t = []) : fftFrames cl'.fd (t ++ observed) = [] := by
    rw [fd, fftFrames_append, none, silent, List.append_nil]
  cases pc with
  | receiveRequest => exact unsent follows
  | load next | session next | run next =>
    exact Task.Follows.quiet advances silent fd generation follows
  | setRunning => exact unsent follows
  | cursorNow req => exact unsent follows
  | powerEmpty last => exact Heard.quiet advances silent fd follows
  | _ => trivial

end Quiet

variable {cl : Client F D}

omit [CDouble D F] in
/-- A step that sends the client no spectrum, after which it stands where what it knew
suffices. -/
theorem Listening.goes {cl' : Client F D} (listening : Listening srv t cl)
    (advances : Advances srv srv' t observed) (silent : fftFrames cl.fd observed = [])
    (fd : cl'.fd = cl.fd) (generation : cl'.fftGeneration = cl.fftGeneration) {pc : WorkerPc F}
    (thread : cl'.thread = some pc) (follows : pc.Follows srv t cl) :
    Listening srv' (t ++ observed) cl' := by
  refine ⟨fd ▸ Ascending.quiet silent listening.ascending, fun pc' here => ?_⟩
  cases thread.symm.trans here
  exact WorkerPc.Follows.quiet advances silent fd generation follows

/-! ### The steps of a worker -/

omit [CDouble D F] in
/-- The critical section of `fft_client_handler`: what it copies was published in its own
generation and is newer than what it sent. -/
theorem listening_readPower (computing : Computing cfg srv t) (advances : Advances srv srv' t [])
    (listening : Listening srv t cl) (last : UInt64) (heard : Heard srv t cl last) :
    Listening srv' (t ++ []) (readPowerStep cfg srv.fft cl last) := by
  unfold readPowerStep
  split_ifs with stale waiting
  · exact listening.goes advances rfl rfl rfl rfl trivial
  · exact listening.goes advances rfl rfl rfl rfl heard
  · simp only [Bool.or_eq_true, Bool.not_eq_true', beq_iff_eq, not_or, Bool.not_eq_false] at waiting
    refine listening.goes advances rfl rfl rfl rfl ⟨?_, fun few => ?_⟩
    · rw [not_not.mp stale]
      exact computing.ready waiting.1
    · obtain ⟨published, sent⟩ := heard few
      refine ⟨UInt64.le_refl _, fun frame member => ?_⟩
      exact UInt64.lt_of_le_of_lt (sent frame member)
        (UInt64.lt_of_le_of_ne published (Ne.symm waiting.2))

theorem listening_sendFft (cfg : Config F) (listening : Listening srv t cl) (works : Bool)
    (hdr : FftHdr) (snapshot : List F) (holds : Holds srv t cl hdr snapshot) (srv' : Server F D)
    (same : srv'.fft = srv.fft) :
    Listening srv' (t ++ (taskStep cfg srv cl works (.sendFft hdr snapshot)).2)
      (taskStep cfg srv cl works (.sendFft hdr snapshot)).1 := by
  simp only [taskStep]
  split
  · have told : fftFrames cl.fd
        (t ++ [Obs.sent cl.fd (.fft hdr (snapshot.map CFloat.toBits)) works]) =
        fftFrames cl.fd t ++ [(hdr, snapshot.map CFloat.toBits)] := by
      rw [fftFrames_append]
      simp [fftFrames]
    have fewer (few : spectraOf
        (t ++ [Obs.sent cl.fd (.fft hdr (snapshot.map CFloat.toBits)) works]) < 2 ^ 64) :
        spectraOf t < 2 ^ 64 := by
      rw [spectraOf_append] at few
      omega
    constructor
    · intro few
      show (fftFrames cl.fd _).Pairwise _
      rw [told, List.pairwise_append]
      refine ⟨listening.ascending (fewer few), List.pairwise_singleton _ _, ?_⟩
      intro frame member other here
      cases List.mem_singleton.mp here
      exact (holds.next (fewer few)).2 frame member
    · intro pc here
      cases works with
      | false =>
        cases here
        trivial
      | true =>
        cases here
        intro few
        obtain ⟨published, sent⟩ := holds.next (fewer few)
        refine ⟨same ▸ published, ?_⟩
        show ∀ frame ∈ fftFrames cl.fd _, _
        rw [told]
        intro frame member
        rcases List.mem_append.mp member with old | new
        · exact UInt64.le_of_lt (sent frame old)
        · cases List.mem_singleton.mp new
          exact UInt64.le_refl _
  · refine listening.goes ?_ rfl rfl rfl rfl trivial
    intro _
    rw [same]
    exact UInt64.le_refl _

theorem listening_worker (computing : Computing cfg srv t) (i : Fin maxClients) (works : Bool)
    (arrived : List UInt8) (pc : WorkerPc F) (thread : (srv.clients i).thread = some pc)
    (listening : Listening srv t (srv.clients i)) (srv' : Server F D) (same : srv'.fft = srv.fft) :
    Listening srv' (t ++ (workerStep cfg srv (srv.clients i) works arrived pc).2)
      (workerStep cfg srv (srv.clients i) works arrived pc).1 := by
  generalize srv.clients i = cl at *
  have follows := listening.follows pc thread
  have advances (observed : List Obs) : Advances srv srv' t observed := by
    intro _
    rw [same]
    exact UInt64.le_refl _
  cases pc with
  | receiveRequest =>
    rcases decoded : decodeReq arrived with ⟨req, valid⟩
    simp only [workerStep, decoded]
    split_ifs
    · exact listening.goes (advances _) rfl rfl rfl rfl trivial
    · exact listening.goes (advances _) rfl rfl rfl rfl follows
  | load next =>
    cases stopping : srv.stopping with
    | true =>
      simp only [workerStep, stopping]
      exact listening.goes (advances _) rfl rfl rfl rfl trivial
    | false =>
      simp only [workerStep, stopping]
      exact listening.goes (advances _) rfl rfl rfl rfl follows
  | session next =>
    simp only [workerStep]
    split_ifs
    · exact listening.goes (advances _) rfl rfl rfl rfl follows
    · exact listening.goes (advances _) rfl rfl rfl rfl trivial
  | run next =>
    cases next with
    | setup req =>
      simp only [workerStep, taskStep, setupStep]
      split_ifs
      · exact listening.goes (advances _) rfl rfl rfl rfl trivial
      · exact listening.goes (advances _) rfl rfl rfl rfl follows
      · exact listening.goes (advances _) rfl rfl rfl rfl trivial
      · split
        · exact listening.goes (advances _) rfl rfl rfl rfl trivial
        · split_ifs
          · exact listening.goes (advances _) rfl rfl rfl rfl trivial
          · exact listening.goes (advances _) rfl rfl rfl rfl follows
    | readRing seq =>
      simp only [workerStep, taskStep, readRingStep]
      split
      case' h_2 => split_ifs
      -- whatever the ring answers, the client stays with the spectrum it had
      all_goals exact listening.goes (advances _) rfl rfl rfl rfl trivial
    | sendIq seq hdr samples =>
      simp only [workerStep, taskStep]
      split
      · refine listening.goes (advances _) rfl rfl rfl rfl ?_
        cases works <;> trivial
      · exact listening.goes (advances _) rfl rfl rfl rfl trivial
    | readPower last => exact listening_readPower computing (advances _) listening last follows
    | sendFft hdr snapshot => exact listening_sendFft cfg listening works hdr snapshot follows srv' same
  | sendChange freq =>
    refine listening.goes (advances _) rfl rfl rfl rfl ?_
    cases works <;> trivial
  | sendEnd => exact listening.goes (advances _) rfl rfl rfl rfl trivial
  | cursorNow req => exact listening.goes (advances _) rfl rfl rfl rfl follows
  | setRunning =>
    refine listening.goes (advances _) rfl rfl rfl rfl ?_
    cases works with
    | false => trivial
    | true =>
      -- a worker that starts has sent nothing, and numbers begin at 1
      by_cases fft : cl.mode = modeFft
      · rw [if_pos fft]
        intro _
        refine ⟨UInt64.zero_le, fun frame member => ?_⟩
        rw [show fftFrames cl.fd t = [] from follows] at member
        cases member
      · rw [if_neg fft]
        trivial
  | ringEmpty seq =>
    refine listening.goes (advances _) rfl rfl rfl rfl ?_
    cases works <;> trivial
  | powerEmpty last =>
    refine listening.goes (advances _) rfl rfl rfl rfl ?_
    cases works with
    | false => trivial
    | true => exact follows
  | setDone => exact listening.goes (advances _) rfl rfl rfl rfl trivial
  | exited => exact listening.goes (advances _) rfl rfl rfl thread trivial

/-- Only a worker that holds a spectrum sends one. -/
theorem workerStep_sends (cfg : Config F) (srv : Server F D) (cl : Client F D) (works : Bool)
    (arrived : List UInt8) (pc : WorkerPc F) (fd : Int) (hdr : FftHdr) (power : List UInt32)
    (whole : Bool)
    (sent : .sent fd (.fft hdr power) whole ∈ (workerStep cfg srv cl works arrived pc).2) :
    ∃ snapshot, pc = .run (.sendFft hdr snapshot) ∧ fd = cl.fd ∧
      power = snapshot.map CFloat.toBits := by
  cases pc with
  | receiveRequest | session next =>
    simp only [workerStep] at sent
    split_ifs at sent <;> simp at sent
  | run next =>
    cases next with
    | setup => simp [workerStep, taskStep] at sent
    | readRing seq =>
      simp only [workerStep, taskStep, readRingStep] at sent
      split at sent
      · simp at sent
      · split_ifs at sent <;> simp at sent
      · simp at sent
      · simp at sent
    | sendIq seq hdr samples =>
      simp only [workerStep, taskStep] at sent
      split at sent <;> simp at sent
    | readPower => simp [workerStep, taskStep] at sent
    | sendFft hdr' snapshot =>
      simp only [workerStep, taskStep] at sent
      split at sent
      · simp only [List.mem_singleton, Obs.sent.injEq, Frame.fft.injEq] at sent
        obtain ⟨rfl, ⟨rfl, rfl⟩, _⟩ := sent
        exact ⟨snapshot, rfl, rfl, rfl⟩
      · simp at sent
  | _ => simp [workerStep] at sent

/-! ### Every run -/

theorem StepEffect.current (effect : StepEffect cfg srv srv' observed) (inv : Lifecycle srv t)
    (connections : Tracked Listening Ascending srv t) (e : Obs) (new : e ∈ observed) :
    Current t e := by
  rintro fd hdr power whole rfl
  rcases effect.cases_speaker with
    ⟨_, part⟩ | run | ⟨slot, works, arrived, pc, thread, rfl, rfl⟩
  · have ours := part _ new
    simp [Obs.part] at ours
  · have ours := run.part new
    simp [Obs.part] at ours
  · have alive : (srv.clients slot).thread ≠ none := by simp [thread]
    obtain ⟨snapshot, rfl, rfl, rfl⟩ := workerStep_sends _ _ _ _ _ _ _ _ _ _ new
    have holds : Holds srv t _ hdr snapshot := (connections.live slot alive).follows _ thread
    have used := inv.used slot fun free => alive (inv.free slot free).2
    exact ⟨slot, _, used.1, holds.published⟩

structure Spectral (cfg : Config F) (srv : Server F D) (t : List Obs) : Prop where
  slots : Lifecycle srv t
  waiting : Waiting srv
  computing : Computing cfg srv t
  connections : Tracked Listening Ascending srv t
  current : History.Each Current t

theorem spectral_step (inv : Spectral cfg srv t) (a : Action) :
    Spectral cfg (serverStep cfg srv a).1 (t ++ (serverStep cfg srv a).2) where
  slots := inv.slots.serverStep cfg a
  waiting := (inv.slots.effect cfg a).waiting inv.waiting
  computing := computing_step inv.slots inv.waiting inv.computing a
  connections := by
    apply tracked_step inv.slots cfg a _ _ _ _ _ _ _ inv.connections
    · intro t e fd other ascending few
      rw [spectraOf_append] at few
      rw [fftFrames_append, fftFrames_quiet fd [e] (by simpa using other), List.append_nil]
      exact ascending (by omega)
    · exact fun _ _ _ listening => listening.ascending
    · intro srv t cl thread _ fresh
      have none : fftFrames cl.fd t = [] := fftFrames_quiet cl.fd t fresh
      refine ⟨fun _ => none ▸ .nil, fun pc here => ?_⟩
      cases thread.symm.trans here
      exact none
    · intro i works arrived pc thread listening
      exact listening_worker inv.computing i works arrived pc thread listening _ rfl
    · intro srv' observed cl state effect silent listening
      have advances := effect.advances inv.computing
      have quiet := fftFrames_quiet cl.fd observed silent
      refine ⟨listening.ascending.quiet quiet, fun pc here => ?_⟩
      refine WorkerPc.Follows.quiet advances quiet ?_ ?_ (listening.follows pc here)
      · rfl
      · rfl
  current := by
    apply History.each_append _ _ _ inv.current
    intro before e after split fd hdr power whole is
    obtain ⟨slot, generation, created, spectrum⟩ :=
      (inv.slots.effect cfg a).current inv.slots inv.connections e (by simp [split]) fd hdr power
        whole is
    exact ⟨slot, generation, List.mem_append_left _ created, List.mem_append_left _ spectrum⟩

theorem spectral_run (cfg : Config F) (ring : Ring) (actions : List Action) :
    Spectral cfg (serverRun cfg (.initial cfg ring : Server F D) actions).1
      (serverRun cfg (.initial cfg ring : Server F D) actions).2 := by
  apply Transducer.run_observed (serverStep cfg) (Spectral cfg)
  · exact fun _ _ a inv => spectral_step inv a
  · refine ⟨lifecycle_initial cfg ring, ?_, computing_initial cfg ring, ⟨?_, ?_⟩, History.each_nil _⟩
    · intro p input writing
      cases writing
    · exact fun i alive => absurd rfl alive
    · exact fun fd _ => .nil

/-- Every FFT frame carries the average of `fft_accum` windows out of one run of blocks
published without a gap, completed in the generation in which its client was accepted: with
fewer than 2^64 increments of the ring's generation since the FFT thread took its cursor. The
numbers on a connection go up, with fewer than 2^64 spectra. -/
theorem spectra_within_runs (cfg : Config F) (ring : Ring) (actions : List Action) :
    let history := (serverRun cfg (.initial cfg ring : Server F D) actions).2
    (∀ before fd hdr power whole after,
      history = before ++ .sent fd (.fft hdr power) whole :: after →
      ∃ plan slot generation early since late, cfg.plan = some plan ∧
        .created slot fd generation ∈ before ∧
        before = early ++ .spectrum hdr.seq generation power :: late ∧ SinceCursor early since ∧
        (incrementsOf since < 2 ^ 64 → plan.AverageOver since power)) ∧
    (spectraOf history < 2 ^ 64 →
      ∀ fd, (fftFrames fd history).Pairwise fun a b => a.1.seq < b.1.seq) := by
  intro history
  have inv : Spectral cfg _ history := spectral_run cfg ring actions
  refine ⟨fun before fd hdr power whole after split => ?_,
    fun spectra fd => inv.connections.past fd spectra⟩
  obtain ⟨slot, generation, created, member⟩ :=
    inv.current before _ after split fd hdr power whole rfl
  obtain ⟨early, late, published⟩ := List.append_of_mem member
  -- the spectrum was published before it was sent, from what was read before that
  obtain ⟨plan, since, planned, last, average⟩ :=
    inv.computing.spectra early _ (late ++ Obs.sent fd (.fft hdr power) whole :: after)
      (by rw [split, published]; simp) hdr.seq generation power rfl
  exact ⟨plan, slot, generation, early, since, late, planned, created, published, last, average⟩

/-- A client that asks for spectra, from its connection to its wait for the first. -/
def joinFftRun : List Action :=
  List.replicate 37 (Action.run .ok) ++ [Action.run .retry] ++ List.replicate 5 (Action.run .ok) ++
  List.replicate 5 (Action.worker ⟨0, maxClients_pos⟩ true (reqBytes ⟨magicReq, 0, 0, 0, modeFft⟩))

/-- The FFT thread reads one sample, then a gap; a client joins, and two windows are published. -/
def gapRun : List Action :=
  joinFftRun.take 3 ++ [.publish 0 [9, 9], .publishNext 0] ++ List.replicate 5 .fft ++
  [.publish 0 [0], .publishNext 0] ++ List.replicate 6 .fft ++ joinFftRun.drop 3 ++
  [.publish 0 [1, 2, 3, 4], .publishNext 0, .publish 0 [5, 6, 7, 8], .publishNext 0] ++
  List.replicate 9 .fft ++ List.replicate 6 (.worker ⟨0, maxClients_pos⟩ true [])

/-- The spectrum is the average of the two windows behind the gap. -/
theorem spectra_within_runs_gap :
    let plan : FftPlan Whole :=
      { bins := 2, step := 2, accum := 2, transform := plainTransform Whole 2
        bins_ge := by decide, step_ge := by decide, accum_pos := by decide }
    let cfg : Config Whole := ⟨100000000, 2400000, some plan⟩
    ∃ ring, ringCreate 2 4 (some fun _ => 0) = some ring ∧
      let history := (serverRun cfg (.initial cfg ring : Server Whole Whole) gapRun).2
      .gapMarked ∈ history ∧ ∃ early since seq generation power late,
        history = early ++ .spectrum seq generation power :: late ∧ SinceCursor early since ∧
        plan.AverageOver since power := by
  intro plan cfg
  refine ⟨_, rfl, ?_⟩
  intro history
  have sent : .sent 0 (.fft ⟨magicFft, 100000000, 2400000, 1, 2⟩ [30513, 29533]) true ∈ history := by
    decide +kernel
  have few : incrementsOf history < 2 ^ 64 := by decide +kernel
  obtain ⟨before, after, split⟩ := List.append_of_mem sent
  obtain ⟨_, slot, generation, early, since, late, ⟨⟩, _, published, last, average⟩ :=
    (spectra_within_runs cfg _ _).1 before _ _ _ _ after split
  rw [published, List.append_assoc, List.cons_append] at split
  refine ⟨by decide +kernel, early, since, _, generation, _, _, split, last, average ?_⟩
  obtain ⟨⟨start, rfl⟩, _⟩ := last
  rw [split] at few
  simp only [incrementsOf, List.countP_append, List.countP_cons] at few ⊢
  omega

/-! ### A generation that comes back -/

section Undisturbed

variable (cfg : Config F) (plan : FftPlan F) (planned : cfg.plan = some plan)

include planned

theorem serverRun_rounds (runs : ∀ points, plan.transform.execute points ≠ none)
    (input : List UInt8) (srv : Server F D) (here : srv.fftThread = .process input)
    (enough : Enough plan srv.fftLocal input) :
    ∃ k fftLocal rest power, power.length = plan.bins ∧
      serverRun cfg srv (List.replicate k Action.fft) =
        ({ srv with
            fftLocal
            fft := { srv.fft with power, seq := srv.fft.seq + 1, ready := true }
            fftThread := .process rest },
          [.spectrum (srv.fft.seq + 1) srv.fft.generation (power.map CFloat.toBits)]) := by
  obtain ⟨byte, tail, rfl⟩ := List.exists_cons_of_length_pos (Nat.lt_of_lt_of_le (by decide) enough.some)
  have round := processFftRound_progress runs enough
  have step : serverStep cfg srv .fft = fftStep plan srv := by simp only [serverStep, planned]
  simp only [fftStep, here] at step
  generalize processFftRound plan srv.fftLocal (byte :: tail) = out at round step
  cases round with
  | spectrum fftLocal rest power length =>
    refine ⟨1, fftLocal, rest, power, length, ?_⟩
    rw [serverRun, List.replicate_one, Transducer.run_singleton, step]
  | collecting fftLocal rest shorter enough =>
    obtain ⟨k, fftLocal', rest', power, length, later⟩ :=
      serverRun_rounds runs rest { srv with fftLocal, fftThread := .process rest } rfl enough
    refine ⟨k + 1, fftLocal', rest', power, length, ?_⟩
    rw [serverRun] at later ⊢
    rw [List.replicate_succ, Transducer.run_cons, step, later]
    rfl
termination_by input.length

theorem serverRun_feed (srv : Server F D) (going : srv.stopping = false)
    (idle : srv.publishers 0 = .idle) (epoch : srv.captureEpoch = 1)
    (waits : srv.fftThread = .load) (tracks : Tracks srv.ring srv.fftLocal.cursor [])
    (block : List UInt8) (whole : block.length % 2 = 0) (accepted : srv.ring.accepts block = true)
    (room : srv.ring.nextSeq < uint64Max) :
    ∃ ring cursor, Tracks ring cursor [] ∧ ring.nextSeq = srv.ring.nextSeq + 1 ∧
      ring.generation = srv.ring.generation ∧ ring.slotCount = srv.ring.slotCount ∧
      ring.slotSize = srv.ring.slotSize ∧
      serverRun cfg srv
          ([Action.publish 0 block, Action.publishNext 0] ++ List.replicate 3 Action.fft) =
        ({ srv with
            ring, fftLocal := { srv.fftLocal with cursor }, fftThread := .process block },
          [.wrote block false]) := by
  have fits : block.length ≤ srv.ring.slotSize := by
    simp only [Ring.accepts, decide_eq_true_eq] at accepted
    exact accepted.2
  have stays : srv.ring.rollsOver block = false := by
    simp only [Ring.rollsOver, accepted, Bool.true_and, decide_eq_false_iff_not]
    omega
  have stored : ringWriteCopy srv.ring block = some (srv.ring.store block fits room) := by
    simp only [Ring.accepts, decide_eq_true_eq] at accepted
    rw [ringWriteCopy, dif_pos fits, if_neg (by omega), dif_neg (by omega)]
  have written := serverRun_publish cfg srv going idle block whole accepted _ stored
  rw [stays] at written
  have owed := store_tracks srv.ring block fits room _ _ tracks
  have retained : 1 ≤ (srv.ring.store block fits room).retained := by
    have := srv.ring.slotCount_pos
    simp only [Ring.store]
    split_ifs <;> omega
  rcases ringReadCopy_tracks _ _ _ (List.replicate srv.ring.slotSize 0) owed (by simp) with
    ⟨overrun, _⟩ | ⟨nothing, _⟩ | ⟨got, rest, same, _, data, given, _, now⟩
  · simp only [List.nil_append, List.length_singleton] at overrun
    omega
  · simp at nothing
  obtain ⟨rfl, rfl⟩ := List.cons.inj same
  refine ⟨_, _, now, rfl, rfl, rfl, rfl, ?_⟩
  have even : ¬(ringReadCopy (srv.ring.store block fits room) srv.fftLocal.cursor
      (List.replicate srv.ring.slotSize 0)).len &&& 1 ≠ 0 := by
    rw [ringReadCopy_len, given, Nat.and_one_is_mod, whole]
    exact fun odd => odd rfl
  rw [serverRun_append, written]
  simp only [serverRun, List.replicate_succ, List.replicate_zero, Transducer.run_cons,
    Transducer.run_nil, serverStep, planned, fftStep, waits, going, epoch, if_true, if_false,
    Bool.false_eq_true, store_slotSize, data, even, given, List.append_nil]

theorem serverRun_sample (srv : Server F D) (i q : UInt8) (here : srv.fftThread = .process [i, q])
    (begins : srv.fftLocal.nsamples = 0) :
    ∃ fftIn, serverRun cfg srv (List.replicate 2 Action.fft) =
      ({ srv with
          fftLocal := { srv.fftLocal with fftIn, nsamples := 1 }, fftThread := .load }, []) := by
  have wide := plan.step_ge
  have least := plan.bins_ge
  have round : ∃ fftIn, processFftRound plan srv.fftLocal [i, q] =
      ({ srv.fftLocal with fftIn, nsamples := 1 }, [], .collecting) := by
    unfold processFftRound
    extract_lets remaining count fftIn rest nsamples transformed accumCount
    have one : count = 1 := by
      simp only [count, remaining, begins, List.length_cons, List.length_nil]
      split_ifs <;> omega
    refine ⟨fftIn, ?_⟩
    rw [if_neg (by omega)]
    simp only [nsamples, rest, one, begins]
    rfl
  obtain ⟨fftIn, round⟩ := round
  refine ⟨fftIn, ?_⟩
  simp only [serverRun, List.replicate_succ, List.replicate_zero, Transducer.run_cons,
    Transducer.run_nil, serverStep, planned, fftStep, here, round, List.append_nil]

end Undisturbed

theorem serverStep_goes (cfg : Config F) (srv : Server F D) (slot : Fin maxClients)
    (cl : Client F D) (unlocked : srv.locked = false) (pc next : WorkerPc F) (observed : List Obs)
    (step : workerStep cfg srv (cl.goto pc) true [] pc = (cl.goto next, observed)) :
    serverStep cfg (srv.setClient slot (cl.goto pc)) (.worker slot true []) =
      (srv.setClient slot (cl.goto next), observed) := by
  have free : (srv.setClient slot (cl.goto pc)).locked = false := unlocked
  have same : workerStep cfg (srv.setClient slot (cl.goto pc)) (cl.goto pc) true [] pc =
      (cl.goto next, observed) := by
    rw [← step]
    cases pc <;> rfl
  simp only [serverStep, setClient_self, free, Bool.false_and, Bool.false_eq_true, if_false]
  rw [show (cl.goto pc).thread = some pc from rfl]
  simp only [same]
  simp only [Server.setClient, Function.update_idem]

theorem serverRun_sendFft (cfg : Config F) (srv : Server F D) (slot : Fin maxClients)
    (last : UInt64) (going : srv.stopping = false) (unlocked : srv.locked = false)
    (epoch : srv.captureEpoch = (srv.clients slot).epoch)
    (thread : (srv.clients slot).thread = some (.load (.readPower last)))
    (generation : (srv.clients slot).fftGeneration = srv.fft.generation)
    (ready : srv.fft.ready = true) (newer : srv.fft.seq ≠ last) (plan : FftPlan F)
    (planned : cfg.plan = some plan) (sized : srv.fft.power.length = plan.bins)
    (most : plan.bins ≤ maxFftBins) :
    (serverRun cfg srv (List.replicate 6 (Action.worker slot true []))).2 =
      [.sent (srv.clients slot).fd (.fft ⟨magicFft, cfg.captureFreq, cfg.captureRate, srv.fft.seq,
        plan.bins.toUInt32⟩ (srv.fft.power.map CFloat.toBits)) true] := by
  let hdr : FftHdr :=
    ⟨magicFft, cfg.captureFreq, cfg.captureRate, srv.fft.seq, plan.bins.toUInt32⟩
  have least := plan.bins_ge
  have start : srv = srv.setClient slot ((srv.clients slot).goto (.load (.readPower last))) := by
    rw [Client.goto, ← thread, Server.setClient, Function.update_eq_self]
  have goes := serverStep_goes cfg srv slot (srv.clients slot) unlocked
  have load (next : Task F) := goes (.load next) (.session next) [] (by
    simp [workerStep, Client.goto, going])
  have session (next : Task F) := goes (.session next) (.run next) [] (by
    simp [workerStep, Client.goto, epoch])
  have read := goes (.run (.readPower last)) (.load (.sendFft hdr srv.fft.power)) [] (by
    simp [workerStep, Client.goto, taskStep, readPowerStep, generation, ready, newer, planned, hdr])
  have count : plan.bins.toUInt32.toNat = plan.bins := by
    apply UInt32.toNat_ofNat_of_lt'
    exact Nat.lt_of_le_of_lt most (by decide)
  obtain ⟨_, header⟩ : ∃ bytes, encodeFftHdr (List.replicate fftHdrSize 0) hdr = some bytes := by
    rw [encodeFftHdr, if_neg]
    · exact ⟨_, rfl⟩
    · rintro (magic | few | many)
      · exact magic rfl
      · exact absurd (count ▸ few) (Nat.not_lt_of_le least)
      · exact absurd (count ▸ many) (Nat.not_lt_of_le most)
  obtain ⟨_, payload⟩ : ∃ bytes, encodeFftPayload
      (List.replicate ((srv.fft.power.map CFloat.toBits).length * 4) 0)
      (srv.fft.power.map CFloat.toBits) = some bytes := by
    rw [encodeFftPayload, if_neg]
    · exact ⟨_, rfl⟩
    · simp only [List.length_map, List.length_replicate, sized]
      omega
  have send := goes (.run (.sendFft hdr srv.fft.power)) (.load (.readPower srv.fft.seq))
    [.sent (srv.clients slot).fd (.fft hdr (srv.fft.power.map CFloat.toBits)) true] (by
      simp only [workerStep, taskStep, header, payload]
      rfl)
  rw [start]
  simp only [serverRun, List.replicate_succ, List.replicate_zero, Transducer.run_cons,
    Transducer.run_nil, load, session, read, send, List.nil_append, List.append_nil,
    setClient_self]
  rfl

theorem samplesIn_length_le (t part : List Obs) (inside : part <:+: t) :
    (samplesIn part).length ≤ (samplesIn t).length := by
  obtain ⟨before, after, rfl⟩ := inside
  simp only [samplesIn, blocksOf_append, List.flatMap_append, List.length_append]
  omega

/-- What is averaged over lies on one side of a gap. -/
theorem FftPlan.AverageOver.beside_gap {plan : FftPlan F} {before after : List Obs} {power : List UInt32}
    (average : plan.AverageOver (before ++ Obs.gapMarked :: after) power) :
    plan.accum * plan.step ≤ (samplesIn before).length ∨
      plan.accum * plan.step ≤ (samplesIn after).length := by
  obtain ⟨head, unbroken, tail, first, _, split, none, long, _⟩ := average
  have absent : .gapMarked ∉ unbroken := by
    intro member
    rw [incrementsOf, List.countP_eq_zero] at none
    exact none _ member rfl
  have enough : plan.accum * plan.step ≤ (samplesIn unbroken).length := by
    rw [Nat.add_mul] at long
    omega
  rcases History.infix_beside split absent with left | right
  · exact .inl (enough.trans (samplesIn_length_le _ _ left))
  · exact .inr (enough.trans (samplesIn_length_le _ _ right))

/-- A block one sample short of a spectrum of the default plan. -/
def nearlyFull : List UInt8 := List.replicate 32766 128

theorem nearlyFull_length : nearlyFull.length = 32766 := List.length_replicate

/-- One sample is read, 2^64 odd publishes bring the generation back, and the rest of
a spectrum is read. -/
def straddleRun : List Action :=
  ([Action.publish 0 [128, 127], Action.publishNext 0] ++ List.replicate 3 Action.fft) ++
  List.replicate 2 Action.fft ++
  (List.replicate (2 ^ 64) [Action.publish 0 [0], Action.publishNext 0]).flatten ++
  ([Action.publish 0 nearlyFull, Action.publishNext 0] ++ List.replicate 3 Action.fft)

/-- What can be observed of it. -/
def straddleHistory : List Obs :=
  [Obs.wrote [128, 127] false] ++ List.replicate (2 ^ 64) Obs.gapMarked ++
  [Obs.wrote nearlyFull false]

theorem serverRun_straddle (cfg : Config F) (transform : FftTransform F fftDefaultBins)
    (planned : cfg.plan = some (.default transform)) (srv : Server F D)
    (going : srv.stopping = false) (idle : srv.publishers 0 = .idle)
    (epoch : srv.captureEpoch = 1) (waits : srv.fftThread = .load)
    (seq : srv.ring.nextSeq = 0) (generation : srv.ring.generation = 1)
    (size : srv.ring.slotSize = 32768) (cursor : srv.fftLocal.cursor = ⟨0, 1⟩)
    (begins : srv.fftLocal.nsamples = 0) (counts : srv.fftLocal.accumCount = 0)
    (sized : srv.fftLocal.fftAcc.length = 1024) :
    ∃ ring fftLocal, Enough (.default transform) fftLocal nearlyFull ∧
      serverRun cfg srv straddleRun =
        ({ srv with ring, fftLocal, fftThread := .process nearlyFull },
          straddleHistory) := by
  have tracks : Tracks srv.ring srv.fftLocal.cursor [] := by
    rw [cursor]
    exact ⟨generation.symm, seq, fun k bound => absurd bound (Nat.not_lt_zero k)⟩
  obtain ⟨ring₁, cursor₁, tracks₁, seq₁, generation₁, slots₁, size₁, first⟩ :=
    serverRun_feed cfg _ planned srv going idle epoch waits tracks [128, 127] rfl
      (by rw [Ring.accepts, size]; decide) (by rw [seq]; decide)
  obtain ⟨fftIn, sample⟩ := serverRun_sample cfg _ planned
    { srv with
      ring := ring₁
      fftLocal := { srv.fftLocal with cursor := cursor₁ }
      fftThread := .process [128, 127] } 128 127 rfl begins
  obtain ⟨ring₂, gaps, seq₂, generation₂, slots₂, size₂⟩ :=
    serverRun_publishes_odd cfg
      { srv with
        ring := ring₁
        fftLocal := { srv.fftLocal with cursor := cursor₁, fftIn, nsamples := 1 }
        fftThread := .load } going idle 0 (2 ^ 64)
  -- the cursor is of the current generation again
  have again : Tracks ring₂ cursor₁ [] := by
    refine ⟨?_, seq₂.trans tracks₁.nextSeq, fun k bound => absurd bound (Nat.not_lt_zero k)⟩
    rw [tracks₁.generation, generation₂]
    simp only [generation₁, generation]
    decide
  obtain ⟨ring₃, cursor₃, _, _, _, _, _, second⟩ :=
    serverRun_feed cfg _ planned
      { srv with
        ring := ring₂
        fftLocal := { srv.fftLocal with cursor := cursor₁, fftIn, nsamples := 1 }
        fftThread := .load } going idle epoch rfl again nearlyFull (by rw [nearlyFull_length])
      (by simp only [Ring.accepts, size₂, size₁, size, nearlyFull_length]; decide)
      (by simp only [seq₂, seq₁, seq]; decide)
  refine ⟨ring₃, { srv.fftLocal with cursor := cursor₃, fftIn, nsamples := 1 }, ?_, ?_⟩
  · refine ⟨show 1 < fftDefaultStep by decide, ?_, sized, ?_⟩
    · simp only [counts]
      exact show 0 < fftDefaultAccum by decide
    · simp only [counts, nearlyFull_length]
      exact show fftDefaultAccum * fftDefaultStep ≤ 0 * fftDefaultStep + 1 + 32766 / 2 by decide
  · exact serverRun_trans (serverRun_trans (serverRun_trans first sample) gaps) second

theorem spectra_straddle :
    ∃ (cfg : Config Float32) (srv : Server Float32 Float) (actions : List Action)
      (before : List Obs) (fd : Int) (hdr : FftHdr) (power : List UInt32),
      serverInit true 0 1235 (ringCreate 1 32768 (some fun _ => 0)) 100000000 2400000
        (fun bins => some (plainTransform Float32 bins)) = some (cfg, srv) ∧
      (serverRun cfg srv actions).2 = before ++ [.sent fd (.fft hdr power) true] ∧
      ∀ plan early late, cfg.plan = some plan → before = early ++ late →
        ¬plan.AverageOver early power := by
  let plan : FftPlan Float32 := .default (plainTransform Float32 fftDefaultBins)
  let cfg : Config Float32 := ⟨100000000, 2400000, some plan⟩
  obtain ⟨srv, init⟩ : ∃ srv : Server Float32 Float,
      serverInit true 0 1235 (ringCreate 1 32768 (some fun _ => 0)) 100000000 2400000
        (fun bins => some (plainTransform Float32 bins)) = some (cfg, srv) := ⟨_, rfl⟩
  have joined : (serverRun cfg srv joinFftRun).2 =
      [.fftCursorTaken, .accepted 0, .created ⟨0, by decide⟩ 0 1] := by
    cases init
    decide +kernel
  obtain ⟨going, idle, epoch, waits, unlocked, ring, cursor, fftLocal, shared⟩ :
      let srv := (serverRun cfg srv joinFftRun).1
      srv.stopping = false ∧ srv.publishers 0 = .idle ∧ srv.captureEpoch = 1 ∧
      srv.fftThread = .load ∧ srv.locked = false ∧
      (srv.ring.nextSeq = 0 ∧ srv.ring.generation = 1 ∧ srv.ring.slotSize = 32768) ∧
      srv.fftLocal.cursor = ⟨0, 1⟩ ∧
      (srv.fftLocal.nsamples = 0 ∧ srv.fftLocal.accumCount = 0 ∧
        srv.fftLocal.fftAcc.length = 1024) ∧
      srv.fft.seq = 0 ∧ srv.fft.generation = 1 := by
    cases init
    decide +kernel
  have thread : ((serverRun cfg srv joinFftRun).1.clients ⟨0, by decide⟩).thread =
      some (.load (.readPower 0)) := by
    cases init
    rfl
  obtain ⟨clientEpoch, clientGeneration, clientFd⟩ :
      let cl := (serverRun cfg srv joinFftRun).1.clients ⟨0, by decide⟩
      cl.epoch = 1 ∧ cl.fftGeneration = 1 ∧ cl.fd = 0 := by
    cases init
    decide +kernel
  rcases reached : serverRun cfg srv joinFftRun with ⟨srv₀, history⟩
  rw [reached] at joined going idle epoch waits unlocked ring cursor fftLocal shared thread
  rw [reached] at clientEpoch clientGeneration clientFd
  cases joined
  obtain ⟨ring₁, local₁, enough, straddled⟩ :=
    serverRun_straddle cfg (plainTransform Float32 fftDefaultBins) rfl srv₀ going idle epoch waits
      ring.1 ring.2.1 ring.2.2 cursor fftLocal.1 fftLocal.2.1 fftLocal.2.2
  obtain ⟨k, local₂, rest, power, length, rounds⟩ :=
    serverRun_rounds cfg plan rfl (fun _ => Option.some_ne_none _) nearlyFull
      { srv₀ with
        ring := ring₁
        fftLocal := local₁
        fftThread := .process nearlyFull } rfl enough
  have newer : srv₀.fft.seq + 1 ≠ 0 := by
    rw [show srv₀.fft.seq = 0 from shared.1]
    decide
  have sent := serverRun_sendFft cfg
    { srv₀ with
      ring := ring₁
      fftLocal := local₂
      fft := { srv₀.fft with power, seq := srv₀.fft.seq + 1, ready := true }
      fftThread := .process rest }
    ⟨0, by decide⟩ 0 going unlocked (epoch.trans clientEpoch.symm) thread
    (clientGeneration.trans shared.2.symm) rfl newer plan rfl length (by decide)
  have run := serverRun_trans (serverRun_trans reached straddled) rounds
  have observed : (serverRun cfg srv (joinFftRun ++ straddleRun ++ List.replicate k Action.fft ++
      List.replicate 6 (Action.worker ⟨0, by decide⟩ true []))).2 =
      [Obs.fftCursorTaken, Obs.accepted 0, Obs.created ⟨0, by decide⟩ 0 1] ++ straddleHistory ++
      [Obs.spectrum (srv₀.fft.seq + 1) srv₀.fft.generation (power.map CFloat.toBits)] ++
      [Obs.sent (srv₀.clients ⟨0, by decide⟩).fd (.fft ⟨magicFft, cfg.captureFreq, cfg.captureRate,
        srv₀.fft.seq + 1, plan.bins.toUInt32⟩ (power.map CFloat.toBits)) true] := by
    rw [serverRun_append, run, sent]
  refine ⟨cfg, srv, _, _, _, _, _, init, observed, ?_⟩
  rintro _ early late ⟨⟩ split ⟨before, unbroken, after, first, spectrum, whole, rest⟩
  obtain ⟨n, more⟩ : ∃ n, 2 ^ 64 = n + 1 := ⟨2 ^ 64 - 1, rfl⟩
  have average : plan.AverageOver
      ([Obs.fftCursorTaken, .accepted 0, .created ⟨0, by decide⟩ 0 1, .wrote [128, 127] false] ++
        Obs.gapMarked :: (List.replicate n Obs.gapMarked ++ [Obs.wrote nearlyFull false,
          .spectrum (srv₀.fft.seq + 1) srv₀.fft.generation (power.map CFloat.toBits)]))
      (power.map CFloat.toBits) := by
    refine ⟨before, unbroken, after ++ late, first, spectrum, ?_, rest⟩
    rw [← List.append_assoc, ← whole, ← split, straddleHistory, more, List.replicate_succ]
    simp
  -- one sample before the gap, 16383 after it, and 16384 are needed
  have marked : blocksOf (List.replicate n Obs.gapMarked) = [] :=
    List.filterMap_replicate_of_none rfl
  have needed : plan.accum * plan.step = 16384 :=
    show fftDefaultAccum * fftDefaultStep = 16384 by decide
  have after : (samplesIn (List.replicate n Obs.gapMarked ++ [Obs.wrote nearlyFull false,
      .spectrum (srv₀.fft.seq + 1) srv₀.fft.generation (power.map CFloat.toBits)])).length =
      16383 := by
    rw [samplesIn, blocksOf_append, marked, List.nil_append]
    show ([nearlyFull].flatMap samplesOf).length = 16383
    rw [List.flatMap_singleton, samplesOf_length, nearlyFull_length]
  rcases average.beside_gap with left | right
  · have before : (samplesIn [.fftCursorTaken, .accepted 0, .created ⟨0, by decide⟩ 0 1,
        .wrote [128, 127] false]).length = 1 := rfl
    omega
  · omega

end RtlSdr
