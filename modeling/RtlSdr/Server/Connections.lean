import RtlSdr.Server.Slots

/-!
# One connection at a time

A property of every connection is proved from three facts: it holds when the worker is created, its
own steps keep it, and nobody else's step breaks it. The lifecycle of the slots supplies that nobody
else speaks on the connection.
-/
namespace RtlSdr

variable {F D : Type}

/-- What the run loop can make of a slot. -/
inductive RunSlot (srv : Server F D) (i : Fin maxClients) : Client F D → Prop
  | kept (state : ClientState) : RunSlot srv i { srv.clients i with state }
  | vacant (cl : Client F D) (none : cl.thread = none) : RunSlot srv i cl
  | created (k : Nat) (fd : Int) (here : srv.run = .create k fd i) :
      RunSlot srv i { srv.newClient k fd with state := .starting, thread := some .receiveRequest }

theorem RunSlot.same (srv : Server F D) (i : Fin maxClients) : RunSlot srv i (srv.clients i) :=
  .kept (srv.clients i).state

/-- The run loop before the FFT thread can exist. -/
def RunPc.boots : RunPc → Bool
  | .idle => true
  | .started => true
  | .createFft => true
  | _ => false

/-- What the run loop does to the FFT thread: it takes a cursor for it and creates it. -/
inductive RunFft (srv : Server F D) : Server F D → List Obs → Prop
  | other {srv' : Server F D} {observed : List Obs} (fftLocal : srv'.fftLocal = srv.fftLocal)
      (fftThread : srv'.fftThread = srv.fftThread)
      (boots : srv'.run.boots = true → srv.run.boots = true)
      (creates : srv'.run = .createFft → srv.run = .createFft)
      (part : ∀ e ∈ observed, e.part = .slots) : RunFft srv srv' observed
  | takeCursor (started : srv.run = .started) :
      RunFft srv
        { srv with
          fftLocal := { srv.fftLocal with cursor := ringCursorNow srv.ring }, run := .createFft }
        [.fftCursorTaken]
  | create (here : srv.run = .createFft) :
      RunFft srv { srv with fftThread := .load, run := .loop } []

/-- The run loop writes the slots, its own fields and, on starting it, the FFT thread's. -/
structure RunEffect (srv srv' : Server F D) (observed : List Obs) : Prop where
  slots : ∀ i, RunSlot srv i (srv'.clients i)
  ring : srv'.ring = srv.ring
  publishers : srv'.publishers = srv.publishers
  captureEpoch : srv'.captureEpoch = srv.captureEpoch
  newFreq : srv'.newFreq = srv.newFreq
  fft : srv'.fft = srv.fft
  thread : RunFft srv srv' observed

variable {observed t : List Obs} {srv' srv : Server F D}

theorem RunEffect.part (effect : RunEffect srv srv' observed) {e : Obs} (member : e ∈ observed) :
    e.part = .slots ∨ e = .fftCursorTaken := by
  cases effect.thread with
  | other _ _ _ _ part => exact .inl (part e member)
  | takeCursor => exact .inr (List.mem_singleton.mp member)
  | create => cases member

theorem RunEffect.part_ne (effect : RunEffect srv srv' observed) {e : Obs} (member : e ∈ observed)
    {part : Part} (other : part ≠ .slots ∧ part ≠ .spectra) : e.part ≠ part := by
  rcases effect.part member with here | rfl
  · rw [here]
    exact other.1.symm
  · exact other.2.symm

section Booted

variable {run : RunPc} (booted : run.boots = false) (part : ∀ e ∈ observed, e.part = .slots)
include booted part

/-- The run loop is past the creation of the thread. -/
theorem RunFft.past (fftLocal : srv'.fftLocal = srv.fftLocal)
    (fftThread : srv'.fftThread = srv.fftThread) (there : srv'.run = run) :
    RunFft srv srv' observed := by
  subst there
  refine .other fftLocal fftThread (fun boots => ?_) (fun creates => ?_) part
  · rw [booted] at boots
    cases boots
  · rw [creates] at booted
    cases booted

theorem RunEffect.silent (stopping : Bool) (nextFd : Nat) :
    RunEffect srv { srv with stopping, nextFd, run } observed :=
  ⟨.same srv, rfl, rfl, rfl, rfl, rfl, .past booted part rfl rfl rfl⟩

theorem RunEffect.slot {slot : Fin maxClients} {cl : Client F D} (here : RunSlot srv slot cl)
    (clientCount : Int) :
    RunEffect srv { srv.setClient slot cl with clientCount, run } observed :=
  ⟨setClient_forall srv slot cl (RunSlot srv) (fun i _ => .same srv i) here, rfl, rfl, rfl, rfl, rfl,
    .past booted part rfl rfl rfl⟩

end Booted

theorem Lifecycle.runStep_effect (inv : Lifecycle srv t) (cfg : Config F) (answer : Answer) :
    RunEffect srv (RtlSdr.runStep cfg srv answer).1 (RtlSdr.runStep cfg srv answer).2 := by
  have stop (e : Obs) (member : e ∈ srv.stopSection) : e.part = .slots :=
    announced_part srv e (stopSection_announced srv e member)
  cases here : srv.run with
  | idle =>
    simp only [RtlSdr.runStep, here]
    refine ⟨.same srv, rfl, rfl, rfl, rfl, rfl, .other rfl rfl (fun _ => by rw [here]; rfl) ?_ (by simp)⟩
    intro creates
    split_ifs at creates
  | started =>
    simp only [RtlSdr.runStep, here]
    split_ifs
    · exact .silent rfl (by simp) _ _
    · exact ⟨.same srv, rfl, rfl, rfl, rfl, rfl, .takeCursor here⟩
  | createFft =>
    simp only [RtlSdr.runStep, here]
    split_ifs
    · exact ⟨.same srv, rfl, rfl, rfl, rfl, rfl, .create here⟩
    · exact .silent rfl (by simp) _ _
  | loop =>
    simp only [RtlSdr.runStep, here]
    refine .silent ?_ (by simp) _ _
    split_ifs
    · rfl
    · cases answer <;> rfl
  | reap call i =>
    simp only [RtlSdr.runStep, here]
    split_ifs
    · exact .silent rfl (by simp) _ _
    · exact .slot rfl (by simp) (.kept .joining) _
    · exact .silent (by cases call <;> rfl) (by simp) _ _
  | join call slot =>
    simp only [RtlSdr.runStep, here]
    split
    · exact .slot rfl (by simp [Obs.part]) (.vacant _ rfl) _
    · exact .silent (by rw [here]; rfl) (by simp) _ _
  | close call slot =>
    have joined := (inv.closing call slot here).2
    simp only [RtlSdr.runStep, here]
    exact .slot rfl (by simp [Obs.part])
      (.vacant { srv.clients slot with fd := -1, dsp := none, state := .free } joined) _
  | listen k =>
    simp only [RtlSdr.runStep, here]
    split_ifs
    · exact .silent rfl (by simp) _ _
    · cases answer <;> exact .silent rfl (by simp [Obs.part]) _ _
  | nonblocking k fd | session k fd =>
    simp only [RtlSdr.runStep, here, Server.drop]
    split_ifs <;> exact .silent rfl (by simp [Obs.part]) _ _
  | place k fd =>
    simp only [RtlSdr.runStep, here, Server.drop]
    split_ifs
    · exact .silent rfl (by simp [Obs.part]) _ _
    · cases srv.freeSlot <;> exact .silent rfl (by simp [Obs.part]) _ _
  | create k fd slot =>
    simp only [RtlSdr.runStep, here]
    split_ifs
    · exact .slot rfl (by simp [Obs.part]) (.created k fd here) _
    · exact .slot rfl (by simp [Obs.part]) (.vacant _ rfl) _
  | joinFft =>
    simp only [RtlSdr.runStep, here]
    split_ifs
    · exact .silent rfl (by simp) _ _
    · exact .silent (by rw [here]; rfl) (by simp) _ _
  | returned | shutDown =>
    simp only [RtlSdr.runStep, here]
    exact .silent (by rw [here]; rfl) (by simp) _ _
  | stop | shutdownStop =>
    simp only [RtlSdr.runStep, here]
    exact .silent rfl (by simp) _ _
  | stopLock | shutdownLock =>
    simp only [RtlSdr.runStep, here]
    exact .silent rfl stop _ _

theorem speaker_ne_of_part {e : Obs} (part : e.part ≠ .worker) (fd : Int) : e.speaker ≠ some fd :=
  fun speaks => part (part_of_speaker e fd speaks)

/-! ### Who moves, and what it writes -/

variable [CFloat F] [CDouble D F]

/-- The next block of a publisher. -/
def Server.nextBlock (srv : Server F D) (input : List UInt8) : List UInt8 :=
  input.take (min input.length srv.ring.slotSize)

inductive StepEffect (cfg : Config F) (srv : Server F D) : Server F D → List Obs → Prop
  | publish (p : Nat) (publisher : Publisher)
      (even : ∀ input, publisher = .writing input → input.length % 2 = 0 ∧ input ≠ []) :
      StepEffect cfg srv (srv.setPublisher p publisher) []
  | write (p : Nat) (input : List UInt8) (ring : Ring) (publisher : Publisher)
      (writing : srv.publishers p = .writing input)
      (stored : ringWriteCopy srv.ring (srv.nextBlock input) = some ring)
      (rest : ∀ later, publisher = .writing later →
        later = input.drop (min input.length srv.ring.slotSize) ∧ later ≠ []) :
      StepEffect cfg srv { srv.setPublisher p publisher with ring }
        [.wrote (srv.nextBlock input) (srv.ring.rollsOver (srv.nextBlock input))]
  | gap (publishers : Nat → Publisher)
      (fewer : ∀ p input, publishers p = .writing input → srv.publishers p = .writing input) :
      StepEffect cfg srv { srv with publishers, ring := ringMarkGap srv.ring } [.gapMarked]
  | aside (stopping : Bool) (stops notifies : Nat) (run : RunPc) (observed : List Obs)
      (past : run = srv.run ∨ run.boots = false) (part : ∀ e ∈ observed, e.part = .slots) :
      StepEffect cfg srv { srv with stopping, stops, notifies, run } observed
  | notify (freq : UInt64) :
      StepEffect cfg srv
        { srv with
          newFreq := freq, captureEpoch := srv.captureEpoch + 1, notifies := srv.notifies + 1 }
        [.notified freq]
  | run (srv' : Server F D) (observed : List Obs) (effect : RunEffect srv srv' observed) :
      StepEffect cfg srv srv' observed
  | fft (plan : FftPlan F) (planned : cfg.plan = some plan) :
      StepEffect cfg srv (fftStep plan srv).1 (fftStep plan srv).2
  | worker (slot : Fin maxClients) (works : Bool) (arrived : List UInt8) (pc : WorkerPc F)
      (thread : (srv.clients slot).thread = some pc) :
      StepEffect cfg srv
        (srv.setClient slot (workerStep cfg srv (srv.clients slot) works arrived pc).1)
        (workerStep cfg srv (srv.clients slot) works arrived pc).2

theorem StepEffect.stay (cfg : Config F) (srv : Server F D) : StepEffect cfg srv srv [] :=
  .aside srv.stopping srv.stops srv.notifies srv.run [] (.inl rfl) (by simp)

theorem Lifecycle.effect (inv : Lifecycle srv t) (cfg : Config F) (a : Action) :
    StepEffect cfg srv (RtlSdr.serverStep cfg srv a).1 (RtlSdr.serverStep cfg srv a).2 := by
  cases a with
  | publish p input =>
    simp only [RtlSdr.serverStep, publishStep]
    split_ifs with ignored odd
    · exact .stay cfg srv
    · exact .publish p .gap (by simp)
    · refine .publish p (.writing input) ?_
      rintro _ ⟨⟩
      rw [Nat.and_one_is_mod] at odd
      refine ⟨by omega, ?_⟩
      rintro rfl
      exact ignored (.inr (.inr rfl))
  | publishNext p =>
    simp only [RtlSdr.serverStep, publishNextStep]
    cases writing : srv.publishers p with
    | idle => exact .stay cfg srv
    | gap =>
      refine .gap _ fun q input now => ?_
      by_cases same : q = p
      · simp [Server.setPublisher, same] at now
      · simpa [Server.setPublisher, same] using now
    | writing input =>
      simp only
      split
      · exact .publish p .gap (by simp)
      next ring stored =>
        refine .write p input ring _ writing stored fun later now => ?_
        split_ifs at now with none
        cases now
        exact ⟨rfl, fun empty => none (by rw [empty]; rfl)⟩
  | ringGap => exact .gap srv.publishers fun _ _ now => now
  | requestStop => exact .aside true (srv.stops + 1) srv.notifies srv.run [] (.inl rfl) (by simp)
  | requestStopLock =>
    simp only [RtlSdr.serverStep]
    split_ifs
    · exact .stay cfg srv
    · exact .aside srv.stopping (srv.stops - 1) srv.notifies srv.run _ (.inl rfl) fun e member =>
        announced_part srv e (stopSection_announced srv e member)
  | notify freq => exact .notify freq
  | notifyLock =>
    simp only [RtlSdr.serverStep]
    split_ifs
    · exact .stay cfg srv
    · refine .aside srv.stopping srv.stops (srv.notifies - 1) srv.run _ (.inl rfl) fun e member => ?_
      obtain ⟨i, _, rfl⟩ := (mem_shutdowns srv (fun cl => cl.state == .starting) e).mp member
      rfl
  | run answer => exact .run _ _ (inv.runStep_effect cfg answer)
  | shutdown =>
    simp only [RtlSdr.serverStep]
    split_ifs
    · exact .aside srv.stopping srv.stops srv.notifies .shutdownStop [] (.inr rfl) (by simp)
    · exact .stay cfg srv
  | fft =>
    simp only [RtlSdr.serverStep]
    cases planned : cfg.plan with
    | none => exact .stay cfg srv
    | some plan => exact .fft plan planned
  | worker slot works arrived =>
    simp only [RtlSdr.serverStep]
    cases thread : (srv.clients slot).thread with
    | none => exact .stay cfg srv
    | some pc =>
      simp only
      split_ifs
      · exact .stay cfg srv
      · exact .worker slot works arrived pc thread

/-! ### Properties of every connection -/

/-- `live` holds of every worker and `past` of every connection, served or gone. -/
structure Tracked (live : Server F D → List Obs → Client F D → Prop)
    (past : List Obs → Int → Prop) (srv : Server F D) (t : List Obs) : Prop where
  live : ∀ i, (srv.clients i).thread ≠ none → live srv t (srv.clients i)
  past : ∀ fd, past t fd

/-- A step either leaves every worker where it is and says nothing for any of them, or it
is the run loop's or a worker's. -/
theorem StepEffect.cases_speaker {cfg : Config F} (effect : StepEffect cfg srv srv' observed) :
    (srv'.clients = srv.clients ∧ ∀ e ∈ observed, e.part ≠ .worker) ∨
    RunEffect srv srv' observed ∨
    ∃ slot works arrived pc, (srv.clients slot).thread = some pc ∧
      srv' = srv.setClient slot (workerStep cfg srv (srv.clients slot) works arrived pc).1 ∧
      observed = (workerStep cfg srv (srv.clients slot) works arrived pc).2 := by
  cases effect with
  | publish => exact .inl ⟨rfl, by simp⟩
  | write | gap => exact .inl ⟨rfl, by simp [Obs.part]⟩
  | aside _ _ _ _ _ _ part => exact .inl ⟨rfl, fun e member => by simp [part e member]⟩
  | notify => exact .inl ⟨rfl, by simp [Obs.part]⟩
  | run _ _ effect => exact .inr (.inl effect)
  | fft plan =>
    obtain ⟨_, _, _, _, result, _, _, observed⟩ := fftStep_effect plan srv
    refine .inl ⟨by rw [result], fun e member => ?_⟩
    rcases observed e member with ⟨_, announced, _⟩ | spectra
    · simp [announced_part srv e announced]
    · simp [spectra]
  | worker slot works arrived pc thread =>
    exact .inr (.inr ⟨slot, works, arrived, pc, thread, rfl, rfl⟩)

/-- What one step of the server keeps of every connection. -/
theorem tracked_step (inv : Lifecycle srv t) (cfg : Config F) (a : Action)
    (live : Server F D → List Obs → Client F D → Prop) (past : List Obs → Int → Prop)
    (grows : ∀ t e fd, e.speaker ≠ some fd → past t fd → past (t ++ [e]) fd)
    (lives : ∀ srv t cl, live srv t cl → past t cl.fd)
    (created : ∀ srv t cl, cl.thread = some .receiveRequest → cl.epoch = 1 →
      (∀ e ∈ t, e.speaker ≠ some cl.fd) → live srv t cl)
    (worker : ∀ i works arrived pc, (srv.clients i).thread = some pc →
      live srv t (srv.clients i) →
      live (srv.setClient i (workerStep cfg srv (srv.clients i) works arrived pc).1)
        (t ++ (workerStep cfg srv (srv.clients i) works arrived pc).2)
        (workerStep cfg srv (srv.clients i) works arrived pc).1)
    (others : ∀ srv' observed cl state, StepEffect cfg srv srv' observed →
      (∀ e ∈ observed, e.speaker ≠ some cl.fd) → live srv t cl →
      live srv' (t ++ observed) { cl with state }) (tracked : Tracked live past srv t) :
    Tracked live past (serverStep cfg srv a).1
      (t ++ (serverStep cfg srv a).2) := by
  have effect := inv.effect cfg a
  generalize serverStep cfg srv a = result at effect ⊢
  obtain ⟨srv', observed⟩ := result
  have silent (fd : Int) (quiet : ∀ e ∈ observed, e.speaker ≠ some fd) :
      past (t ++ observed) fd := by
    clear effect
    induction observed using List.reverseRecOn with
    | nil =>
      rw [List.append_nil]
      exact tracked.past fd
    | append_singleton observed e ih =>
      rw [← List.append_assoc]
      apply grows
      · exact quiet e (by simp)
      · exact ih fun e member => quiet e (List.mem_append_left _ member)
  rcases effect.cases_speaker with ⟨clients, part⟩ | run | ⟨slot, works, arrived, pc, thread, rfl, rfl⟩
  · have quiet (fd : Int) : ∀ e ∈ observed, e.speaker ≠ some fd :=
      fun e member => speaker_ne_of_part (part e member) fd
    refine ⟨fun i alive => ?_, fun fd => silent fd (quiet fd)⟩
    rw [show (srv', observed).1.clients = srv.clients from clients] at alive ⊢
    exact others srv' observed _ _ effect (quiet _) (tracked.live i alive)
  · have quiet (fd : Int) : ∀ e ∈ observed, e.speaker ≠ some fd :=
      fun e member => speaker_ne_of_part (run.part_ne member (by decide)) fd
    refine ⟨fun i alive => ?_, fun fd => silent fd (quiet fd)⟩
    have slot := run.slots i
    change (srv'.clients i).thread ≠ none at alive
    change live srv' (t ++ observed) (srv'.clients i)
    generalize srv'.clients i = cl at slot alive ⊢
    cases slot with
    | kept state =>
      exact others srv' observed _ state effect (quiet _) (tracked.live i alive)
    | vacant _ none => exact absurd none alive
    | created k fd here =>
      -- nobody has spoken on a connection that `accept_client` still holds
      obtain ⟨_, _, _, uncreated⟩ := inv.held fd (by rw [here]; rfl)
      refine created srv' (t ++ observed) _ rfl rfl fun e member speaks => ?_
      rcases List.mem_append.mp member with old | new
      · obtain ⟨slot, generation, made⟩ := inv.speakers e old fd speaks
        exact uncreated slot generation made
      · exact quiet fd e new speaks
  · have spoken := workerStep_effect cfg srv (srv.clients slot) works arrived pc thread
    have used : (srv.clients slot).state ≠ .free := by
      intro free
      rw [(inv.free slot free).2] at thread
      cases thread
    have own := worker slot works arrived pc thread (tracked.live slot (by simp [thread]))
    constructor
    · refine setClient_forall srv slot _ (fun i cl => cl.thread ≠ none → live _ _ cl) ?_ fun _ => own
      intro i other alive
      refine others _ _ _ _ effect (fun e member speaks => ?_) (tracked.live i alive)
      rw [spoken.speaks e member] at speaks
      exact other (inv.distinct slot i used (Option.some.inj speaks).symm).symm
    · intro fd
      by_cases mine : fd = (srv.clients slot).fd
      · rw [mine, ← spoken.fd]
        exact lives _ _ _ own
      · refine silent fd fun e member speaks => mine ?_
        rw [spoken.speaks e member] at speaks
        exact (Option.some.inj speaks).symm

end RtlSdr
