import RtlSdr.Server.Connections

/-!
# Retuning ends the session

A client belongs to the epoch in which the server started. A worker compares it with the current one
before it reads samples or a spectrum and again when the frame is built, so whatever it starts to
send after a retune was ready before it.
-/
namespace RtlSdr

variable {F D : Type}

/-! ### What is observed of a session -/

/-- The announced frequencies, oldest first. -/
def notifications : List Obs → List UInt64 :=
  List.filterMap fun e =>
    match e with
    | .notified freq => some freq
    | _ => none

/-- The frames started on a connection, and whether each was sent whole. -/
def framesOn (fd : Int) : List Obs → List (Frame × Bool) :=
  List.filterMap fun e =>
    match e with
    | .sent other frame whole => if other = fd then some (frame, whole) else none
    | _ => none

def Frame.isData : Frame → Bool
  | .event _ _ => false
  | _ => true

/-- Data, then at most a frequency change, then at most the end of the stream, which
follows a complete frequency change only. -/
inductive Conversation : List (Frame × Bool) → Prop
  | data (frames : List (Frame × Bool)) (data : ∀ f ∈ frames, f.1.isData = true) :
      Conversation frames
  | change (frames : List (Frame × Bool)) (data : ∀ f ∈ frames, f.1.isData = true)
      (freq : UInt64) (whole : Bool) :
      Conversation (frames ++ [(.event evtFreqChange freq, whole)])
  | ended (frames : List (Frame × Bool)) (data : ∀ f ∈ frames, f.1.isData = true)
      (freq : UInt64) (whole : Bool) :
      Conversation (frames ++ [(.event evtFreqChange freq, true), (.event evtStreamEnd 0, whole)])

@[simp] theorem notifications_append (t u : List Obs) :
    notifications (t ++ u) = notifications t ++ notifications u := List.filterMap_append

@[simp] theorem framesOn_append (fd : Int) (t u : List Obs) :
    framesOn fd (t ++ u) = framesOn fd t ++ framesOn fd u := List.filterMap_append

theorem framesOn_silent (fd : Int) (t : List Obs) (silent : ∀ e ∈ t, e.speaker ≠ some fd) :
    framesOn fd t = [] := by
  unfold framesOn
  rw [List.filterMap_eq_nil_iff]
  intro e member
  cases e with
  | sent other frame whole =>
    have distinct : other ≠ fd := fun same => silent _ member (congrArg some same)
    simp [distinct]
  | _ => rfl

theorem notifications_silent (t : List Obs) (silent : ∀ e ∈ t, e.part ≠ .session) :
    notifications t = [] := by
  unfold notifications
  rw [List.filterMap_eq_nil_iff]
  intro e member
  cases e with
  | notified freq => exact absurd rfl (silent _ member)
  | _ => rfl

/-! ### The epoch counts the notifications -/

structure Session (srv : Server F D) (t : List Obs) : Prop where
  epoch : srv.captureEpoch.toNat = (1 + (notifications t).length) % 2 ^ 64
  last : notifications t ≠ [] → (notifications t).getLast? = some srv.newFreq

variable {srv : Server F D} {t observed : List Obs} {fd : Int}

theorem Session.current (session : Session srv t) (few : (notifications t).length < 2 ^ 64)
    (current : srv.captureEpoch = 1) : notifications t = [] := by
  have epoch := session.epoch
  rw [current] at epoch
  have none : (notifications t).length = 0 := by
    have one : (1 : UInt64).toNat = 1 := rfl
    omega
  exact List.length_eq_zero_iff.mp none

section Steps

variable [CFloat F] [CDouble D F]

theorem session_step {srv : Server F D} {t : List Obs} (inv : Lifecycle srv t) (cfg : Config F)
    (a : Action) (session : Session srv t) :
    Session (serverStep cfg srv a).1 (t ++ (serverStep cfg srv a).2) := by
  have effect := inv.effect cfg a
  generalize serverStep cfg srv a = result at effect ⊢
  obtain ⟨srv', observed⟩ := result
  have keep (epoch : srv'.captureEpoch = srv.captureEpoch) (freq : srv'.newFreq = srv.newFreq)
      (silent : ∀ e ∈ observed, e.part ≠ .session) : Session srv' (t ++ observed) := by
    constructor
    · rw [notifications_append, notifications_silent observed silent, List.append_nil, epoch]
      exact session.epoch
    · rw [notifications_append, notifications_silent observed silent, List.append_nil, freq]
      exact session.last
  cases effect with
  | publish => exact keep rfl rfl (by simp)
  | write | gap => exact keep rfl rfl (by simp [Obs.part])
  | aside _ _ _ _ _ _ part => exact keep rfl rfl fun e member => by simp [part e member]
  | notify freq =>
    constructor
    · have epoch := session.epoch
      have one : (notifications [Obs.notified freq]).length = 1 := rfl
      rw [notifications_append, List.length_append, one, UInt64.toNat_add]
      show (srv.captureEpoch.toNat + 1) % 2 ^ 64 = _
      omega
    · intro _
      simp [notifications]
  | run _ _ effect =>
    exact keep effect.captureEpoch effect.newFreq fun e member => effect.part_ne member (by decide)
  | fft plan =>
    obtain ⟨_, _, _, _, result, _, _, seen⟩ := fftStep_effect plan srv
    refine keep (by simp only [result]) (by simp only [result]) fun e member => ?_
    rcases seen e member with ⟨_, announced, _⟩ | spectra
    · simp [announced_part srv e announced]
    · simp [spectra]
  | worker slot works arrived pc thread =>
    refine keep rfl rfl fun e member => ?_
    have spoken := workerStep_effect cfg srv (srv.clients slot) works arrived pc thread
    simp [part_of_speaker e _ (spoken.speaks e member)]

/-! ### What a worker says -/

/-- The places where `client_current` has not failed yet. -/
def WorkerPc.streaming : WorkerPc F → Bool
  | .sendChange _ => false
  | .sendEnd => false
  | .setDone => false
  | .exited => false
  | _ => true

/-- A step that starts data frames only and goes on streaming, or to the end. -/
def Streams (cl : Client F D) (result : Client F D × List Obs) : Prop :=
  (∃ pc, result.1.thread = some pc ∧ (pc.streaming = true ∨ pc = .setDone)) ∧
    ∀ f ∈ framesOn cl.fd result.2, f.1.isData = true

omit [CFloat F] [CDouble D F] in
theorem Streams.goto (cl cl' : Client F D) (pc : WorkerPc F) (observed : List Obs)
    (next : pc.streaming = true ∨ pc = .setDone)
    (data : ∀ f ∈ framesOn cl.fd observed, f.1.isData = true) :
    Streams cl (cl'.goto pc, observed) :=
  ⟨⟨pc, rfl, next⟩, data⟩

theorem setupStep_streams (cfg : Config F) (cl : Client F D) (req : StreamReq) (works : Bool) :
    Streams cl (setupStep cfg cl req works, []) := by
  unfold setupStep
  split_ifs
  · exact .goto cl cl _ [] (.inr rfl) (by simp [framesOn])
  · exact .goto cl cl _ [] (.inl rfl) (by simp [framesOn])
  · exact .goto cl cl _ [] (.inr rfl) (by simp [framesOn])
  · simp only
    split
    · exact .goto cl cl _ [] (.inr rfl) (by simp [framesOn])
    · split_ifs
      · exact .goto cl _ _ [] (.inr rfl) (by simp [framesOn])
      · exact .goto cl _ _ [] (.inl rfl) (by simp [framesOn])

theorem readRingStep_streams (ring : Ring) (cl : Client F D) (seq : UInt64) :
    Streams cl (readRingStep ring cl seq) := by
  simp only [readRingStep]
  split
  · exact .goto cl _ _ _ (.inl rfl) (by simp [framesOn])
  · split_ifs
    · exact .goto cl _ _ _ (.inr rfl) (by simp [framesOn])
    · exact .goto cl _ _ _ (.inr rfl) (by simp [framesOn])
    · exact .goto cl _ _ _ (.inl rfl) (by simp [framesOn])
    · exact .goto cl _ _ _ (.inl rfl) (by simp [framesOn])
  · exact .goto cl _ _ _ (.inr rfl) (by simp [framesOn])
  · exact .goto cl _ _ _ (.inr rfl) (by simp [framesOn])

theorem taskStep_streams (cfg : Config F) (srv : Server F D) (cl : Client F D) (works : Bool)
    (next : Task F) : Streams cl (taskStep cfg srv cl works next) := by
  have after (task : Task F) :
      (if works then WorkerPc.load task else .setDone).streaming = true ∨
        (if works then WorkerPc.load task else .setDone) = .setDone := by
    cases works
    · exact .inr rfl
    · exact .inl rfl
  cases next with
  | setup req => exact setupStep_streams cfg cl req works
  | readRing seq => exact readRingStep_streams srv.ring cl seq
  | sendIq seq hdr samples =>
    simp only [taskStep]
    split
    · exact .goto cl cl _ _ (after _) (by simp [framesOn, Frame.isData])
    · exact .goto cl cl _ _ (.inr rfl) (by simp [framesOn])
  | readPower lastSeq =>
    simp only [taskStep, readPowerStep]
    split_ifs
    · exact .goto cl cl _ _ (.inr rfl) (by simp [framesOn])
    · exact .goto cl cl _ _ (.inl rfl) (by simp [framesOn])
    · exact .goto cl cl _ _ (.inl rfl) (by simp [framesOn])
  | sendFft hdr snapshot =>
    simp only [taskStep]
    split
    · exact .goto cl cl _ _ (after _) (by simp [framesOn, Frame.isData])
    · exact .goto cl cl _ _ (.inr rfl) (by simp [framesOn])

theorem workerStep_streams (cfg : Config F) (srv : Server F D) (cl : Client F D) (works : Bool)
    (arrived : List UInt8) (pc : WorkerPc F) (streaming : pc.streaming = true) :
    Streams cl (workerStep cfg srv cl works arrived pc) ∨
      srv.captureEpoch ≠ cl.epoch ∧ workerStep cfg srv cl works arrived pc =
        (cl.goto (.sendChange srv.newFreq), [.stale cl.fd]) := by
  cases pc with
  | receiveRequest =>
    left
    simp only [workerStep]
    split_ifs
    · exact .goto cl cl _ _ (.inr rfl) (by simp [framesOn])
    · exact .goto cl cl _ _ (.inl rfl) (by simp [framesOn])
  | load next =>
    left
    refine .goto cl cl _ _ ?_ (by simp [framesOn])
    split_ifs
    · exact .inr rfl
    · exact .inl rfl
  | session next =>
    by_cases current : srv.captureEpoch = cl.epoch
    · left
      simp only [workerStep, if_pos current]
      exact .goto cl cl _ _ (.inl rfl) (by simp [framesOn])
    · exact .inr ⟨current, by simp only [workerStep, if_neg current]⟩
  | run next => exact .inl (taskStep_streams cfg srv cl works next)
  | cursorNow req => exact .inl (.goto cl _ _ _ (.inl rfl) (by simp [framesOn]))
  | setRunning =>
    left
    refine .goto cl _ _ _ ?_ (by simp [framesOn])
    split_ifs
    · exact .inr rfl
    all_goals exact .inl rfl
  | ringEmpty seq | powerEmpty lastSeq =>
    left
    refine .goto cl cl _ _ ?_ (by simp [framesOn])
    split_ifs
    · exact .inl rfl
    · exact .inr rfl
  | sendChange freq | sendEnd | setDone | exited => cases streaming

end Steps

/-! ### Conversations -/

/-- A check on the connection found the frequency announced last before it. -/
def Checked (fd : Int) (freq : UInt64) (t : List Obs) : Prop :=
  ∃ early late, t = early ++ .stale fd :: late ∧ (notifications early).getLast? = some freq

/-- Every frequency change on the connection carries what a check before it found. -/
def ChangesChecked (fd : Int) : List Obs → Prop :=
  History.Each fun before e => ∀ freq whole, e = .sent fd (.event evtFreqChange freq) whole →
    Checked fd freq before

variable {cl : Client F D}

theorem Checked.later {freq : UInt64} (checked : Checked fd freq t) (observed : List Obs) :
    Checked fd freq (t ++ observed) := by
  obtain ⟨early, late, split, last⟩ := checked
  exact ⟨early, late ++ observed, by simp [split], last⟩

structure Said (t : List Obs) (fd : Int) : Prop where
  conversation : Conversation (framesOn fd t)
  checked : ChangesChecked fd t

/-- What a worker has said, given where it is. -/
structure Talking (t : List Obs) (cl : Client F D) : Prop where
  epoch : cl.epoch = 1
  checked : ChangesChecked cl.fd t
  streaming : ∀ pc, cl.thread = some pc → pc.streaming = true →
    ∀ f ∈ framesOn cl.fd t, f.1.isData = true
  changing : ∀ freq, cl.thread = some (.sendChange freq) →
    (∀ f ∈ framesOn cl.fd t, f.1.isData = true) ∧ Checked cl.fd freq t
  ending : cl.thread = some .sendEnd → ∃ frames freq, (∀ f ∈ frames, f.1.isData = true) ∧
    framesOn cl.fd t = frames ++ [(.event evtFreqChange freq, true)]
  said : Conversation (framesOn cl.fd t)

theorem ChangesChecked.silent (checked : ChangesChecked fd t)
    (silent : ∀ freq whole, .sent fd (.event evtFreqChange freq) whole ∉ observed) :
    ChangesChecked fd (t ++ observed) := by
  apply History.each_append _ _ _ checked
  intro before e after split freq whole same
  exact absurd (by simp [split, same]) (silent freq whole)

/-- Nobody else's step changes what was said. -/
theorem Talking.others (talking : Talking t cl) (silent : ∀ e ∈ observed, e.speaker ≠ some cl.fd)
    (state : ClientState) : Talking (t ++ observed) { cl with state } := by
  have same : framesOn cl.fd (t ++ observed) = framesOn cl.fd t := by
    rw [framesOn_append, framesOn_silent cl.fd observed silent, List.append_nil]
  constructor
  · exact talking.epoch
  · exact talking.checked.silent fun freq whole member => silent _ member rfl
  · intro pc here streaming
    rw [same]
    exact talking.streaming pc here streaming
  · intro freq here
    rw [same]
    obtain ⟨data, checked⟩ := talking.changing freq here
    exact ⟨data, checked.later observed⟩
  · rw [same]
    exact talking.ending
  · rw [same]
    exact talking.said

theorem Talking.stream {cl' : Client F D} {pc : WorkerPc F} (talking : Talking t cl)
    (thread : cl.thread = some pc) (streaming : pc.streaming = true) (fd : cl'.fd = cl.fd)
    (epoch : cl'.epoch = cl.epoch) (next : Streams cl (cl', observed)) :
    Talking (t ++ observed) cl' := by
  obtain ⟨⟨pc', here, after⟩, data⟩ := next
  have all : ∀ f ∈ framesOn cl'.fd (t ++ observed), f.1.isData = true := by
    intro f member
    rw [fd, framesOn_append] at member
    rcases List.mem_append.mp member with old | new
    · exact talking.streaming pc thread streaming f old
    · exact data f new
  have neither (other : WorkerPc F) (now : cl'.thread = some other)
      (off : other.streaming = false) (more : other ≠ .setDone) : False := by
    rw [show cl'.thread = some pc' from here] at now
    cases now
    rcases after with on | done
    · rw [on] at off
      cases off
    · exact more done
  constructor
  · exact epoch.trans talking.epoch
  · rw [fd]
    refine talking.checked.silent fun freq whole member => ?_
    have event : (.event evtFreqChange freq, whole) ∈ framesOn cl.fd observed :=
      List.mem_filterMap.mpr ⟨_, member, by simp⟩
    cases data _ event
  · exact fun _ _ _ => all
  · exact fun freq now => (neither _ now rfl (by simp)).elim
  · exact fun now => (neither _ now rfl (by simp)).elim
  · exact .data _ all

variable [CFloat F] [CDouble D F]

variable (cfg : Config F)

theorem Talking.worker (talking : Talking t cl) (session : Session srv t) (works : Bool)
    (arrived : List UInt8) (pc : WorkerPc F) (thread : cl.thread = some pc) :
    Talking (t ++ (workerStep cfg srv cl works arrived pc).2)
      (workerStep cfg srv cl works arrived pc).1 := by
  have effect := workerStep_effect cfg srv cl works arrived pc thread
  cases streaming : pc.streaming with
  | true =>
    rcases workerStep_streams cfg srv cl works arrived pc streaming with streams | ⟨stale, result⟩
    · exact talking.stream thread streaming effect.fd effect.epoch streams
    · -- the epoch has moved, so there is a last notification
      have some : notifications t ≠ [] := by
        intro none
        apply stale
        rw [talking.epoch]
        apply UInt64.toNat_inj.mp
        rw [session.epoch, none]
        rfl
      have same : framesOn cl.fd (t ++ [Obs.stale cl.fd]) = framesOn cl.fd t := by
        simp [framesOn]
      rw [result]
      constructor
      · exact talking.epoch
      · exact talking.checked.silent (by simp)
      · rintro _ ⟨⟩ off
        cases off
      · rintro freq ⟨⟩
        show (∀ f ∈ framesOn cl.fd (t ++ [Obs.stale cl.fd]), _) ∧ _
        rw [same]
        exact ⟨talking.streaming pc thread streaming, t, [], rfl, session.last some⟩
      · rintro ⟨⟩
      · show Conversation (framesOn cl.fd (t ++ [Obs.stale cl.fd]))
        rw [same]
        exact talking.said
  | false =>
    have told (frame : Frame) (whole : Bool) :
        framesOn cl.fd (t ++ [Obs.sent cl.fd frame whole]) =
          framesOn cl.fd t ++ [(frame, whole)] := by
      simp [framesOn]
    cases pc with
    | sendChange freq =>
      obtain ⟨data, checked⟩ := talking.changing freq thread
      have said := told (.event evtFreqChange freq) works
      constructor
      · exact talking.epoch
      · apply History.each_concat _ _ _ talking.checked
        rintro _ _ ⟨⟩
        exact checked
      · intro next here on
        cases works <;> cases here <;> cases on
      · intro next here
        cases works <;> cases here
      · intro here
        cases works with
        | false => cases here
        | true => exact ⟨_, freq, data, said⟩
      · exact said ▸ .change _ data freq works
    | sendEnd =>
      obtain ⟨frames, freq, data, so_far⟩ := talking.ending thread
      have said := told (.event evtStreamEnd 0) works
      rw [so_far, List.append_assoc] at said
      constructor
      · exact talking.epoch
      · apply History.each_concat _ _ _ talking.checked
        rintro _ _ same
        cases same
      · rintro _ ⟨⟩ on
        cases on
      · rintro _ ⟨⟩
      · rintro ⟨⟩
      · exact said ▸ .ended frames data freq works
    | setDone =>
      simp only [workerStep, List.append_nil]
      constructor
      · exact talking.epoch
      · exact talking.checked
      · rintro _ ⟨⟩ on
        cases on
      · rintro _ ⟨⟩
      · rintro ⟨⟩
      · exact talking.said
    | exited =>
      simp only [workerStep, List.append_nil]
      exact talking
    | _ => cases streaming

/-- The invariants of a session, over any run. -/
structure InSession (srv : Server F D) (t : List Obs) : Prop where
  slots : Lifecycle srv t
  session : Session srv t
  connections : Tracked (fun _ t cl => Talking t cl) Said srv t

theorem inSession_step (inv : InSession srv t) (a : Action) :
    InSession (serverStep cfg srv a).1 (t ++ (serverStep cfg srv a).2) where
  slots := inv.slots.serverStep cfg a
  session := session_step inv.slots cfg a inv.session
  connections := by
    apply tracked_step inv.slots cfg a _ _ _ _ _ _ _ inv.connections
    · intro t e fd other said
      constructor
      · rw [framesOn_append, framesOn_silent fd [e] (by simpa using other), List.append_nil]
        exact said.conversation
      · apply said.checked.silent
        intro freq whole member
        cases List.mem_singleton.mp member
        exact other rfl
    · exact fun _ t cl talking => ⟨talking.said, talking.checked⟩
    · intro _ t cl thread epoch fresh
      have none := framesOn_silent cl.fd t fresh
      constructor
      · exact epoch
      · intro before e after split freq whole same
        exact absurd (by simp [same, Obs.speaker]) (fresh e (by simp [split]))
      · simp [none]
      · simp [thread]
      · simp [thread]
      · rw [none]
        exact .data [] (by simp)
    · intro i works arrived pc thread talking
      exact talking.worker cfg inv.session works arrived pc thread
    · exact fun _ _ cl state _ silent talking => talking.others silent state

theorem inSession_run (ring : Ring) (actions : List Action) :
    InSession (serverRun cfg (.initial cfg ring : Server F D) actions).1
      (serverRun cfg (.initial cfg ring : Server F D) actions).2 := by
  apply Transducer.run_observed (serverStep cfg) InSession
  · exact fun _ _ a inv => inSession_step cfg inv a
  · refine ⟨lifecycle_initial cfg ring, ⟨rfl, fun some => absurd rfl some⟩, ?_, ?_⟩
    · exact fun i alive => absurd rfl alive
    · exact fun fd => ⟨.data [] (by simp), History.each_nil _⟩

/-! ### Frames that are ready -/

/-- The frame a worker is about to send. -/
def Task.frame : Task F → Option Frame
  | .sendIq _ hdr samples => some (.iq hdr samples)
  | .sendFft hdr snapshot => some (.fft hdr (snapshot.map CFloat.toBits))
  | _ => none

/-- A worker on the connection has built the frame and passed the check before sending. -/
def Server.Holding (srv : Server F D) (fd : Int) (frame : Frame) : Prop :=
  ∃ slot task, (srv.clients slot).thread = some (.run task) ∧ task.frame = some frame ∧
    (srv.clients slot).fd = fd

theorem taskStep_leaves_run (srv : Server F D) (cl : Client F D) (works : Bool)
    (next task : Task F) : (taskStep cfg srv cl works next).1.thread ≠ some (.run task) := by
  cases next with
  | setup req =>
    simp only [taskStep, setupStep]
    split_ifs
    · simp [Client.goto]
    · simp [Client.goto]
    · simp [Client.goto]
    · split
      · simp [Client.goto]
      · split_ifs <;> simp [Client.goto]
  | readRing seq =>
    simp only [taskStep, readRingStep]
    split
    · simp [Client.goto]
    · split_ifs <;> simp [Client.goto]
    · simp [Client.goto]
    · simp [Client.goto]
  | sendIq seq hdr samples =>
    simp only [taskStep]
    split <;> cases works <;> simp [Client.goto]
  | readPower lastSeq =>
    simp only [taskStep, readPowerStep]
    split_ifs <;> simp [Client.goto]
  | sendFft hdr snapshot =>
    simp only [taskStep]
    split <;> cases works <;> simp [Client.goto]

theorem workerStep_run (srv : Server F D) (cl : Client F D) (works : Bool) (arrived : List UInt8)
    (pc : WorkerPc F) (thread : cl.thread = some pc) (task : Task F)
    (next : (workerStep cfg srv cl works arrived pc).1.thread = some (.run task)) :
    srv.captureEpoch = cl.epoch := by
  cases pc with
  | receiveRequest =>
    simp only [workerStep] at next
    split_ifs at next <;> cases next
  | load after =>
    simp only [workerStep, Client.goto] at next
    split_ifs at next
    · cases next
    · cases next
  | session after =>
    by_contra stale
    simp only [workerStep, if_neg stale] at next
    cases next
  | run after => exact absurd next (taskStep_leaves_run cfg srv cl works after task)
  | sendChange freq => cases works <;> cases next
  | sendEnd => cases next
  | cursorNow req => cases next
  | setRunning | ringEmpty seq | powerEmpty lastSeq => cases works <;> cases next
  | setDone => cases next
  | exited =>
    simp only [workerStep, thread] at next
    cases next

theorem workerStep_data (srv : Server F D) (cl : Client F D) (works : Bool) (arrived : List UInt8)
    (pc : WorkerPc F) (fd : Int) (frame : Frame) (whole : Bool)
    (sent : .sent fd frame whole ∈ (workerStep cfg srv cl works arrived pc).2)
    (data : frame.isData = true) :
    fd = cl.fd ∧ ∃ task, pc = .run task ∧ task.frame = some frame := by
  cases pc with
  | run task =>
    cases task with
    | setup req => simp [workerStep, taskStep] at sent
    | readRing seq =>
      simp only [workerStep, taskStep, readRingStep] at sent
      split at sent
      · simp at sent
      · split_ifs at sent <;> simp at sent
      · simp at sent
      · simp at sent
    | sendIq seq hdr samples =>
      simp only [workerStep, taskStep] at sent
      split at sent
      · cases List.mem_singleton.mp sent
        exact ⟨rfl, _, rfl, rfl⟩
      · simp at sent
    | readPower lastSeq => simp [workerStep, taskStep] at sent
    | sendFft hdr snapshot =>
      simp only [workerStep, taskStep] at sent
      split at sent
      · cases List.mem_singleton.mp sent
        exact ⟨rfl, _, rfl, rfl⟩
      · simp at sent
  | sendChange freq | sendEnd =>
    cases List.mem_singleton.mp sent
    cases data
  | session next | receiveRequest =>
    simp only [workerStep] at sent
    split_ifs at sent <;> simp at sent
  | _ => simp [workerStep] at sent

/-- After a retune nobody gets past a check any more: what is ready, and what has been
sent since, was ready at the retune. -/
structure OnlyReady (ready : Server F D) (srv : Server F D) (later : List Obs) : Prop where
  held : ∀ i task frame, (srv.clients i).thread = some (.run task) → task.frame = some frame →
    ready.Holding (srv.clients i).fd frame
  sent : ∀ fd frame whole, .sent fd frame whole ∈ later → frame.isData = true →
    ready.Holding fd frame

theorem onlyReady_step {ready : Server F D} {later : List Obs} (inv : InSession srv t)
    (few : (notifications t).length < 2 ^ 64) (retuned : notifications t ≠ [])
    (so_far : OnlyReady ready srv later) (a : Action) :
    OnlyReady ready (serverStep cfg srv a).1 (later ++ (serverStep cfg srv a).2) := by
  have effect := inv.slots.effect cfg a
  generalize serverStep cfg srv a = result at effect ⊢
  obtain ⟨srv', observed⟩ := result
  have quiet (part : ∀ e ∈ observed, e.part ≠ .worker) (fd : Int) (frame : Frame) (whole : Bool)
      (member : .sent fd frame whole ∈ later ++ observed) (data : frame.isData = true) :
      ready.Holding fd frame := by
    rcases List.mem_append.mp member with old | new
    · exact so_far.sent fd frame whole old data
    · exact absurd rfl (part _ new)
  rcases effect.cases_speaker with ⟨clients, part⟩ | run | ⟨slot, works, arrived, pc, thread, rfl, rfl⟩
  · refine ⟨?_, quiet part⟩
    rw [show (srv', observed).1.clients = srv.clients from clients]
    exact so_far.held
  · refine ⟨fun i task frame here ready => ?_, quiet fun e member => run.part_ne member (by decide)⟩
    have kind := run.slots i
    change (srv'.clients i).thread = _ at here
    change Server.Holding _ (srv'.clients i).fd frame
    generalize srv'.clients i = cl at kind here ⊢
    cases kind with
    | kept state => exact so_far.held i task frame here ready
    | vacant _ none =>
      rw [none] at here
      cases here
    | created => cases here
  · have talking := inv.connections.live slot (by simp [thread])
    constructor
    · refine setClient_forall srv slot _ (fun i cl => ∀ task frame, cl.thread = some (.run task) →
        task.frame = some frame → ready.Holding cl.fd frame) (fun i _ => so_far.held i) ?_
      intro task frame here _
      -- passing the check would mean that nothing has been announced
      have current := workerStep_run cfg srv _ works arrived pc thread task here
      exact absurd (inv.session.current few (current.trans talking.epoch)) retuned
    · intro fd frame whole member data
      rcases List.mem_append.mp member with old | new
      · exact so_far.sent fd frame whole old data
      · obtain ⟨rfl, task, rfl, same⟩ :=
          workerStep_data cfg srv _ works arrived pc fd frame whole new data
        exact so_far.held slot task frame thread same

theorem onlyReady_run (ready srv : Server F D) (t : List Obs) (inv : InSession srv t)
    (retuned : notifications t ≠ []) (start : OnlyReady ready srv []) (actions : List Action)
    (few : (notifications (t ++ (serverRun cfg srv actions).2)).length < 2 ^ 64) :
    OnlyReady ready (serverRun cfg srv actions).1 (serverRun cfg srv actions).2 := by
  -- the bound is carried backwards: fewer observations announce less
  have general := Transducer.run_observed (serverStep cfg) (fun now later => InSession now (t ++ later) ∧
    ((notifications (t ++ later)).length < 2 ^ 64 → OnlyReady ready now later)) ?_ srv
    ⟨by rw [List.append_nil]; exact inv, fun _ => start⟩ actions
  · exact general.2 few
  · rintro now later a ⟨inv, so_far⟩
    rw [← List.append_assoc]
    refine ⟨inSession_step cfg inv a, fun few => ?_⟩
    have fewer : (notifications (t ++ later)).length < 2 ^ 64 := by
      rw [notifications_append, List.length_append] at few
      omega
    refine onlyReady_step cfg inv fewer ?_ (so_far fewer) a
    simp [retuned]

/-- Retune safety over every interleaving with fewer than 2^64 notifications. -/
theorem retune_safety (cfg : Config F) (ring : Ring) (actions : List Action)
    (few : (notifications (serverRun cfg (.initial cfg ring : Server F D) actions).2).length <
      2 ^ 64) :
    let start : Server F D := .initial cfg ring
    let history := (serverRun cfg start actions).2
    -- what is sent after a notification was complete and past its last check before it, so
    -- it depends on nothing published since; a client created since receives no data
    (∀ before freq after, actions = before ++ .notify freq :: after →
      let ready := (serverRun cfg start before).1
      let later := (serverRun cfg (serverStep cfg ready (.notify freq)).1 after).2
      (∀ fd frame whole, .sent fd frame whole ∈ later → frame.isData = true →
        ready.Holding fd frame) ∧
      ∀ slot fd generation, .created slot fd generation ∈ later →
        ∀ frame whole, .sent fd frame whole ∈ history → frame.isData = false) ∧
    -- on each connection: data, at most one change, at most one end, in this order
    ∀ fd, Conversation (framesOn fd history) ∧
      -- and the change carries the notification that was the latest at the failed check
      ∀ before freq whole after,
        history = before ++ .sent fd (.event evtFreqChange freq) whole :: after →
          ∃ early late, before = early ++ .stale fd :: late ∧
            (notifications early).getLast? = some freq := by
  intro start history
  have whole_run := inSession_run (D := D) cfg ring actions
  refine ⟨?_, fun fd => ?_⟩
  · intro before freq after split ready later
    have inv : InSession ready (serverRun cfg start before).2 := inSession_run cfg ring before
    set past := (serverRun cfg start before).2 with past_eq
    have notified :
        InSession (serverStep cfg ready (.notify freq)).1 (past ++ [Obs.notified freq]) :=
      inSession_step cfg inv (.notify freq)
    have parts : history = past ++ [Obs.notified freq] ++ later := by
      simp only [history, split, serverRun, Transducer.run_append, Transducer.run_cons]
      rw [List.append_assoc]
      rfl
    have only : OnlyReady ready (serverRun cfg (serverStep cfg ready (.notify freq)).1 after).1
        later := by
      refine onlyReady_run cfg ready _ _ notified (by simp [notifications]) ⟨?_, by simp⟩ after ?_
      · exact fun i task frame here same => ⟨i, task, here, same, rfl⟩
      · show (notifications (past ++ [Obs.notified freq] ++ later)).length < 2 ^ 64
        rw [← parts]
        exact few
    refine ⟨only.sent, fun slot fd generation created frame whole sent => ?_⟩
    by_contra data
    -- the connection had a worker before the notification, and gets no second one
    obtain ⟨other, generation', earlier⟩ : ∃ other generation', .created other fd generation' ∈ past := by
      have old (member : .sent fd frame whole ∈ past) := inv.slots.speakers _ member fd rfl
      rw [parts] at sent
      rcases List.mem_append.mp sent with first | second
      · exact old (by simpa using first)
      · obtain ⟨i, task, here, _, rfl⟩ := only.sent fd frame whole second (by simpa using data)
        have used : (ready.clients i).state ≠ .free := by
          intro free
          rw [(inv.slots.free i free).2] at here
          cases here
        exact ⟨i, _, (inv.slots.used i used).1⟩
    obtain ⟨between, rest, cut⟩ := List.append_of_mem created
    have law : Lawful (past ++ [Obs.notified freq] ++ between) (.created slot fd generation) :=
      whole_run.slots.lawful _ _ rest (by
        show history = _
        rw [parts, cut]
        simp)
    exact law.2.2.2 other generation' (by simp [earlier])
  · have said := whole_run.connections.past fd
    exact ⟨said.conversation, fun before freq whole after split =>
      said.checked before _ after split freq whole rfl⟩

/-- A client with a frame ready when the retune comes: the run loop accepts it, it asks
for the raw stream, one block is published, and it goes on to the end of the stream. -/
def readyFrameRun : List Action :=
  List.replicate 41 (Action.run .ok) ++
  List.replicate 6
    (Action.worker ⟨0, maxClients_pos⟩ true
      (reqBytes ⟨magicReq, 100000000, 2400000, 2400000, modeIq⟩)) ++
  [Action.publish 0 [1, 2, 3, 4], Action.publishNext 0] ++
  List.replicate 5 (Action.worker ⟨0, maxClients_pos⟩ true []) ++
  [Action.notify 7] ++ List.replicate 6 (Action.worker ⟨0, maxClients_pos⟩ true [])

theorem retune_safety_ready_frame :
    ∃ ring, ringCreate 2 4 (some fun _ => 0) = some ring ∧
      let history := (serverRun ⟨100000000, 2400000, none⟩
        (.initial ⟨100000000, 2400000, none⟩ ring : Server Float32 Float) readyFrameRun).2
      (framesOn 0 history).map (fun f => (f.1.isData, f.2)) =
        [(true, true), (false, true), (false, true)] ∧
      Conversation (framesOn 0 history) := by
  refine ⟨_, rfl, by decide +kernel, ?_⟩
  exact ((retune_safety ⟨100000000, 2400000, none⟩ _ readyFrameRun (by decide +kernel)).2 0).1

end RtlSdr
