import RtlSdr.Server.Step
import RtlSdr.Lib.History

/-!
# What one step can do

Every invariant of the server is about a few fields and a few kinds of observation. The
lemmas here say once, for each part of the state, what the steps of the other threads
leave alone.
-/
namespace RtlSdr

variable {F D : Type}

/-- The connection whose worker makes an observation. -/
def Obs.speaker : Obs → Option Int
  | .cursorTaken fd _ => some fd
  | .stale fd => some fd
  | .sent fd _ _ => some fd
  | .failed fd _ => some fd
  | _ => none

/-- The parts of the server that observations are about. -/
inductive Part
  | slots
  | session
  | ring
  | worker
  | spectra
deriving DecidableEq, Repr

def Obs.part : Obs → Part
  | .notified _ => .session
  | .wrote _ _ => .ring
  | .gapMarked => .ring
  | .cursorTaken _ _ => .worker
  | .stale _ => .worker
  | .sent _ _ _ => .worker
  | .failed _ _ => .worker
  | .spectrum _ _ _ => .spectra
  | .accepted _ => .slots
  | .created _ _ _ => .slots
  | .joined _ _ => .slots
  | .closed _ => .slots
  | .shutdown _ => .slots
  | .stopReleased => .slots
  | .fftCursorTaken => .spectra

/-! ### Workers -/

/-- What a worker's step leaves alone in its slot, and whom it speaks for. -/
structure WorkerEffect (cl cl' : Client F D) (observed : List Obs) : Prop where
  fd : cl'.fd = cl.fd
  epoch : cl'.epoch = cl.epoch
  generation : cl'.fftGeneration = cl.fftGeneration
  mode : cl'.mode = cl.mode
  thread : cl'.thread ≠ none
  state : cl'.state = cl.state ∨ cl'.state = .running ∨ cl'.state = .done
  speaks : ∀ e ∈ observed, e.speaker = some cl.fd

theorem part_of_speaker (e : Obs) (fd : Int) (speaks : e.speaker = some fd) : e.part = .worker := by
  cases e with
  | cursorTaken => rfl
  | stale => rfl
  | sent => rfl
  | failed => rfl
  | _ => cases speaks

/-- Going on from a slot in which at most the request's fields, the cursor and the filter
have changed. -/
theorem WorkerEffect.goto (cl cl' : Client F D) (pc : WorkerPc F) (observed : List Obs)
    (fd : cl'.fd = cl.fd) (epoch : cl'.epoch = cl.epoch)
    (generation : cl'.fftGeneration = cl.fftGeneration) (mode : cl'.mode = cl.mode)
    (state : cl'.state = cl.state ∨ cl'.state = .running ∨ cl'.state = .done)
    (speaks : ∀ e ∈ observed, e.speaker = some cl.fd) : WorkerEffect cl (cl'.goto pc) observed :=
  ⟨fd, epoch, generation, mode, Option.some_ne_none pc, state, speaks⟩

theorem WorkerEffect.silent (cl : Client F D) (pc : WorkerPc F) : WorkerEffect cl (cl.goto pc) [] :=
  .goto cl cl pc [] rfl rfl rfl rfl (.inl rfl) (by simp)

theorem readPowerStep_effect (cfg : Config F) (fft : FftShared F) (cl : Client F D)
    (lastSeq : UInt64) : WorkerEffect cl (readPowerStep cfg fft cl lastSeq) [] := by
  unfold readPowerStep
  split_ifs
  all_goals exact .silent cl _

section Steps

variable [CFloat F] [CDouble D F]

theorem setupStep_effect (cfg : Config F) (cl : Client F D) (req : StreamReq) (works : Bool) :
    WorkerEffect cl (setupStep cfg cl req works) [] := by
  unfold setupStep
  split_ifs
  · exact .silent cl _
  · exact .silent cl _
  · exact .silent cl _
  · simp only
    split
    · exact .silent cl _
    · split_ifs
      · exact .goto cl _ _ [] rfl rfl rfl rfl (.inl rfl) (by simp)
      · exact .goto cl _ _ [] rfl rfl rfl rfl (.inl rfl) (by simp)

theorem readRingStep_effect (ring : Ring) (cl : Client F D) (seq : UInt64) :
    WorkerEffect cl (readRingStep ring cl seq).1 (readRingStep ring cl seq).2 := by
  simp only [readRingStep]
  split
  · exact .goto cl _ _ [] rfl rfl rfl rfl (.inl rfl) (by simp)
  · split_ifs
    all_goals exact .goto cl _ _ _ rfl rfl rfl rfl (.inl rfl) (by simp [Obs.speaker])
  · exact .goto cl _ _ _ rfl rfl rfl rfl (.inl rfl) (by simp [Obs.speaker])
  · exact .goto cl _ _ [] rfl rfl rfl rfl (.inl rfl) (by simp)

theorem taskStep_effect (cfg : Config F) (srv : Server F D) (cl : Client F D) (works : Bool)
    (next : Task F) :
    WorkerEffect cl (taskStep cfg srv cl works next).1 (taskStep cfg srv cl works next).2 := by
  cases next with
  | setup req => exact setupStep_effect cfg cl req works
  | readRing seq => exact readRingStep_effect srv.ring cl seq
  | sendIq seq hdr samples =>
    simp only [taskStep]
    split
    all_goals exact .goto cl cl _ _ rfl rfl rfl rfl (.inl rfl) (by simp [Obs.speaker])
  | readPower lastSeq => exact readPowerStep_effect cfg srv.fft cl lastSeq
  | sendFft hdr snapshot =>
    simp only [taskStep]
    split
    all_goals exact .goto cl cl _ _ rfl rfl rfl rfl (.inl rfl) (by simp [Obs.speaker])

theorem workerStep_effect (cfg : Config F) (srv : Server F D) (cl : Client F D) (works : Bool)
    (arrived : List UInt8) (pc : WorkerPc F) (thread : cl.thread = some pc) :
    WorkerEffect cl (workerStep cfg srv cl works arrived pc).1
      (workerStep cfg srv cl works arrived pc).2 := by
  cases pc with
  | receiveRequest =>
    simp only [workerStep]
    split_ifs
    all_goals exact .silent cl _
  | load next => exact .silent cl _
  | session next =>
    simp only [workerStep]
    split_ifs
    · exact .silent cl _
    · exact .goto cl cl _ _ rfl rfl rfl rfl (.inl rfl) (List.forall_mem_singleton.mpr rfl)
  | run next => exact taskStep_effect cfg srv cl works next
  | sendChange freq | sendEnd =>
    exact .goto cl cl _ _ rfl rfl rfl rfl (.inl rfl) (List.forall_mem_singleton.mpr rfl)
  | cursorNow req => exact .goto cl _ _ _ rfl rfl rfl rfl (.inl rfl) (List.forall_mem_singleton.mpr rfl)
  | setRunning => exact .goto cl _ _ _ rfl rfl rfl rfl (.inr (.inl rfl)) (List.forall_mem_nil _)
  | ringEmpty seq => exact .silent cl _
  | powerEmpty lastSeq => exact .silent cl _
  | setDone => exact .goto cl _ _ _ rfl rfl rfl rfl (.inr (.inr rfl)) (List.forall_mem_nil _)
  | exited =>
    exact ⟨rfl, rfl, rfl, rfl, by simp [workerStep, thread], .inl rfl, by simp [workerStep]⟩

end Steps

/-! ### Calls to `shutdown` -/

theorem mem_shutdowns (srv : Server F D) (which : Client F D → Bool) (e : Obs) :
    e ∈ srv.shutdowns which ↔ ∃ i, which (srv.clients i) = true ∧ e = .shutdown (srv.clients i).fd := by
  simp only [Server.shutdowns, List.mem_filterMap, List.mem_finRange, true_and]
  constructor
  · rintro ⟨i, chosen⟩
    split_ifs at chosen with here
    exact ⟨i, here, (Option.some.inj chosen).symm⟩
  · rintro ⟨i, here, rfl⟩
    exact ⟨i, by rw [if_pos here]⟩

/-- What the loops over the slots observe: calls to `shutdown` on slots in use, and the
release of the lock. -/
def Server.Announces (srv : Server F D) (e : Obs) : Prop :=
  (∃ i, (srv.clients i).active = true ∧ e = .shutdown (srv.clients i).fd) ∨ e = .stopReleased

theorem shutdowns_announced (srv : Server F D) (which : Client F D → Bool)
    (active : ∀ cl, which cl = true → cl.active = true) :
    ∀ e ∈ srv.shutdowns which, srv.Announces e ∧ e ≠ .stopReleased := by
  intro e member
  obtain ⟨i, here, rfl⟩ := (mem_shutdowns srv which e).mp member
  exact ⟨.inl ⟨i, active _ here, rfl⟩, by simp⟩

theorem stopSection_announced (srv : Server F D) : ∀ e ∈ srv.stopSection, srv.Announces e := by
  intro e member
  rcases List.mem_append.mp member with call | release
  · exact (shutdowns_announced srv _ (fun _ active => active) e call).1
  · exact .inr (List.mem_singleton.mp release)

/-! ### Which fields a thread writes -/

section Threads

variable [CFloat F]

theorem fftStep_effect (plan : FftPlan F) (srv : Server F D) :
    ∃ stopping fft fftLocal fftThread,
      (fftStep plan srv).1 = { srv with stopping, fft, fftLocal, fftThread } ∧
      (srv.stopping = true → stopping = true) ∧
      (fftThread = .stopLock → stopping = true ∨ srv.fftThread = .stopLock) ∧
      ∀ e ∈ (fftStep plan srv).2,
        (srv.locked = false ∧ srv.Announces e ∧
          (e = .stopReleased → srv.fftThread = .stopLock)) ∨ e.part = .spectra := by
  unfold fftStep
  split
  · refine ⟨_, _, _, _, rfl, id, ?_, by simp⟩
    intro next
    split_ifs at next
  · refine ⟨_, _, _, _, rfl, id, ?_, by simp⟩
    intro next
    split_ifs at next
  · refine ⟨_, _, _, _, rfl, id, ?_, by simp⟩
    intro next
    split at next
    any_goals cases next
    split_ifs at next
  · exact ⟨_, _, _, _, rfl, id, by simp, by simp⟩
  · simp only
    split
    · exact ⟨_, _, _, _, rfl, id, by simp, by simp⟩
    · exact ⟨_, _, _, _, rfl, id, by simp, by simp⟩
    · exact ⟨_, _, _, _, rfl, id, by simp, by simp [Obs.part]⟩
  · exact ⟨_, _, _, _, rfl, id, by simp, by simp⟩
  next generation _ =>
    split_ifs with locked
    · exact ⟨_, _, _, _, rfl, id, .inr, by simp⟩
    · refine ⟨_, _, _, _, rfl, id, by simp, ?_⟩
      intro e member
      obtain ⟨announced, other⟩ := shutdowns_announced srv
        (fun cl => cl.active && cl.mode == modeFft && cl.fftGeneration != generation) (by
          intro cl chosen
          simp only [Bool.and_eq_true] at chosen
          exact chosen.1.1) e member
      exact .inl ⟨by simpa using locked, announced, fun same => absurd same other⟩
  · exact ⟨_, _, _, _, rfl, id, by simp, by simp [Obs.part]⟩
  · exact ⟨_, _, _, _, rfl, fun _ => rfl, by simp, by simp⟩
  next here =>
    split_ifs with locked
    · exact ⟨_, _, _, _, rfl, id, .inr, by simp⟩
    · refine ⟨_, _, _, _, rfl, id, by simp, ?_⟩
      intro e member
      exact .inl ⟨by simpa using locked, stopSection_announced srv e member, fun _ => here⟩
  · exact ⟨_, _, _, _, rfl, id, .inr, by simp⟩
  · exact ⟨_, _, _, _, rfl, id, .inr, by simp⟩

end Threads

theorem announced_part (srv : Server F D) (e : Obs) (announced : srv.Announces e) :
    e.part = .slots := by
  rcases announced with ⟨_, _, rfl⟩ | rfl <;> rfl

end RtlSdr
