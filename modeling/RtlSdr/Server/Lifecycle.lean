import RtlSdr.Lib.Counting
import RtlSdr.Server.Effects

/-!
# The life of a client slot

The acceptor, the worker, the reaper and whoever shuts a descriptor down write a slot. The invariant
ties what the run loop is doing to the slots and to the history of the descriptors; of the value of
`state` it says only free or not, since a worker may overwrite `RTL_CLIENT_JOINING`.
-/
namespace RtlSdr

variable {F D : Type}

/-- The descriptor `accept_client` holds outside every slot. -/
def RunPc.holds : RunPc → Option Int
  | .nonblocking _ fd => some fd
  | .session _ fd => some fd
  | .place _ fd => some fd
  | .create _ fd _ => some fd
  | _ => none

/-- The slots that are free because of where the run loop is: all of them before the first
client and after the last, those the final reaping has passed, and the one
`accept_client` has found. -/
def RunPc.Vacant : RunPc → Fin maxClients → Prop
  | .reap .scan _, _ => False
  | .reap .final k, i => i < k
  | .join .scan _, _ => False
  | .join .final slot, i => i < slot
  | .close .scan _, _ => False
  | .close .final slot, i => i < slot
  | .create _ _ slot, i => i = slot
  | .loop, _ => False
  | .listen _, _ => False
  | .nonblocking _ _, _ => False
  | .session _ _, _ => False
  | .place _ _, _ => False
  | .stop, _ => False
  | .stopLock, _ => False
  | _, _ => True

/-- A thread that has stored `stopping` and not yet taken `client_lock`. -/
def Server.Halting (srv : Server F D) : Prop :=
  0 < srv.stops ∨ srv.run = .stopLock ∨ srv.run = .shutdownLock ∨ srv.fftThread = .stopLock

/-- What the history before an observation must contain, or must not. -/
def Lawful (before : List Obs) : Obs → Prop
  | .closed fd => .accepted fd ∈ before ∧ .closed fd ∉ before ∧
      ∀ slot generation, .created slot fd generation ∈ before → .joined slot fd ∈ before
  | .shutdown fd => .closed fd ∉ before
  | .created slot fd _ => .closed fd ∉ before ∧ .stopReleased ∉ before ∧
      (∀ old generation, .created slot old generation ∈ before → .joined slot old ∈ before) ∧
      ∀ other generation, .created other fd generation ∉ before
  | _ => True

structure Lifecycle (srv : Server F D) (t : List Obs) : Prop where
  counted : srv.clientCount = srv.occupied
  vacant : ∀ i, srv.run.Vacant i → (srv.clients i).state = .free
  free : ∀ i, (srv.clients i).state = .free →
    (srv.clients i).fd = -1 ∧ (srv.clients i).thread = none
  used : ∀ i, (srv.clients i).state ≠ .free →
    .created i (srv.clients i).fd (srv.clients i).fftGeneration ∈ t ∧
    .accepted (srv.clients i).fd ∈ t ∧ .closed (srv.clients i).fd ∉ t
  threadless : ∀ i, (srv.clients i).state ≠ .free → (srv.clients i).thread = none →
    ∃ call, srv.run = .close call i
  marked : ∀ i, (srv.clients i).state = .joining →
    ∃ call, srv.run = .join call i ∨ srv.run = .close call i
  joining : ∀ call i, srv.run = .join call i → (srv.clients i).thread ≠ none
  closing : ∀ call i, srv.run = .close call i →
    (srv.clients i).state ≠ .free ∧ (srv.clients i).thread = none
  distinct : ∀ i j, (srv.clients i).state ≠ .free → (srv.clients j).fd = (srv.clients i).fd → i = j
  held : ∀ fd, srv.run.holds = some fd →
    .accepted fd ∈ t ∧ .closed fd ∉ t ∧ (∀ i, (srv.clients i).fd ≠ fd) ∧
    ∀ slot generation, .created slot fd generation ∉ t
  numbered : ∀ fd : Int, (.accepted fd ∈ t → 0 ≤ fd ∧ fd < srv.nextFd) ∧
    (.closed fd ∈ t → .accepted fd ∈ t) ∧
    ∀ slot generation, .created slot fd generation ∈ t → .accepted fd ∈ t
  kept : ∀ fd, .accepted fd ∈ t →
    .closed fd ∈ t ∨ srv.run.holds = some fd ∨ ∃ i, (srv.clients i).fd = fd
  workers : ∀ slot fd generation, .created slot fd generation ∈ t →
    .joined slot fd ∈ t ∨ ((srv.clients slot).fd = fd ∧ (srv.clients slot).thread ≠ none)
  speakers : ∀ e ∈ t, ∀ fd, e.speaker = some fd →
    ∃ slot generation, .created slot fd generation ∈ t
  halting : srv.Halting → srv.stopping = true
  stopped : .stopReleased ∈ t → srv.stopping = true ∧ srv.locked = false
  lawful : History.Each Lawful t

/-! ### Steps that open and close nothing -/

@[simp] theorem setClient_self (srv : Server F D) (slot : Fin maxClients) (cl : Client F D) :
    (srv.setClient slot cl).clients slot = cl := by
  simp [Server.setClient]

theorem setClient_other (srv : Server F D) (slot i : Fin maxClients) (cl : Client F D)
    (other : i ≠ slot) : (srv.setClient slot cl).clients i = srv.clients i := by
  simp [Server.setClient, other]

@[simp] theorem setClient_nextFd (srv : Server F D) (slot : Fin maxClients) (cl : Client F D) :
    (srv.setClient slot cl).nextFd = srv.nextFd := rfl

/-- What holds of the new slot and of every other one. -/
theorem setClient_forall (srv : Server F D) (slot : Fin maxClients) (cl : Client F D)
    (P : Fin maxClients → Client F D → Prop) (others : ∀ i, i ≠ slot → P i (srv.clients i))
    (here : P slot cl) (i : Fin maxClients) : P i ((srv.setClient slot cl).clients i) := by
  by_cases same : i = slot
  · subst same
    rw [setClient_self]
    exact here
  · rw [setClient_other srv slot i cl same]
    exact others i same

theorem occupied_congr (srv srv' : Server F D)
    (free : ∀ i, (srv'.clients i).state = .free ↔ (srv.clients i).state = .free) :
    srv'.occupied = srv.occupied := by
  simp only [Server.occupied, ne_eq, free]

theorem occupied_fill (srv : Server F D) (slot : Fin maxClients) (cl : Client F D)
    (was : (srv.clients slot).state = .free) (now : cl.state ≠ .free) :
    (srv.setClient slot cl).occupied = srv.occupied + 1 :=
  Counting.card_update_gain (fun cl : Client F D => cl.state ≠ .free) Finset.univ srv.clients slot
    cl (Finset.mem_univ slot) (not_not_intro was) now

theorem occupied_clear (srv : Server F D) (slot : Fin maxClients) (cl : Client F D)
    (was : (srv.clients slot).state ≠ .free) (now : cl.state = .free) :
    srv.occupied = (srv.setClient slot cl).occupied + 1 :=
  Counting.card_update_loss (fun cl : Client F D => cl.state ≠ .free) Finset.univ srv.clients slot
    cl (Finset.mem_univ slot) was (not_not_intro now)

/-- An observation that opens and closes nothing. -/
def Server.Harmless (srv : Server F D) (e : Obs) : Prop :=
  srv.Announces e ∨ (∃ slot fd, e = .joined slot fd) ∨ e.part ≠ .slots ∧
    ∀ fd, e.speaker = some fd → ∃ i, (srv.clients i).fd = fd ∧ (srv.clients i).state ≠ .free

/-- The observations that open and close. -/
def Obs.registers : Obs → Bool
  | .accepted _ => true
  | .created _ _ _ => true
  | .closed _ => true
  | _ => false

theorem mem_append_harmless (srv : Server F D) (t observed : List Obs)
    (harmless : ∀ e ∈ observed, srv.Harmless e) (x : Obs) (registers : x.registers = true) :
    x ∈ t ++ observed ↔ x ∈ t := by
  rw [List.mem_append]
  constructor
  · rintro (old | new)
    · exact old
    · exfalso
      rcases harmless x new with (⟨_, _, rfl⟩ | rfl) | ⟨_, _, rfl⟩ | ⟨part, _⟩
      · cases registers
      · cases registers
      · cases registers
      · cases x with
        | accepted | created | closed => exact part rfl
        | _ => cases registers
  · exact .inl

variable {t observed : List Obs} {srv srv' : Server F D}

theorem Lifecycle.lawful_append (inv : Lifecycle srv t)
    (harmless : ∀ e ∈ observed, srv.Harmless e) : History.Each Lawful (t ++ observed) := by
  apply History.each_append _ _ _ inv.lawful
  intro before e after split
  have old := mem_append_harmless srv t before (by simp_all)
  rcases harmless e (by simp [split]) with (⟨i, active, rfl⟩ | rfl) | ⟨_, _, rfl⟩ | ⟨part, _⟩
  · -- a slot in use has an open descriptor
    have used : (srv.clients i).state ≠ .free := by
      intro free
      simp [Client.active, free] at active
    show _ ∉ _
    rw [old _ rfl]
    exact (inv.used i used).2.2
  · trivial
  · trivial
  · cases e with
    | created | closed | shutdown => exact absurd rfl part
    | _ => trivial

/-- A step that opens and closes nothing. What it does to the reaper's marks and to the
threads is left to the caller. -/
theorem Lifecycle.keep (inv : Lifecycle srv t)
    (fd : ∀ i, (srv'.clients i).fd = (srv.clients i).fd)
    (generation : ∀ i, (srv'.clients i).fftGeneration = (srv.clients i).fftGeneration)
    (free : ∀ i, (srv'.clients i).state = .free ↔ (srv.clients i).state = .free)
    (nextFd : srv'.nextFd = srv.nextFd) (clientCount : srv'.clientCount = srv.clientCount)
    (holds : srv'.run.holds = srv.run.holds)
    (vacant : ∀ i, srv'.run.Vacant i → (srv.clients i).state = .free)
    (idle : ∀ i, (srv.clients i).state = .free → (srv.clients i).thread = none →
      (srv'.clients i).thread = none)
    (threadless : ∀ i, (srv'.clients i).state ≠ .free → (srv'.clients i).thread = none →
      ∃ call, srv'.run = .close call i)
    (marked : ∀ i, (srv'.clients i).state = .joining →
      ∃ call, srv'.run = .join call i ∨ srv'.run = .close call i)
    (joining : ∀ call i, srv'.run = .join call i → (srv'.clients i).thread ≠ none)
    (closing : ∀ call i, srv'.run = .close call i →
      (srv'.clients i).state ≠ .free ∧ (srv'.clients i).thread = none)
    (workers : ∀ slot, (srv.clients slot).thread ≠ none →
      .joined slot (srv.clients slot).fd ∈ observed ∨ (srv'.clients slot).thread ≠ none)
    (halting : srv'.Halting → srv'.stopping = true)
    (stopped : Obs.stopReleased ∈ t ++ observed → srv'.stopping = true ∧ srv'.locked = false)
    (harmless : ∀ e ∈ observed, srv.Harmless e) : Lifecycle srv' (t ++ observed) := by
  have old := mem_append_harmless srv t observed harmless
  have accepted (fd : Int) := old (.accepted fd) rfl
  have closed (fd : Int) := old (.closed fd) rfl
  have created (slot : Fin maxClients) (fd : Int) (generation : UInt64) :=
    old (.created slot fd generation) rfl
  constructor
  case counted => rw [clientCount, inv.counted, occupied_congr srv srv' free]
  case vacant =>
    intro i here
    exact (free i).mpr (vacant i here)
  case free =>
    intro i here
    obtain ⟨none, gone⟩ := inv.free i ((free i).mp here)
    exact ⟨(fd i).trans none, idle i ((free i).mp here) gone⟩
  case used =>
    intro i here
    rw [fd, generation, created, accepted, closed]
    exact inv.used i (mt (free i).mpr here)
  case threadless => exact threadless
  case marked => exact marked
  case joining => exact joining
  case closing => exact closing
  case distinct =>
    intro i j used
    rw [fd, fd]
    exact inv.distinct i j (mt (free i).mpr used)
  case held =>
    intro fd' here
    simp only [accepted, closed, created, fd]
    exact inv.held fd' (holds ▸ here)
  case numbered =>
    intro fd
    simp only [accepted, closed, created, nextFd]
    exact inv.numbered fd
  case kept =>
    intro fd'
    simp only [accepted, closed, holds, fd]
    exact inv.kept fd'
  case workers =>
    intro slot fd' generation before
    rw [fd, List.mem_append]
    rcases inv.workers slot fd' generation ((created _ _ _).mp before) with done | ⟨rfl, alive⟩
    · exact .inl (.inl done)
    · exact (workers slot alive).imp .inr fun still => ⟨rfl, still⟩
  case speakers =>
    intro e member fd speaks
    simp only [created]
    rcases List.mem_append.mp member with before | now
    · exact inv.speakers e before fd speaks
    · rcases harmless e now with (⟨_, _, rfl⟩ | rfl) | ⟨_, _, rfl⟩ | ⟨_, owner⟩
      · cases speaks
      · cases speaks
      · cases speaks
      · obtain ⟨i, rfl, used⟩ := owner fd speaks
        exact ⟨i, _, (inv.used i used).1⟩
  case halting => exact halting
  case stopped => exact stopped
  case lawful => exact inv.lawful_append harmless

/-! ### Threads other than the run loop -/

/-- What the parties other than the acceptor and the reaper leave alone in a slot. -/
structure SlotKept (cl cl' : Client F D) : Prop where
  fd : cl'.fd = cl.fd
  generation : cl'.fftGeneration = cl.fftGeneration
  thread : cl'.thread = none ↔ cl.thread = none
  free : cl'.state = .free ↔ cl.state = .free
  joining : cl'.state = .joining → cl.state = .joining

theorem SlotKept.refl (cl : Client F D) : SlotKept cl cl := ⟨rfl, rfl, Iff.rfl, Iff.rfl, id⟩

theorem setClient_kept (srv : Server F D) (slot : Fin maxClients) (cl : Client F D)
    (kept : SlotKept (srv.clients slot) cl) (i : Fin maxClients) :
    SlotKept (srv.clients i) ((srv.setClient slot cl).clients i) :=
  setClient_forall srv slot cl (fun i => SlotKept (srv.clients i)) (fun _ _ => .refl _) kept i

/-- A step that keeps every slot, while the run loop stays out of the reaper's joins. -/
theorem Lifecycle.quiet (inv : Lifecycle srv t)
    (slots : ∀ i, SlotKept (srv.clients i) (srv'.clients i)) (nextFd : srv'.nextFd = srv.nextFd)
    (clientCount : srv'.clientCount = srv.clientCount) (holds : srv'.run.holds = srv.run.holds)
    (joins : ∀ call i, srv'.run = .join call i ↔ srv.run = .join call i)
    (closes : ∀ call i, srv'.run = .close call i ↔ srv.run = .close call i)
    (vacant : ∀ i, srv'.run.Vacant i → (srv.clients i).state = .free)
    (halting : srv'.Halting → srv'.stopping = true)
    (stopped : Obs.stopReleased ∈ t ++ observed → srv'.stopping = true ∧ srv'.locked = false)
    (harmless : ∀ e ∈ observed, srv.Harmless e) : Lifecycle srv' (t ++ observed) := by
  apply inv.keep (fun i => (slots i).fd) (fun i => (slots i).generation)
    (fun i => (slots i).free) nextFd clientCount holds vacant
  case idle =>
    intro i _ gone
    exact (slots i).thread.mpr gone
  case threadless =>
    intro i used gone
    obtain ⟨call, here⟩ :=
      inv.threadless i (mt (slots i).free.mpr used) ((slots i).thread.mp gone)
    exact ⟨call, (closes call i).mpr here⟩
  case marked =>
    intro i mark
    obtain ⟨call, here⟩ := inv.marked i ((slots i).joining mark)
    exact ⟨call, here.imp (joins call i).mpr (closes call i).mpr⟩
  case joining =>
    intro call i here
    exact mt (slots i).thread.mp (inv.joining call i ((joins call i).mp here))
  case closing =>
    intro call i here
    obtain ⟨used, gone⟩ := inv.closing call i ((closes call i).mp here)
    exact ⟨mt (slots i).free.mp used, (slots i).thread.mpr gone⟩
  case workers =>
    intro slot alive
    exact .inr (mt (slots slot).thread.mp alive)
  case halting => exact halting
  case stopped => exact stopped
  case harmless => exact harmless

/-- A step of a thread that writes neither the slots nor the run loop's fields. -/
theorem Lifecycle.aside (inv : Lifecycle srv t) (clients : srv'.clients = srv.clients)
    (run : srv'.run = srv.run) (nextFd : srv'.nextFd = srv.nextFd)
    (clientCount : srv'.clientCount = srv.clientCount)
    (mono : srv.stopping = true → srv'.stopping = true)
    (halting : srv'.Halting → srv'.stopping = true)
    (released : .stopReleased ∈ observed → srv.stopping = true ∧ srv.locked = false)
    (harmless : ∀ e ∈ observed, srv.Harmless e) : Lifecycle srv' (t ++ observed) := by
  have locked : srv'.locked = srv.locked := by rw [Server.locked, run, Server.locked]
  apply inv.quiet _ nextFd clientCount _ _ _ _ halting _ harmless
  · intro i
    rw [clients]
    exact .refl _
  · rw [run]
  · intro call i
    rw [run]
  · intro call i
    rw [run]
  · rw [run]
    exact inv.vacant
  · intro member
    rw [locked]
    rcases List.mem_append.mp member with before | now
    · exact ⟨mono (inv.stopped before).1, (inv.stopped before).2⟩
    · exact ⟨mono (released now).1, (released now).2⟩

theorem Lifecycle.stopSection (inv : Lifecycle srv t) (clients : srv'.clients = srv.clients)
    (run : srv'.run = srv.run) (nextFd : srv'.nextFd = srv.nextFd)
    (clientCount : srv'.clientCount = srv.clientCount) (stopping : srv'.stopping = srv.stopping)
    (fewer : srv'.Halting → srv.Halting) (halting : srv.Halting) (locked : srv.locked = false) :
    Lifecycle srv' (t ++ srv.stopSection) := by
  apply inv.aside clients run nextFd clientCount
  · rw [stopping]
    exact id
  · rw [stopping]
    exact fun still => inv.halting (fewer still)
  · exact fun _ => ⟨inv.halting halting, locked⟩
  · exact fun e member => .inl (stopSection_announced srv e member)

section Steps

variable [CFloat F]

theorem Lifecycle.fftStep (plan : FftPlan F) {srv : Server F D} {t : List Obs}
    (inv : Lifecycle srv t) :
    Lifecycle (fftStep plan srv).1 (t ++ (RtlSdr.fftStep plan srv).2) := by
  obtain ⟨stopping, fft, fftLocal, fftThread, result, mono, locks, observed⟩ :=
    fftStep_effect plan srv
  rw [result]
  refine inv.aside rfl rfl rfl rfl mono ?_ ?_ ?_
  · rintro (more | stop | stop | stop)
    · exact mono (inv.halting (.inl more))
    · exact mono (inv.halting (.inr (.inl stop)))
    · exact mono (inv.halting (.inr (.inr (.inl stop))))
    · rcases locks stop with now | was
      · exact now
      · exact mono (inv.halting (.inr (.inr (.inr was))))
  · intro member
    rcases observed _ member with ⟨unlocked, _, here⟩ | other
    · exact ⟨inv.halting (.inr (.inr (.inr (here rfl)))), unlocked⟩
    · cases other
  · intro e member
    rcases observed e member with ⟨_, announced, _⟩ | spectrum
    · exact .inl announced
    · refine .inr (.inr ⟨by simp [spectrum], ?_⟩)
      intro fd speaks
      rw [part_of_speaker e fd speaks] at spectrum
      cases spectrum

/-- A worker's step, whatever it writes over the reaper's mark. -/
theorem Lifecycle.workerStep (cfg : Config F) [CDouble D F] {srv : Server F D} {t : List Obs}
    (inv : Lifecycle srv t) (slot : Fin maxClients) (works : Bool) (arrived : List UInt8)
    (pc : WorkerPc F) (thread : (srv.clients slot).thread = some pc) :
    let result := workerStep cfg srv (srv.clients slot) works arrived pc
    Lifecycle (srv.setClient slot result.1) (t ++ result.2) := by
  intro result
  have effect := workerStep_effect cfg srv (srv.clients slot) works arrived pc thread
  have used : (srv.clients slot).state ≠ .free := by
    intro free
    rw [(inv.free slot free).2] at thread
    cases thread
  have kept : SlotKept (srv.clients slot) result.1 := by
    refine ⟨effect.fd, effect.generation, ?_, ?_, ?_⟩
    · simp [effect.thread, thread, result]
    · rcases effect.state with same | same | same <;> simp [used, same, result]
    · rcases effect.state with same | same | same <;> simp [same, result]
  apply inv.quiet (setClient_kept srv slot result.1 kept) rfl rfl rfl
    (fun _ _ => Iff.rfl) (fun _ _ => Iff.rfl) inv.vacant inv.halting
  · intro member
    rcases List.mem_append.mp member with before | now
    · exact inv.stopped before
    · cases effect.speaks _ now
  · intro e member
    refine .inr (.inr ⟨?_, ?_⟩)
    · rw [part_of_speaker e _ (effect.speaks e member)]
      simp
    · intro fd speaks
      rw [effect.speaks e member] at speaks
      exact ⟨slot, Option.some.inj speaks, used⟩

end Steps

/-! ### The run loop between slots -/

theorem Lifecycle.halting_elsewhere (inv : Lifecycle srv t)
    (stopping : srv'.stopping = srv.stopping) (stops : srv'.stops = srv.stops)
    (fftThread : srv'.fftThread = srv.fftThread) (run : srv'.run ≠ .stopLock)
    (shutdown : srv'.run ≠ .shutdownLock) : srv'.Halting → srv'.stopping = true := by
  rw [stopping]
  rintro (more | now | now | now)
  · exact inv.halting (.inl (stops ▸ more))
  · exact absurd now run
  · exact absurd now shutdown
  · exact inv.halting (.inr (.inr (.inr (fftThread ▸ now))))

theorem locked_eq_false (srv : Server F D) (elsewhere : ∀ k fd slot, srv.run ≠ .create k fd slot) :
    srv.locked = false := by
  unfold Server.locked
  split
  next k fd slot here => exact absurd here (elsewhere k fd slot)
  next => rfl

section

variable (inv : Lifecycle srv t)
include inv

theorem Lifecycle.speakers_concat {event : Obs} (silent : event.speaker = none) :
    ∀ e ∈ t ++ [event], ∀ fd, e.speaker = some fd →
      ∃ slot generation, .created slot fd generation ∈ t ++ [event] := by
  intro e member fd speaks
  rcases List.mem_append.mp member with before | now
  · obtain ⟨slot, generation, created⟩ := inv.speakers e before fd speaks
    exact ⟨slot, generation, List.mem_append_left _ created⟩
  · rw [List.mem_singleton.mp now, silent] at speaks
    cases speaks

theorem Lifecycle.stopping_concat {event : Obs} (released : .stopReleased ∈ t ++ [event])
    (other : event ≠ .stopReleased) : srv.stopping = true := by
  rcases List.mem_append.mp released with before | now
  · exact (inv.stopped before).1
  · exact absurd (List.mem_singleton.mp now).symm other

theorem Lifecycle.numbered_closed {closed : Int} (accepted : .accepted closed ∈ t) (fd : Int) :
    (.accepted fd ∈ t ++ [.closed closed] → 0 ≤ fd ∧ fd < srv.nextFd) ∧
    (.closed fd ∈ t ++ [.closed closed] → .accepted fd ∈ t ++ [.closed closed]) ∧
    ∀ slot generation, .created slot fd generation ∈ t ++ [.closed closed] →
      .accepted fd ∈ t ++ [.closed closed] := by
  obtain ⟨bound, before, created⟩ := inv.numbered fd
  refine ⟨by simpa using bound, fun member => ?_, by simpa using created⟩
  rcases List.mem_append.mp member with old | now
  · exact List.mem_append_left _ (before old)
  · cases List.mem_singleton.mp now
    exact List.mem_append_left _ accepted

/-- The run loop goes on without touching a slot or a descriptor. -/
theorem Lifecycle.move (stopping : Bool) (fftLocal : FftLocal F) (fftThread : FftPc) (run : RunPc)
    (holds : run.holds = srv.run.holds)
    (here : ∀ call i, srv.run ≠ .join call i ∧ srv.run ≠ .close call i)
    (there : ∀ call i, run ≠ .join call i ∧ run ≠ .close call i)
    (vacant : ∀ i, run.Vacant i → (srv.clients i).state = .free)
    (mono : srv.stopping = true → stopping = true)
    (unlocked : stopping = true → ∀ k fd slot, run ≠ .create k fd slot)
    (locks : run = .stopLock ∨ run = .shutdownLock ∨ fftThread = .stopLock →
      stopping = true ∨ srv.fftThread = .stopLock)
    (observes : ∀ e ∈ observed, srv.Harmless e ∧ (e = .stopReleased → stopping = true)) :
    Lifecycle { srv with stopping, fftLocal, fftThread, run } (t ++ observed) := by
  refine inv.quiet (fun _ => .refl _) rfl rfl holds ?_ ?_ vacant ?_ ?_ ?_
  · intro call i
    exact ⟨fun now => absurd now (there call i).1, fun was => absurd was (here call i).1⟩
  · intro call i
    exact ⟨fun now => absurd now (there call i).2, fun was => absurd was (here call i).2⟩
  · rintro (more | now)
    · exact mono (inv.halting (.inl more))
    · rcases locks now with done | was
      · exact done
      · exact mono (inv.halting (.inr (.inr (.inr was))))
  · intro member
    have done : stopping = true := by
      rcases List.mem_append.mp member with before | now
      · exact mono (inv.stopped before).1
      · exact (observes _ now).2 rfl
    exact ⟨done, locked_eq_false _ (unlocked done)⟩
  · exact fun e member => (observes e member).1

/-! ### The reaper -/

/-- While the reaper is between slots, every slot in use has a thread and no slot is
marked. -/
theorem Lifecycle.between (here : ∀ call i, srv.run ≠ .join call i ∧ srv.run ≠ .close call i)
    (i : Fin maxClients) :
    (srv.clients i).state ≠ .joining ∧
      ((srv.clients i).state ≠ .free → (srv.clients i).thread ≠ none) := by
  constructor
  · intro mark
    obtain ⟨call, now | now⟩ := inv.marked i mark
    · exact (here call i).1 now
    · exact (here call i).2 now
  · intro used gone
    obtain ⟨call, now⟩ := inv.threadless i used gone
    exact (here call i).2 now

theorem Lifecycle.mark (call : Reap) (slot : Fin maxClients) (here : srv.run = .reap call slot)
    (found : call.skips (srv.clients slot).state = false) :
    Lifecycle { srv.setClient slot { srv.clients slot with state := .joining } with
      run := .join call slot } (t ++ []) := by
  have used : (srv.clients slot).state ≠ .free := by
    intro free
    simp [Reap.skips, free] at found
  have between := inv.between (by simp [here])
  refine inv.keep ?fd ?generation ?free rfl rfl (by rw [here]; rfl) ?vacant ?idle ?threadless ?marked
    ?joining (by simp) ?workers ?halting ?stopped (by simp)
  case fd => exact setClient_forall srv slot _ (fun i cl => cl.fd = (srv.clients i).fd) (by simp) rfl
  case generation =>
    exact setClient_forall srv slot _ (fun i cl => cl.fftGeneration = (srv.clients i).fftGeneration)
      (by simp) rfl
  case free =>
    exact setClient_forall srv slot _
      (fun i cl => cl.state = .free ↔ (srv.clients i).state = .free) (by simp) (by simp [used])
  case vacant =>
    intro i vacant
    apply inv.vacant i
    rw [here]
    cases call with
    | scan => exact vacant
    | final => exact vacant
    | shutdown => trivial
  case idle =>
    exact setClient_forall srv slot _ (fun i cl => (srv.clients i).state = .free →
      (srv.clients i).thread = none → cl.thread = none) (by simp) fun _ gone => gone
  case threadless =>
    refine setClient_forall srv slot _ (fun i cl => cl.state ≠ .free → cl.thread = none →
      ∃ c, RunPc.join call slot = .close c i) ?_ ?_
    · exact fun i _ used gone => absurd gone ((between i).2 used)
    · exact fun _ gone => absurd gone ((between slot).2 used)
  case marked =>
    refine setClient_forall srv slot _ (fun i cl => cl.state = .joining →
      ∃ c, RunPc.join call slot = .join c i ∨ RunPc.join call slot = .close c i) ?_ ?_
    · exact fun i _ mark => absurd mark (between i).1
    · exact fun _ => ⟨call, .inl rfl⟩
  case joining =>
    intro c i same
    cases same
    show ((srv.setClient slot _).clients slot).thread ≠ none
    rw [setClient_self]
    exact (between slot).2 used
  case workers =>
    refine fun i alive => .inr (setClient_forall srv slot _
      (fun i cl => (srv.clients i).thread ≠ none → cl.thread ≠ none) (by simp) ?_ i alive)
    exact fun alive => alive
  case halting => exact inv.halting_elsewhere rfl rfl rfl (by simp) (by simp)
  case stopped =>
    rw [List.append_nil]
    exact fun released => ⟨(inv.stopped released).1, rfl⟩

theorem Lifecycle.join (call : Reap) (slot : Fin maxClients) (here : srv.run = .join call slot) :
    Lifecycle { srv.setClient slot { srv.clients slot with thread := none } with
      run := .close call slot } (t ++ [Obs.joined slot (srv.clients slot).fd]) := by
  have used : (srv.clients slot).state ≠ .free :=
    fun free => inv.joining call slot here (inv.free slot free).2
  have others : ∀ i, i ≠ slot → (srv.clients i).state ≠ .free → (srv.clients i).thread ≠ none := by
    intro i _ used gone
    obtain ⟨other, now⟩ := inv.threadless i used gone
    rw [here] at now
    cases now
  refine inv.keep ?fd ?generation ?free rfl rfl (by rw [here]; rfl) ?vacant ?idle ?threadless ?marked
    (by simp) ?closing ?workers ?halting ?stopped ?harmless
  case fd => exact setClient_forall srv slot _ (fun i cl => cl.fd = (srv.clients i).fd) (by simp) rfl
  case generation =>
    exact setClient_forall srv slot _ (fun i cl => cl.fftGeneration = (srv.clients i).fftGeneration)
      (by simp) rfl
  case free =>
    exact setClient_forall srv slot _
      (fun i cl => cl.state = .free ↔ (srv.clients i).state = .free) (by simp) Iff.rfl
  case vacant =>
    intro i vacant
    apply inv.vacant i
    rw [here]
    cases call with
    | scan => exact vacant
    | final => exact vacant
    | shutdown => trivial
  case idle =>
    exact setClient_forall srv slot _ (fun i cl => (srv.clients i).state = .free →
      (srv.clients i).thread = none → cl.thread = none) (by simp) fun _ _ => rfl
  case threadless =>
    refine setClient_forall srv slot _ (fun i cl => cl.state ≠ .free → cl.thread = none →
      ∃ c, RunPc.close call slot = .close c i) ?_ ?_
    · exact fun i other used gone => absurd gone (others i other used)
    · exact fun _ _ => ⟨call, rfl⟩
  case marked =>
    have moved (i : Fin maxClients) (mark : (srv.clients i).state = .joining) :
        ∃ c, RunPc.close call slot = .join c i ∨ RunPc.close call slot = .close c i := by
      obtain ⟨c, now | now⟩ := inv.marked i mark <;> rw [here] at now <;> cases now
      exact ⟨call, .inr rfl⟩
    exact setClient_forall srv slot _ (fun i cl => cl.state = .joining →
      ∃ c, RunPc.close call slot = .join c i ∨ RunPc.close call slot = .close c i)
      (fun i _ => moved i) (moved slot)
  case closing =>
    intro c i same
    cases same
    show ((srv.setClient slot _).clients slot).state ≠ .free ∧
      ((srv.setClient slot _).clients slot).thread = none
    rw [setClient_self]
    exact ⟨used, rfl⟩
  case workers =>
    refine fun i alive => setClient_forall srv slot _ (fun i cl => (srv.clients i).thread ≠ none →
      .joined i (srv.clients i).fd ∈ [Obs.joined slot (srv.clients slot).fd] ∨ cl.thread ≠ none)
      ?_ ?_ i alive
    · exact fun i _ alive => .inr alive
    · exact fun _ => .inl List.mem_cons_self
  case halting => exact inv.halting_elsewhere rfl rfl rfl (by simp) (by simp)
  case stopped => exact fun released => ⟨inv.stopping_concat released nofun, rfl⟩
  case harmless =>
    intro e member
    exact .inr (.inl ⟨slot, _, List.mem_singleton.mp member⟩)

/-- The reaper closes the descriptor of a worker it has joined. -/
theorem Lifecycle.close (call : Reap) (slot : Fin maxClients) (here : srv.run = .close call slot) :
    Lifecycle { srv.setClient slot
        { srv.clients slot with fd := -1, dsp := none, state := .free } with
      clientCount := srv.clientCount - 1, run := .reap call (slot + 1) }
      (t ++ [Obs.closed (srv.clients slot).fd]) := by
  obtain ⟨used, gone⟩ := inv.closing call slot here
  obtain ⟨_, accepted, opened⟩ := inv.used slot used
  have others : ∀ i, i ≠ slot → (srv.clients i).fd ≠ (srv.clients slot).fd :=
    fun i other same => other (inv.distinct slot i used same).symm
  set cl : Client F D := { srv.clients slot with fd := -1, dsp := none, state := .free } with reset
  constructor
  case counted =>
    have fewer := occupied_clear srv slot cl used rfl
    have counted := inv.counted
    show srv.clientCount - 1 = ((srv.setClient slot cl).occupied : Int)
    omega
  case vacant =>
    refine setClient_forall srv slot cl
      (fun i cl => (RunPc.reap call (slot + 1)).Vacant i → cl.state = .free) ?_ fun _ => rfl
    intro i other vacant
    apply inv.vacant i
    rw [here]
    cases call with
    | scan => exact vacant
    | final =>
      have below : (i : Nat) < slot + 1 := vacant
      have distinct : (i : Nat) ≠ slot := fun same => other (Fin.ext same)
      show (i : Nat) < slot
      omega
    | shutdown => trivial
  case free =>
    refine setClient_forall srv slot cl
      (fun i cl => cl.state = .free → cl.fd = -1 ∧ cl.thread = none) ?_ fun _ => ⟨rfl, gone⟩
    exact fun i _ => inv.free i
  case used =>
    refine setClient_forall srv slot cl (fun i cl => cl.state ≠ .free →
      Obs.created i cl.fd cl.fftGeneration ∈ t ++ [Obs.closed (srv.clients slot).fd] ∧
      Obs.accepted cl.fd ∈ t ++ [Obs.closed (srv.clients slot).fd] ∧
      Obs.closed cl.fd ∉ t ++ [Obs.closed (srv.clients slot).fd]) ?_ (fun busy => absurd rfl busy)
    intro i other busy
    obtain ⟨created, accepted, opened⟩ := inv.used i busy
    simp [created, accepted, opened, others i other]
  case threadless =>
    refine setClient_forall srv slot cl (fun i cl => cl.state ≠ .free → cl.thread = none →
      ∃ c, RunPc.reap call (slot + 1) = .close c i) ?_ (fun busy => absurd rfl busy)
    intro i other busy gone
    obtain ⟨c, now⟩ := inv.threadless i busy gone
    rw [here] at now
    cases now
    exact absurd rfl other
  case marked =>
    refine setClient_forall srv slot cl (fun i cl => cl.state = .joining →
      ∃ c, RunPc.reap call (slot + 1) = .join c i ∨ RunPc.reap call (slot + 1) = .close c i)
      ?_ (by simp [reset])
    intro i other mark
    obtain ⟨c, now | now⟩ := inv.marked i mark <;> rw [here] at now <;> cases now
    exact absurd rfl other
  case joining => simp
  case closing => simp
  case distinct =>
    have busy_fd (i : Fin maxClients) (busy : (srv.clients i).state ≠ .free) :
        0 ≤ (srv.clients i).fd := ((inv.numbered _).1 (inv.used i busy).2.1).1
    refine setClient_forall srv slot cl (fun i ci => ∀ j, ci.state ≠ .free →
      ((srv.setClient slot cl).clients j).fd = ci.fd → i = j) ?_ (fun _ busy => absurd rfl busy)
    intro i _ j busy
    have open_fd := busy_fd i busy
    refine setClient_forall srv slot cl (fun j cj => cj.fd = (srv.clients i).fd → i = j) ?_ ?_ j
    · exact fun j _ same => inv.distinct i j busy same
    · intro same
      have none : cl.fd = -1 := rfl
      omega
  case held =>
    intro fd now
    cases now
  case numbered => exact inv.numbered_closed accepted
  case kept =>
    intro fd member
    rw [List.mem_append]
    rcases inv.kept fd (by simpa using member) with closed | holds | ⟨i, rfl⟩
    · exact .inl (.inl closed)
    · rw [here] at holds
      cases holds
    · by_cases same : i = slot
      · exact .inl (.inr (by simp [same]))
      · exact .inr (.inr ⟨i, congrArg Client.fd (setClient_other srv slot i cl same)⟩)
  case workers =>
    intro other fd generation member
    rw [List.mem_append]
    rcases inv.workers other fd generation (by simpa using member) with joined | ⟨rfl, alive⟩
    · exact .inl (.inl joined)
    · right
      have elsewhere : other ≠ slot := fun same => alive (same ▸ gone)
      show ((srv.setClient slot cl).clients other).fd = _ ∧
        ((srv.setClient slot cl).clients other).thread ≠ none
      rw [setClient_other srv slot other cl elsewhere]
      exact ⟨rfl, alive⟩
  case speakers => exact inv.speakers_concat rfl
  case halting => exact inv.halting_elsewhere rfl rfl rfl (by simp) (by simp)
  case stopped => exact fun released => ⟨inv.stopping_concat released nofun, rfl⟩
  case lawful =>
    refine History.each_concat _ _ _ inv.lawful ⟨accepted, opened, ?_⟩
    intro other generation created
    rcases inv.workers other _ generation created with joined | ⟨same, alive⟩
    · exact joined
    · exact absurd (inv.distinct slot other used same ▸ gone) alive

/-! ### `accept_client` -/

theorem Lifecycle.accept (k : Nat) (here : srv.run = .listen k) :
    Lifecycle { srv with nextFd := srv.nextFd + 1, run := .nonblocking k srv.nextFd }
      (t ++ [Obs.accepted srv.nextFd]) := by
  have between := inv.between (by simp [here])
  have fresh : Obs.accepted srv.nextFd ∉ t := fun old => absurd ((inv.numbered _).1 old).2 (by simp)
  have registered (e : Obs) : e ∈ t → e ∈ t ++ [Obs.accepted srv.nextFd] := List.mem_append_left _
  constructor
  case counted => exact inv.counted
  case vacant => exact fun i vacant => absurd vacant id
  case free => exact inv.free
  case used =>
    intro i busy
    obtain ⟨created, accepted, opened⟩ := inv.used i busy
    exact ⟨registered _ created, registered _ accepted, by simpa using opened⟩
  case threadless => exact fun i busy gone => absurd gone ((between i).2 busy)
  case marked => exact fun i mark => absurd mark (between i).1
  case joining => simp
  case closing => simp
  case distinct => exact inv.distinct
  case held =>
    rintro fd ⟨⟩
    refine ⟨by simp, ?_, ?_, ?_⟩
    · simpa using mt (inv.numbered srv.nextFd).2.1 fresh
    · intro i
      show (srv.clients i).fd ≠ srv.nextFd
      intro same
      by_cases free : (srv.clients i).state = .free
      · have none := (inv.free i free).1
        omega
      · exact fresh (same ▸ (inv.used i free).2.1)
    · intro slot generation
      simpa using mt ((inv.numbered srv.nextFd).2.2 slot generation) fresh
  case numbered =>
    intro fd
    obtain ⟨bound, closed, created⟩ := inv.numbered fd
    refine ⟨?_, fun old => registered _ (closed (by simpa using old)),
      fun slot generation old => registered _ (created slot generation (by simpa using old))⟩
    intro member
    rcases List.mem_append.mp member with old | now
    · have := bound old
      exact ⟨this.1, by push_cast; omega⟩
    · cases List.mem_singleton.mp now
      exact ⟨by omega, by push_cast; omega⟩
  case kept =>
    intro fd member
    rcases List.mem_append.mp member with old | now
    · rcases inv.kept fd old with closed | holds | owner
      · exact .inl (registered _ closed)
      · rw [here] at holds
        cases holds
      · exact .inr (.inr owner)
    · cases List.mem_singleton.mp now
      exact .inr (.inl rfl)
  case workers =>
    intro slot fd generation member
    exact (inv.workers slot fd generation (by simpa using member)).imp_left (registered _)
  case speakers => exact inv.speakers_concat rfl
  case halting => exact inv.halting_elsewhere rfl rfl rfl (by simp) (by simp)
  case stopped => exact fun released => ⟨inv.stopping_concat released nofun, rfl⟩
  case lawful => exact History.each_concat _ _ _ inv.lawful trivial

/-- `accept_client` closes a connection that got no worker. A slot it had found is free
again. -/
theorem Lifecycle.discard (k : Nat) (fd : Int) (holds : srv.run.holds = some fd)
    (run : srv'.run = .listen k)
    (slots : ∀ i, srv'.clients i = srv.clients i ∨ (srv.clients i).state = .free ∧
      (srv'.clients i).state = .free ∧ (srv'.clients i).fd = -1 ∧ (srv'.clients i).thread = none)
    (nextFd : srv'.nextFd = srv.nextFd) (clientCount : srv'.clientCount = srv.clientCount)
    (stopping : srv'.stopping = srv.stopping) (stops : srv'.stops = srv.stops)
    (fftThread : srv'.fftThread = srv.fftThread) : Lifecycle srv' (t ++ [Obs.closed fd]) := by
  obtain ⟨accepted, opened, unplaced, uncreated⟩ := inv.held fd holds
  have between := inv.between (by
    intro call i
    constructor <;> intro now <;> rw [now] at holds <;> cases holds)
  have registered (e : Obs) : e ∈ t → e ∈ t ++ [Obs.closed fd] := List.mem_append_left _
  have fds (i : Fin maxClients) : (srv'.clients i).fd = (srv.clients i).fd := by
    rcases slots i with same | ⟨free, _, none, _⟩
    · rw [same]
    · rw [none, (inv.free i free).1]
  have busy (i : Fin maxClients) (used : (srv'.clients i).state ≠ .free) :
      srv'.clients i = srv.clients i := by
    rcases slots i with same | ⟨_, free, _⟩
    · exact same
    · exact absurd free used
  have threads (i : Fin maxClients) : (srv'.clients i).thread = (srv.clients i).thread := by
    rcases slots i with same | ⟨free, _, _, none⟩
    · rw [same]
    · rw [none, (inv.free i free).2]
  have states (i : Fin maxClients) : (srv'.clients i).state = (srv.clients i).state := by
    rcases slots i with same | ⟨was, free, _⟩
    · rw [same]
    · rw [free, was]
  constructor
  case counted =>
    rw [clientCount, inv.counted, occupied_congr srv srv' fun i => by rw [states]]
  case vacant =>
    rw [run]
    exact fun i vacant => absurd vacant id
  case free =>
    intro i free
    rw [fds, threads]
    exact inv.free i (states i ▸ free)
  case used =>
    intro i used
    rw [busy i used]
    obtain ⟨created, accepted, opened⟩ := inv.used i (states i ▸ used)
    exact ⟨registered _ created, registered _ accepted, by simp [opened, unplaced i]⟩
  case threadless =>
    intro i used gone
    exact absurd (threads i ▸ gone) ((between i).2 (states i ▸ used))
  case marked => exact fun i mark => absurd (states i ▸ mark) (between i).1
  case joining => simp [run]
  case closing => simp [run]
  case distinct =>
    intro i j used
    rw [fds, fds]
    exact inv.distinct i j (states i ▸ used)
  case held => simp [run, RunPc.holds]
  case numbered =>
    rw [nextFd]
    exact inv.numbered_closed accepted
  case kept =>
    intro other member
    rcases inv.kept other (by simpa using member) with closed | held | ⟨i, rfl⟩
    · exact .inl (registered _ closed)
    · rw [holds] at held
      cases held
      exact .inl (by simp)
    · exact .inr (.inr ⟨i, fds i⟩)
  case workers =>
    intro slot other generation member
    rw [fds, threads]
    exact (inv.workers slot other generation (by simpa using member)).imp_left (registered _)
  case speakers => exact inv.speakers_concat rfl
  case halting =>
    exact inv.halting_elsewhere stopping stops fftThread (by simp [run]) (by simp [run])
  case stopped =>
    intro released
    rw [stopping]
    exact ⟨inv.stopping_concat released nofun, locked_eq_false _ (by simp [run])⟩
  case lawful =>
    refine History.each_concat _ _ _ inv.lawful ⟨accepted, opened, ?_⟩
    exact fun slot generation created => absurd created (uncreated slot generation)

/-- `pthread_create` succeeds in a slot that was free. -/
theorem Lifecycle.create (k : Nat) (fd : Int) (slot : Fin maxClients)
    (here : srv.run = .create k fd slot) (cl : Client F D) (placed : cl.fd = fd)
    (started : cl.state = .starting) (thread : cl.thread ≠ none) :
    Lifecycle { srv.setClient slot cl with
        clientCount := srv.clientCount + 1, run := .listen (k + 1) }
      (t ++ [Obs.created slot fd cl.fftGeneration]) := by
  have free : (srv.clients slot).state = .free := inv.vacant slot (by rw [here]; exact rfl)
  obtain ⟨accepted, opened, unplaced, uncreated⟩ := inv.held fd (by rw [here]; rfl)
  have between := inv.between (by simp [here])
  have registered (e : Obs) : e ∈ t → e ∈ t ++ [Obs.created slot fd cl.fftGeneration] :=
    List.mem_append_left _
  -- the lock is held, so no stop request has been through it
  have running : Obs.stopReleased ∉ t := by
    intro released
    have unlocked := (inv.stopped released).2
    rw [Server.locked, here] at unlocked
    cases unlocked
  constructor
  case counted =>
    have more := occupied_fill srv slot cl free (by simp [started])
    have counted := inv.counted
    show srv.clientCount + 1 = ((srv.setClient slot cl).occupied : Int)
    omega
  case vacant => exact fun i vacant => absurd vacant id
  case free =>
    refine setClient_forall srv slot cl
      (fun i cl => cl.state = .free → cl.fd = -1 ∧ cl.thread = none) (fun i _ => inv.free i) ?_
    simp [started]
  case used =>
    refine setClient_forall srv slot cl (fun i ci => ci.state ≠ .free →
      Obs.created i ci.fd ci.fftGeneration ∈ t ++ [Obs.created slot fd cl.fftGeneration] ∧
      Obs.accepted ci.fd ∈ t ++ [Obs.created slot fd cl.fftGeneration] ∧
      Obs.closed ci.fd ∉ t ++ [Obs.created slot fd cl.fftGeneration]) ?_ ?_
    · intro i _ busy
      obtain ⟨created, accepted, opened⟩ := inv.used i busy
      exact ⟨registered _ created, registered _ accepted, by simpa using opened⟩
    · intro _
      rw [placed]
      exact ⟨by simp, registered _ accepted, by simpa using opened⟩
  case threadless =>
    refine setClient_forall srv slot cl (fun i ci => ci.state ≠ .free → ci.thread = none →
      ∃ c, RunPc.listen (k + 1) = .close c i) ?_ (fun _ gone => absurd gone thread)
    exact fun i _ busy gone => absurd gone ((between i).2 busy)
  case marked =>
    refine setClient_forall srv slot cl (fun i ci => ci.state = .joining →
      ∃ c, RunPc.listen (k + 1) = .join c i ∨ RunPc.listen (k + 1) = .close c i) ?_ ?_
    · exact fun i _ mark => absurd mark (between i).1
    · simp [started]
  case joining => simp
  case closing => simp
  case distinct =>
    refine setClient_forall srv slot cl (fun i ci => ∀ j, ci.state ≠ .free →
      ((srv.setClient slot cl).clients j).fd = ci.fd → i = j) ?_ ?_
    · intro i _ j busy
      refine setClient_forall srv slot cl (fun j cj => cj.fd = (srv.clients i).fd → i = j) ?_ ?_ j
      · exact fun j _ same => inv.distinct i j busy same
      · exact fun same => absurd (same.symm.trans placed) (unplaced i)
    · intro j _
      refine setClient_forall srv slot cl (fun j cj => cj.fd = cl.fd → slot = j) ?_ (fun _ => rfl) j
      exact fun j _ same => absurd (same.trans placed) (unplaced j)
  case held =>
    intro other now
    cases now
  case numbered =>
    intro other
    obtain ⟨bound, closed, created⟩ := inv.numbered other
    refine ⟨by simpa using bound, by simpa using closed, ?_⟩
    intro s generation member
    rcases List.mem_append.mp member with before | now
    · exact registered _ (created s generation before)
    · cases List.mem_singleton.mp now
      exact registered _ accepted
  case kept =>
    intro other member
    rcases inv.kept other (by simpa using member) with closed | held | ⟨i, rfl⟩
    · exact .inl (registered _ closed)
    · rw [here] at held
      cases held
      exact .inr (.inr ⟨slot, (congrArg Client.fd (setClient_self srv slot cl)).trans placed⟩)
    · by_cases same : i = slot
      · -- a free slot owns no accepted descriptor
        have none := (inv.free slot free).1
        have bound := ((inv.numbered (srv.clients i).fd).1 (by simpa using member)).1
        rw [same] at bound
        omega
      · exact .inr (.inr ⟨i, congrArg Client.fd (setClient_other srv slot i cl same)⟩)
  case workers =>
    intro other fd' generation member
    rw [List.mem_append]
    rcases List.mem_append.mp member with before | now
    · rcases inv.workers other fd' generation before with joined | ⟨rfl, alive⟩
      · exact .inl (.inl joined)
      · right
        have elsewhere : other ≠ slot := fun same => alive (same ▸ (inv.free slot free).2)
        show ((srv.setClient slot cl).clients other).fd = _ ∧
          ((srv.setClient slot cl).clients other).thread ≠ none
        rw [setClient_other srv slot other cl elsewhere]
        exact ⟨rfl, alive⟩
    · cases List.mem_singleton.mp now
      right
      show ((srv.setClient slot cl).clients slot).fd = _ ∧
        ((srv.setClient slot cl).clients slot).thread ≠ none
      rw [setClient_self]
      exact ⟨placed, thread⟩
  case speakers => exact inv.speakers_concat rfl
  case halting => exact inv.halting_elsewhere rfl rfl rfl (by simp) (by simp)
  case stopped =>
    intro released
    exact absurd (by simpa using released) running
  case lawful =>
    refine History.each_concat _ _ _ inv.lawful ⟨opened, running, ?_, uncreated⟩
    intro old generation created
    rcases inv.workers slot old generation created with joined | ⟨_, alive⟩
    · exact joined
    · exact absurd (inv.free slot free).2 alive

end

end RtlSdr
