import RtlSdr.Server.Lifecycle

/-!
# Client slots over whole runs

Every step of every thread keeps the lifecycle invariant, so it holds after every
interleaving from the initial state.
-/
namespace RtlSdr

variable {F D : Type}

variable {t : List Obs} {srv : Server F D}

theorem Lifecycle.goto (inv : Lifecycle srv t) (run : RunPc) (holds : run.holds = srv.run.holds)
    (here : ∀ call i, srv.run ≠ .join call i ∧ srv.run ≠ .close call i)
    (there : ∀ call i, run ≠ .join call i ∧ run ≠ .close call i)
    (vacant : ∀ i, run.Vacant i → (srv.clients i).state = .free)
    (unlocked : srv.stopping = true → ∀ k fd slot, run ≠ .create k fd slot)
    (locks : run ≠ .stopLock ∧ run ≠ .shutdownLock) : Lifecycle { srv with run } (t ++ []) := by
  refine inv.move srv.stopping srv.fftLocal srv.fftThread run holds here there vacant id unlocked
    ?_ (by simp)
  rintro (now | now | now)
  · exact absurd now locks.1
  · exact absurd now locks.2
  · exact .inr now

/-- Where the run loop holds no descriptor, is joining nobody and knows nothing of the
slots. -/
def RunPc.calm : RunPc → Bool
  | .loop => true
  | .listen _ => true
  | .reap .scan _ => true
  | .stop => true
  | _ => false

theorem RunPc.calm_cases {run : RunPc} (calm : run.calm = true) :
    run = .loop ∨ (∃ k, run = .listen k) ∨ (∃ i, run = .reap .scan i) ∨ run = .stop := by
  unfold RunPc.calm at calm
  split at calm
  · exact .inl rfl
  · next k => exact .inr (.inl ⟨k, rfl⟩)
  · next i => exact .inr (.inr (.inl ⟨i, rfl⟩))
  · exact .inr (.inr (.inr rfl))
  · cases calm

theorem Lifecycle.wander (inv : Lifecycle srv t) (holds : srv.run.holds = none)
    (here : ∀ call i, srv.run ≠ .join call i ∧ srv.run ≠ .close call i) (run : RunPc)
    (calm : run.calm = true) : Lifecycle { srv with run } (t ++ []) := by
  rcases RunPc.calm_cases calm with rfl | ⟨k, rfl⟩ | ⟨i, rfl⟩ | rfl
  all_goals
    exact inv.goto _ holds.symm here (fun _ _ => ⟨nofun, nofun⟩) (fun _ => False.elim)
      (fun _ _ _ _ => nofun) ⟨nofun, nofun⟩

theorem Lifecycle.drop (inv : Lifecycle srv t) (k : Nat) (fd : Int)
    (holds : srv.run.holds = some fd) : Lifecycle (srv.drop k fd).1 (t ++ (srv.drop k fd).2) :=
  inv.discard (k + 1) fd holds rfl (fun _ => .inl rfl) rfl rfl rfl rfl rfl

theorem Lifecycle.reap (inv : Lifecycle srv t) (call : Reap) (i : Nat)
    (here : srv.run = .reap call i) (cfg : Config F) (answer : Answer) :
    Lifecycle (runStep cfg srv answer).1 (t ++ (runStep cfg srv answer).2) := by
  have between := inv.between (by simp [here])
  have vacant := inv.vacant
  simp only [here] at vacant
  simp only [runStep, here]
  split_ifs with inside skipped
  · -- a slot the final reaping passes over is free, since none is marked
    refine inv.goto _ (by simp [here, RunPc.holds]) (by simp [here]) (by simp) ?_ (by simp) (by simp)
    intro j passed
    cases call with
    | scan => exact absurd passed id
    | final =>
      have below : (j : Nat) < i + 1 := passed
      by_cases same : (j : Nat) = i
      · subst same
        have unmarked := (between j).1
        simpa [Reap.skips, unmarked] using skipped
      · exact vacant j (show (j : Nat) < i by omega)
    | shutdown => exact vacant j trivial
  · exact inv.mark call ⟨i, inside⟩ here (by simpa using skipped)
  · refine inv.goto _ ?_ (by simp [here]) ?_ ?_ ?_ ?_
    · cases call <;> simp [here, Reap.next, RunPc.holds]
    · cases call <;> simp [Reap.next]
    · intro j passed
      cases call with
      | scan => exact absurd passed id
      | final => exact vacant j (show (j : Nat) < i by have := j.isLt; omega)
      | shutdown => exact vacant j trivial
    · cases call <;> simp [Reap.next]
    · cases call <;> simp [Reap.next]

theorem Lifecycle.runStep (inv : Lifecycle srv t) (cfg : Config F) (answer : Answer) :
    Lifecycle (runStep cfg srv answer).1 (t ++ (RtlSdr.runStep cfg srv answer).2) := by
  have vacant := inv.vacant
  cases here : srv.run with
  | idle =>
    simp only [RtlSdr.runStep, here]
    simp only [here] at vacant
    refine inv.goto _ ?_ (by simp [here]) ?_ (fun i _ => vacant i trivial) ?_ ?_
    all_goals split_ifs <;> simp [here, RunPc.holds]
  | started =>
    simp only [RtlSdr.runStep, here]
    simp only [here] at vacant
    split_ifs
    · exact inv.wander (by simp [here, RunPc.holds]) (by simp [here]) .loop rfl
    · exact inv.move srv.stopping _ srv.fftThread _ (by simp [here, RunPc.holds]) (by simp [here])
        (by simp) (fun i _ => vacant i trivial) id (by simp) (by simpa using .inr)
        (by simp [Server.Harmless, Obs.part, Obs.speaker])
  | createFft =>
    simp only [RtlSdr.runStep, here]
    split_ifs
    · exact inv.move srv.stopping srv.fftLocal _ _ (by simp [here, RunPc.holds]) (by simp [here])
        (by simp) (fun i none => absurd none id) id (by simp) (by simp) (by simp)
    · exact inv.wander (by simp [here, RunPc.holds]) (by simp [here]) .stop rfl
  | loop =>
    have calm := inv.wander (by simp [here, RunPc.holds]) (by simp [here])
    simp only [RtlSdr.runStep, here]
    split_ifs
    · exact calm .stop rfl
    · cases answer with
      | ok => exact calm (.reap .scan 0) rfl
      | retry => exact calm .loop rfl
      | fail => exact calm .stop rfl
  | reap call i => exact inv.reap call i here cfg answer
  | join call slot =>
    simp only [RtlSdr.runStep, here]
    split
    · exact inv.join call slot here
    · rw [List.append_nil]
      exact inv
  | close call slot =>
    simp only [RtlSdr.runStep, here]
    exact inv.close call slot here
  | listen k =>
    have calm := inv.wander (by simp [here, RunPc.holds]) (by simp [here])
    simp only [RtlSdr.runStep, here]
    split_ifs
    · exact calm .loop rfl
    · cases answer with
      | ok => exact inv.accept k here
      | retry => exact calm (.listen (k + 1)) rfl
      | fail => exact calm .stop rfl
  | nonblocking k fd | session k fd =>
    simp only [RtlSdr.runStep, here]
    split_ifs
    · exact inv.goto _ (by simp [here, RunPc.holds]) (by simp [here]) (by simp)
        (fun i none => absurd none id) (by simp) (by simp)
    · exact inv.drop k fd (by simp [here, RunPc.holds])
  | place k fd =>
    simp only [RtlSdr.runStep, here]
    split_ifs with stopping
    · exact inv.drop k fd (by simp [here, RunPc.holds])
    · cases found : srv.freeSlot with
      | none => exact inv.drop k fd (by simp [here, RunPc.holds])
      | some slot =>
        refine inv.goto _ (by simp [here, RunPc.holds]) (by simp [here]) (by simp) ?_ ?_ (by simp)
        · intro i same
          rw [show i = slot from same]
          unfold Server.freeSlot at found
          simpa using List.find?_some found
        · exact fun stopped => absurd stopped stopping
  | create k fd slot =>
    have free : (srv.clients slot).state = .free := inv.vacant slot (by rw [here]; exact rfl)
    simp only [RtlSdr.runStep, here]
    split_ifs
    · exact inv.create k fd slot here _ rfl rfl (by simp)
    · refine inv.discard (k + 1) fd (by rw [here]; rfl) rfl ?_ rfl rfl rfl rfl rfl
      refine setClient_forall srv slot _ (fun i cl => cl = srv.clients i ∨
        (srv.clients i).state = .free ∧ cl.state = .free ∧ cl.fd = -1 ∧ cl.thread = none) ?_ ?_
      · exact fun i _ => .inl rfl
      · exact .inr ⟨free, rfl, rfl, rfl⟩
  | stop =>
    simp only [RtlSdr.runStep, here]
    exact inv.move true srv.fftLocal srv.fftThread _ (by simp [here, RunPc.holds]) (by simp [here])
      (by simp) (fun i none => absurd none id) (by simp) (by simp) (by simp) (by simp)
  | stopLock =>
    simp only [RtlSdr.runStep, here]
    have stopping : srv.stopping = true := inv.halting (.inr (.inl here))
    refine inv.move srv.stopping srv.fftLocal srv.fftThread _ (by simp [here, RunPc.holds])
      (by simp [here]) (by simp) ?_ id (by simp) (by simp [stopping]) ?_
    · exact fun i none => absurd none (Nat.not_lt_zero _)
    · exact fun e member => ⟨.inl (stopSection_announced srv e member), fun _ => stopping⟩
  | joinFft =>
    simp only [RtlSdr.runStep, here]
    simp only [here] at vacant
    split_ifs
    · exact inv.goto _ (by simp [here, RunPc.holds]) (by simp [here]) (by simp)
        (fun i _ => vacant i trivial) (by simp) (by simp)
    · rw [List.append_nil]
      exact inv
  | returned =>
    simp only [RtlSdr.runStep, here, List.append_nil]
    exact inv
  | shutdownStop =>
    simp only [RtlSdr.runStep, here]
    simp only [here] at vacant
    exact inv.move true srv.fftLocal srv.fftThread _ (by simp [here, RunPc.holds]) (by simp [here])
      (by simp) (fun i _ => vacant i trivial) (by simp) (by simp) (by simp) (by simp)
  | shutdownLock =>
    simp only [RtlSdr.runStep, here]
    simp only [here] at vacant
    have stopping : srv.stopping = true := inv.halting (.inr (.inr (.inl here)))
    refine inv.move srv.stopping srv.fftLocal srv.fftThread _ (by simp [here, RunPc.holds])
      (by simp [here]) (by simp) (fun i _ => vacant i trivial) id (by simp) (by simp [stopping]) ?_
    exact fun e member => ⟨.inl (stopSection_announced srv e member), fun _ => stopping⟩
  | shutDown =>
    simp only [RtlSdr.runStep, here, List.append_nil]
    exact inv

/-! ### Whole runs -/

variable [CFloat F]

theorem lifecycle_initial (cfg : Config F) (ring : Ring) :
    Lifecycle (.initial cfg ring : Server F D) [] where
  counted := by simp [Server.initial, Server.occupied, Client.empty]
  vacant _ _ := rfl
  free _ _ := ⟨rfl, rfl⟩
  used _ busy := absurd rfl busy
  threadless _ busy := absurd rfl busy
  marked _ mark := by cases mark
  joining _ _ now := by cases now
  closing _ _ now := by cases now
  distinct _ _ busy := absurd rfl busy
  held _ now := by cases now
  numbered := by simp
  kept := by simp
  workers := by simp
  speakers := by simp
  halting := by rintro (now | now | now | now) <;> cases now
  stopped := by simp
  lawful := History.each_nil _

variable [CDouble D F]

theorem Lifecycle.serverStep (cfg : Config F) (inv : Lifecycle srv t) (a : Action) :
    Lifecycle (serverStep cfg srv a).1 (t ++ (RtlSdr.serverStep cfg srv a).2) := by
  have stay : Lifecycle srv (t ++ []) := by
    rw [List.append_nil]
    exact inv
  cases a with
  | publish p input =>
    simp only [RtlSdr.serverStep, publishStep]
    split_ifs
    · exact stay
    · exact inv.aside rfl rfl rfl rfl id inv.halting (by simp) (by simp)
    · exact inv.aside rfl rfl rfl rfl id inv.halting (by simp) (by simp)
  | publishNext p =>
    simp only [RtlSdr.serverStep, publishNextStep]
    cases srv.publishers p with
    | idle => exact stay
    | gap =>
      exact inv.aside rfl rfl rfl rfl id inv.halting (by simp)
        (by simp [Server.Harmless, Obs.part, Obs.speaker])
    | writing input =>
      simp only
      split
      · exact inv.aside rfl rfl rfl rfl id inv.halting (by simp) (by simp)
      · exact inv.aside rfl rfl rfl rfl id inv.halting (by simp)
          (by simp [Server.Harmless, Obs.part, Obs.speaker])
  | ringGap =>
    exact inv.aside rfl rfl rfl rfl id inv.halting (by simp [RtlSdr.serverStep])
      (by simp [RtlSdr.serverStep, Server.Harmless, Obs.part, Obs.speaker])
  | requestStop =>
    exact inv.aside rfl rfl rfl rfl (fun _ => rfl) (fun _ => rfl) (by simp [RtlSdr.serverStep])
      (by simp [RtlSdr.serverStep])
  | requestStopLock =>
    simp only [RtlSdr.serverStep]
    split_ifs with blocked
    · exact stay
    · obtain ⟨unlocked, called⟩ := not_or.mp blocked
      refine inv.stopSection rfl rfl rfl rfl rfl ?_ (.inl (Nat.pos_of_ne_zero called))
        (by simpa using unlocked)
      exact Or.imp_left fun (more : 0 < srv.stops - 1) => by omega
  | notify freq =>
    exact inv.aside rfl rfl rfl rfl id inv.halting (by simp [RtlSdr.serverStep])
      (by simp [RtlSdr.serverStep, Server.Harmless, Obs.part, Obs.speaker])
  | notifyLock =>
    simp only [RtlSdr.serverStep]
    split_ifs with blocked
    · exact stay
    · have announced := shutdowns_announced srv (fun cl => cl.state == .starting)
        (by simp [Client.active]; tauto)
      refine inv.aside rfl rfl rfl rfl id inv.halting ?_ ?_
      · exact fun released => absurd rfl (announced _ released).2
      · exact fun e member => .inl (announced e member).1
  | run answer => exact inv.runStep cfg answer
  | shutdown =>
    simp only [RtlSdr.serverStep]
    split_ifs with ended
    · have vacant := inv.vacant
      have free : ∀ i, (srv.clients i).state = .free := by
        intro i
        rcases ended with here | here <;> simp only [here] at vacant <;> exact vacant i trivial
      refine inv.goto _ ?_ ?_ (by simp) (fun i _ => free i) (by simp) (by simp)
      · rcases ended with here | here <;> simp [here, RunPc.holds]
      · rcases ended with here | here <;> simp [here]
    · exact stay
  | fft =>
    simp only [RtlSdr.serverStep]
    cases cfg.plan with
    | none => exact stay
    | some plan => exact inv.fftStep plan
  | worker slot works arrived =>
    simp only [RtlSdr.serverStep]
    cases thread : (srv.clients slot).thread with
    | none => exact stay
    | some pc =>
      simp only
      split_ifs
      · exact stay
      · exact inv.workerStep cfg slot works arrived pc thread

theorem lifecycle_run (cfg : Config F) (ring : Ring) (actions : List Action) :
    Lifecycle (serverRun cfg (.initial cfg ring : Server F D) actions).1
      (serverRun cfg (.initial cfg ring : Server F D) actions).2 :=
  Transducer.run_observed (serverStep cfg) Lifecycle (fun _ _ a inv => inv.serverStep cfg a) _
    (lifecycle_initial cfg ring) actions

/-- The life of the client slots, over every interleaving of the run loop, the reaper, the
workers, the FFT thread, stop requests, retunes and the shutdown after the run. -/
theorem client_slot_lifecycle (cfg : Config F) (ring : Ring) (actions : List Action) :
    let reached := serverRun cfg (.initial cfg ring : Server F D) actions
    let srv := reached.1
    let history := reached.2
    srv.clientCount = srv.occupied ∧
    -- a descriptor is closed at most once, and once if the run has come to its end
    (∀ fd, history.count (.closed fd) ≤ 1) ∧
    (srv.run = .returned ∨ srv.run = .shutDown →
      ∀ fd, .accepted fd ∈ history → history.count (.closed fd) = 1) ∧
    -- and only after its worker, if it got one, has been joined
    (∀ before fd after, history = before ++ .closed fd :: after →
      .accepted fd ∈ before ∧
      ∀ slot generation, .created slot fd generation ∈ history → .joined slot fd ∈ before) ∧
    -- a slot gets a worker only after its previous one has been joined
    (∀ before slot fd generation after, history = before ++ .created slot fd generation :: after →
      ∀ old generation', .created slot old generation' ∈ before → .joined slot old ∈ before) ∧
    -- no shutdown on a closed descriptor
    (∀ before fd after, history = before ++ .shutdown fd :: after → .closed fd ∉ before) ∧
    -- no worker after a stop request has released the lock
    (∀ before after, history = before ++ .stopReleased :: after →
      ∀ slot fd generation, .created slot fd generation ∉ after) := by
  intro reached srv history
  have inv : Lifecycle srv history := lifecycle_run cfg ring actions
  have lawful := inv.lawful
  have once (fd : Int) : history.count (.closed fd) ≤ 1 :=
    lawful.count_le_one (.closed fd) fun _ law => law.2.1
  refine ⟨inv.counted, once, ?_, ?_, ?_, ?_, ?_⟩
  · intro ended fd accepted
    have free : ∀ i, (srv.clients i).state = .free := by
      intro i
      apply inv.vacant i
      rcases ended with here | here <;> rw [here] <;> trivial
    have closed : Obs.closed fd ∈ history := by
      rcases inv.kept fd accepted with closed | held | ⟨i, rfl⟩
      · exact closed
      · rcases ended with here | here <;> rw [here] at held <;> cases held
      · have none := (inv.free i (free i)).1
        have bound := ((inv.numbered _).1 accepted).1
        omega
    exact Nat.le_antisymm (once fd) (List.count_pos_iff.mpr closed)
  · intro before fd after split
    have law : Lawful before (.closed fd) := lawful before _ after split
    refine ⟨law.1, fun slot generation created => ?_⟩
    rw [split] at created
    rcases List.mem_append.mp created with early | late
    · exact law.2.2 slot generation early
    · -- a worker is never created on a descriptor that has been closed
      rcases List.mem_cons.mp late with other | late
      · cases other
      · obtain ⟨between, rest, rfl⟩ := List.append_of_mem late
        have other : Lawful (before ++ Obs.closed fd :: between) (.created slot fd generation) :=
          lawful _ _ rest (by simp [split])
        exact absurd (by simp) other.1
  · intro before slot fd generation after split
    have law : Lawful before (.created slot fd generation) := lawful before _ after split
    exact law.2.2.1
  · intro before fd after split
    exact lawful before _ after split
  · intro before after split slot fd generation created
    obtain ⟨early, late, rfl⟩ := List.append_of_mem created
    have law : Lawful (before ++ Obs.stopReleased :: early) (.created slot fd generation) :=
      lawful _ _ late (by simp [split])
    exact law.2.1 (by simp)

end RtlSdr
