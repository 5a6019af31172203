import RtlSdr.Lib.Counting
import RtlSdr.Lib.Guarded

/-!
# The client slots of `rtl_tcp`

`remove_client` returns at once for a slot that is inactive, so the reaper never cleans up after a
worker that has marked its own slot, and `client_count` keeps counting it. As long as no worker does
so, and the reaper does not run while a client is being removed, the slots are in order. Critical
sections of `clients_mutex` are single steps.
-/
namespace RtlSdr.TcpSlots

inductive ThreadState
  | running
  /-- Returned, and not joined yet. -/
  | exited
  | joined
deriving DecidableEq, Repr

/-- A worker thread, with the slot it was started on. -/
structure Thread where
  slot : Nat
  state : ThreadState
deriving DecidableEq, Repr

/-- `struct client_state` without the ring cursor. The handles are numbers of threads. -/
structure Client where
  sock : Int
  active : Bool
  sendThread : Option Nat
  cmdThread : Option Nat
deriving DecidableEq, Repr

/-- Where a call of `remove_client` stands. -/
inductive RemovePc
  | check | clear | joinSend | joinCmd | close | decrement
deriving DecidableEq, Repr

/-- The main thread: it accepts, is in `add_client` behind the critical section, or is in
`remove_client`. -/
inductive MainPc
  | accepting
  | createSend (i : Nat)
  | createCmd (i : Nat)
  | removing (i : Nat) (pc : RemovePc)
deriving DecidableEq, Repr

inductive ReaperPc
  | sleeping
  | scanning (i : Nat)
  | removing (i : Nat) (pc : RemovePc)
deriving DecidableEq, Repr

structure Server where
  clients : Nat → Client
  clientCount : Int
  threads : Nat → Thread
  /-- The number of threads created. -/
  created : Nat
  main : MainPc
  reaper : ReaperPc

/-- The state after the slots have been initialized. -/
def Server.initial : Server where
  clients := fun _ => ⟨-1, false, none, none⟩
  clientCount := 0
  threads := fun _ => ⟨0, .joined⟩
  created := 0
  main := .accepting
  reaper := .sleeping

def Server.setClient (s : Server) (i : Nat) (client : Client) : Server :=
  { s with clients := Function.update s.clients i client }

def Server.setThread (s : Server) (t : Nat) (thread : Thread) : Server :=
  { s with threads := Function.update s.threads t thread }

section

variable (maxClients : Nat)

/-! ### The calls -/

/-- The slot `add_client` gives to a connection, if there is room for it. -/
def grant (s : Server) : Option Nat :=
  if s.clientCount ≥ maxClients then none
  else (List.range maxClients).find? fun i => !(s.clients i).active

/-- The critical section of `add_client`; without a slot the connection is closed. -/
def addClient (s : Server) (sock : Nat) : Server :=
  match grant maxClients s with
  | none => s
  | some i =>
    -- the handles of the threads that ran on the slot before stay until they are overwritten
    { s.setClient i { s.clients i with sock, active := true } with
      clientCount := s.clientCount + 1
      main := .createSend i }

/-- `pthread_join`, if it does not block. A handle without a thread to join is refused. -/
def Server.join (s : Server) (handle : Option Nat) : Option Server :=
  match handle with
  -- no thread was ever started on the slot
  | none => some s
  | some t =>
    match (s.threads t).state with
    -- the join blocks
    | .running => none
    | .exited | .joined => some (s.setThread t { s.threads t with state := .joined })

/-- One step of `remove_client`, and where it stands then. -/
def removeClient (s : Server) (i : Nat) : RemovePc → Server × Option RemovePc
  -- the early return for a slot that is inactive already
  | .check => (s, if i < maxClients ∧ (s.clients i).active then some .clear else none)
  | .clear => (s.setClient i { s.clients i with active := false }, some .joinSend)
  | .joinSend =>
    match s.join (s.clients i).sendThread with
    | some s => (s, some .joinCmd)
    | none => (s, some .joinSend)
  | .joinCmd =>
    match s.join (s.clients i).cmdThread with
    | some s => (s, some .close)
    | none => (s, some .joinCmd)
  -- `client_count` is decremented under the mutex, at the very end
  | .close => (s.setClient i { s.clients i with sock := -1 }, some .decrement)
  | .decrement => ({ s with clientCount := s.clientCount - 1 }, none)

/-- The main thread goes on with `add_client` or `remove_client`. -/
def mainStep (s : Server) : Server :=
  match s.main with
  | .accepting => s
  | .createSend i =>
    { (s.setThread s.created ⟨i, .running⟩).setClient i
        { s.clients i with sendThread := some s.created } with
      created := s.created + 1
      main := .createCmd i }
  | .createCmd i =>
    { (s.setThread s.created ⟨i, .running⟩).setClient i
        { s.clients i with cmdThread := some s.created } with
      created := s.created + 1
      main := .accepting }
  | .removing i pc =>
    let next := removeClient maxClients s i pc
    { next.1 with main := (next.2.map (MainPc.removing i)).getD .accepting }

/-- `reaper_thread`, one step. -/
def reaperStep (s : Server) : Server :=
  match s.reaper with
  | .sleeping => { s with reaper := .scanning 0 }
  | .scanning i =>
    if i < maxClients then
      -- what the reaper takes for a client that has failed
      if (s.clients i).sock ≥ 0 ∧ (s.clients i).active = false then
        { s with reaper := .removing i .check }
      else { s with reaper := .scanning (i + 1) }
    else { s with reaper := .sleeping }
  | .removing i pc =>
    let next := removeClient maxClients s i pc
    { next.1 with reaper := (next.2.map (ReaperPc.removing i)).getD (.scanning (i + 1)) }

inductive Action
  /-- A connection is accepted and has been sent the header. -/
  | connect (sock : Nat)
  /-- The main thread calls `remove_client`. -/
  | remove (i : Nat)
  | main
  | reaper
  /-- A worker marks its slot inactive after an error. -/
  | mark (t : Nat)
  /-- A worker returns. -/
  | exit (t : Nat)
deriving DecidableEq, Repr

def step (s : Server) : Action → Server
  | .connect sock => if s.main = .accepting then addClient maxClients s sock else s
  | .remove i => if s.main = .accepting then { s with main := .removing i .check } else s
  | .main => mainStep maxClients s
  | .reaper => reaperStep maxClients s
  | .mark t =>
    if (s.threads t).state = .running then
      let i := (s.threads t).slot
      s.setClient i { s.clients i with active := false }
    else s
  | .exit t =>
    if (s.threads t).state = .running then s.setThread t { s.threads t with state := .exited }
    else s

def run (s : Server) (actions : List Action) : Server := actions.foldl (step maxClients) s

/-! ### What should hold -/

/-- The number of clients that are really active. -/
def Server.activeCount (s : Server) : Nat :=
  ((Finset.range maxClients).filter fun i => (s.clients i).active = true).card

/-- All threads that were started on a slot have been joined. -/
def Server.Idle (s : Server) (i : Nat) : Prop :=
  ∀ t, (s.threads t).slot = i → (s.threads t).state = .joined

/-- What a pass of the reaper should leave. -/
def Server.Clean (s : Server) : Prop :=
  (∀ i < maxClients, (s.clients i).active = false → s.Idle i ∧ (s.clients i).sock = -1) ∧
    s.clientCount = s.activeCount maxClients

/-- The slot the main thread is removing a client from, once it is inactive. -/
def MainPc.closing : MainPc → Option Nat
  | .removing i .joinSend | .removing i .joinCmd | .removing i .close | .removing i .decrement =>
    some i
  | .removing _ .check | .removing _ .clear | .accepting | .createSend _ | .createCmd _ => none

end

/-- No worker marks its slot while it is active, and the reaper does not run during a removal. -/
def Orderly (s : Server) : Action → Prop
  | .mark t => (s.clients (s.threads t).slot).active = false
  | .reaper => s.main.closing = none
  | .connect _ | .remove _ | .main | .exit _ => True

instance (s : Server) : (action : Action) → Decidable (Orderly s action)
  | .mark _ => inferInstanceAs (Decidable (_ = _))
  | .reaper => inferInstanceAs (Decidable (_ = _))
  | .connect _ | .remove _ | .main | .exit _ => isTrue trivial

/-! ### What holds throughout -/

section

variable (maxClients : Nat)

/-- A thread that may have to be joined yet. -/
def Server.Pending (s : Server) (i t : Nat) : Prop :=
  (s.threads t).slot = i ∧ (s.threads t).state ≠ .joined

/-- What the main thread has achieved at each of its places. -/
def Doing (s : Server) : MainPc → Prop
  | .accepting => True
  | .createSend i => (s.clients i).active = true ∧ s.Idle i
  | .createCmd i =>
    (s.clients i).active = true ∧ ∀ t, s.Pending i t → (s.clients i).sendThread = some t
  | .removing _ .check => True
  | .removing i .clear => i < maxClients ∧ (s.clients i).active = true
  | .removing i .joinSend => (s.clients i).active = false
  | .removing i .joinCmd =>
    (s.clients i).active = false ∧ ∀ t, s.Pending i t → (s.clients i).cmdThread = some t
  | .removing i .close => (s.clients i).active = false ∧ s.Idle i
  | .removing i .decrement =>
    (s.clients i).active = false ∧ s.Idle i ∧ (s.clients i).sock = -1

structure Inv (s : Server) : Prop where
  /-- The reaper never finds a slot to clean. -/
  watching : ∀ i pc, s.reaper ≠ .removing i pc
  /-- The handles of a slot name all its threads that have not been joined. -/
  handles : ∀ i t, s.Pending i t →
    (s.clients i).sendThread = some t ∨ (s.clients i).cmdThread = some t
  doing : Doing maxClients s s.main
  clean : ∀ i, (s.clients i).active = false → s.main.closing ≠ some i →
    s.Idle i ∧ (s.clients i).sock = -1
  counted : s.clientCount =
    s.activeCount maxClients + (if s.main.closing = none then 0 else 1)

theorem inv_initial : Inv maxClients .initial where
  watching := nofun
  handles _ _ pending := absurd rfl pending.2
  doing := trivial
  clean _ _ _ := ⟨fun _ _ => rfl, rfl⟩
  counted := by simp [Server.initial, Server.activeCount, MainPc.closing]

variable {maxClients}

/-! ### Frame lemmas -/

theorem setState_slot (threads : Nat → Thread) (t : Nat) (state : ThreadState) (t' : Nat) :
    (Function.update threads t { threads t with state } t').slot = (threads t').slot := by
  by_cases same : t' = t
  · rw [same, Function.update_self]
  · rw [Function.update_of_ne same]

variable {s : Server} {actions : List Action}

theorem Inv.of_threads (inv : Inv maxClients s) (threads : Nat → Thread)
    (slots : ∀ t, (threads t).slot = (s.threads t).slot)
    (joined : ∀ t, (s.threads t).state = .joined → (threads t).state = .joined) :
    Inv maxClients { s with threads } := by
  -- fewer threads are pending, so what was said of all pending ones still holds
  have pending (i t : Nat) (now : Server.Pending { s with threads } i t) : s.Pending i t :=
    ⟨(slots t).symm.trans now.1, fun before => now.2 (joined t before)⟩
  have idle (i : Nat) (before : s.Idle i) : Server.Idle { s with threads } i := fun t here =>
    joined t (before t ((slots t).symm.trans here))
  refine ⟨inv.watching, fun i t now => inv.handles i t (pending i t now), ?_, ?_, inv.counted⟩
  · have doing := inv.doing
    show Doing maxClients { s with threads } s.main
    cases here : s.main with
    | accepting => trivial
    | createSend i =>
      rw [here] at doing
      exact ⟨doing.1, idle i doing.2⟩
    | createCmd i =>
      rw [here] at doing
      exact ⟨doing.1, fun t now => doing.2 t (pending i t now)⟩
    | removing i pc =>
      rw [here] at doing
      cases pc with
      | check => trivial
      | clear => exact doing
      | joinSend => exact doing
      | joinCmd => exact ⟨doing.1, fun t now => doing.2 t (pending i t now)⟩
      | close => exact ⟨doing.1, idle i doing.2⟩
      | decrement => exact ⟨doing.1, idle i doing.2.1, doing.2.2⟩
  · intro i inactive other
    obtain ⟨before, sock⟩ := inv.clean i inactive other
    exact ⟨idle i before, sock⟩

theorem Inv.of_main (inv : Inv maxClients s) (main : MainPc) (doing : Doing maxClients s main)
    (closing : main.closing = s.main.closing) : Inv maxClients { s with main } := by
  refine ⟨inv.watching, inv.handles, ?_, ?_, ?_⟩
  · -- what has been achieved does not depend on the place
    cases main with
    | removing i pc => cases pc <;> exact doing
    | accepting | createSend | createCmd => exact doing
  · intro i inactive other
    exact inv.clean i inactive (closing ▸ other)
  · show s.clientCount = s.activeCount maxClients + (if main.closing = none then 0 else 1)
    rw [closing]
    exact inv.counted

/-- The main thread changes one slot and starts threads on it. What holds of the other slots
goes on to hold. -/
theorem Inv.of_client (inv : Inv maxClients s) (i : Nat) (client : Client)
    (threads : Nat → Thread) (main : MainPc) (clientCount : Int) (created : Nat)
    (onlyHere : ∀ t, (threads t).slot ≠ i → threads t = s.threads t)
    (closing : ∀ j, s.main.closing = some j → j = i) :
    let s' : Server :=
      { s with clients := Function.update s.clients i client, threads, main, clientCount, created }
    (∀ t, s'.Pending i t → client.sendThread = some t ∨ client.cmdThread = some t) →
    Doing maxClients s' main →
    (client.active = false → main.closing ≠ some i → s'.Idle i ∧ client.sock = -1) →
    clientCount = ((Finset.range maxClients).filter fun j =>
      (Function.update s.clients i client j).active = true).card +
        (if main.closing = none then 0 else 1) →
    Inv maxClients s' := by
  intro s' handles doing clean counted
  -- each part is about this slot, where it is assumed, or about another one, where nothing changed
  have self : s'.clients i = client := Function.update_self i client s.clients
  have other (j : Nat) (away : j ≠ i) : s'.clients j = s.clients j :=
    Function.update_of_ne away client s.clients
  refine ⟨inv.watching, ?_, doing, ?_, counted⟩
  · intro j t pending
    by_cases here : j = i
    · subst here
      rw [self]
      exact handles t pending
    · have same : threads t = s.threads t := onlyHere t fun on => here (pending.1.symm.trans on)
      rw [other j here]
      apply inv.handles j t
      rw [Server.Pending, ← same]
      exact pending
  · intro j inactive open_
    by_cases here : j = i
    · subst here
      rw [self] at inactive ⊢
      exact clean inactive open_
    · rw [other j here] at inactive ⊢
      obtain ⟨idle, sock⟩ := inv.clean j inactive fun before => here (closing j before)
      refine ⟨fun t on => ?_, sock⟩
      have same : threads t = s.threads t := onlyHere t fun here' => here (on.symm.trans here')
      have joined := idle t (same ▸ on)
      rw [← same] at joined
      exact joined

/-! ### `add_client` -/

theorem grant_some {i : Nat} (granted : grant maxClients s = some i) :
    i < maxClients ∧ (s.clients i).active = false := by
  rw [grant] at granted
  split at granted
  · cases granted
  · have found := List.find?_some granted
    exact ⟨List.mem_range.mp (List.mem_of_find?_eq_some granted), by simpa using found⟩

theorem inv_addClient (inv : Inv maxClients s) (here : s.main = .accepting) (sock : Nat) :
    Inv maxClients (addClient maxClients s sock) := by
  rw [addClient]
  split
  · exact inv
  · next i granted =>
    obtain ⟨inside, inactive⟩ := grant_some granted
    -- no removal is under way, so the slot has been cleaned up
    have idle := (inv.clean i inactive (by rw [here]; exact nofun)).1
    have counted := inv.counted
    have more := Counting.card_update_gain (fun client : Client => client.active = true)
      (Finset.range maxClients) s.clients i { s.clients i with sock, active := true }
      (Finset.mem_range.mpr inside) (by rw [inactive]; decide) rfl
    refine inv.of_client i _ s.threads (.createSend i) (s.clientCount + 1) s.created
      (fun _ _ => rfl) (by rw [here]; exact nofun) (inv.handles i) ?_ nofun ?_
    · refine ⟨?_, idle⟩
      simp only [Function.update_self]
    · rw [here] at counted
      rw [more, counted]
      rfl

theorem inv_create (inv : Inv maxClients s) (i : Nat) (client : Client) (main : MainPc)
    (closing : s.main.closing = none) (closing' : main.closing = none)
    (active : client.active = true) (was : (s.clients i).active = true)
    (handles : ∀ t, t ≠ s.created → s.Pending i t →
      client.sendThread = some t ∨ client.cmdThread = some t)
    (named : client.sendThread = some s.created ∨ client.cmdThread = some s.created)
    (doing : Doing maxClients { (s.setThread s.created ⟨i, .running⟩).setClient i client with
      created := s.created + 1, main } main) :
    Inv maxClients { (s.setThread s.created ⟨i, .running⟩).setClient i client with
      created := s.created + 1, main } := by
  refine inv.of_client i client (Function.update s.threads s.created ⟨i, .running⟩) main
    s.clientCount (s.created + 1) ?_ (by rw [closing]; exact nofun) ?_ doing
    (by rw [active]; exact nofun) ?_
  · intro t away
    by_cases new : t = s.created
    · rw [new, Function.update_self] at away
      exact absurd rfl away
    · rw [Function.update_of_ne new]
  · intro t pending
    by_cases new : t = s.created
    · rw [new]
      exact named
    · apply handles t new
      simp only [Server.Pending, Function.update_of_ne new] at pending
      exact pending
  · have same := Counting.card_update_same (fun client : Client => client.active = true)
      (Finset.range maxClients) s.clients i client (by rw [active, was])
    rw [same, inv.counted, closing, closing', Server.activeCount]

theorem inv_createSend (inv : Inv maxClients s) (i : Nat) (here : s.main = .createSend i) :
    Inv maxClients (mainStep maxClients s) := by
  have doing := inv.doing
  rw [here] at doing
  obtain ⟨active, idle⟩ := doing
  -- the slot was idle when it was granted: the new thread is the only one
  have none_ (t : Nat) (pending : s.Pending i t) : False := pending.2 (idle t pending.1)
  rw [mainStep, here]
  apply inv_create inv i { s.clients i with sendThread := some s.created } (.createCmd i)
    (by rw [here]; rfl) rfl active active
  · intro t _ pending
    exact absurd pending (none_ t)
  · exact .inl rfl
  · refine ⟨?_, ?_⟩
    · simp only [Server.setClient, Function.update_self]
      exact active
    · intro t pending
      simp only [Server.setClient, Function.update_self]
      by_cases new : t = s.created
      · rw [new]
      · simp only [Server.Pending, Server.setClient, Server.setThread, Function.update_of_ne new]
          at pending
        exact absurd pending (none_ t)

theorem inv_createCmd (inv : Inv maxClients s) (i : Nat) (here : s.main = .createCmd i) :
    Inv maxClients (mainStep maxClients s) := by
  have doing := inv.doing
  rw [here] at doing
  obtain ⟨active, send⟩ := doing
  rw [mainStep, here]
  apply inv_create inv i { s.clients i with cmdThread := some s.created } .accepting
    (by rw [here]; rfl) rfl active active
  · intro t _ pending
    exact .inl (send t pending)
  · exact .inr rfl
  · trivial

/-! ### `remove_client` -/

theorem join_some {s' : Server} {handle : Option Nat} (joined : s.join handle = some s') :
    ∃ threads, s' = { s with threads } ∧ (∀ t, (threads t).slot = (s.threads t).slot) ∧
      (∀ t, (s.threads t).state = .joined → (threads t).state = .joined) ∧
      ∀ t, handle = some t → (threads t).state = .joined := by
  unfold Server.join at joined
  split at joined
  · cases joined
    exact ⟨s.threads, rfl, fun _ => rfl, fun _ => id, nofun⟩
  · next t =>
    have set : some (s.setThread t { s.threads t with state := .joined }) = some s' := by
      split at joined
      · cases joined
      · exact joined
      · exact joined
    cases set
    refine ⟨_, rfl, setState_slot s.threads t .joined, ?_, ?_⟩
    · intro t' before
      by_cases same : t' = t
      · rw [same, Function.update_self]
      · rw [Function.update_of_ne same]
        exact before
    · rintro _ ⟨rfl⟩
      rw [Function.update_self]

section

variable (inv : Inv maxClients s)
include inv

theorem inv_clear (i : Nat) (here : s.main = .removing i .clear) :
    Inv maxClients (mainStep maxClients s) := by
  have doing := inv.doing
  rw [here] at doing
  obtain ⟨inside, active⟩ := doing
  have counted := inv.counted
  have fewer := Counting.card_update_loss (fun client : Client => client.active = true)
    (Finset.range maxClients) s.clients i { s.clients i with active := false }
    (Finset.mem_range.mpr inside) active Bool.false_ne_true
  rw [mainStep, here]
  refine inv.of_client i _ s.threads (.removing i .joinSend) s.clientCount s.created
    (fun _ _ => rfl) (by rw [here]; exact nofun) (inv.handles i) ?_ ?_ ?_
  · simp only [Doing, Function.update_self]
  · exact fun _ open_ => absurd rfl open_
  · rw [here, Server.activeCount, fewer] at counted
    rw [counted]
    rfl

theorem inv_joinSend (i : Nat) (here : s.main = .removing i .joinSend) :
    Inv maxClients (mainStep maxClients s) := by
  have doing := inv.doing
  rw [here] at doing
  rw [mainStep, here]
  dsimp only [removeClient]
  split
  · next s' joined =>
    obtain ⟨threads, rfl, slots, stays, done⟩ := join_some joined
    have inv' := inv.of_threads threads slots stays
    apply inv'.of_main (.removing i .joinCmd)
    · refine ⟨doing, fun t pending => ?_⟩
      -- the other thread of the slot
      rcases inv'.handles i t pending with send | cmd
      · exact absurd (done t send) pending.2
      · exact cmd
    · rw [here]
      rfl
  · exact inv.of_main (.removing i .joinSend) doing (by rw [here])

theorem inv_joinCmd (i : Nat) (here : s.main = .removing i .joinCmd) :
    Inv maxClients (mainStep maxClients s) := by
  have doing := inv.doing
  rw [here] at doing
  rw [mainStep, here]
  dsimp only [removeClient]
  split
  · next s' joined =>
    obtain ⟨threads, rfl, slots, stays, done⟩ := join_some joined
    have inv' := inv.of_threads threads slots stays
    apply inv'.of_main (.removing i .close)
    · refine ⟨doing.1, fun t on => ?_⟩
      by_contra pending
      have before : s.Pending i t :=
        ⟨(slots t).symm.trans on, fun joined => pending (stays t joined)⟩
      exact pending (done t (doing.2 t before))
    · rw [here]
      rfl
  · exact inv.of_main (.removing i .joinCmd) doing (by rw [here])

theorem inv_close (i : Nat) (here : s.main = .removing i .close) :
    Inv maxClients (mainStep maxClients s) := by
  have doing := inv.doing
  rw [here] at doing
  obtain ⟨inactive, idle⟩ := doing
  have counted := inv.counted
  have same := Counting.card_update_same (fun client : Client => client.active = true)
    (Finset.range maxClients) s.clients i { s.clients i with sock := -1 } Iff.rfl
  rw [mainStep, here]
  refine inv.of_client i _ s.threads (.removing i .decrement) s.clientCount s.created
    (fun _ _ => rfl) ?_ (inv.handles i) ?_ ?_ ?_
  · rw [here]
    rintro j ⟨rfl⟩
    rfl
  · simp only [Doing, Function.update_self]
    exact ⟨inactive, idle, trivial⟩
  · exact fun _ open_ => absurd rfl open_
  · rw [same, counted, here]
    rfl

theorem inv_decrement (i : Nat) (here : s.main = .removing i .decrement) :
    Inv maxClients (mainStep maxClients s) := by
  have doing := inv.doing
  have counted := inv.counted
  rw [here] at doing counted
  obtain ⟨inactive, idle, sock⟩ := doing
  rw [mainStep, here]
  -- the slot is not being closed any more, and must be clean by itself
  refine ⟨inv.watching, inv.handles, trivial, ?_, ?_⟩
  · intro j inactive' _
    by_cases same : j = i
    · subst same
      exact ⟨idle, sock⟩
    · apply inv.clean j inactive'
      rw [here]
      rintro ⟨rfl⟩
      exact same rfl
  · show s.clientCount - 1 = s.activeCount maxClients + 0
    rw [counted]
    simp [MainPc.closing]

theorem inv_mainStep : Inv maxClients (mainStep maxClients s) := by
  cases here : s.main with
  | accepting =>
    rw [mainStep, here]
    exact inv
  | createSend i => exact inv_createSend inv i here
  | createCmd i => exact inv_createCmd inv i here
  | removing i pc =>
    cases pc with
    | check =>
      rw [mainStep, here]
      dsimp only [removeClient]
      split
      · next effective =>
        exact inv.of_main (.removing i .clear) effective (by rw [here]; rfl)
      · exact inv.of_main .accepting trivial (by rw [here]; rfl)
    | clear => exact inv_clear inv i here
    | joinSend => exact inv_joinSend inv i here
    | joinCmd => exact inv_joinCmd inv i here
    | close => exact inv_close inv i here
    | decrement => exact inv_decrement inv i here

/-! ### The other threads -/

/-- Without a removal under way an inactive slot has no socket, so the reaper passes on. -/
theorem inv_reaperStep (open_ : s.main.closing = none) :
    Inv maxClients (reaperStep maxClients s) := by
  -- where the reaper stands plays no part in the rest of the invariant
  have moves (reaper : ReaperPc) (watching : ∀ i pc, reaper ≠ .removing i pc) :
      Inv maxClients { s with reaper } := by
    refine ⟨watching, inv.handles, ?_, inv.clean, inv.counted⟩
    have doing := inv.doing
    show Doing maxClients { s with reaper } s.main
    revert doing
    cases s.main with
    | removing i pc => cases pc <;> exact id
    | accepting | createSend | createCmd => exact id
  rw [reaperStep]
  split
  · exact moves _ nofun
  · next i here =>
    split
    · split
      · next found =>
        -- the slot is clean
        have sock := (inv.clean i found.2 (by rw [open_]; exact nofun)).2
        rw [sock] at found
        exact absurd found.1 (by decide)
      · exact moves _ nofun
    · exact moves _ nofun
  · next i pc here => exact absurd here (inv.watching i pc)

theorem inv_exit (t : Nat) (running : (s.threads t).state = .running) :
    Inv maxClients (s.setThread t { s.threads t with state := .exited }) := by
  apply inv.of_threads _ (setState_slot s.threads t .exited)
  intro t' joined
  have other : t' ≠ t := by
    rintro rfl
    rw [running] at joined
    cases joined
  rw [Function.update_of_ne other]
  exact joined

theorem inv_step (action : Action) (orderly : Orderly s action) :
    Inv maxClients (step maxClients s action) := by
  cases action with
  | connect sock =>
    rw [step]
    split
    · next here => exact inv_addClient inv here sock
    · exact inv
  | remove i =>
    rw [step]
    split
    · next here => exact inv.of_main (.removing i .check) trivial (by rw [here]; rfl)
    · exact inv
  | main => exact inv_mainStep inv
  | reaper => exact inv_reaperStep inv orderly
  | mark t =>
    rw [step]
    split
    · -- the slot is inactive already
      have inactive : (s.clients (s.threads t).slot).active = false := orderly
      have same : { s.clients (s.threads t).slot with active := false } =
          s.clients (s.threads t).slot := by
        rw [← inactive]
      dsimp only
      rw [same, Server.setClient, Function.update_eq_self]
      exact inv
    · exact inv
  | exit t =>
    rw [step]
    split
    · next running => exact inv_exit inv t running
    · exact inv

end

/-! ### Runs -/

theorem inv_run (orderly : Guarded.Meets (step maxClients) Orderly .initial actions) :
    Inv maxClients (run maxClients .initial actions) :=
  orderly.invariant (Inv maxClients) (fun _ action _ inv orderly => inv_step inv action orderly)
    (inv_initial maxClients)

theorem Inv.is_clean (inv : Inv maxClients s) (open_ : s.main.closing = none) :
    s.Clean maxClients := by
  refine ⟨fun i _ inactive => inv.clean i inactive (by rw [open_]; exact nofun), ?_⟩
  rw [inv.counted, if_pos open_]
  exact Int.add_zero _

/-- A connection is refused only if every slot is active. -/
theorem Inv.refuses_full (inv : Inv maxClients s) (here : s.main = .accepting)
    (refused : grant maxClients s = none) : s.activeCount maxClients = maxClients := by
  have clean := inv.is_clean (by rw [here]; rfl)
  have most : s.activeCount maxClients ≤ maxClients := by
    have bound := Finset.card_filter_le (Finset.range maxClients) fun i =>
      (s.clients i).active = true
    rwa [Finset.card_range] at bound
  rw [grant] at refused
  split at refused
  -- the count is right, so there is no room left
  · next full =>
    rw [clean.2] at full
    omega
  -- there is room by the count, but every slot is active
  · have every := List.find?_eq_none.mp refused
    rw [Server.activeCount, Finset.filter_true_of_mem, Finset.card_range]
    intro i member
    simpa using every i (List.mem_range.mpr (Finset.mem_range.mp member))

theorem reaperStep_main (watching : ∀ i pc, s.reaper ≠ .removing i pc) :
    (reaperStep maxClients s).main = s.main := by
  rw [reaperStep]
  split
  · rfl
  · split
    · split <;> rfl
    · rfl
  · next i pc here => exact absurd here (watching i pc)

/-- A run that ends with the reaper at work ends without a removal under way. -/
theorem clean_of_reaper
    (orderly : Guarded.Meets (step maxClients) Orderly .initial (actions ++ [Action.reaper])) :
    (run maxClients .initial (actions ++ [Action.reaper])).Clean maxClients := by
  -- the last action is one of the reaper, which is orderly only without a removal
  obtain ⟨before, last, -⟩ := (Guarded.meets_append _ _ _).mp orderly
  apply (inv_run orderly).is_clean
  rw [run, List.foldl_append]
  show (reaperStep maxClients (run maxClients .initial actions)).main.closing = none
  rw [reaperStep_main (inv_run before).watching]
  exact last

end

/-- In every run in which no worker marks an active slot and the reaper does not run during a
removal: a complete pass of the reaper leaves every inactive slot cleaned up and the count
right; a slot is given to a new client only when no thread can run on it any more; and a
connection is refused only when all slots are active. -/
theorem tcp_client_slots (maxClients : Nat) (actions : List Action)
    (orderly : Guarded.Meets (step maxClients) Orderly .initial actions) :
    (∀ before steps, actions = before ++ List.replicate (steps + 1) Action.reaper →
      (run maxClients .initial before).reaper = .sleeping →
      (run maxClients .initial actions).reaper = .sleeping →
      (run maxClients .initial actions).Clean maxClients) ∧
    ((run maxClients .initial actions).main = .accepting →
      ∀ i, grant maxClients (run maxClients .initial actions) = some i →
      ∀ t, ((run maxClients .initial actions).threads t).slot = i →
        ((run maxClients .initial actions).threads t).state ≠ .running) ∧
    ((run maxClients .initial actions).main = .accepting →
      grant maxClients (run maxClients .initial actions) = none →
      (run maxClients .initial actions).activeCount maxClients = maxClients) := by
  have inv := inv_run orderly
  refine ⟨?_, ?_, inv.refuses_full⟩
  · intro before steps split _ _
    subst split
    rw [List.replicate_succ', ← List.append_assoc] at orderly ⊢
    exact clean_of_reaper orderly
  · intro here i granted t on running
    have idle := (inv.clean i (grant_some granted).2 (by rw [here]; exact nofun)).1
    rw [idle t on] at running
    cases running

/-- A client comes and is removed, and the reaper passes. -/
def orderlyRun : List Action :=
  [.connect 5, .main, .main, .remove 0, .main, .main, .exit 0, .exit 1, .main, .main, .main, .main,
    .reaper, .reaper, .reaper, .reaper]

theorem tcp_client_slots_removed :
    (run 2 .initial orderlyRun).Clean 2 ∧ (run 2 .initial orderlyRun).created = 2 :=
  ⟨(tcp_client_slots 2 orderlyRun (by decide)).1 (orderlyRun.take 12) 3 rfl (by decide) (by decide),
    by decide⟩

/-- A client comes, its send worker fails and marks the slot, and the reaper passes: the slot
is left as it is, the next client gets it while the threads of the first still run, and the
one after that is refused with one slot active. -/
theorem tcp_client_slots_marked :
    let s := run 2 .initial
      ([.connect 5, .main, .main, .mark 0] ++ List.replicate 5 Action.reaper)
    let s' := run 2 s [.connect 6, .main, .main]
    s.reaper = .sleeping ∧ ¬s.Clean 2 ∧
      grant 2 s = some 0 ∧ s.threads 0 = ⟨0, .running⟩ ∧ s.threads 1 = ⟨0, .running⟩ ∧
      s'.main = .accepting ∧ grant 2 s' = none ∧ s'.activeCount 2 = 1 := by
  refine ⟨by decide, ?_, by decide, by decide, by decide, by decide, by decide, by decide⟩
  intro clean
  exact absurd (clean.1 0 (by decide) (by decide)).2 (by decide)

end RtlSdr.TcpSlots
