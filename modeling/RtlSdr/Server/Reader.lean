import RtlSdr.Server.Connections
import RtlSdr.RingDelivery

/-!
# Reading what is published

The publishers write blocks of whole samples, and whoever keeps a cursor is served from
the blocks written since it was taken, in order and without a hole, until the first gap.
The I/Q workers and the FFT thread are both such readers.
-/
namespace RtlSdr

variable {F D : Type} [CFloat F] [CDouble D F]

def Obs.block : Obs → Option (List UInt8)
  | .wrote block _ => some block
  | _ => none

/-- The blocks that entered the ring, in order. -/
def blocksOf (t : List Obs) : List (List UInt8) := t.filterMap Obs.block

/-- Whether the ring's generation is incremented: by a gap, or by sequence numbers that
start again. -/
def Obs.increments : Obs → Bool
  | .wrote _ rolled => rolled
  | .gapMarked => true
  | _ => false

/-- How often the ring's generation was incremented. -/
def incrementsOf (t : List Obs) : Nat := t.countP Obs.increments

@[simp] theorem blocksOf_nil : blocksOf [] = [] := rfl

@[simp] theorem incrementsOf_nil : incrementsOf [] = 0 := rfl

@[simp] theorem blocksOf_append (t later : List Obs) :
    blocksOf (t ++ later) = blocksOf t ++ blocksOf later := by
  simp [blocksOf]

@[simp] theorem incrementsOf_append (t later : List Obs) :
    incrementsOf (t ++ later) = incrementsOf t + incrementsOf later := by
  simp [incrementsOf]

theorem incrementsOf_wrote (block : List UInt8) (rolled : Bool) :
    incrementsOf [.wrote block rolled] = if rolled then 1 else 0 := by
  cases rolled <;> rfl

theorem aside_ring (observed : List Obs) (part : ∀ e ∈ observed, e.part ≠ .ring) :
    blocksOf observed = [] ∧ incrementsOf observed = 0 := by
  constructor
  · rw [blocksOf, List.filterMap_eq_nil_iff]
    intro e member
    cases e with
    | wrote => exact absurd rfl (part _ member)
    | _ => rfl
  · rw [incrementsOf, List.countP_eq_zero]
    intro e member
    cases e with
    | wrote | gapMarked => exact absurd rfl (part _ member)
    | _ => simp [Obs.increments]

variable {cfg : Config F} {observed : List Obs} {srv' srv : Server F D}

theorem StepEffect.ring_cases (effect : StepEffect cfg srv srv' observed) :
    (srv'.ring = srv.ring ∧ blocksOf observed = [] ∧ incrementsOf observed = 0) ∨
    (∃ p input, srv.publishers p = .writing input ∧
      ringWriteCopy srv.ring (srv.nextBlock input) = some srv'.ring ∧
      observed = [.wrote (srv.nextBlock input) (srv.ring.rollsOver (srv.nextBlock input))]) ∨
    (srv'.ring = ringMarkGap srv.ring ∧ observed = [.gapMarked]) := by
  cases effect with
  | publish => exact .inl ⟨rfl, rfl, rfl⟩
  | write p input ring publisher writing stored =>
    exact .inr (.inl ⟨p, input, writing, stored, rfl⟩)
  | gap => exact .inr (.inr ⟨rfl, rfl⟩)
  | aside _ _ _ _ _ _ part =>
    exact .inl ⟨rfl, aside_ring _ fun e member => by simp [part e member]⟩
  | notify => exact .inl ⟨rfl, rfl, rfl⟩
  | run _ _ effect =>
    exact .inl ⟨effect.ring, aside_ring _ fun e member => effect.part_ne member (by decide)⟩
  | fft plan =>
    obtain ⟨_, _, _, _, result, _, _, observed⟩ := fftStep_effect plan srv
    refine .inl ⟨by simp only [result], aside_ring _ fun e member => ?_⟩
    rcases observed e member with ⟨_, announced, _⟩ | spectra
    · simp [announced_part srv e announced]
    · simp [spectra]
  | worker slot works arrived pc thread =>
    have spoken := workerStep_effect cfg srv (srv.clients slot) works arrived pc thread
    refine .inl ⟨rfl, aside_ring _ fun e member => ?_⟩
    simp [part_of_speaker e _ (spoken.speaks e member)]

/-! ### What is waiting to be written -/

/-- A publisher in the middle of a call was there before, has just been called with whole
samples, or has written its next block. -/
theorem StepEffect.writing (effect : StepEffect cfg srv srv' observed) (p : Nat)
    (input : List UInt8) (now : srv'.publishers p = .writing input) :
    srv.publishers p = .writing input ∨ (input.length % 2 = 0 ∧ input ≠ []) ∨
    ∃ old, srv.publishers p = .writing old ∧
      input = old.drop (min old.length srv.ring.slotSize) ∧ input ≠ [] := by
  cases effect with
  | publish q publisher whole =>
    by_cases same : p = q
    · subst same
      exact .inr (.inl (whole input (by simpa [Server.setPublisher] using now)))
    · exact .inl (by simpa [Server.setPublisher, same] using now)
  | write q old ring publisher writing stored rest =>
    by_cases same : p = q
    · subst same
      exact .inr (.inr ⟨old, writing, rest input (by simpa [Server.setPublisher] using now)⟩)
    · exact .inl (by simpa [Server.setPublisher, same] using now)
  | gap publishers fewer => exact .inl (fewer p input now)
  | aside => exact .inl now
  | notify => exact .inl now
  | run _ _ effect => exact .inl (effect.publishers ▸ now)
  | fft plan =>
    obtain ⟨_, _, _, _, result, _⟩ := fftStep_effect plan srv
    rw [result] at now
    exact .inl now
  | worker => exact .inl now

/-- A call of `rtlsdr_server_publish` returns when it has nothing left. -/
def Waiting (srv : Server F D) : Prop := ∀ p input, srv.publishers p = .writing input → input ≠ []

theorem StepEffect.waiting (effect : StepEffect cfg srv srv' observed) (waiting : Waiting srv) :
    Waiting srv' := by
  intro p input now
  rcases effect.writing p input now with old | ⟨_, nonempty⟩ | ⟨_, _, _, nonempty⟩
  · exact waiting p input old
  · exact nonempty
  · exact nonempty

/-- With an even slot size, what is waiting and what was written are whole samples. -/
structure Published (size : Nat) (srv : Server F D) (t : List Obs) : Prop where
  sized : srv.ring.slotSize = size
  whole : ∀ p input, srv.publishers p = .writing input → input.length % 2 = 0
  blocks : ∀ block ∈ blocksOf t, block.length % 2 = 0

theorem StepEffect.published {t : List Obs} (effect : StepEffect cfg srv srv' observed)
    {size : Nat} (even : size % 2 = 0) (published : Published size srv t) :
    Published size srv' (t ++ observed) := by
  have sized := published.sized
  constructor
  · rcases effect.ring_cases with ⟨same, _⟩ | ⟨p, input, _, stored, _⟩ | ⟨gap, _⟩
    · rw [same, sized]
    · rw [ringWriteCopy_slotSize _ _ _ stored, sized]
    · rw [gap, ringMarkGap_slotSize, sized]
  · intro p input now
    rcases effect.writing p input now with old | ⟨whole, _⟩ | ⟨old, writing, rfl, _⟩
    · exact published.whole p input old
    · exact whole
    · have whole := published.whole p old writing
      rw [List.length_drop]
      omega
  · intro block member
    rw [blocksOf_append, List.mem_append] at member
    rcases member with old | new
    · exact published.blocks block old
    · rcases effect.ring_cases with ⟨_, none, _⟩ | ⟨p, input, writing, _, rfl⟩ | ⟨_, rfl⟩
      · simp [none] at new
      · cases List.mem_singleton.mp new
        have whole := published.whole p input writing
        rw [Server.nextBlock, List.length_take]
        omega
      · cases new

omit [CFloat F] [CDouble D F] in
theorem nextBlock_accepted (srv : Server F D) (input : List UInt8) (nonempty : input ≠ []) :
    srv.ring.accepts (srv.nextBlock input) = true := by
  have some := List.length_pos_iff.mpr nonempty
  have room := srv.ring.slotSize_pos
  simp only [Ring.accepts, Server.nextBlock, List.length_take, decide_eq_true_eq]
  omega

/-! ### Readers -/

/-- A cursor from which `consumed` has been read, `since` being what was observed after it
was taken. -/
structure Reading (ring : Ring) (c : Cursor) (since : List Obs) (consumed : List (List UInt8)) :
    Prop where
  taken : consumed <+: blocksOf since
  follows : Follows ring c ((blocksOf since).drop consumed.length) (incrementsOf since)
  position : consumed.length ≤ c.nextSeq

theorem reading_start (ring : Ring) : Reading ring (ringCursorNow ring) [] [] where
  taken := List.prefix_rfl
  follows := ringCursorNow_tracks ring
  position := Nat.zero_le _

/-- The ring moves on from one state to another, and every reader is owed what it wrote. -/
def Serving (ring ring' : Ring) (observed : List Obs) : Prop :=
  ∀ c since consumed, Reading ring c since consumed → Reading ring' c (since ++ observed) consumed

theorem serving_aside (ring : Ring) (observed : List Obs) (part : ∀ e ∈ observed, e.part ≠ .ring) :
    Serving ring ring observed := by
  rintro c since consumed ⟨taken, follows, position⟩
  obtain ⟨blocks, few⟩ := aside_ring observed part
  constructor
  · rwa [blocksOf_append, blocks, List.append_nil]
  · rwa [blocksOf_append, blocks, List.append_nil, incrementsOf_append, few]
  · exact position

/-- No step takes from a reader what it is owed. -/
theorem StepEffect.serving (effect : StepEffect cfg srv srv' observed) (waiting : Waiting srv) :
    Serving srv.ring srv'.ring observed := by
  rintro c since consumed ⟨taken, follows, position⟩
  refine ⟨?_, ?_, position⟩
  · rw [blocksOf_append]
    exact taken.trans (List.prefix_append _ _)
  · have grown : (blocksOf (since ++ observed)).drop consumed.length =
        (blocksOf since).drop consumed.length ++ blocksOf observed := by
      rw [blocksOf_append, List.drop_append_of_le_length taken.length_le]
    rw [grown, incrementsOf_append]
    rcases effect.ring_cases with ⟨same, none, few⟩ | ⟨p, input, writing, stored, rfl⟩ | ⟨gap, rfl⟩
    · rw [same, none, few, List.append_nil]
      exact follows
    · have accepted := nextBlock_accepted srv input (waiting p input writing)
      have moved := follows.write (srv.nextBlock input)
      rw [stored, Option.getD_some, if_pos accepted] at moved
      rw [incrementsOf_wrote]
      exact moved
    · rw [gap]
      exact follows.increment rfl

/-- A read with room for a slot: the gap if there was one, nothing if nothing is left, the
next block otherwise. -/
theorem Reading.read {ring : Ring} {c : Cursor} {since : List Obs} {consumed : List (List UInt8)}
    (reading : Reading ring c since consumed) (few : incrementsOf since < 2 ^ 64)
    (dst : List UInt8) (capacity : ring.slotSize ≤ dst.length) :
    ringReadCopy ring c dst = ⟨.gap, c, dst, 0⟩ ∨ ringReadCopy ring c dst = ⟨.empty, c, dst, 0⟩ ∨
    ∃ block, (ringReadCopy ring c dst).result = .data ∧ (ringReadCopy ring c dst).block = block ∧
      block.length ≤ ring.slotSize ∧ incrementsOf since = 0 ∧ consumed.length < uint64Max ∧
      Reading ring (ringReadCopy ring c dst).cursor since (consumed ++ [block]) := by
  by_cases current : incrementsOf since = 0
  · have tracks : Tracks ring c ((blocksOf since).drop consumed.length) := by
      simpa [Follows, current] using reading.follows
    rcases ringReadCopy_tracks ring c _ dst tracks capacity with
      ⟨_, gap⟩ | ⟨_, empty⟩ | ⟨block, rest, pending, _, data, same, fits, next⟩
    · exact .inl gap
    · exact .inr (.inl empty)
    · have split : blocksOf since = (consumed ++ [block]) ++ rest := by
        obtain ⟨left, whole⟩ := reading.taken
        rw [← whole, List.drop_left] at pending
        rw [← whole, pending, List.append_assoc]
        rfl
      have seq := tracks.nextSeq
      have moved := next.nextSeq
      have bound := ring.nextSeq_le
      have position := reading.position
      rw [pending, List.length_cons] at seq
      refine .inr (.inr ⟨block, data, same, fits, current, by omega, ?_, ?_, ?_⟩)
      · rw [split]
        exact List.prefix_append _ _
      · rw [split, List.drop_left]
        simpa [Follows, current] using next
      · rw [List.length_append, List.length_singleton]
        omega
  · left
    exact ringReadCopy_stale ring c dst (reading.follows.stale (Nat.pos_of_ne_zero current) few)

/-! ### Publishing undisturbed -/

theorem serverRun_append (cfg : Config F) (srv : Server F D) (actions later : List Action) :
    serverRun cfg srv (actions ++ later) =
      ((serverRun cfg (serverRun cfg srv actions).1 later).1,
        (serverRun cfg srv actions).2 ++ (serverRun cfg (serverRun cfg srv actions).1 later).2) :=
  Transducer.run_append _ _ _ _

theorem serverRun_trans {srv'' : Server F D} {actions later : List Action} {t t' : List Obs}
    (first : serverRun cfg srv actions = (srv', t))
    (second : serverRun cfg srv' later = (srv'', t')) :
    serverRun cfg srv (actions ++ later) = (srv'', t ++ t') := by
  rw [serverRun_append, first, second]

section Undisturbed

variable (cfg : Config F) (srv : Server F D) (going : srv.stopping = false)
  (idle : srv.publishers 0 = .idle)

include going idle

theorem serverRun_publish (block : List UInt8) (whole : block.length % 2 = 0)
    (accepted : srv.ring.accepts block = true) (ring : Ring)
    (stored : ringWriteCopy srv.ring block = some ring) :
    serverRun cfg srv [.publish 0 block, .publishNext 0] =
      ({ srv with ring }, [.wrote block (srv.ring.rollsOver block)]) := by
  simp only [Ring.accepts, decide_eq_true_eq] at accepted
  have all : block.take (min block.length srv.ring.slotSize) = block := by
    rw [Nat.min_eq_left accepted.2, List.take_length]
  have rest : (block.drop (min block.length srv.ring.slotSize)).length = 0 := by
    rw [Nat.min_eq_left accepted.2, List.drop_length]
    rfl
  have even : ¬block.length &&& 1 ≠ 0 := by
    rw [Nat.and_one_is_mod, whole]
    exact fun odd => odd rfl
  have enters : publishStep srv 0 block = srv.setPublisher 0 (.writing block) := by
    rw [publishStep, if_neg, if_neg even]
    rintro (busy | stopping | empty)
    · exact busy idle
    · rw [going] at stopping
      cases stopping
    · omega
  have again : Function.update (Function.update srv.publishers 0 (.writing block)) 0 .idle =
      srv.publishers := by
    rw [Function.update_idem, Function.update_eq_self_iff, idle]
  simp only [serverRun, Transducer.run_cons, Transducer.run_nil, serverStep, enters,
    publishNextStep, Server.setPublisher, Function.update_self, all, stored, rest, if_true, again,
    List.nil_append, List.append_nil]

theorem serverRun_publish_odd (byte : UInt8) :
    serverRun cfg srv [.publish 0 [byte], .publishNext 0] =
      ({ srv with ring := ringMarkGap srv.ring }, [.gapMarked]) := by
  have enters : publishStep srv 0 [byte] = srv.setPublisher 0 .gap := by
    simp [publishStep, idle, going]
  have again : Function.update (Function.update srv.publishers 0 .gap) 0 .idle =
      srv.publishers := by
    rw [Function.update_idem, Function.update_eq_self_iff, idle]
  simp only [serverRun, Transducer.run_cons, Transducer.run_nil, serverStep, enters,
    publishNextStep, Server.setPublisher, Function.update_self, again, List.nil_append,
    List.append_nil]

theorem serverRun_publishes (block : List UInt8) (whole : block.length % 2 = 0)
    (accepted : srv.ring.accepts block = true) (n : Nat)
    (room : srv.ring.nextSeq + n ≤ uint64Max) :
    ∃ ring, serverRun cfg srv (List.replicate n [.publish 0 block, .publishNext 0]).flatten =
        ({ srv with ring }, List.replicate n (Obs.wrote block false)) ∧
      ring.nextSeq = srv.ring.nextSeq + n ∧ ring.generation = srv.ring.generation ∧
      ring.slotCount = srv.ring.slotCount ∧ ring.slotSize = srv.ring.slotSize := by
  induction n generalizing srv with
  | zero => exact ⟨srv.ring, rfl, rfl, rfl, rfl, rfl⟩
  | succ n ih =>
    rcases ringWriteCopy_cases srv.ring block with ⟨refused, _⟩ | ⟨fits, left, _, stays, stored⟩ |
      ⟨_, _, _, rolls, _⟩
    · rw [accepted] at refused
      cases refused
    · have first := serverRun_publish cfg srv going idle block whole accepted _ stored
      rw [stays] at first
      obtain ⟨ring, later, seq, rest⟩ := ih { srv with ring := srv.ring.store block fits left }
        going idle accepted (by simp only [Ring.store]; omega)
      refine ⟨ring, ?_, ?_, rest⟩
      · rw [List.replicate_succ, List.flatten_cons, serverRun_append, first, later]
        rfl
      · rw [seq]
        simp only [Ring.store]
        omega
    · simp only [Ring.rollsOver, accepted, Bool.true_and, decide_eq_true_eq] at rolls
      omega

theorem serverRun_publishes_odd (byte : UInt8) (n : Nat) :
    ∃ ring, serverRun cfg srv (List.replicate n [.publish 0 [byte], .publishNext 0]).flatten =
        ({ srv with ring }, List.replicate n Obs.gapMarked) ∧
      ring.nextSeq = srv.ring.nextSeq ∧
      ring.generation = (srv.ring.generation + n) % 2 ^ 64 ∧
      ring.slotCount = srv.ring.slotCount ∧ ring.slotSize = srv.ring.slotSize := by
  induction n generalizing srv with
  | zero =>
    refine ⟨srv.ring, rfl, rfl, ?_, rfl, rfl⟩
    exact (Nat.mod_eq_of_lt srv.ring.generation_lt).symm
  | succ n ih =>
    have first := serverRun_publish_odd cfg srv going idle byte
    obtain ⟨ring, later, seq, generation, rest⟩ :=
      ih { srv with ring := ringMarkGap srv.ring } going idle
    refine ⟨ring, ?_, seq, ?_, rest⟩
    · rw [List.replicate_succ, List.flatten_cons, serverRun_append, first, later]
      rfl
    · rw [generation]
      simp only [ringMarkGap, Nat.mod_add_mod]
      congr 1
      omega

end Undisturbed

end RtlSdr
