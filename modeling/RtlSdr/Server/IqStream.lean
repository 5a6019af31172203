import RtlSdr.Server.IqWorker

/-!
# The I/Q stream of a connection

From the moment its worker takes a cursor, a connection is sent one stream: the frames are numbered
from zero, and their payloads are what a single pass of the receiver chain makes of the blocks
published since, whatever the schedule and however the blocks were cut.
-/
namespace RtlSdr

variable {F D : Type} [CFloat F] [CDouble D F]

/-! ### Every run -/

structure Streamers (cfg : Config F) (limit : Nat) (srv : Server F D) (t : List Obs) : Prop where
  slots : Lifecycle srv t
  waiting : Waiting srv
  published : Published limit srv t
  connections : Tracked (fun srv t cl => Streaming cfg limit srv.ring t cl)
    (OneStream cfg D limit) srv t

theorem streamers_step {cfg : Config F} {limit : Nat} (even : limit % 2 = 0)
    (limit_le : limit ≤ maxIqComponents) {srv : Server F D} {t : List Obs}
    (inv : Streamers cfg limit srv t) (a : Action) :
    Streamers cfg limit (serverStep cfg srv a).1 (t ++ (serverStep cfg srv a).2) where
  slots := inv.slots.serverStep cfg a
  waiting := (inv.slots.effect cfg a).waiting inv.waiting
  published := (inv.slots.effect cfg a).published even inv.published
  connections := by
    have quiet (fd : Int) (observed : List Obs) (silent : ∀ e ∈ observed, e.speaker ≠ some fd) :
        Untaken observed fd := fun e member => streams_of_speaker e fd (silent e member)
    apply tracked_step inv.slots cfg a _ _ _ _ _ _ _ inv.connections
    · exact fun t e fd other streams => streams.quiet (quiet fd [e] (by simpa using other))
    · exact fun _ _ _ streaming => streaming.streams
    · intro srv t cl thread _ fresh
      have untaken : Untaken t cl.fd := quiet cl.fd t fresh
      refine ⟨⟨fun _ => untaken, fun before req since split => ?_⟩, fun pc here => ?_⟩
      · exact absurd (by simp [split]) (not_mem_of_quiet untaken (.cursorTaken cl.fd req)
          (by simp [Obs.streams]))
      · cases thread.symm.trans here
        exact untaken
    · intro i works arrived pc thread streaming
      exact streaming_worker inv.published limit_le i works arrived pc thread streaming
    · intro srv' observed cl state effect silent streaming
      exact streaming.others (effect.serving inv.waiting) (quiet cl.fd observed silent) state

theorem streamers_run (cfg : Config F) (ring : Ring) (even : ring.slotSize % 2 = 0)
    (limit_le : ring.slotSize ≤ maxIqComponents) (actions : List Action) :
    Streamers cfg ring.slotSize (serverRun cfg (.initial cfg ring : Server F D) actions).1
      (serverRun cfg (.initial cfg ring : Server F D) actions).2 := by
  apply Transducer.run_observed (serverStep cfg) (Streamers cfg ring.slotSize)
  · exact fun _ _ a inv => streamers_step even limit_le inv a
  · refine ⟨lifecycle_initial cfg ring, ?_, ⟨rfl, ?_, by simp⟩, ?_, ?_⟩
    · intro p input writing
      cases writing
    · intro p input writing
      cases writing
    · exact fun i alive => absurd rfl alive
    · exact fun fd => ⟨fun _ => by simp [Untaken], fun before req since split => by simp at split⟩

omit [CDouble D F] in
theorem serverInit_spec {works : Bool} {iqPort fftPort : Int} {ring : Option Ring}
    {captureFreq captureRate : UInt64} {backend : (bins : Nat) → Option (FftTransform F bins)}
    {cfg : Config F} {srv : Server F D}
    (init : serverInit works iqPort fftPort ring captureFreq captureRate backend =
      some (cfg, srv)) :
    ∃ r, ring = some r ∧ srv = .initial cfg r ∧ r.slotSize % 2 = 0 ∧
      r.slotSize ≤ maxIqComponents := by
  unfold serverInit at init
  split at init
  · cases init
  next r =>
    by_cases refused : r.slotSize &&& 1 ≠ 0 ∨ r.slotSize > maxIqComponents
    · rw [if_pos (refused.imp_right .inl)] at init
      cases init
    obtain ⟨whole, small⟩ := not_or.mp refused
    have even : r.slotSize % 2 = 0 := by
      rw [← Nat.and_one_is_mod]
      exact not_not.mp whole
    split_ifs at init
    · split at init
      · cases init
      · cases init
        exact ⟨r, rfl, rfl, even, Nat.le_of_not_lt small⟩
    · cases init
      exact ⟨r, rfl, rfl, even, Nat.le_of_not_lt small⟩

/-- One call of `rtlsdr_dsp_process` on all of the input, with room for all of the output. -/
def oneCall (input : List UInt8) : ProcessCall :=
  ⟨some input, input.length, some (List.replicate input.length 0), input.length, some 0⟩

theorem oneCall_eq (fresh : Dsp F D) (stages : fresh.numStages ≤ maxStages)
    (blocks : List (List UInt8)) (even : ∀ block ∈ blocks, block.length % 2 = 0) :
    dspCall fresh (oneCall blocks.flatten) = filtered fresh blocks := by
  obtain ⟨whole, samples⟩ := flatten_even blocks even
  have piece : (oneCall blocks.flatten).piece = blocks.flatten := by
    simp only [oneCall, ProcessCall.piece, Nat.and_one_is_mod, whole, List.take_length]
    simp
  rw [dspCall_eq fresh _ stages, piece, samples]
  rfl

/-- The I/Q stream of every connection, over every interleaving: with fewer than 2^64
increments of the ring's generation since its worker took a cursor. -/
theorem iq_stream (works : Bool) (iqPort fftPort : Int) (ring : Option Ring)
    (captureFreq captureRate : UInt64) (backend : (bins : Nat) → Option (FftTransform F bins))
    (cfg : Config F) (srv : Server F D)
    (init : serverInit works iqPort fftPort ring captureFreq captureRate backend =
      some (cfg, srv)) (actions : List Action) (fd : Int) :
    let history := (serverRun cfg srv actions).2
    let frames := iqFrames fd history
    -- nothing is sent before the cursor is taken
    ((∀ req, .cursorTaken fd req ∉ history) → frames = []) ∧
    ∀ before req since, history = before ++ .cursorTaken fd req :: since →
      incrementsOf since < 2 ^ 64 →
      -- numbered from zero without holes, for the request, of whole samples
      (∀ i (hdr : IqHdr) samples, frames[i]? = some (hdr, samples) →
        hdr.Describes req maxIqComponents i samples) ∧
      -- what one pass over everything written since makes, as far as it has been sent
      (∃ fresh : Dsp F D, cfg.Serves req fresh ∧
        frames.flatMap Prod.snd <+: (dspCall fresh (oneCall (blocksOf since).flatten)).2) ∧
      -- no odd block, no refused call of the chain, no refused encoding
      ∀ failure, .failed fd failure ∉ history := by
  obtain ⟨ring, rfl, rfl, even, limit_le⟩ := serverInit_spec init
  intro history frames
  have inv : Streamers cfg ring.slotSize _ history := streamers_run cfg ring even limit_le actions
  have streams := inv.connections.past fd
  refine ⟨fun untaken => iqFrames_quiet fd history (streams.before untaken), ?_⟩
  intro before req since split few
  obtain ⟨described, ⟨fresh, serves, output⟩, unfailed⟩ := streams.since before req since split few
  refine ⟨fun i hdr samples here => ?_, ⟨fresh, serves, ?_⟩, unfailed⟩
  · have fits := described i hdr samples here
    exact { fits with most := fits.most.trans limit_le }
  · rw [oneCall_eq fresh (serves.numStages []) _ fun block member => ?_]
    · exact output
    · apply inv.published.blocks
      rw [split, ← List.singleton_append, blocksOf_append, blocksOf_append]
      simp [member]

/-- A client that asks for the raw stream, from its connection to its cursor. -/
def joinRun : List Action :=
  List.replicate 41 (Action.run .ok) ++
  List.replicate 5
    (Action.worker ⟨0, by decide⟩ true (reqBytes ⟨magicReq, 100000000, 2400000, 2400000, modeIq⟩))

theorem iq_stream_one_block :
    ∃ cfg, ∃ srv : Server Float32 Float,
      serverInit true 1234 0 (ringCreate 2 4 (some fun _ => 0)) 100000000 2400000
        (fun _ => none) = some (cfg, srv) ∧
      let history := (serverRun cfg srv (joinRun ++ [.publish 0 [1, 2, 3, 4], .publishNext 0] ++
        List.replicate 7 (.worker ⟨0, by decide⟩ true []))).2
      ∃ before req since hdr samples, history = before ++ .cursorTaken 0 req :: since ∧
        iqFrames 0 history = [(hdr, samples)] ∧ hdr.Describes req maxIqComponents 0 samples := by
  refine ⟨_, _, rfl, ?_⟩
  intro history
  have taken : .cursorTaken 0 ⟨magicReq, 100000000, 2400000, 2400000, modeIq⟩ ∈ history := by
    decide +kernel
  have few : incrementsOf history < 2 ^ 64 := by decide +kernel
  have one : (iqFrames 0 history).length = 1 := by decide +kernel
  obtain ⟨before, since, split⟩ := List.append_of_mem taken
  obtain ⟨⟨hdr, samples⟩, here⟩ := List.length_eq_one_iff.mp one
  refine ⟨before, _, since, hdr, samples, split, here, ?_⟩
  have spec := (iq_stream true 1234 0 (ringCreate 2 4 (some fun _ => 0)) 100000000 2400000
    (fun _ => none) _ _ rfl _ 0).2 before _ since split
  refine (spec ?_).1 0 hdr samples ?_
  · rw [split, ← List.singleton_append, incrementsOf_append, incrementsOf_append] at few
    omega
  · show (iqFrames 0 history)[0]? = _
    rw [here]
    rfl

theorem one_lt_word : 1 < 2 ^ 64 := by decide

/-- The slot that the second block of `iq_stream_generation_returns` ends up in. -/
def lastRing : Ring :=
  { data := [129, 127], slotLens := [2], slotCount := 1, slotSize := 2, nextSeq := 1
    generation := 1, retained := 1
    slotCount_pos := by decide, slotSize_pos := by decide, data_length := rfl
    slotLens_length := rfl, slotLens_le := by decide, nextSeq_le := by decide
    generation_lt := one_lt_word, retained_le := by decide, retained_le_nextSeq := by decide }

theorem ringWriteCopy_last (ring : Ring) (slots : ring.slotCount = 1) (size : ring.slotSize = 2)
    (full : ring.nextSeq = uint64Max) (zero : ring.generation = 0) :
    ringWriteCopy ring [129, 127] = some lastRing := by
  have data : ring.data.length = 2 := by rw [ring.data_length, slots, size]
  have lens : ring.slotLens.length = 1 := by rw [ring.slotLens_length, slots]
  obtain ⟨len, single⟩ := List.length_eq_one_iff.mp lens
  unfold ringWriteCopy
  rw [dif_pos (by simp [size]), if_neg (by simp), dif_pos full]
  congr 1
  ext1
  · simp [Ring.store, Ring.rollOver, Memory.splice, data, lastRing]
  · simp [Ring.store, Ring.rollOver, single, lastRing]
  · exact slots
  · exact size
  · rfl
  · simp [Ring.store, Ring.rollOver, zero, lastRing]
  · simp [Ring.store, Ring.rollOver, slots, lastRing]

/-- 2^64 - 1 blocks are written, 2^64 - 1 odd publishes leave gaps, and the next block rolls
the sequence numbers over into the first generation. -/
def returningPublishes : List Action :=
  (List.replicate uint64Max [Action.publish 0 [128, 127], Action.publishNext 0]).flatten ++
  (List.replicate uint64Max [Action.publish 0 [0], Action.publishNext 0]).flatten ++
  [Action.publish 0 [129, 127], Action.publishNext 0]

theorem serverRun_returning (cfg : Config F) (srv : Server F D)
    (going : srv.stopping = false) (idle : srv.publishers 0 = .idle)
    (slots : srv.ring.slotCount = 1) (size : srv.ring.slotSize = 2)
    (seq : srv.ring.nextSeq = 0) (generation : srv.ring.generation = 1) :
    serverRun cfg srv returningPublishes =
      ({ srv with ring := lastRing },
        List.replicate uint64Max (Obs.wrote [128, 127] false) ++
        List.replicate uint64Max Obs.gapMarked ++ [Obs.wrote [129, 127] true]) := by
  obtain ⟨written, writes, writtenSeq, writtenGeneration, writtenSlots, writtenSize⟩ :=
    serverRun_publishes cfg srv going idle [128, 127] rfl (by simp [Ring.accepts, size]) uint64Max
      (by rw [seq, Nat.zero_add])
  obtain ⟨marked, gaps, markedSeq, markedGeneration, markedSlots, markedSize⟩ :=
    serverRun_publishes_odd cfg { srv with ring := written } going idle 0 uint64Max
  have full : marked.nextSeq = uint64Max := by
    rw [markedSeq, writtenSeq, seq, Nat.zero_add]
  have zero : marked.generation = 0 := by
    rw [markedGeneration, writtenGeneration, generation]
    decide
  have room : marked.slotSize = 2 := markedSize.trans (writtenSize.trans size)
  have stored := ringWriteCopy_last marked (markedSlots.trans (writtenSlots.trans slots)) room
    full zero
  have accepted : marked.accepts [129, 127] = true := by simp [Ring.accepts, room]
  have last := serverRun_publish cfg { srv with ring := marked } going idle [129, 127] rfl accepted
    lastRing stored
  have rolls : marked.rollsOver [129, 127] = true := by simp [Ring.rollsOver, accepted, full]
  rw [rolls] at last
  rw [returningPublishes, serverRun_append, serverRun_append, writes, gaps, last]

theorem iq_stream_generation_returns :
    ∃ (cfg : Config Whole) (srv : Server Whole Whole) (actions : List Action)
      (before since : List Obs) (req : StreamReq),
      serverInit true 1234 0 (ringCreate 1 2 (some fun _ => 0)) 100000000 2400000
        (fun _ => none) = some (cfg, srv) ∧
      (serverRun cfg srv actions).2 = before ++ .cursorTaken 0 req :: since ∧
      ¬∃ fresh : Dsp Whole Whole, cfg.Serves req fresh ∧
        (iqFrames 0 (serverRun cfg srv actions).2).flatMap Prod.snd <+:
          (dspCall fresh (oneCall (blocksOf since).flatten)).2 := by
  let cfg : Config Whole := ⟨100000000, 2400000, none⟩
  let req : StreamReq := ⟨magicReq, 100000000, 2400000, 2400000, modeIq⟩
  obtain ⟨srv, init⟩ : ∃ srv : Server Whole Whole,
      serverInit true 1234 0 (ringCreate 1 2 (some fun _ => 0)) 100000000 2400000
        (fun _ => none) = some (cfg, srv) := ⟨_, rfl⟩
  have joined : (serverRun cfg srv joinRun).2 =
      [.accepted 0, .created ⟨0, by decide⟩ 0 1, .cursorTaken 0 req] := by
    cases init
    decide +kernel
  have published := serverRun_returning cfg (serverRun cfg srv joinRun).1
    (by cases init; decide +kernel) (by cases init; decide +kernel) (by cases init; decide +kernel)
    (by cases init; decide +kernel) (by cases init; decide +kernel) (by cases init; decide +kernel)
  have sent : (serverRun cfg { (serverRun cfg srv joinRun).1 with ring := lastRing }
      (List.replicate 7 (.worker ⟨0, by decide⟩ true []))).2 =
      [.sent 0 (.iq ⟨magicIq, 100000000, 2400000, 0, 2⟩ [512, -512]) true] := by
    cases init
    decide +kernel
  refine ⟨cfg, srv, joinRun ++ returningPublishes ++
    List.replicate 7 (Action.worker ⟨0, by decide⟩ true []),
    [.accepted 0, .created ⟨0, by decide⟩ 0 1],
    List.replicate uint64Max (Obs.wrote [128, 127] false) ++
      List.replicate uint64Max Obs.gapMarked ++ [Obs.wrote [129, 127] true] ++
      [Obs.sent 0 (.iq ⟨magicIq, 100000000, 2400000, 0, 2⟩ [512, -512]) true], req, init, ?_, ?_⟩
  · rw [serverRun_append, serverRun_append, joined, published, sent]
    simp
  · rintro ⟨fresh, ⟨bandwidth, valid, created⟩, output⟩
    obtain rfl : bandwidth = 2400000 := by
      have same : dspValidate Whole cfg.captureRate.toNat req.rate.toNat req.bandwidth.toNat
          (req.freq.toNat - cfg.captureFreq.toNat) = some 2400000 := by decide +kernel
      exact Option.some.inj (valid.symm.trans same)
    have stages := (dspCreate_stages _ _ _ _ _ fresh created).1
    have first : (filtered fresh [[128, 127]]).2 = [256, -256] := by
      have all : (dspCreate true cfg.captureRate.toNat req.rate.toNat 2400000
          (req.freq.toNat - cfg.captureFreq.toNat) : Option (Dsp Whole Whole)).map
          (fun dsp => (filtered dsp [[128, 127]]).2) = some [256, -256] := by decide +kernel
      rw [created] at all
      exact Option.some.inj all
    have quiet (e : Obs) (off : e.streams 0 = false) :
        iqFrames 0 (List.replicate uint64Max e) = [] :=
      iqFrames_quiet 0 _ fun e member => by rw [List.eq_of_mem_replicate member, off]
    rw [serverRun_append, serverRun_append, joined, published, sent] at output
    simp only [iqFrames_append, quiet (.wrote [128, 127] false) rfl, quiet .gapMarked rfl] at output
    obtain ⟨k, more⟩ : ∃ k, uint64Max = k + 1 := ⟨uint64Max - 1, rfl⟩
    have blocks : blocksOf (List.replicate uint64Max (Obs.wrote [128, 127] false) ++
        List.replicate uint64Max Obs.gapMarked ++ [Obs.wrote [129, 127] true] ++
        [Obs.sent 0 (.iq ⟨magicIq, 100000000, 2400000, 0, 2⟩ [512, -512]) true]) =
        [[128, 127]] ++ (List.replicate k [128, 127] ++ [[129, 127]]) := by
      have written : blocksOf (List.replicate uint64Max (Obs.wrote [128, 127] false)) =
          List.replicate uint64Max [128, 127] := List.filterMap_replicate_of_some rfl
      have marked : blocksOf (List.replicate uint64Max Obs.gapMarked) = [] :=
        List.filterMap_replicate_of_none rfl
      rw [blocksOf_append, blocksOf_append, blocksOf_append, written, marked, more,
        List.replicate_succ]
      simp [blocksOf, Obs.block]
    rw [blocks, oneCall_eq fresh stages] at output
    · have begins := filtered_begins fresh (List.prefix_append [[128, 127]]
        (List.replicate k [128, 127] ++ [[129, 127]]))
      rw [first] at begins
      exact absurd (List.prefix_of_prefix_length_le output begins (by decide)) (by decide)
    · simp only [List.mem_append, List.mem_replicate, List.mem_singleton]
      rintro block (rfl | ⟨_, rfl⟩ | rfl) <;> rfl

end RtlSdr
