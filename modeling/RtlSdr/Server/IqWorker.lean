import RtlSdr.Server.Reader

/-!
# The worker of an I/Q connection

What `iq_client_handler` knows at each point of its loop: which blocks it has read since it
took its cursor, that the chain is in the state a single pass over them leaves it in, and
which frames it has made of the output.
-/
namespace RtlSdr

variable {F D : Type} [CFloat F] [CDouble D F]

/-- The I/Q frames that were sent completely on a connection. -/
def iqFrames (fd : Int) (t : List Obs) : List (IqHdr × List Int16) :=
  t.filterMap fun
    | .sent other (.iq hdr samples) true => if other = fd then some (hdr, samples) else none
    | _ => none

/-- Whether an observation is about the I/Q stream of a connection. -/
def Obs.streams (fd : Int) : Obs → Bool
  | .cursorTaken other _ => other = fd
  | .sent other (.iq _ _) _ => other = fd
  | .failed other _ => other = fd
  | _ => false

/-- A header for frame number `seq` of a request, of at most `limit` components. -/
structure IqHdr.Describes (hdr : IqHdr) (req : StreamReq) (limit seq : Nat)
    (samples : List Int16) : Prop where
  magic : hdr.magic = magicIq
  freq : hdr.freq = req.freq
  rate : hdr.rate = req.rate
  seq : hdr.seq.toNat = seq
  nsamples : hdr.nsamples.toNat = samples.length
  pairs : samples.length % 2 = 0
  least : 2 ≤ samples.length
  most : samples.length ≤ limit

/-- The request is valid for this capture, and this is the chain created for it. -/
def Config.Serves (cfg : Config F) (req : StreamReq) (fresh : Dsp F D) : Prop :=
  let offset : Int := req.freq.toNat - cfg.captureFreq.toNat
  ∃ bandwidth,
    dspValidate D cfg.captureRate.toNat req.rate.toNat req.bandwidth.toNat offset =
      some bandwidth ∧
    dspCreate true cfg.captureRate.toNat req.rate.toNat bandwidth offset = some fresh

/-- One pass of the chain over a list of blocks. -/
def filtered (fresh : Dsp F D) (blocks : List (List UInt8)) : Dsp F D × List Int16 :=
  Transducer.run sampleStep fresh (blocks.flatMap samplesOf)

/-- What holds of a connection from its cursor on. -/
structure Streamed (cfg : Config F) (D : Type) [CDouble D F] (limit : Nat) (fd : Int)
    (req : StreamReq) (t since : List Obs) : Prop where
  frames : ∀ i (hdr : IqHdr) samples, (iqFrames fd t)[i]? = some (hdr, samples) →
    hdr.Describes req limit i samples
  output : ∃ fresh : Dsp F D, cfg.Serves req fresh ∧
    (iqFrames fd t).flatMap Prod.snd <+: (filtered fresh (blocksOf since)).2
  unfailed : ∀ failure, .failed fd failure ∉ t

def Untaken (t : List Obs) (fd : Int) : Prop := ∀ e ∈ t, e.streams fd = false

/-- Every connection: nothing before its cursor, one stream from it on. -/
structure OneStream (cfg : Config F) (D : Type) [CDouble D F] (limit : Nat) (t : List Obs)
    (fd : Int) : Prop where
  before : (∀ req, .cursorTaken fd req ∉ t) → Untaken t fd
  since : ∀ before req since, t = before ++ .cursorTaken fd req :: since →
    incrementsOf since < 2 ^ 64 → Streamed cfg D limit fd req t since

/-! ### The chain over blocks -/

theorem filtered_append (fresh : Dsp F D) (blocks more : List (List UInt8)) :
    filtered fresh (blocks ++ more) =
      ((filtered (filtered fresh blocks).1 more).1,
        (filtered fresh blocks).2 ++ (filtered (filtered fresh blocks).1 more).2) := by
  rw [filtered, List.flatMap_append, Transducer.run_append]
  rfl

theorem filtered_begins (fresh : Dsp F D) {blocks more : List (List UInt8)}
    (first : blocks <+: more) : (filtered fresh blocks).2 <+: (filtered fresh more).2 := by
  obtain ⟨rest, rfl⟩ := first
  rw [filtered_append]
  exact List.prefix_append _ _

theorem filtered_one (dsp : Dsp F D) (block : List UInt8) :
    filtered dsp [block] = Transducer.run sampleStep dsp (samplesOf block) := by
  simp [filtered]

variable {req : StreamReq} {cfg : Config F} {fresh : Dsp F D} {fd : Int}
  {t observed since before : List Obs} {limit : Nat} {cl : Client F D} {ring : Ring} {seq : UInt64}

theorem Config.Serves.numStages (serves : cfg.Serves req fresh) (blocks : List (List UInt8)) :
    (filtered fresh blocks).1.numStages ≤ maxStages := by
  obtain ⟨bandwidth, _, created⟩ := serves
  rw [filtered, run_numStages]
  exact (dspCreate_stages _ _ _ _ _ fresh created).1

/-! ### What is quiet about a stream -/

theorem iqFrames_append (fd : Int) (t later : List Obs) :
    iqFrames fd (t ++ later) = iqFrames fd t ++ iqFrames fd later := by
  simp [iqFrames]

theorem iqFrames_quiet (fd : Int) (t : List Obs) (quiet : Untaken t fd) : iqFrames fd t = [] := by
  rw [iqFrames, List.filterMap_eq_nil_iff]
  intro e member
  have off := quiet e member
  cases e with
  | sent other frame whole =>
    cases frame with
    | iq hdr samples =>
      cases whole with
      | false => rfl
      | true => simpa [Obs.streams] using off
    | _ => rfl
  | _ => rfl

theorem streams_of_speaker (e : Obs) (fd : Int) (other : e.speaker ≠ some fd) :
    e.streams fd = false := by
  cases e with
  | sent dest frame whole =>
    cases frame with
    | iq hdr samples => simpa [Obs.streams, Obs.speaker] using other
    | _ => rfl
  | cursorTaken dest req | failed dest failure => simpa [Obs.streams, Obs.speaker] using other
  | _ => rfl

variable {held : List (IqHdr × List Int16)}

theorem not_mem_of_quiet (quiet : Untaken t fd) (e : Obs) (streams : e.streams fd = true) :
    e ∉ t := by
  intro member
  rw [quiet e member] at streams
  cases streams

theorem OneStream.quiet (streams : OneStream cfg D limit t fd) (quiet : Untaken observed fd) :
    OneStream cfg D limit (t ++ observed) fd where
  before := by
    intro untaken e member
    rcases List.mem_append.mp member with old | new
    · exact streams.before (fun req taken => untaken req (by simp [taken])) e old
    · exact quiet e new
  since := by
    intro before req since split few
    obtain ⟨rest, was, rfl⟩ := History.split_append split
      (not_mem_of_quiet quiet _ (by simp [Obs.streams]))
    rw [incrementsOf_append] at few
    obtain ⟨frames, ⟨fresh, serves, output⟩, unfailed⟩ :=
      streams.since before req rest was (by omega)
    have same : iqFrames fd (t ++ observed) = iqFrames fd t := by
      rw [iqFrames_append, iqFrames_quiet fd observed quiet, List.append_nil]
    refine ⟨same ▸ frames, ⟨fresh, serves, ?_⟩, fun failure member => ?_⟩
    · rw [same, blocksOf_append]
      exact output.trans (filtered_begins fresh (List.prefix_append _ _))
    · rcases List.mem_append.mp member with old | new
      · exact unfailed failure old
      · exact not_mem_of_quiet quiet _ (by simp [Obs.streams]) new

/-! ### A worker that streams -/

structure Origin (cfg : Config F) (t : List Obs) (cl : Client F D) (before : List Obs)
    (req : StreamReq) (since : List Obs) (fresh : Dsp F D) : Prop where
  split : t = before ++ .cursorTaken cl.fd req :: since
  once : ∀ other, .cursorTaken cl.fd other ∉ before ++ since
  serves : cfg.Serves req fresh
  freq : cl.freq = req.freq
  rate : cl.rate = req.rate

/-- How far it has come: `consumed` has been read and filtered, and `frames` are the
frames made of it, of which the last may still be waiting to be sent. -/
structure Progress (limit : Nat) (ring : Ring) (cursor : Cursor) (dsp : Option (Dsp F D))
    (req : StreamReq) (fresh : Dsp F D) (since : List Obs) (consumed : List (List UInt8))
    (frames : List (IqHdr × List Int16)) (seq : UInt64) : Prop where
  reading : Reading ring cursor since consumed
  dsp : dsp = some (filtered fresh consumed).1
  output : frames.flatMap Prod.snd = (filtered fresh consumed).2
  described : ∀ i (hdr : IqHdr) samples, frames[i]? = some (hdr, samples) →
    hdr.Describes req limit i samples
  numbered : seq.toNat = frames.length
  paced : frames.length ≤ consumed.length

/-- A worker past its cursor. With 2^64 increments of the generation the ring can no
longer tell the cursor from a current one. -/
def Looping (cfg : Config F) (limit : Nat) (ring : Ring) (t : List Obs) (cl : Client F D)
    (held : List (IqHdr × List Int16)) (seq : UInt64) : Prop :=
  ∃ before req since fresh, Origin cfg t cl before req since fresh ∧
    (incrementsOf since < 2 ^ 64 → (∀ failure, .failed cl.fd failure ∉ t) ∧
      ∃ consumed, Progress limit ring cl.cursor cl.dsp req fresh since consumed
        (iqFrames cl.fd t ++ held) seq)

variable {pc : WorkerPc F}

theorem Origin.unique (origin : Origin cfg t cl before req since fresh)
    {before' since' : List Obs} {req' : StreamReq}
    (split : t = before' ++ .cursorTaken cl.fd req' :: since') : req' = req ∧ since' = since := by
  obtain ⟨_, same, rest⟩ := History.split_unique (fun e => ∃ other, e = .cursorTaken cl.fd other)
    (origin.split.symm.trans split) ⟨req, rfl⟩ ⟨req', rfl⟩
    (by rintro e member ⟨other, rfl⟩; exact origin.once other member)
  cases same
  exact ⟨rfl, rest.symm⟩

theorem Origin.extend (origin : Origin cfg t cl before req since fresh) (observed : List Obs)
    (untaken : ∀ other, .cursorTaken cl.fd other ∉ observed) (cl' : Client F D)
    (fd : cl'.fd = cl.fd) (freq : cl'.freq = cl.freq) (rate : cl'.rate = cl.rate) :
    Origin cfg (t ++ observed) cl' before req (since ++ observed) fresh where
  split := by rw [origin.split, fd]; simp
  once := by
    intro other member
    rw [fd, ← List.append_assoc, List.mem_append] at member
    rcases member with old | new
    · exact origin.once other old
    · exact untaken other new
  serves := origin.serves
  freq := freq.trans origin.freq
  rate := rate.trans origin.rate

/-- What has been sent is a prefix of what has been filtered. -/
theorem Looping.streams (looping : Looping cfg limit ring t cl held seq) :
    OneStream cfg D limit t cl.fd := by
  obtain ⟨before, req, since, fresh, origin, progress⟩ := looping
  constructor
  · intro untaken
    exact absurd (by simp [origin.split]) (untaken req)
  · intro before' req' since' split few
    obtain ⟨rfl, rfl⟩ := origin.unique split
    obtain ⟨unfailed, consumed, progress⟩ := progress few
    refine ⟨fun i hdr samples here => ?_, ⟨fresh, origin.serves, ?_⟩, unfailed⟩
    · obtain ⟨inside, _⟩ := List.getElem?_eq_some_iff.mp here
      exact progress.described i hdr samples (by rw [List.getElem?_append_left inside, here])
    · have sent : (iqFrames cl.fd t).flatMap Prod.snd <+: (filtered fresh consumed).2 := by
        rw [← progress.output, List.flatMap_append]
        exact List.prefix_append _ _
      exact sent.trans (filtered_begins fresh progress.reading.taken)

theorem Looping.quiet {ring' : Ring} (serving : Serving ring ring' observed)
    (quiet : Untaken observed cl.fd) (state : ClientState) (thread : Option (WorkerPc F))
    (looping : Looping cfg limit ring t cl held seq) :
    Looping cfg limit ring' (t ++ observed) { cl with state, thread } held seq := by
  obtain ⟨before, req, since, fresh, origin, progress⟩ := looping
  refine ⟨before, req, since ++ observed, fresh, ?_, fun few => ?_⟩
  · exact origin.extend observed
      (fun other => not_mem_of_quiet quiet _ (by simp [Obs.streams])) _ rfl rfl rfl
  · rw [incrementsOf_append] at few
    obtain ⟨unfailed, consumed, progress⟩ := progress (by omega)
    refine ⟨fun failure member => ?_, consumed, ?_⟩
    · rcases List.mem_append.mp member with old | new
      · exact unfailed failure old
      · exact not_mem_of_quiet quiet _ (by simp [Obs.streams]) new
    · show Progress limit _ _ _ _ _ _ _ (iqFrames cl.fd (t ++ observed) ++ held) seq
      rw [iqFrames_append, iqFrames_quiet cl.fd observed quiet, List.append_nil]
      exact ⟨serving _ _ _ progress.reading, progress.dsp, progress.output,
        progress.described, progress.numbered, progress.paced⟩

/-! ### Where a worker stands -/

/-- What a task the worker goes on with rests on. -/
def Carries (cfg : Config F) (limit : Nat) (ring : Ring) (t : List Obs) (cl : Client F D) :
    Task F → Prop
  | .setup _ => Untaken t cl.fd
  | .readRing seq => Looping cfg limit ring t cl [] seq
  | .sendIq seq hdr samples => Looping cfg limit ring t cl [(hdr, samples)] seq
  | _ => True

def Stands (cfg : Config F) (limit : Nat) (ring : Ring) (t : List Obs) (cl : Client F D) :
    WorkerPc F → Prop
  | .receiveRequest => Untaken t cl.fd
  | .load next => Carries cfg limit ring t cl next
  | .session next => Carries cfg limit ring t cl next
  | .run next => Carries cfg limit ring t cl next
  | .cursorNow req => Untaken t cl.fd ∧ cl.freq = req.freq ∧ cl.rate = req.rate ∧
      ∃ fresh, cfg.Serves req fresh ∧ cl.dsp = some fresh
  | .setRunning => cl.mode ≠ modeFft → Looping cfg limit ring t cl [] 0
  | .ringEmpty seq => Looping cfg limit ring t cl [] seq
  | _ => True

structure Streaming (cfg : Config F) (limit : Nat) (ring : Ring) (t : List Obs)
    (cl : Client F D) : Prop where
  streams : OneStream cfg D limit t cl.fd
  stands : ∀ pc, cl.thread = some pc → Stands cfg limit ring t cl pc

theorem untaken_append (old : Untaken t fd) (new : Untaken observed fd) :
    Untaken (t ++ observed) fd := by
  intro e member
  rcases List.mem_append.mp member with was | now
  · exact old e was
  · exact new e now

/-- A step that says nothing about the stream, after which the worker stands where what it
knew suffices. -/
theorem Streaming.move {ring' : Ring} {cl' : Client F D}
    (streaming : Streaming cfg limit ring t cl) (quiet : Untaken observed cl.fd)
    (fd : cl'.fd = cl.fd) (thread : cl'.thread = some pc)
    (stands : Stands cfg limit ring' (t ++ observed) cl' pc) :
    Streaming cfg limit ring' (t ++ observed) cl' := by
  refine ⟨fd ▸ streaming.streams.quiet quiet, fun pc' here => ?_⟩
  cases thread.symm.trans here
  exact stands

section Quiet

variable {cfg : Config F} {limit : Nat} {ring ring' : Ring} {t observed : List Obs}
  {cl : Client F D} (serving : Serving ring ring' observed) (quiet : Untaken observed cl.fd)
  (state : ClientState) (thread : Option (WorkerPc F))

include serving quiet

theorem carries_quiet (task : Task F) (carries : Carries cfg limit ring t cl task) :
    Carries cfg limit ring' (t ++ observed) { cl with state, thread } task := by
  cases task with
  | setup req => exact untaken_append carries quiet
  | readRing seq | sendIq seq hdr samples => exact carries.quiet serving quiet state thread
  | readPower => trivial
  | sendFft => trivial

theorem stands_quiet (pc : WorkerPc F) (stands : Stands cfg limit ring t cl pc) :
    Stands cfg limit ring' (t ++ observed) { cl with state, thread } pc := by
  cases pc with
  | receiveRequest => exact untaken_append stands quiet
  | load next | session next | run next =>
    exact carries_quiet serving quiet state thread next stands
  | cursorNow req => exact ⟨untaken_append stands.1 quiet, stands.2⟩
  | setRunning => exact fun iq => (stands iq).quiet serving quiet state thread
  | ringEmpty seq => exact stands.quiet serving quiet state thread
  | _ => trivial

theorem Streaming.goes (streaming : Streaming cfg limit ring t cl) (pc : WorkerPc F)
    (stands : Stands cfg limit ring t cl pc) :
    Streaming cfg limit ring' (t ++ observed) { cl with state, thread := some pc } :=
  streaming.move quiet rfl rfl (stands_quiet serving quiet state (some pc) pc stands)

theorem Streaming.others (streaming : Streaming cfg limit ring t cl) :
    Streaming cfg limit ring' (t ++ observed) { cl with state } :=
  ⟨streaming.streams.quiet quiet, fun pc here =>
    stands_quiet serving quiet state cl.thread pc (streaming.stands pc here)⟩

end Quiet

/-! ### Its steps -/

theorem Looping.land (looping : Looping cfg limit ring t cl held seq)
    (thread : cl.thread = some pc) (stands : Stands cfg limit ring t cl pc) :
    Streaming cfg limit ring t cl := by
  refine ⟨looping.streams, fun pc' here => ?_⟩
  cases thread.symm.trans here
  exact stands

/-- With too many increments nothing is claimed. -/
theorem Origin.adrift (origin : Origin cfg t cl before req since fresh)
    (many : ¬incrementsOf since < 2 ^ 64) (limit : Nat) (ring : Ring)
    (held : List (IqHdr × List Int16)) (seq : UInt64) : Looping cfg limit ring t cl held seq :=
  ⟨before, req, since, fresh, origin, fun few => absurd few many⟩

/-- Where the loop of `iq_client_handler` can go. -/
inductive LoopPc : WorkerPc F → Prop
  | setDone : LoopPc .setDone
  | ringEmpty (seq : UInt64) : LoopPc (.ringEmpty seq)
  | readRing (seq : UInt64) : LoopPc (.load (.readRing seq))
  | sendIq (seq : UInt64) (hdr : IqHdr) (samples : List Int16) : LoopPc (.load (.sendIq seq hdr samples))

theorem LoopPc.stands (loop : LoopPc pc)
    (looping : ∀ held seq, Looping cfg limit ring t cl held seq) :
    Stands cfg limit ring t cl pc := by
  cases loop with
  | setDone => trivial
  | ringEmpty seq => exact looping [] seq
  | readRing seq => exact looping [] seq
  | sendIq seq hdr samples => exact looping [(hdr, samples)] seq

/-- What a step of that loop does, whatever the ring answers. -/
structure LoopEffect (cl cl' : Client F D) (observed : List Obs) : Prop where
  thread : ∃ pc, cl'.thread = some pc ∧ LoopPc pc
  fd : cl'.fd = cl.fd
  freq : cl'.freq = cl.freq
  rate : cl'.rate = cl.rate
  untaken : ∀ req, .cursorTaken cl.fd req ∉ observed

theorem LoopEffect.adrift {cl' : Client F D} (effect : LoopEffect cl cl' observed)
    (origin : Origin cfg t cl before req since fresh) (many : ¬incrementsOf since < 2 ^ 64) :
    Streaming cfg limit ring (t ++ observed) cl' := by
  have later := origin.extend observed effect.untaken cl' effect.fd effect.freq effect.rate
  have looping := later.adrift (by rw [incrementsOf_append]; omega) limit ring
  obtain ⟨pc, thread, loop⟩ := effect.thread
  exact (looping [] 0).land thread (loop.stands looping)

theorem readRingStep_loop (ring : Ring) (cl : Client F D) (seq : UInt64) :
    LoopEffect cl (readRingStep ring cl seq).1 (readRingStep ring cl seq).2 := by
  simp only [readRingStep]
  split
  · exact ⟨⟨_, rfl, .ringEmpty seq⟩, rfl, rfl, rfl, by simp⟩
  · split_ifs
    · exact ⟨⟨_, rfl, .setDone⟩, rfl, rfl, rfl, by simp⟩
    · exact ⟨⟨_, rfl, .setDone⟩, rfl, rfl, rfl, by simp⟩
    · exact ⟨⟨_, rfl, .readRing seq⟩, rfl, rfl, rfl, by simp⟩
    · exact ⟨⟨_, rfl, .sendIq _ _ _⟩, rfl, rfl, rfl, by simp⟩
  · exact ⟨⟨_, rfl, .setDone⟩, rfl, rfl, rfl, by simp⟩
  · exact ⟨⟨_, rfl, .setDone⟩, rfl, rfl, rfl, by simp⟩

/-- A block of whole samples goes through the chain: `rtlsdr_dsp_process` does not fail. -/
theorem readRingStep_data (ring : Ring) (cl : Client F D) (seq : UInt64) (dsp : Dsp F D)
    (chain : cl.dsp = some dsp) (stages : dsp.numStages ≤ maxStages) :
    let read := ringReadCopy ring cl.cursor (List.replicate ring.slotSize 0)
    let out := Transducer.run sampleStep dsp (samplesOf read.block)
    let next := { cl with cursor := read.cursor, dsp := some out.1 }
    read.result = .data → read.block.length % 2 = 0 → read.block.length ≤ ring.slotSize →
    readRingStep ring cl seq =
      (if out.2.length = 0 then next.goto (.load (.readRing seq))
        else next.goto (.load (.sendIq (seq + 1)
          ⟨magicIq, cl.freq, cl.rate, seq, out.2.length.toUInt32⟩ out.2)), []) := by
  intro read out next data even fits
  have len : read.len = read.block.length := ringReadCopy_len _ _ _
  have whole : ¬read.len &&& 1 ≠ 0 := by rw [Nat.and_one_is_mod, len, even]; simp
  have room : ¬(read.len &&& 1 ≠ 0 ∨ ring.slotSize < read.len) := by
    rintro (odd | long)
    · exact whole odd
    · omega
  have processed : dspProcess dsp
      ⟨some read.dst, read.len, some (List.replicate ring.slotSize 0), ring.slotSize, some 0⟩ =
      ⟨out.1, some (Memory.splice (List.replicate ring.slotSize 0) 0 out.2),
        some out.2.length, true⟩ := by
    simp only [dspProcess, if_neg room, processFn_eq dsp _ stages]
    rfl
  have returned : (dspProcess dsp
      ⟨some read.dst, read.len, some (List.replicate ring.slotSize 0), ring.slotSize,
        some 0⟩).returned = out.2 := by
    rw [processed]
    simp [ProcessResult.returned, Memory.splice]
  simp only [readRingStep, chain]
  rw [show (ringReadCopy ring cl.cursor (List.replicate ring.slotSize 0)).result = .data from data]
  simp only
  rw [if_neg whole, returned, processed]
  simp only [Bool.not_true, Bool.false_eq_true, if_false]
  split_ifs <;> rfl

section Progress

variable {limit : Nat} {ring : Ring} {cursor : Cursor} {dsp : Option (Dsp F D)} {req : StreamReq}
  {fresh : Dsp F D} {since : List Obs} {consumed : List (List UInt8)}
  {frames : List (IqHdr × List Int16)} {seq : UInt64}
  (progress : Progress limit ring cursor dsp req fresh since consumed frames seq)
  (block : List UInt8) (cursor' : Cursor)
  (reading : Reading ring cursor' since (consumed ++ [block]))

include progress reading

/-- A block that completes no output sample only changes the chain. -/
theorem Progress.absorb (silent : (filtered (filtered fresh consumed).1 [block]).2 = []) :
    Progress limit ring cursor' (some (filtered (filtered fresh consumed).1 [block]).1) req fresh
      since (consumed ++ [block]) frames seq where
  reading := reading
  dsp := by rw [filtered_append]
  output := by rw [filtered_append, silent, List.append_nil, progress.output]
  described := progress.described
  numbered := progress.numbered
  paced := by
    have := progress.paced
    rw [List.length_append]
    omega

/-- Any other block makes the next frame. The cursor's position bounds the number of
frames, so that `seq` does not wrap. -/
theorem Progress.frame (room : consumed.length < uint64Max) (fits : block.length ≤ limit)
    (limit_lt : limit < 2 ^ 32) (heard : (filtered (filtered fresh consumed).1 [block]).2 ≠ []) :
    let out := filtered (filtered fresh consumed).1 [block]
    Progress limit ring cursor' (some out.1) req fresh since (consumed ++ [block])
      (frames ++ [(⟨magicIq, req.freq, req.rate, seq, out.2.length.toUInt32⟩, out.2)])
      (seq + 1) := by
  intro out
  obtain ⟨even, bound⟩ : out.2.length % 2 = 0 ∧ out.2.length ≤ 2 * (block.length / 2) := by
    rw [← samplesOf_length, show out = _ from filtered_one _ block]
    exact run_output _ _
  have positive : 0 < out.2.length := List.length_pos_iff.mpr heard
  have paced := progress.paced
  have numbered := progress.numbered
  constructor
  · exact reading
  · rw [filtered_append]
  · rw [filtered_append, List.flatMap_append, progress.output]
    simp [out]
  · intro i hdr samples here
    rcases Nat.lt_or_ge i frames.length with old | new
    · exact progress.described i hdr samples (by rwa [List.getElem?_append_left old] at here)
    · obtain ⟨inside, _⟩ := List.getElem?_eq_some_iff.mp here
      have last : i = frames.length := by
        rw [List.length_append, List.length_singleton] at inside
        omega
      subst last
      rw [List.getElem?_concat_length] at here
      cases here
      have count : out.2.length.toUInt32.toNat = out.2.length := by
        exact UInt32.toNat_ofNat_of_lt' (show out.2.length < 2 ^ 32 by omega)
      exact ⟨rfl, rfl, rfl, numbered, count, even, by omega, by omega⟩
  · unfold uint64Max at room
    rw [UInt64.toNat_add, List.length_append, List.length_singleton, numbered, UInt64.toNat_one]
    exact Nat.mod_eq_of_lt (by omega)
  · simp only [List.length_append, List.length_singleton]
    omega

end Progress

variable {srv : Server F D}

theorem streaming_readRing (published : Published limit srv t) (limit_lt : limit < 2 ^ 32)
    (seq : UInt64) (looping : Looping cfg limit srv.ring t cl [] seq) :
    Streaming cfg limit srv.ring (t ++ (readRingStep srv.ring cl seq).2)
      (readRingStep srv.ring cl seq).1 := by
  have stay (pc : WorkerPc F) : Looping cfg limit srv.ring (t ++ []) (cl.goto pc) [] seq :=
    looping.quiet (serving_aside _ [] (by simp)) (by simp [Untaken]) cl.state (some pc)
  obtain ⟨before, req, since, fresh, origin, so_far⟩ := looping
  by_cases few : incrementsOf since < 2 ^ 64
  · obtain ⟨unfailed, consumed, progress⟩ := so_far few
    rcases progress.reading.read few (List.replicate srv.ring.slotSize 0) (by simp) with
      gap | empty | ⟨block, data, same, fits, _, room, reading⟩
    · have step : readRingStep srv.ring cl seq = (cl.goto .setDone, []) := by
        simp only [readRingStep, gap]
      rw [step]
      exact (stay .setDone).land rfl trivial
    · have step : readRingStep srv.ring cl seq = (cl.goto (.ringEmpty seq), []) := by
        simp only [readRingStep, empty]
      rw [step]
      exact (stay (.ringEmpty seq)).land rfl (stay (.ringEmpty seq))
    · have even : block.length % 2 = 0 := by
        apply published.blocks
        rw [origin.split, ← List.singleton_append, blocksOf_append, blocksOf_append]
        have taken : block ∈ blocksOf since := reading.taken.subset (by simp)
        simp [taken]
      have step := readRingStep_data srv.ring cl seq _ progress.dsp (origin.serves.numStages _) data
        (by rw [same]; exact even) (by rw [same]; exact fits)
      rw [same, ← filtered_one, origin.freq, origin.rate] at step
      have onward (cl' : Client F D) (fd : cl'.fd = cl.fd) (freq : cl'.freq = cl.freq)
          (rate : cl'.rate = cl.rate) (held : List (IqHdr × List Int16)) (seq' : UInt64)
          (next : Progress limit srv.ring cl'.cursor cl'.dsp req fresh since (consumed ++ [block])
            (iqFrames cl.fd t ++ held) seq') {pc : WorkerPc F} (thread : cl'.thread = some pc)
          (stands : Looping cfg limit srv.ring (t ++ []) cl' held seq' →
            Stands cfg limit srv.ring (t ++ []) cl' pc) :
          Streaming cfg limit srv.ring (t ++ []) cl' := by
        have looping : Looping cfg limit srv.ring (t ++ []) cl' held seq' := by
          refine ⟨before, req, since ++ [], fresh, origin.extend [] (by simp) cl' fd freq rate, ?_⟩
          rw [fd, List.append_nil, List.append_nil]
          exact fun _ => ⟨unfailed, consumed ++ [block], next⟩
        exact looping.land thread (stands looping)
      rw [published.sized] at fits
      rw [step]
      split_ifs with silent
      · refine onward _ rfl origin.freq.symm origin.rate.symm [] seq ?_ rfl id
        exact progress.absorb block _ reading (List.length_eq_zero_iff.mp silent)
      · refine onward _ rfl origin.freq.symm origin.rate.symm [(_, _)] (seq + 1) ?_ rfl id
        rw [List.append_nil] at progress
        exact progress.frame block _ reading room fits limit_lt
          (fun none => silent (by rw [none]; rfl))
  · exact (readRingStep_loop srv.ring cl seq).adrift origin few

theorem IqHdr.Describes.encoded {hdr : IqHdr} {seq : Nat} {samples : List Int16}
    (described : hdr.Describes req limit seq samples) (limit_le : limit ≤ maxIqComponents) :
    (∃ bytes, encodeIqHdr (List.replicate iqHdrSize 0) hdr = some bytes) ∧
      ∃ bytes, encodeIqPayload (List.replicate (limit * 2) 0) samples = some bytes := by
  have most := described.most
  have even : samples.length &&& 1 = 0 := by rw [Nat.and_one_is_mod, described.pairs]
  have word : hdr.nsamples &&& 1 = 0 := by
    apply UInt32.toNat_inj.mp
    rw [UInt32.toNat_and, described.nsamples]
    exact even
  constructor
  · rw [encodeIqHdr, if_neg]
    · exact ⟨_, rfl⟩
    · rintro (magic | large | odd)
      · exact magic described.magic
      · rw [described.nsamples] at large
        omega
      · exact odd word
  · rw [encodeIqPayload, if_neg]
    · exact ⟨_, rfl⟩
    · rintro (large | odd | short)
      · omega
      · exact odd even
      · rw [List.length_replicate] at short
        omega

theorem sendIq_loop (cfg : Config F) (srv : Server F D) (cl : Client F D) (works : Bool)
    (seq : UInt64) (hdr : IqHdr) (samples : List Int16) :
    LoopEffect cl (taskStep cfg srv cl works (.sendIq seq hdr samples)).1
      (taskStep cfg srv cl works (.sendIq seq hdr samples)).2 := by
  simp only [taskStep]
  split
  · cases works with
    | false => exact ⟨⟨_, rfl, .setDone⟩, rfl, rfl, rfl, by simp⟩
    | true => exact ⟨⟨_, rfl, .readRing seq⟩, rfl, rfl, rfl, by simp⟩
  · exact ⟨⟨_, rfl, .setDone⟩, rfl, rfl, rfl, by simp⟩

theorem streaming_sendIq (published : Published limit srv t) (limit_le : limit ≤ maxIqComponents)
    (works : Bool) (seq : UInt64) (hdr : IqHdr) (samples : List Int16)
    (looping : Looping cfg limit srv.ring t cl [(hdr, samples)] seq) :
    Streaming cfg limit srv.ring (t ++ (taskStep cfg srv cl works (.sendIq seq hdr samples)).2)
      (taskStep cfg srv cl works (.sendIq seq hdr samples)).1 := by
  obtain ⟨before, req, since, fresh, origin, so_far⟩ := looping
  have effect := sendIq_loop cfg srv cl works seq hdr samples
  by_cases few : incrementsOf since < 2 ^ 64
  · obtain ⟨unfailed, consumed, progress⟩ := so_far few
    have described := progress.described (iqFrames cl.fd t).length hdr samples (by simp)
    obtain ⟨⟨_, header⟩, _, payload⟩ := described.encoded limit_le
    have step : taskStep cfg srv cl works (.sendIq seq hdr samples) =
        (cl.goto (if works then .load (.readRing seq) else .setDone),
          [.sent cl.fd (.iq hdr samples) works]) := by
      simp only [taskStep, published.sized, header, payload]
    rw [step] at effect ⊢
    have later := origin.extend _ effect.untaken _ effect.fd effect.freq effect.rate
    have reading : Reading srv.ring cl.cursor (since ++ [Obs.sent cl.fd (.iq hdr samples) works])
        consumed :=
      serving_aside _ _ (by simp [Obs.part]) _ _ _ progress.reading
    -- the frame is on the stream now, or else it is the one that was held at the end
    have looping (held : List (IqHdr × List Int16))
        (all : iqFrames cl.fd (t ++ [Obs.sent cl.fd (.iq hdr samples) works]) ++ held =
          iqFrames cl.fd t ++ [(hdr, samples)]) :
        Looping cfg limit srv.ring (t ++ [Obs.sent cl.fd (.iq hdr samples) works])
          (cl.goto (if works then .load (.readRing seq) else .setDone)) held seq := by
      refine ⟨before, req, _, fresh, later, fun _ => ⟨?_, consumed, ?_⟩⟩
      · intro failure member
        simp only [List.mem_append, List.mem_singleton, reduceCtorEq, or_false] at member
        exact unfailed failure member
      · show Progress _ _ _ _ _ _ _ _ (iqFrames cl.fd (t ++ _) ++ held) seq
        rw [all]
        exact ⟨reading, progress.dsp, progress.output, progress.described, progress.numbered,
          progress.paced⟩
    cases works with
    | false =>
      exact (looping [(hdr, samples)] (by simp [iqFrames])).land rfl trivial
    | true =>
      have going := looping [] (by simp [iqFrames])
      exact going.land rfl going
  · exact effect.adrift origin few

/-- `client_handler` on a valid request: the chain is fresh, and nothing has been taken. -/
theorem streaming_setup (streaming : Streaming cfg limit ring t cl) (req : StreamReq)
    (works : Bool) (untaken : Untaken t cl.fd) :
    Streaming cfg limit ring (t ++ []) (setupStep cfg cl req works) := by
  have quiet : Untaken [] cl.fd := by simp [Untaken]
  have give_up (cl' : Client F D) (fd : cl'.fd = cl.fd) :
      Streaming cfg limit ring (t ++ []) (cl'.goto .setDone) :=
    streaming.move quiet fd rfl trivial
  unfold setupStep
  split_ifs with fft
  · exact give_up cl rfl
  · exact streaming.move quiet rfl rfl fun iq => absurd fft iq
  · exact give_up cl rfl
  · simp only
    split
    · exact give_up cl rfl
    next bandwidth valid =>
      split_ifs with none
      · exact give_up _ rfl
      · obtain ⟨fresh, created⟩ := Option.ne_none_iff_exists'.mp (by simpa using none)
        refine streaming.move quiet rfl rfl ⟨?_, rfl, rfl, fresh, ?_, created⟩
        · rw [List.append_nil]
          exact untaken
        -- a chain was returned, so its allocations succeeded
        cases works with
        | true => exact ⟨bandwidth, valid, created⟩
        | false =>
          unfold dspCreate at created
          split at created <;> cases created

/-- The step in which the stream begins. -/
theorem streaming_cursorNow (req : StreamReq) (untaken : Untaken t cl.fd)
    (freq : cl.freq = req.freq) (rate : cl.rate = req.rate) (fresh : Dsp F D)
    (serves : cfg.Serves req fresh) (chain : cl.dsp = some fresh) :
    Streaming cfg limit ring (t ++ [Obs.cursorTaken cl.fd req])
      ({ cl with cursor := ringCursorNow ring }.goto .setRunning) := by
  have none : iqFrames cl.fd (t ++ [Obs.cursorTaken cl.fd req]) = [] := by
    rw [iqFrames_append, iqFrames_quiet cl.fd t untaken]
    rfl
  have looping : Looping cfg limit ring (t ++ [Obs.cursorTaken cl.fd req])
      ({ cl with cursor := ringCursorNow ring }.goto .setRunning) [] 0 := by
    refine ⟨t, req, [], fresh, ⟨rfl, ?_, serves, freq, rate⟩, fun _ => ⟨?_, [], ?_⟩⟩
    · rw [List.append_nil]
      exact fun other => not_mem_of_quiet untaken _ (by simp [Obs.streams, Client.goto])
    · intro failure member
      simp only [List.mem_append, List.mem_singleton, reduceCtorEq, or_false] at member
      exact not_mem_of_quiet untaken _ (by simp [Obs.streams, Client.goto]) member
    · show Progress _ _ _ _ _ _ _ _ (iqFrames cl.fd _ ++ []) 0
      rw [none]
      exact ⟨reading_start ring, chain, rfl, by simp, rfl, Nat.le_refl 0⟩
  exact looping.land rfl fun _ => looping

theorem streaming_worker (published : Published limit srv t) (limit_le : limit ≤ maxIqComponents)
    (i : Fin maxClients) (works : Bool) (arrived : List UInt8) (pc : WorkerPc F)
    (thread : (srv.clients i).thread = some pc)
    (streaming : Streaming cfg limit srv.ring t (srv.clients i)) :
    Streaming cfg limit srv.ring (t ++ (workerStep cfg srv (srv.clients i) works arrived pc).2)
      (workerStep cfg srv (srv.clients i) works arrived pc).1 := by
  generalize srv.clients i = cl at *
  have stands := streaming.stands pc thread
  have serving (observed : List Obs) (part : ∀ e ∈ observed, e.part = .worker) :
      Serving srv.ring srv.ring observed :=
    serving_aside _ _ fun e member => by simp [part e member]
  have silent := serving [] (by simp)
  have quiet : Untaken [] cl.fd := by simp [Untaken]
  cases pc with
  | receiveRequest =>
    rcases decoded : decodeReq arrived with ⟨req, valid⟩
    simp only [workerStep, decoded]
    split_ifs
    · exact streaming.goes silent quiet cl.state .setDone trivial
    · exact streaming.goes silent quiet cl.state (.load (.setup req)) stands
  | load next =>
    cases stopping : srv.stopping with
    | true =>
      simp only [workerStep, stopping]
      exact streaming.goes silent quiet cl.state .setDone trivial
    | false =>
      simp only [workerStep, stopping]
      exact streaming.goes silent quiet cl.state (.session next) stands
  | session next =>
    simp only [workerStep]
    split_ifs
    · exact streaming.goes silent quiet cl.state (.run next) stands
    · exact streaming.goes (serving _ (by simp [Obs.part])) (by simp [Untaken, Obs.streams]) cl.state
        (.sendChange srv.newFreq) trivial
  | run next =>
    cases next with
    | setup req => exact streaming_setup streaming req works stands
    | readRing seq =>
      exact streaming_readRing published (Nat.lt_of_le_of_lt limit_le (by decide)) seq stands
    | sendIq seq hdr samples =>
      exact streaming_sendIq published limit_le works seq hdr samples stands
    | readPower lastSeq =>
      simp only [workerStep, taskStep, readPowerStep]
      split_ifs
      · exact streaming.goes silent quiet cl.state .setDone trivial
      · exact streaming.goes silent quiet cl.state (.powerEmpty lastSeq) trivial
      · exact streaming.goes silent quiet cl.state (.load (.sendFft _ _)) trivial
    | sendFft hdr snapshot =>
      simp only [workerStep, taskStep]
      split
      · refine streaming.move (by simp [Untaken, Obs.streams]) rfl rfl ?_
        cases works <;> trivial
      · exact streaming.goes silent quiet cl.state .setDone trivial
  | sendChange freq =>
    refine streaming.move (by simp [workerStep, Untaken, Obs.streams]) rfl rfl ?_
    cases works <;> trivial
  | sendEnd =>
    exact streaming.move (by simp [workerStep, Untaken, Obs.streams]) rfl rfl trivial
  | cursorNow req =>
    obtain ⟨untaken, freq, rate, fresh, serves, chain⟩ := stands
    exact streaming_cursorNow req untaken freq rate fresh serves chain
  | setRunning =>
    cases works with
    | false => exact streaming.goes silent quiet .running .setDone trivial
    | true =>
      by_cases fft : cl.mode = modeFft
      · simp only [workerStep, if_pos fft]
        exact streaming.goes silent quiet .running (.load (.readPower 0)) trivial
      · simp only [workerStep, if_neg fft]
        exact streaming.goes silent quiet .running (.load (.readRing 0)) (stands fft)
  | ringEmpty seq =>
    cases works with
    | false => exact streaming.goes silent quiet cl.state .setDone trivial
    | true => exact streaming.goes silent quiet cl.state (.load (.readRing seq)) stands
  | powerEmpty lastSeq =>
    cases works with
    | false => exact streaming.goes silent quiet cl.state .setDone trivial
    | true => exact streaming.goes silent quiet cl.state (.load (.readPower lastSeq)) trivial
  | setDone => exact streaming.goes silent quiet .done .exited trivial
  | exited =>
    simp only [workerStep, List.append_nil]
    exact streaming

end RtlSdr
