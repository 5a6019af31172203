import RtlSdr.Stream.ClientC

/-!
# From the server's encoders to the C client

A listener sends frames of one kind and events. The abstract decoder reads each frame
back from the front of the stream and leaves exactly the bytes behind it, so the
client, which refines that decoder, never loses frame alignment.
-/
namespace RtlSdr

/-- What a listener serves. -/
inductive Listener
  | iq
  | fft
deriving DecidableEq, Repr

/-- A frame as the server's senders build it. -/
inductive Frame
  | iq (hdr : IqHdr) (samples : List Int16)
  | fft (hdr : FftHdr) (power : List UInt32)
  | event (type : UInt32) (freq : UInt64)
deriving DecidableEq, Repr

/-- The bytes the encoders make of a frame they accept, whatever their buffers held. -/
inductive Frame.Encoded : Frame → List UInt8 → Prop
  | iq (hdr : IqHdr) (samples : List Int16) (hbuf dst head payload : List UInt8)
      (room : hbuf.length = iqHdrSize) (count : hdr.nsamples.toNat = samples.length)
      (header : encodeIqHdr hbuf hdr = some head)
      (body : encodeIqPayload dst samples = some payload) :
      Encoded (.iq hdr samples) (head ++ payload.take (2 * samples.length))
  | fft (hdr : FftHdr) (power : List UInt32) (hbuf dst head payload : List UInt8)
      (room : hbuf.length = fftHdrSize) (count : hdr.bins.toNat = power.length)
      (header : encodeFftHdr hbuf hdr = some head)
      (body : encodeFftPayload dst power = some payload) :
      Encoded (.fft hdr power) (head ++ payload.take (4 * power.length))
  | event (type : UInt32) (freq : UInt64) (buf out : List UInt8) (len : Nat)
      (accepted : encodeEvt buf type freq = some (out, len)) :
      Encoded (.event type freq) (out.take len)

/-- Data of the listener's kind, or an event. -/
def Frame.servedBy : Frame → Listener → Bool
  | .iq _ _, listener => listener == .iq
  | .fft _ _, listener => listener == .fft
  | .event _ _, _ => true

def Frame.isStreamEnd : Frame → Bool
  | .event type _ => type == evtStreamEnd
  | _ => false

/-- The result of reading a frame with a given capacity. Only a frequency change has a
frequency on the wire. -/
def Frame.outcome (capacity : Nat) : Frame → Outcome
  | .iq hdr samples =>
    if hdr.nsamples.toNat > capacity then .iqCapacity hdr else .iq hdr samples
  | .fft hdr power =>
    if hdr.bins.toNat > capacity then .fftCapacity hdr else .fft hdr power
  | .event type freq => .event type (if type = evtFreqChange then freq else 0)

/-- The call a client of the listener makes. -/
def Listener.read : Listener → Int → ReadCall
  | .iq, capacity => .iq capacity
  | .fft, capacity => .fft capacity

/-- The results of successive calls: one frame for each call that is not refused for a
negative capacity, and errors once the frames are used up. -/
def expectedReads : List Frame → List Int → List Outcome
  | _, [] => []
  | frames, capacity :: capacities =>
    if capacity < 0 then .error :: expectedReads frames capacities
    else
      match frames with
      | [] => .error :: expectedReads [] capacities
      | frame :: frames => frame.outcome capacity.toNat :: expectedReads frames capacities

/-- The number of calls that read a frame. -/
def framesRead (capacities : List Int) : Nat := capacities.countP (0 ≤ ·)

/-! ### One frame -/

theorem Feed.next_append {α : Type} (front rest : List UInt8) (len : Nat) (failure : α)
    (continue_ : List UInt8 → List UInt8 → α × Feed) (sized : front.length = len) :
    Feed.next (front ++ rest) len failure continue_ = continue_ front rest := by
  rw [Feed.next_enough _ _ _ _ (by simp [sized]), List.take_left' sized, List.drop_left' sized]

theorem readHeaderSpec_hdrBytes (magic : UInt32) (freq rate seq : UInt64) (count : UInt32)
    (rest : List UInt8) (kind : magic ≠ magicEvt) :
    readHeaderSpec ⟨hdrBytes magic freq rate seq count ++ rest, true⟩ magic =
      (.data (hdrBytes magic freq rate seq count), ⟨rest, true⟩) := by
  have word : get32 (bytes32 magic) = magic := get32_cell magic
  simp only [readHeaderSpec, if_true, hdrBytes, List.append_assoc]
  rw [Feed.next_append _ _ _ _ _ (bytes32_length magic), word, if_neg kind,
    if_neg (not_not.mpr rfl), ← List.append_assoc, ← List.append_assoc, ← List.append_assoc,
    Feed.next_append _ _ _ _ _ (by simp), List.append_assoc, List.append_assoc]

theorem readHeaderSpec_evtBytes (magic type : UInt32) (freq : UInt64) (rest : List UInt8)
    (known : type = evtFreqChange ∨ type = evtStreamEnd) :
    readHeaderSpec ⟨evtBytes type freq ++ rest, true⟩ magic =
      (.event type (if type = evtFreqChange then freq else 0),
        ⟨rest, !(type == evtStreamEnd)⟩) := by
  simp only [readHeaderSpec, if_true, evtBytes, List.append_assoc]
  rw [Feed.next_append _ _ _ _ _ (bytes32_length magicEvt), get32_cell, if_pos rfl, readEventSpec,
    Feed.next_append _ _ _ _ _ (bytes32_length type), get32_cell]
  have word : get64 (bytes64 freq) = freq := by simpa using get64_bytes64 freq []
  rcases known with rfl | rfl
  · rw [if_pos rfl, if_pos rfl, if_pos rfl, Feed.next_append _ _ _ _ _ (bytes64_length freq), word]
    rfl
  · rfl

theorem readIqSpec_frame (hdr : IqHdr) (samples : List Int16) (rest : List UInt8)
    (capacity : Nat) (magic : hdr.magic = magicIq)
    (limit : ¬(hdr.nsamples.toNat > maxIqComponents ∨ hdr.nsamples &&& 1 ≠ 0))
    (count : hdr.nsamples.toNat = samples.length) :
    readIqSpec capacity ⟨hdrBytes hdr.magic hdr.freq hdr.rate hdr.seq hdr.nsamples ++
        (sampleBytes samples ++ rest), true⟩ =
      (Frame.outcome capacity (.iq hdr samples), ⟨rest, true⟩) := by
  have header := readHeaderSpec_hdrBytes hdr.magic hdr.freq hdr.rate hdr.seq hdr.nsamples
    (sampleBytes samples ++ rest) (by rw [magic]; decide)
  have payload := payloadSamples_sampleBytes samples []
  rw [List.append_nil] at payload
  rw [readIqSpec, readFrameSpec, ← magic, header]
  simp only [iqHdrOf_hdrBytes hdr]
  rw [if_neg limit, Feed.next_append _ _ _ _ _ (by simp [count, Nat.mul_comm]), count, payload]
  simp only [Frame.outcome, count]

theorem readFftSpec_frame (hdr : FftHdr) (power : List UInt32) (rest : List UInt8)
    (capacity : Nat) (magic : hdr.magic = magicFft)
    (limit : ¬(hdr.bins.toNat < 2 ∨ hdr.bins.toNat > maxFftBins))
    (count : hdr.bins.toNat = power.length) :
    readFftSpec capacity ⟨hdrBytes hdr.magic hdr.freq hdr.rate hdr.seq hdr.bins ++
        (binBytes power ++ rest), true⟩ =
      (Frame.outcome capacity (.fft hdr power), ⟨rest, true⟩) := by
  have header := readHeaderSpec_hdrBytes hdr.magic hdr.freq hdr.rate hdr.seq hdr.bins
    (binBytes power ++ rest) (by rw [magic]; decide)
  have payload := payloadBins_binBytes power []
  rw [List.append_nil] at payload
  rw [readFftSpec, readFrameSpec, ← magic, header]
  simp only [fftHdrOf_hdrBytes hdr]
  rw [if_neg limit, Feed.next_append _ _ _ _ _ (by simp [count, Nat.mul_comm]), count, payload]
  simp only [Frame.outcome, count]

/-- A call consumes exactly the frame at the front of the stream and reports it. -/
theorem readSpec_encoded (listener : Listener) (frame : Frame) (bytes rest : List UInt8)
    (encoded : frame.Encoded bytes) (served : frame.servedBy listener = true) (capacity : Int)
    (accepted : 0 ≤ capacity) :
    readSpec ⟨bytes ++ rest, true⟩ (listener.read capacity) =
      (⟨rest, !frame.isStreamEnd⟩, [frame.outcome capacity.toNat]) := by
  have positive : ¬capacity < 0 := not_lt.mpr accepted
  cases encoded with
  | iq hdr samples hbuf dst head payload room count header body =>
    obtain rfl : listener = .iq := by simpa [Frame.servedBy] using served
    obtain ⟨magic, limit, rfl⟩ := encodeIqHdr_eq hbuf hdr head room header
    rw [encodeIqPayload_eq dst samples payload body, List.append_assoc, Listener.read, readSpec,
      if_neg positive, readIqSpec_frame hdr samples rest _ magic limit count]
    rfl
  | fft hdr power hbuf dst head payload room count header body =>
    obtain rfl : listener = .fft := by simpa [Frame.servedBy] using served
    obtain ⟨magic, limit, rfl⟩ := encodeFftHdr_eq hbuf hdr head room header
    rw [encodeFftPayload_eq dst power payload body, List.append_assoc, Listener.read, readSpec,
      if_neg positive, readFftSpec_frame hdr power rest _ magic limit count]
    rfl
  | event type freq buf out len evt =>
    obtain ⟨known, bytes⟩ := encodeEvt_eq buf type freq _ evt
    rw [bytes]
    -- both kinds of read see the event in the same way
    cases listener with
    | iq =>
      rw [Listener.read, readSpec, if_neg positive, readIqSpec, readFrameSpec,
        readHeaderSpec_evtBytes _ _ _ _ known]
      rfl
    | fft =>
      rw [Listener.read, readSpec, if_neg positive, readFftSpec, readFrameSpec,
        readHeaderSpec_evtBytes _ _ _ _ known]
      rfl

/-! ### Whole streams -/

theorem readSpec_negative (feed : Feed) (listener : Listener) (capacity : Int)
    (negative : capacity < 0) : readSpec feed (listener.read capacity) = (feed, [.error]) := by
  cases listener <;> exact if_pos negative

theorem expectedReads_nil (capacities : List Int) :
    expectedReads [] capacities = List.replicate capacities.length .error := by
  induction capacities with
  | nil => rfl
  | cons capacity capacities ih =>
    simp only [expectedReads, ite_self, ih]
    rfl

/-- A stream that may still be read: as many frames as calls, or a final `STREAM_END`. -/
def Suffices (frames : List Frame) (capacities : List Int) : Prop :=
  framesRead capacities ≤ frames.length ∨
    ∃ last, frames.getLast? = some last ∧ last.isStreamEnd = true

theorem framesRead_negative (capacity : Int) (capacities : List Int) (negative : capacity < 0) :
    framesRead (capacity :: capacities) = framesRead capacities :=
  List.countP_cons_of_neg (by simpa using negative)

theorem framesRead_accepted (capacity : Int) (capacities : List Int) (accepted : 0 ≤ capacity) :
    framesRead (capacity :: capacities) = framesRead capacities + 1 :=
  List.countP_cons_of_pos (by simpa using accepted)

theorem Suffices.tail (frame : Frame) (frames : List Frame) (capacity : Int)
    (capacities : List Int) (accepted : 0 ≤ capacity) (goes : frame.isStreamEnd = false)
    (enough : Suffices (frame :: frames) (capacity :: capacities)) :
    Suffices frames capacities := by
  rcases enough with count | ⟨last, isLast, ended⟩
  · rw [framesRead_accepted capacity capacities accepted] at count
    exact .inl (Nat.le_of_succ_le_succ count)
  · cases frames with
    | nil =>
      obtain rfl : frame = last := by simpa using isLast
      rw [goes] at ended
      cases ended
    | cons next frames => exact .inr ⟨last, by simpa using isLast, ended⟩

/-- The decoder over a whole encoded stream. The induction is on the calls, and a refused
call leaves the frames for the next one. -/
theorem reads_encoded (listener : Listener) (frames : List Frame) (wires : List (List UInt8))
    (rest : List UInt8) (capacities : List Int) (encoded : List.Forall₂ Frame.Encoded frames wires)
    (served : ∀ frame ∈ frames, frame.servedBy listener = true)
    (ends : ∀ frame ∈ frames.dropLast, frame.isStreamEnd = false)
    (enough : Suffices frames capacities) :
    (Transducer.run readSpec ⟨wires.flatten ++ rest, true⟩ (capacities.map listener.read)).2 =
        expectedReads frames capacities ∧
      (Transducer.run readSpec ⟨wires.flatten ++ rest, true⟩
        (capacities.map listener.read)).1.bytes =
          (wires.drop (framesRead capacities)).flatten ++ rest := by
  induction capacities generalizing frames wires with
  | nil => exact ⟨rfl, rfl⟩
  | cons capacity capacities ih =>
    rw [List.map_cons, Transducer.run_cons]
    by_cases negative : capacity < 0
    · have count := framesRead_negative capacity capacities negative
      rw [readSpec_negative _ _ _ negative, count]
      obtain ⟨outcomes, aligned⟩ := ih frames wires encoded served ends (by
        rw [Suffices, count] at enough
        exact enough)
      constructor
      · rw [outcomes]
        simp only [expectedReads, if_pos negative]
        rfl
      · exact aligned
    · have accepted : 0 ≤ capacity := not_lt.mp negative
      have count := framesRead_accepted capacity capacities accepted
      cases encoded with
      | nil =>
        -- no frame is left, although the call reads one
        rcases enough with enough | ⟨last, isLast, _⟩
        · rw [count] at enough
          exact absurd enough (Nat.not_succ_le_zero _)
        · cases isLast
      | @cons frame wire frames wires here later =>
        have first : frame.servedBy listener = true := served frame List.mem_cons_self
        rw [List.flatten_cons, List.append_assoc,
          readSpec_encoded listener frame wire _ here first capacity accepted]
        simp only [expectedReads, if_neg negative, count, List.drop_succ_cons]
        by_cases ended : frame.isStreamEnd = true
        · -- the end comes last: everything after it is an error
          obtain rfl : frames = [] := by
            by_contra more
            have inside : frame ∈ (frame :: frames).dropLast := by
              rw [List.dropLast_cons_of_ne_nil more]
              exact List.mem_cons_self
            rw [ends frame inside] at ended
            cases ended
          cases later
          rw [ended, Bool.not_true, reads_closed, List.length_map, ← expectedReads_nil]
          exact ⟨rfl, by simp⟩
        · have goes : frame.isStreamEnd = false := by simpa using ended
          have inner : ∀ next ∈ frames.dropLast, next.isStreamEnd = false := by
            intro next member
            apply ends
            cases frames with
            | nil => cases member
            | cons second frames => exact List.mem_cons_of_mem _ member
          obtain ⟨outcomes, aligned⟩ := ih frames wires later
            (fun next member => served next (List.mem_cons_of_mem _ member)) inner
            (Suffices.tail frame frames capacity capacities accepted goes enough)
          rw [goes, Bool.not_false, outcomes]
          exact ⟨rfl, aligned⟩

/-- Whatever frames the encoders accept, however the connection fragments them and
whatever capacities the calls pass, the C client's successive reads return exactly the
frames, in step with the stream. -/
theorem wire_round_trip (host : Endian) (listener : Listener) (frames : List Frame)
    (wires : List (List UInt8)) (encoded : List.Forall₂ Frame.Encoded frames wires)
    (served : ∀ frame ∈ frames, frame.servedBy listener = true)
    (ends : ∀ frame ∈ frames.dropLast, frame.isStreamEnd = false)
    (ctx : StreamCtx) (connected : ctx.conn.connected = true) (rest : List UInt8)
    (stream : ctx.conn.socket.incoming = wires.flatten ++ rest)
    (reads : List StreamRead) (roomy : ∀ read ∈ reads, read.Roomy)
    (capacities : List Int) (calls : reads.map StreamRead.call = capacities.map listener.read)
    (enough : Suffices frames capacities) :
    (Transducer.run (streamRead host) ctx reads).2 = expectedReads frames capacities ∧
      (Transducer.run (streamRead host) ctx reads).1.conn.socket.incoming =
        (wires.drop (framesRead capacities)).flatten ++ rest := by
  have refines := streamReads_refine host ctx reads roomy
  have feed : ctx.conn.feed = ⟨wires.flatten ++ rest, true⟩ := by
    rw [Conn.feed, stream, connected]
  rw [calls, feed] at refines
  obtain ⟨outcomes, aligned⟩ :=
    reads_encoded listener frames wires rest capacities encoded served ends enough
  rw [refines] at outcomes aligned
  exact ⟨outcomes, aligned⟩

/-- A capacity error, samples, a frequency change, a refused call and the end of the stream, over a
connection that fragments the bytes and is interrupted. -/
theorem wire_round_trip_four_frames :
    let hdr : IqHdr := ⟨magicIq, 100000000, 240000, 0, 2⟩
    ∃ wires, List.Forall₂ Frame.Encoded
        [.iq hdr [1, -2], .iq hdr [1, -2], .event evtFreqChange 7, .event evtStreamEnd 0] wires ∧
      (Transducer.run (streamRead .little)
        (streamConnect ⟨wires.flatten, [3, 0, 1, 40], [], []⟩)
        [.iq hdr [0, 0] 1, .iq hdr [0, 0, 0, 0] 2, .iq hdr [] 0, .iq hdr [] (-1), .iq hdr [] 0,
          .iq hdr [] 0]).2 =
        [.iqCapacity hdr, .iq hdr [1, -2], .event evtFreqChange 7, .error, .event evtStreamEnd 0, .error] := by
  intro hdr
  have frame : (Frame.iq hdr [1, -2]).Encoded _ :=
    .iq hdr [1, -2] (List.replicate 32 0) (List.replicate 4 0)
      (putHdr (List.replicate 32 0) magicIq 100000000 240000 0 2) _ rfl rfl (if_neg (by decide)) rfl
  have change : (Frame.event evtFreqChange 7).Encoded _ :=
    .event evtFreqChange 7 (List.replicate 16 0) _ _ rfl
  have ended : (Frame.event evtStreamEnd 0).Encoded _ :=
    .event evtStreamEnd 0 (List.replicate 16 0) _ _ rfl
  have encoded := List.Forall₂.cons frame (.cons frame <| .cons change (.cons ended .nil))
  refine ⟨_, encoded, ?_⟩
  refine (wire_round_trip .little .iq _ _ encoded (by decide) (by decide) _ ?_ [] ?_ _ ?_
    [1, 2, 0, -1, 0, 0] ?_ (.inr ⟨.event evtStreamEnd 0, rfl, rfl⟩)).1
  · rfl
  · exact (List.append_nil _).symm
  · simp [StreamRead.Roomy]
  · rfl

end RtlSdr
