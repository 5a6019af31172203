import RtlSdr.Stream.ClientC

/-!
# The last event of the C client

`read_header` fills the event of the context in two steps, the type before the receive of the
frequency and the frequency after it. A stream that ends between the two leaves a frequency change
to 0 Hz behind, although the call reports an error.
-/
namespace RtlSdr

def streamLastEvent (ctx : StreamCtx) : StreamEvent := ctx.event

/-- `before` is the event, all of it, and then `after`. -/
def Consumed (event : StreamEvent) (before after : List UInt8) : Prop :=
  (event.type = evtFreqChange ∨ event.type = evtStreamEnd ∧ event.freq = 0) ∧
    before = evtBytes event.type event.freq ++ after

/-- What is left of the stream is a frequency change that is cut inside its frequency. -/
def CutShort (bytes : List UInt8) : Prop :=
  ∃ tail : List UInt8, tail.length < 8 ∧
    bytes = bytes32 magicEvt ++ (bytes32 evtFreqChange ++ tail)

/-! ### Receives -/

theorem word_append_iff {word rest tail : List UInt8} {val : UInt32} (four : word.length = 4) :
    word ++ rest = bytes32 val ++ tail ↔ get32 word = val ∧ rest = tail := by
  have whole := bytes32_get32 word [] four
  rw [List.append_nil] at whole
  constructor
  · intro same
    obtain ⟨head, rest_eq⟩ := List.append_inj same (by rw [four, bytes32_length])
    rw [head]
    exact ⟨get32_cell val, rest_eq⟩
  · rintro ⟨rfl, rfl⟩
    rw [whole]

/-- A receive moves the connection alone, and takes its bytes or fails. -/
theorem StreamCtx.recvAll_split (ctx : StreamCtx) (len : Nat) (live : ctx.conn.connected = true) :
    (∃ conn got, ctx.recvAll len = ({ ctx with conn }, got, false) ∧
        ctx.conn.socket.incoming.length < len) ∨
      ∃ conn got, ctx.recvAll len = ({ ctx with conn }, got, true) ∧ conn.connected = true ∧
        got.length = len ∧ ctx.conn.socket.incoming = got ++ conn.socket.incoming := by
  obtain ⟨sizes, received⟩ := ctx.conn.recvAll_live len live
  by_cases enough : len ≤ ctx.conn.socket.incoming.length
  · rw [decide_eq_true enough] at received
    refine .inr ⟨_, _, ctx.recvAll_eq len _ _ _ received, rfl, ?_, ?_⟩
    · rw [List.length_take, Nat.min_eq_left enough]
    · exact (List.take_append_drop len _).symm
  · rw [decide_eq_false enough] at received
    exact .inl ⟨_, _, ctx.recvAll_eq len _ _ _ received, Nat.lt_of_not_le enough⟩

theorem StreamCtx.recvAll_event (ctx : StreamCtx) (len : Nat) :
    (ctx.recvAll len).1.event = ctx.event := rfl

theorem drainLoop_event (fuel : Nat) (ctx : StreamCtx) (bytes : Nat) :
    (drainLoop fuel ctx bytes).1.event = ctx.event ∧ (drainLoop fuel ctx bytes).2 ≠ .event := by
  induction fuel generalizing ctx bytes with
  | zero => exact ⟨rfl, by simp [drainLoop]⟩
  | succ fuel ih =>
    rw [drainLoop]
    by_cases done : bytes = 0
    · rw [if_pos done]
      exact ⟨rfl, by simp⟩
    · rw [if_neg done]
      generalize (if bytes < 1024 then bytes else 1024) = size
      have same := ctx.recvAll_event size
      rcases received : ctx.recvAll size with ⟨next, got, whole⟩
      rw [received] at same
      simp only [received]
      cases whole with
      | false => exact ⟨same, by simp⟩
      | true =>
        obtain ⟨event, result⟩ := ih next (bytes - size)
        exact ⟨event.trans same, result⟩

/-! ### Headers -/

/-- What a header does to the event `last`: an event that is there replaces it, anything else leaves
it alone, and a frequency change that is cut leaves half of itself. -/
def EventStep (bytes : List UInt8) (last : StreamEvent)
    (read : StreamCtx × ReadResult × List UInt8) : Prop :=
  (read.2.1 = .event ∧ ¬CutShort bytes ∧
      Consumed read.1.event bytes read.1.conn.socket.incoming) ∨
    (read.2.1 ≠ .event ∧ ¬CutShort bytes ∧ read.1.event = last) ∨
    (read.2.1 = .error ∧ CutShort bytes ∧ read.1.event = ⟨evtFreqChange, 0⟩)

theorem cutShort_length {bytes : List UInt8} (cut : CutShort bytes) : 8 ≤ bytes.length := by
  obtain ⟨tail, _, rfl⟩ := cut
  simp
  omega

theorem cutShort_word_iff {word rest : List UInt8} (four : word.length = 4) :
    CutShort (word ++ rest) ↔
      get32 word = magicEvt ∧ ∃ tail : List UInt8, tail.length < 8 ∧
        rest = bytes32 evtFreqChange ++ tail := by
  constructor
  · rintro ⟨tail, short, same⟩
    obtain ⟨magic, rest_eq⟩ := (word_append_iff four).mp same
    exact ⟨magic, tail, short, rest_eq⟩
  · rintro ⟨magic, tail, short, rest_eq⟩
    exact ⟨tail, short, (word_append_iff four).mpr ⟨magic, rest_eq⟩⟩

/-- Behind the magic and the type, only the length counts. -/
theorem cutShort_event_iff {type rest : List UInt8} (four : type.length = 4) :
    CutShort (bytes32 magicEvt ++ (type ++ rest)) ↔
      get32 type = evtFreqChange ∧ rest.length < 8 := by
  rw [cutShort_word_iff (bytes32_length magicEvt)]
  constructor
  · rintro ⟨_, tail, short, same⟩
    obtain ⟨change, rfl⟩ := (word_append_iff four).mp same
    exact ⟨change, short⟩
  · rintro ⟨change, short⟩
    exact ⟨get32_cell magicEvt, rest, short, (word_append_iff four).mpr ⟨change, rfl⟩⟩

theorem readEvent_step (ctx : StreamCtx) (live : ctx.conn.connected = true) :
    EventStep (bytes32 magicEvt ++ ctx.conn.socket.incoming) ctx.event (readEvent ctx) := by
  unfold readEvent
  rcases ctx.recvAll_split 4 live with
    ⟨conn, got, received, short⟩ | ⟨conn, type, received, live, four, bytes⟩
  · -- the type is cut
    rw [received]
    refine .inr (.inl ⟨by simp, fun cut => ?_, rfl⟩)
    have long := cutShort_length cut
    rw [List.length_append, bytes32_length] at long
    omega
  have spelled : bytes32 (get32 type) = type := by
    simpa using bytes32_get32 type [] four
  rw [received, bytes]
  by_cases change : get32 type = evtFreqChange
  · rcases StreamCtx.recvAll_split { ctx with conn, event := ⟨evtFreqChange, 0⟩ } 8 live with
      ⟨conn', got, received, short⟩ | ⟨conn', freq, received, live, eight, bytes⟩
    · -- the frequency is cut
      refine .inr (.inr ⟨?_, (cutShort_event_iff four).mpr ⟨change, short⟩, ?_⟩)
      · simp [change, received]
      · simp [change, received, StreamCtx.fail]
    · have spelled64 : bytes64 (get64 freq) = freq := by
        simpa using bytes64_get64 freq [] eight
      refine .inl ⟨?_, fun cut => ?_, ?_⟩
      · simp [change, received]
      · have short := ((cutShort_event_iff four).mp cut).2
        change conn.socket.incoming = freq ++ conn'.socket.incoming at bytes
        rw [bytes, List.length_append, eight] at short
        omega
      · refine ⟨.inl ?_, ?_⟩
        · simp [change, received]
        · change conn.socket.incoming = freq ++ conn'.socket.incoming at bytes
          rw [change] at spelled
          simp [change, received, evtBytes, spelled, spelled64, bytes]
  · by_cases ended : get32 type = evtStreamEnd
    · have kept : ¬CutShort (bytes32 magicEvt ++ (type ++ conn.socket.incoming)) := fun cut =>
        change ((cutShort_event_iff four).mp cut).1
      have other : ¬evtStreamEnd = evtFreqChange := by decide
      refine .inl ⟨?_, kept, ?_⟩
      · simp [ended, other]
      · rw [ended] at spelled
        simp [ended, other, Consumed, evtBytes, spelled, StreamCtx.fail, Conn.close]
    · refine .inr (.inl ⟨?_, fun cut => change ((cutShort_event_iff four).mp cut).1, ?_⟩)
      · simp [change, ended]
      · simp [change, ended, StreamCtx.fail]

theorem readHeader_step (ctx : StreamCtx) (magic : UInt32) (live : ctx.conn.connected = true) :
    EventStep ctx.conn.socket.incoming ctx.event (readHeader ctx magic) := by
  unfold readHeader
  rcases ctx.recvAll_split 4 live with
    ⟨conn, got, received, short⟩ | ⟨conn, head, received, live, four, bytes⟩
  · rw [received]
    refine .inr (.inl ⟨by simp, fun cut => ?_, rfl⟩)
    have long := cutShort_length cut
    omega
  rw [received, bytes]
  by_cases event : get32 head = magicEvt
  · have spelled : bytes32 magicEvt = head := by
      simpa [event] using bytes32_get32 head [] four
    simp only [event, if_true]
    rw [← spelled]
    exact readEvent_step { ctx with conn } live
  · have kept : ¬CutShort (head ++ conn.socket.incoming) := fun cut =>
      event ((cutShort_word_iff four).mp cut).1
    by_cases kind : get32 head = magic
    · rcases StreamCtx.recvAll_split { ctx with conn } 28 live with
        ⟨conn', got, received, _⟩ | ⟨conn', rest, received, _⟩
      · refine .inr (.inl ⟨?_, kept, ?_⟩)
        · simp [← kind, event, received]
        · simp [← kind, event, received, StreamCtx.fail]
      · refine .inr (.inl ⟨?_, kept, ?_⟩)
        · simp [← kind, event, received]
        · simp [← kind, event, received]
    · refine .inr (.inl ⟨?_, kept, ?_⟩)
      · simp [event, kind]
      · simp [event, kind, StreamCtx.fail]

theorem readHeader_closed (ctx : StreamCtx) (magic : UInt32) (closed : ctx.conn.connected = false) :
    readHeader ctx magic = (ctx.fail, .error, []) := by
  rw [readHeader, ctx.recvAll_eq 4 _ _ _ (ctx.conn.recvAll_closed 4 closed (by decide))]

/-! ### Calls -/

/-- What a read call leaves behind: the context, the result, and the caller's memory. -/
structure CallEnd where
  ctx : StreamCtx
  result : ReadResult
  untouched : Prop

def StreamRead.finish (host : Endian) (ctx : StreamCtx) : StreamRead → CallEnd
  | .iq hdr samples maxComponents =>
    let out := readIq host ctx hdr samples maxComponents
    ⟨out.ctx, out.result, out.hdr = hdr ∧ out.samples = samples⟩
  | .fft hdr power maxBins =>
    let out := readFft host ctx hdr power maxBins
    ⟨out.ctx, out.result, out.hdr = hdr ∧ out.power = power⟩

def StreamRead.capacity : StreamRead → Int
  | .iq _ _ maxComponents => maxComponents
  | .fft _ _ maxBins => maxBins

/-- A call replaces the last event by the one it reports, and by no other. -/
structure AtomicCall (host : Endian) (ctx : StreamCtx) (read : StreamRead) : Prop where
  kept : (read.finish host ctx).result ≠ .event →
    streamLastEvent (read.finish host ctx).ctx = streamLastEvent ctx
  untouched : (read.finish host ctx).result = .event → (read.finish host ctx).untouched
  consumed : (read.finish host ctx).result = .event →
    Consumed (streamLastEvent (read.finish host ctx).ctx) ctx.conn.socket.incoming
      (read.finish host ctx).ctx.conn.socket.incoming

/-- The call does not look at the stream, or the stream is not cut inside a frequency change, or the
last event is the half of one already. -/
def Uncut (ctx : StreamCtx) (read : StreamRead) : Prop :=
  read.capacity < 0 ∨ ctx.conn.connected = false ∨ ¬CutShort ctx.conn.socket.incoming ∨
    ctx.event = ⟨evtFreqChange, 0⟩

def StreamRead.magic : StreamRead → UInt32
  | .iq _ _ _ => magicIq
  | .fft _ _ _ => magicFft

section

variable (host : Endian) (ctx : StreamCtx) (read : StreamRead)

theorem finish_refused (refused : read.capacity < 0) :
    (read.finish host ctx).ctx = ctx ∧ (read.finish host ctx).result = .error := by
  cases read with
  | iq hdr samples maxComponents =>
    simp [StreamRead.finish, readIq, show maxComponents < 0 from refused]
  | fft hdr power maxBins => simp [StreamRead.finish, readFft, show maxBins < 0 from refused]

theorem finish_other (accepted : ¬read.capacity < 0)
    (other : (readHeader ctx read.magic).2.1 ≠ .ok) :
    (read.finish host ctx).ctx = (readHeader ctx read.magic).1 ∧
      (read.finish host ctx).result = (readHeader ctx read.magic).2.1 ∧
      (read.finish host ctx).untouched := by
  cases read with
  | iq hdr samples maxComponents =>
    simp only [StreamRead.magic] at other ⊢
    simp only [StreamRead.finish, readIq, if_neg (show ¬maxComponents < 0 from accepted)]
    rcases header : readHeader ctx magicIq with ⟨next, result, buf⟩
    rw [header] at other
    cases result <;> simp_all
  | fft hdr power maxBins =>
    simp only [StreamRead.magic] at other ⊢
    simp only [StreamRead.finish, readFft, if_neg (show ¬maxBins < 0 from accepted)]
    rcases header : readHeader ctx magicFft with ⟨next, result, buf⟩
    rw [header] at other
    cases result <;> simp_all

/-- Behind a data header no event is reported, and the last one stays. -/
theorem finish_data (accepted : ¬read.capacity < 0)
    (data : (readHeader ctx read.magic).2.1 = .ok) :
    (read.finish host ctx).ctx.event = (readHeader ctx read.magic).1.event ∧
      (read.finish host ctx).result ≠ .event := by
  cases read with
  | iq hdr samples maxComponents =>
    simp only [StreamRead.magic] at data ⊢
    simp only [StreamRead.finish, readIq, if_neg (show ¬maxComponents < 0 from accepted)]
    rcases header : readHeader ctx magicIq with ⟨next, result, buf⟩
    rw [header] at data
    cases data
    simp only
    split_ifs with invalid large
    · exact ⟨rfl, by simp⟩
    · exact drainLoop_event _ next _
    · have same := next.recvAll_event ((iqHdrOf buf).nsamples.toNat * 2)
      rcases received : next.recvAll ((iqHdrOf buf).nsamples.toNat * 2) with ⟨last, got, whole⟩
      rw [received] at same
      cases whole <;> exact ⟨same, by simp⟩
  | fft hdr power maxBins =>
    simp only [StreamRead.magic] at data ⊢
    simp only [StreamRead.finish, readFft, if_neg (show ¬maxBins < 0 from accepted)]
    rcases header : readHeader ctx magicFft with ⟨next, result, buf⟩
    rw [header] at data
    cases data
    simp only
    split_ifs with invalid large
    · exact ⟨rfl, by simp⟩
    · exact drainLoop_event _ next _
    · have same := next.recvAll_event ((fftHdrOf buf).bins.toNat * 4)
      rcases received : next.recvAll ((fftHdrOf buf).bins.toNat * 4) with ⟨last, got, whole⟩
      rw [received] at same
      cases whole <;> exact ⟨same, by simp⟩

end

theorem AtomicCall.of_kept {host : Endian} {ctx : StreamCtx} {read : StreamRead}
    (result : (read.finish host ctx).result ≠ .event)
    (same : (read.finish host ctx).ctx.event = ctx.event) : AtomicCall host ctx read :=
  ⟨fun _ => same, fun event => absurd event result, fun event => absurd event result⟩

/-- Exactly when a call replaces the last event by the one it reports, and by no other. -/
theorem atomicCall_iff (host : Endian) (ctx : StreamCtx) (read : StreamRead) :
    AtomicCall host ctx read ↔ Uncut ctx read := by
  by_cases refused : read.capacity < 0
  · obtain ⟨same, result⟩ := finish_refused host ctx read refused
    exact ⟨fun _ => .inl refused, fun _ => .of_kept (by rw [result]; simp) (by rw [same])⟩
  cases live : ctx.conn.connected
  · have header := readHeader_closed ctx read.magic live
    obtain ⟨same, result, _⟩ := finish_other host ctx read refused (by rw [header]; simp)
    rw [header] at same result
    exact ⟨fun _ => .inr (.inl live), fun _ => .of_kept (by rw [result]; simp) (by rw [same]; rfl)⟩
  rcases readHeader_step ctx read.magic live with
    ⟨event, uncut, consumed⟩ | ⟨other, uncut, kept⟩ | ⟨error, cut, half⟩
  · obtain ⟨same, result, untouched⟩ := finish_other host ctx read refused (by rw [event]; simp)
    refine ⟨fun _ => .inr (.inr (.inl uncut)), fun _ => ⟨?_, fun _ => untouched, fun _ => ?_⟩⟩
    · intro different
      rw [result] at different
      exact absurd event different
    · rw [streamLastEvent, same]
      exact consumed
  · refine ⟨fun _ => .inr (.inr (.inl uncut)), fun _ => ?_⟩
    by_cases data : (readHeader ctx read.magic).2.1 = .ok
    · obtain ⟨same, result⟩ := finish_data host ctx read refused data
      exact .of_kept result (same.trans kept)
    · obtain ⟨same, result, _⟩ := finish_other host ctx read refused data
      exact .of_kept (by rwa [result]) (by rw [same, kept])
  · obtain ⟨same, result, _⟩ := finish_other host ctx read refused (by rw [error]; simp)
    have reported : (read.finish host ctx).result ≠ .event := by
      rw [result, error]
      simp
    have left : (read.finish host ctx).ctx.event = ⟨evtFreqChange, 0⟩ := by rw [same, half]
    constructor
    · intro atomic
      exact .inr (.inr (.inr ((atomic.kept reported).symm.trans left)))
    · rintro (negative | closed | uncut | already)
      · exact absurd negative refused
      · rw [live] at closed
        cases closed
      · exact absurd cut uncut
      · exact .of_kept reported (left.trans already.symm)

/-- The context before the last of the calls `before`. -/
def ctxAfter (host : Endian) (ctx : StreamCtx) (before : List StreamRead) : StreamCtx :=
  (Transducer.run (streamRead host) ctx before).1

/-- Over any session, whatever the stream, its fragmentation and its end: the calls that treat the
last event as a whole are the ones that do not start at a frequency change that is cut. -/
theorem lastEvent_atomic_iff (host : Endian) (ctx : StreamCtx) (reads : List StreamRead) :
    (∀ before read after, reads = before ++ read :: after →
        AtomicCall host (ctxAfter host ctx before) read) ↔
      ∀ before read after, reads = before ++ read :: after →
        Uncut (ctxAfter host ctx before) read := by
  constructor
  · intro atomic before read after split
    exact (atomicCall_iff host _ read).mp (atomic before read after split)
  · intro uncut before read after split
    exact (atomicCall_iff host _ read).mpr (uncut before read after split)

/-- A context whose last event is a change to 98 MHz, and the bytes it is to read. -/
def changedContext (bytes : List UInt8) : StreamCtx :=
  ⟨⟨⟨bytes, [], [], []⟩, true⟩, true, ⟨evtFreqChange, 98000000⟩⟩

/-- All of a change to 100 MHz. -/
theorem lastEvent_atomic_whole :
    AtomicCall .little (changedContext (evtBytes evtFreqChange 100000000))
        (.iq ⟨0, 0, 0, 0, 0⟩ [] 0) ∧
      streamLastEvent (readIq .little (changedContext (evtBytes evtFreqChange 100000000))
        ⟨0, 0, 0, 0, 0⟩ [] 0).ctx = ⟨evtFreqChange, 100000000⟩ := by
  refine ⟨(lastEvent_atomic_iff .little _ [.iq ⟨0, 0, 0, 0, 0⟩ [] 0]).mpr ?_ [] _ [] rfl, by decide⟩
  intro before read after split
  obtain ⟨rfl, rfl, rfl⟩ : before = [] ∧ read = .iq ⟨0, 0, 0, 0, 0⟩ [] 0 ∧ after = [] := by
    cases before with
    | nil => simpa [eq_comm] using split
    | cons first rest => simp at split
  refine .inr (.inr (.inl ?_))
  rintro ⟨tail, short, same⟩
  have lengths := congrArg List.length same
  have whole : (evtBytes evtFreqChange 100000000).length = 16 := by decide
  change (evtBytes evtFreqChange 100000000).length = _ at lengths
  rw [whole, List.length_append, List.length_append, bytes32_length, bytes32_length] at lengths
  omega

/-- Three of the eight bytes of the frequency: the read fails, and the last event is a change to
0 Hz. -/
theorem lastEvent_halved :
    (readIq .little (changedContext ((evtBytes evtFreqChange 100000000).take 11))
        ⟨0, 0, 0, 0, 0⟩ [] 0).result = .error ∧
      streamLastEvent (readIq .little
        (changedContext ((evtBytes evtFreqChange 100000000).take 11)) ⟨0, 0, 0, 0, 0⟩ [] 0).ctx =
          ⟨evtFreqChange, 0⟩ ∧
      ¬AtomicCall .little (changedContext ((evtBytes evtFreqChange 100000000).take 11))
        (.iq ⟨0, 0, 0, 0, 0⟩ [] 0) := by
  refine ⟨by decide, by decide, fun atomic => ?_⟩
  exact absurd (atomic.kept (by decide)) (by decide)

end RtlSdr
