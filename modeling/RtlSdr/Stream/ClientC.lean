import RtlSdr.Stream.Decode

/-!
# The C client (`stream_client/c/client.c`)

Reads are state passing on the context. The caller's header and sample array are
out-parameters, so a call returns what they hold afterwards even when it fails.
-/
namespace RtlSdr

/-- `struct rtlsdr_stream_event`. -/
structure StreamEvent where
  type : UInt32
  freq : UInt64
deriving DecidableEq, Repr

/-- `struct rtlsdr_stream_ctx`. -/
structure StreamCtx where
  conn : Conn
  requested : Bool
  event : StreamEvent
deriving DecidableEq, Repr

/-- The context `rtlsdr_stream_connect` returns once a socket is connected. -/
def streamConnect (socket : Socket) : StreamCtx := ⟨⟨socket, true⟩, false, ⟨0, 0⟩⟩

/-- `rtlsdr_stream_request`: whether it returns 0. -/
def streamRequest (ctx : StreamCtx) (freq rate bandwidth : UInt64) (mode : UInt8) :
    StreamCtx × Bool :=
  if !ctx.conn.connected || ctx.requested || (mode != modeIq && mode != modeFft) ||
      (mode == modeFft && (freq != 0 || rate != 0 || bandwidth != 0)) then (ctx, false)
  else
    -- the stack buffer's previous contents do not survive the stores below
    let buf := put32 (List.replicate 29 0) 0 magicReq
    let buf := put64 buf 4 freq
    let buf := put64 buf 12 rate
    let buf := put64 buf 20 bandwidth
    let buf := buf.set 28 mode
    let (socket, sent) := sendAll ctx.conn.socket buf
    ({ ctx with requested := true, conn := ⟨socket, sent⟩ }, sent)

/-- The `RTLSTREAM_READ_*` and `RTLSTREAM_ERROR*` codes. -/
inductive ReadResult
  | ok
  | event
  | error
  | errorCapacity
deriving DecidableEq, Repr

/-- `fail`: close and forget the descriptor. -/
def StreamCtx.fail (ctx : StreamCtx) : StreamCtx := { ctx with conn := ctx.conn.close }

/-- `recv_all` on the context's descriptor. -/
def StreamCtx.recvAll (ctx : StreamCtx) (len : Nat) : StreamCtx × List UInt8 × Bool :=
  let (conn, got, whole) := ctx.conn.recvAll len
  ({ ctx with conn }, got, whole)

/-- The rest of `read_header` once the magic was an event's. -/
def readEvent (ctx : StreamCtx) : StreamCtx × ReadResult × List UInt8 :=
  match ctx.recvAll 4 with
  | (ctx, _, false) => (ctx.fail, .error, [])
  | (ctx, rest, true) =>
    let type := get32 rest
    if type ≠ evtFreqChange ∧ type ≠ evtStreamEnd then (ctx.fail, .error, [])
    else
      -- `last_event` already changes here, before the frequency is read
      let ctx := { ctx with event := ⟨type, 0⟩ }
      if type = evtFreqChange then
        match ctx.recvAll 8 with
        | (ctx, _, false) => (ctx.fail, .error, [])
        | (ctx, freq, true) => ({ ctx with event := ⟨type, get64 freq⟩ }, .event, [])
      else (ctx.fail, .event, [])

/-- `read_header`, with the 32 bytes of a data header on `RTLSTREAM_READ_OK`. -/
def readHeader (ctx : StreamCtx) (magic : UInt32) : StreamCtx × ReadResult × List UInt8 :=
  match ctx.recvAll 4 with
  | (ctx, _, false) => (ctx.fail, .error, [])
  | (ctx, head, true) =>
    if get32 head = magicEvt then readEvent ctx
    else if get32 head ≠ magic then (ctx.fail, .error, [])
    else
      match ctx.recvAll 28 with
      | (ctx, _, false) => (ctx.fail, .error, [])
      | (ctx, rest, true) => (ctx, .ok, head ++ rest)

/-- The loop of `drain`, one scratch buffer of 1024 bytes at a time. -/
def drainLoop : Nat → StreamCtx → Nat → StreamCtx × ReadResult
  | 0, ctx, _ => (ctx, .errorCapacity)
  | fuel + 1, ctx, bytes =>
    if bytes = 0 then (ctx, .errorCapacity)
    else
      let n := if bytes < 1024 then bytes else 1024
      match ctx.recvAll n with
      | (ctx, _, false) => (ctx.fail, .error)
      | (ctx, _, true) => drainLoop fuel ctx (bytes - n)

/-- `drain`; every round takes at least one byte. -/
def drain (ctx : StreamCtx) (bytes : Nat) : StreamCtx × ReadResult := drainLoop bytes ctx bytes

/-- What `rtlsdr_stream_read_iq` leaves behind. -/
structure ReadIq where
  ctx : StreamCtx
  result : ReadResult
  hdr : IqHdr
  samples : List UInt8

/-- `rtlsdr_stream_read_iq` into an array of `samples.length` bytes. -/
def readIq (host : Endian) (ctx : StreamCtx) (hdr : IqHdr) (samples : List UInt8)
    (maxComponents : Int) : ReadIq :=
  if maxComponents < 0 then ⟨ctx, .error, hdr, samples⟩
  else
    match readHeader ctx magicIq with
    | (ctx, .ok, buf) =>
      let hdr := iqHdrOf buf
      let n := hdr.nsamples.toNat
      if n > maxIqComponents ∨ hdr.nsamples &&& 1 ≠ 0 then ⟨ctx.fail, .error, hdr, samples⟩
      else if n > maxComponents.toNat then
        let (ctx, result) := drain ctx (n * 2)
        ⟨ctx, result, hdr, samples⟩
      else
        match ctx.recvAll (n * 2) with
        | (ctx, got, false) => ⟨ctx.fail, .error, hdr, Memory.splice samples 0 got⟩
        | (ctx, got, true) =>
          ⟨ctx, .ok, hdr, convertSamples host n (Memory.splice samples 0 got)⟩
    | (ctx, result, _) => ⟨ctx, result, hdr, samples⟩

/-- What `rtlsdr_stream_read_fft` leaves behind. -/
structure ReadFft where
  ctx : StreamCtx
  result : ReadResult
  hdr : FftHdr
  power : List UInt8

/-- `rtlsdr_stream_read_fft` into an array of `power.length` bytes. -/
def readFft (host : Endian) (ctx : StreamCtx) (hdr : FftHdr) (power : List UInt8)
    (maxBins : Int) : ReadFft :=
  if maxBins < 0 then ⟨ctx, .error, hdr, power⟩
  else
    match readHeader ctx magicFft with
    | (ctx, .ok, buf) =>
      let hdr := fftHdrOf buf
      let n := hdr.bins.toNat
      if n < 2 ∨ n > maxFftBins then ⟨ctx.fail, .error, hdr, power⟩
      else if n > maxBins.toNat then
        let (ctx, result) := drain ctx (n * 4)
        ⟨ctx, result, hdr, power⟩
      else
        match ctx.recvAll (n * 4) with
        | (ctx, got, false) => ⟨ctx.fail, .error, hdr, Memory.splice power 0 got⟩
        | (ctx, got, true) => ⟨ctx, .ok, hdr, convertBins host n (Memory.splice power 0 got)⟩
    | (ctx, result, _) => ⟨ctx, result, hdr, power⟩

/-! ### Refinement of the abstract decoder -/

/-- How a caller reads the result of an I/Q read. -/
def ReadIq.outcome (host : Endian) (out : ReadIq) : Outcome :=
  match out.result with
  | .ok => .iq out.hdr (loadSamples host out.hdr.nsamples.toNat out.samples)
  | .event => .event out.ctx.event.type out.ctx.event.freq
  | .errorCapacity => .iqCapacity out.hdr
  | .error => .error

def ReadFft.outcome (host : Endian) (out : ReadFft) : Outcome :=
  match out.result with
  | .ok => .fft out.hdr (loadBins host out.hdr.bins.toNat out.power)
  | .event => .event out.ctx.event.type out.ctx.event.freq
  | .errorCapacity => .fftCapacity out.hdr
  | .error => .error

/-- How `read_iq` and `read_fft` read the result of `read_header`. -/
def headerOf : StreamCtx × ReadResult × List UInt8 → Header × Feed
  | (ctx, .ok, buf) => (.data buf, ctx.conn.feed)
  | (ctx, .event, _) => (.event ctx.event.type ctx.event.freq, ctx.conn.feed)
  | (ctx, _, _) => (.error, ctx.conn.feed)

@[simp] theorem StreamCtx.fail_feed (ctx : StreamCtx) :
    ctx.fail.conn.feed = ⟨ctx.conn.socket.incoming, false⟩ := rfl

/-- A receive through the context: the connection moves, nothing else does. -/
theorem StreamCtx.recvAll_eq (ctx : StreamCtx) (len : Nat) (conn : Conn) (got : List UInt8)
    (whole : Bool) (received : ctx.conn.recvAll len = (conn, got, whole)) :
    ctx.recvAll len = ({ ctx with conn }, got, whole) := by
  rw [StreamCtx.recvAll, received]

theorem readEvent_spec (ctx : StreamCtx) (live : ctx.conn.connected = true) :
    headerOf (readEvent ctx) = readEventSpec ctx.conn.socket.incoming := by
  unfold readEvent readEventSpec
  rcases ctx.conn.recvAll_next 4 live with
    ⟨conn, got, received, _, short⟩ | ⟨conn, type, received, live, _, next⟩
  · rw [ctx.recvAll_eq 4 conn got _ received, short]
    rfl
  rw [ctx.recvAll_eq 4 conn type _ received, next]
  by_cases change : get32 type = evtFreqChange
  · rcases conn.recvAll_next 8 live with
      ⟨conn', got, received, _, short⟩ | ⟨conn', freq, received, live, _, next⟩
    · simp [change, short, StreamCtx.recvAll, received, headerOf]
    · simp [change, next, StreamCtx.recvAll, received, headerOf, Conn.feed, live]
  · by_cases ended : get32 type = evtStreamEnd
    · simp [ended, evtFreqChange, evtStreamEnd, headerOf, StreamCtx.fail, Conn.feed, Conn.close]
    · simp [change, ended, headerOf]

theorem readHeader_spec (ctx : StreamCtx) (magic : UInt32) :
    headerOf (readHeader ctx magic) = readHeaderSpec ctx.conn.feed magic := by
  unfold readHeader readHeaderSpec
  rcases Bool.eq_false_or_eq_true ctx.conn.connected with live | closed
  · rw [if_pos (show ctx.conn.feed.live = true from live)]
    rcases ctx.conn.recvAll_next 4 live with
      ⟨conn, got, received, _, short⟩ | ⟨conn, head, received, live, _, next⟩
    · rw [ctx.recvAll_eq 4 conn got _ received, Conn.feed, short]
      rfl
    rw [ctx.recvAll_eq 4 conn head _ received, Conn.feed, next]
    by_cases event : get32 head = magicEvt
    · simp only [event, if_true]
      exact readEvent_spec { ctx with conn } live
    by_cases kind : get32 head = magic
    · subst kind
      rcases conn.recvAll_next 28 live with
        ⟨conn', got, received, _, short⟩ | ⟨conn', rest, received, live, _, next⟩
      · simp [event, short, StreamCtx.recvAll, received, headerOf]
      · simp [event, next, StreamCtx.recvAll, received, headerOf, Conn.feed, live]
    · simp [event, kind, headerOf]
  · rw [ctx.recvAll_eq 4 _ _ _ (ctx.conn.recvAll_closed 4 closed (by decide))]
    simp [headerOf, Conn.feed, closed, StreamCtx.fail, Conn.close]

/-- `drain` discards exactly `bytes` bytes, or fails at the end of the stream. -/
theorem drainLoop_spec (fuel : Nat) (ctx : StreamCtx) (bytes : Nat) (enough : bytes ≤ fuel)
    (live : ctx.conn.connected = true) :
    ∃ ctx', (drainLoop fuel ctx bytes = (ctx', .errorCapacity) ∧
        bytes ≤ ctx.conn.socket.incoming.length ∧
        ctx'.conn.feed = ⟨ctx.conn.socket.incoming.drop bytes, true⟩) ∨
      (drainLoop fuel ctx bytes = (ctx', .error) ∧
        ¬bytes ≤ ctx.conn.socket.incoming.length ∧ ctx'.conn.feed = ⟨[], false⟩) := by
  induction fuel generalizing ctx bytes with
  | zero =>
    obtain rfl : bytes = 0 := by omega
    exact ⟨ctx, .inl ⟨rfl, by omega, by rw [Conn.feed, live, List.drop_zero]⟩⟩
  | succ fuel ih =>
    rw [drainLoop]
    by_cases done : bytes = 0
    · subst done
      exact ⟨ctx, .inl ⟨by simp, by omega, by rw [Conn.feed, live, List.drop_zero]⟩⟩
    · rw [if_neg done]
      -- one scratch buffer's worth, then the rest by induction
      generalize size : (if bytes < 1024 then bytes else 1024) = n
      have bounds : 0 < n ∧ n ≤ bytes := by split_ifs at size <;> omega
      obtain ⟨sizes, received⟩ := ctx.conn.recvAll_live n live
      simp only [ctx.recvAll_eq n _ _ _ received]
      by_cases whole : n ≤ ctx.conn.socket.incoming.length
      · rw [decide_eq_true whole]
        obtain ⟨ctx', rest⟩ := ih { ctx with conn := ⟨{ ctx.conn.socket with
          incoming := ctx.conn.socket.incoming.drop n, recvSizes := sizes }, true⟩ }
          (bytes - n) (by omega) rfl
        refine ⟨ctx', ?_⟩
        simpa only [List.length_drop, List.drop_drop, Nat.add_sub_of_le bounds.2,
          Nat.sub_le_sub_iff_right whole] using rest
      · rw [decide_eq_false whole]
        refine ⟨_, .inr ⟨rfl, by omega, ?_⟩⟩
        rw [StreamCtx.fail_feed, List.drop_of_length_le (by omega)]

theorem drain_spec (ctx : StreamCtx) (bytes : Nat) (live : ctx.conn.connected = true) :
    ∃ ctx', (drain ctx bytes = (ctx', .errorCapacity) ∧
        bytes ≤ ctx.conn.socket.incoming.length ∧
        ctx'.conn.feed = ⟨ctx.conn.socket.incoming.drop bytes, true⟩) ∨
      (drain ctx bytes = (ctx', .error) ∧
        ¬bytes ≤ ctx.conn.socket.incoming.length ∧ ctx'.conn.feed = ⟨[], false⟩) :=
  drainLoop_spec bytes ctx bytes (le_refl _) live

theorem readEvent_ne_capacity (ctx : StreamCtx) : (readEvent ctx).2.1 ≠ .errorCapacity := by
  unfold readEvent
  split
  · simp
  · simp only
    split_ifs
    · simp
    · split <;> simp
    · simp

theorem readHeader_ne_capacity (ctx : StreamCtx) (magic : UInt32) :
    (readHeader ctx magic).2.1 ≠ .errorCapacity := by
  unfold readHeader
  split
  · simp
  · split_ifs
    · exact readEvent_ne_capacity _
    · simp
    · split <;> simp

/-- Every I/Q read of the C client is the abstract decoder's. -/
theorem readIq_refines (host : Endian) (ctx : StreamCtx) (hdr : IqHdr) (samples : List UInt8)
    (maxComponents : Int) (capacity : 0 ≤ maxComponents)
    (room : 2 * maxComponents.toNat ≤ samples.length) :
    let out := readIq host ctx hdr samples maxComponents
    (out.outcome host, out.ctx.conn.feed) = readIqSpec maxComponents.toNat ctx.conn.feed := by
  simp only [readIq, readIqSpec, readFrameSpec, if_neg (not_lt.mpr capacity)]
  have header := readHeader_spec ctx magicIq
  have expected := readHeader_ne_capacity ctx magicIq
  rcases read : readHeader ctx magicIq with ⟨ctx', result, buf⟩
  rw [read] at header expected
  rw [← header]
  cases result with
  | ok =>
    have live : ctx'.conn.connected = true := readHeaderSpec_live _ _ _ _ header.symm
    simp only [headerOf]
    by_cases invalid : (iqHdrOf buf).nsamples.toNat > maxIqComponents ∨
        (iqHdrOf buf).nsamples &&& 1 ≠ 0
    · rw [if_pos invalid, if_pos invalid]
      rfl
    rw [if_neg invalid, if_neg invalid]
    by_cases large : (iqHdrOf buf).nsamples.toNat > maxComponents.toNat
    · rw [if_pos large]
      obtain ⟨drained, ⟨done, enough, feed⟩ | ⟨done, short, feed⟩⟩ :=
        drain_spec ctx' ((iqHdrOf buf).nsamples.toNat * 2) live
      · rw [done, Feed.next_enough ctx'.conn.feed.bytes _ _ _ enough, if_pos large]
        rw [feed]
        rfl
      · rw [done, Feed.next_short ctx'.conn.feed.bytes _ _ _ short]
        rw [feed]
        rfl
    · rw [if_neg large]
      rcases ctx'.conn.recvAll_next ((iqHdrOf buf).nsamples.toNat * 2) live with
        ⟨conn, got, received, _, short⟩ | ⟨conn, got, received, live, whole, next⟩
      · simp only [ctx'.recvAll_eq _ _ _ _ received, Conn.feed, short]
        rfl
      · simp only [ctx'.recvAll_eq _ _ _ _ received, Conn.feed, next, if_neg large,
          ReadIq.outcome, live]
        rw [loadSamples_received host _ samples got whole (by omega)]
  | event => rfl
  | error => rfl
  | errorCapacity => exact absurd rfl expected

/-- Every FFT read of the C client is the abstract decoder's. -/
theorem readFft_refines (host : Endian) (ctx : StreamCtx) (hdr : FftHdr) (power : List UInt8)
    (maxBins : Int) (capacity : 0 ≤ maxBins) (room : 4 * maxBins.toNat ≤ power.length) :
    let out := readFft host ctx hdr power maxBins
    (out.outcome host, out.ctx.conn.feed) = readFftSpec maxBins.toNat ctx.conn.feed := by
  simp only [readFft, readFftSpec, readFrameSpec, if_neg (not_lt.mpr capacity)]
  have header := readHeader_spec ctx magicFft
  have expected := readHeader_ne_capacity ctx magicFft
  rcases read : readHeader ctx magicFft with ⟨ctx', result, buf⟩
  rw [read] at header expected
  rw [← header]
  cases result with
  | ok =>
    have live : ctx'.conn.connected = true := readHeaderSpec_live _ _ _ _ header.symm
    simp only [headerOf]
    by_cases invalid : (fftHdrOf buf).bins.toNat < 2 ∨ (fftHdrOf buf).bins.toNat > maxFftBins
    · rw [if_pos invalid, if_pos invalid]
      rfl
    rw [if_neg invalid, if_neg invalid]
    by_cases large : (fftHdrOf buf).bins.toNat > maxBins.toNat
    · rw [if_pos large]
      obtain ⟨drained, ⟨done, enough, feed⟩ | ⟨done, short, feed⟩⟩ :=
        drain_spec ctx' ((fftHdrOf buf).bins.toNat * 4) live
      · rw [done, Feed.next_enough ctx'.conn.feed.bytes _ _ _ enough, if_pos large]
        rw [feed]
        rfl
      · rw [done, Feed.next_short ctx'.conn.feed.bytes _ _ _ short]
        rw [feed]
        rfl
    · rw [if_neg large]
      rcases ctx'.conn.recvAll_next ((fftHdrOf buf).bins.toNat * 4) live with
        ⟨conn, got, received, _, short⟩ | ⟨conn, got, received, live, whole, next⟩
      · simp only [ctx'.recvAll_eq _ _ _ _ received, Conn.feed, short]
        rfl
      · simp only [ctx'.recvAll_eq _ _ _ _ received, Conn.feed, next, if_neg large,
          ReadFft.outcome, live]
        rw [loadBins_received host _ power got whole (by omega)]
  | event => rfl
  | error => rfl
  | errorCapacity => exact absurd rfl expected

/-! ### Sequences of calls -/

/-- A read call of the C client with everything the caller passes in. -/
inductive StreamRead
  | iq (hdr : IqHdr) (samples : List UInt8) (maxComponents : Int)
  | fft (hdr : FftHdr) (power : List UInt8) (maxBins : Int)

/-- The call without the caller's memory. -/
def StreamRead.call : StreamRead → ReadCall
  | .iq _ _ maxComponents => .iq maxComponents
  | .fft _ _ maxBins => .fft maxBins

/-- The caller's array is at least as large as the capacity says. -/
def StreamRead.Roomy : StreamRead → Prop
  | .iq _ samples maxComponents => 2 * maxComponents.toNat ≤ samples.length
  | .fft _ power maxBins => 4 * maxBins.toNat ≤ power.length

def streamRead (host : Endian) (ctx : StreamCtx) : StreamRead → StreamCtx × List Outcome
  | .iq hdr samples maxComponents =>
    let out := readIq host ctx hdr samples maxComponents
    (out.ctx, [out.outcome host])
  | .fft hdr power maxBins =>
    let out := readFft host ctx hdr power maxBins
    (out.ctx, [out.outcome host])

theorem streamRead_refines (host : Endian) (ctx : StreamCtx) (read : StreamRead)
    (roomy : read.Roomy) :
    readSpec ctx.conn.feed read.call =
      ((streamRead host ctx read).1.conn.feed, (streamRead host ctx read).2) := by
  cases read with
  | iq hdr samples maxComponents =>
    simp only [streamRead, StreamRead.call, readSpec]
    by_cases refused : maxComponents < 0
    · simp only [readIq, if_pos refused, ReadIq.outcome]
    · rw [if_neg refused, ← readIq_refines host ctx hdr samples maxComponents (by omega) roomy]
  | fft hdr power maxBins =>
    simp only [streamRead, StreamRead.call, readSpec]
    by_cases refused : maxBins < 0
    · simp only [readFft, if_pos refused, ReadFft.outcome]
    · rw [if_neg refused, ← readFft_refines host ctx hdr power maxBins (by omega) roomy]

/-- Whole sessions of the C client are sessions of the abstract decoder. -/
theorem streamReads_refine (host : Endian) (ctx : StreamCtx) (reads : List StreamRead)
    (roomy : ∀ read ∈ reads, read.Roomy) :
    Transducer.run readSpec ctx.conn.feed (reads.map StreamRead.call) =
      ((Transducer.run (streamRead host) ctx reads).1.conn.feed,
        (Transducer.run (streamRead host) ctx reads).2) :=
  Transducer.run_map (streamRead host) readSpec (fun ctx => ctx.conn.feed) StreamRead.call reads
    (fun ctx read member => streamRead_refines host ctx read (roomy read member)) ctx

end RtlSdr
