import RtlSdr.Stream.Decode

/-!
# The C++ client (`stream_client/cpp/client.cpp`)

Methods report through exceptions, an event included. A read resizes the caller's
vector to the announced count, so it has no capacity of its own; the vector is kept
as the bytes `data()` points to.
-/
namespace RtlSdr

/-- What a method throws. -/
inductive Thrown
  | runtimeError (message : String)
  | streamEvent (type : UInt32) (freq : UInt64)
deriving DecidableEq, Repr

/-- The private state of `StreamClient` that reads use. -/
structure StreamClient where
  conn : Conn
deriving DecidableEq, Repr

/-- `fail`: close, then throw. -/
def StreamClient.fail {α : Type} (client : StreamClient) (message : String) :
    StreamClient × Except Thrown α :=
  (⟨client.conn.close⟩, .error (.runtimeError message))

/-- `recvAll`: the bytes stored, and whether the call returned. -/
def StreamClient.recvAll (client : StreamClient) (len : Nat) :
    StreamClient × List UInt8 × Except Thrown Unit :=
  match client.conn.recvAll len with
  | (conn, got, true) => (⟨conn⟩, got, .ok ())
  | (conn, got, false) =>
    let (client, thrown) := StreamClient.fail ⟨conn⟩ "recv failed or truncated frame"
    (client, got, thrown)

/-- `readHeader` once the magic was an event's; it always throws. -/
def StreamClient.readEvent (client : StreamClient) : StreamClient × Thrown :=
  match client.recvAll 4 with
  | (client, _, .error thrown) => (client, thrown)
  | (client, rest, .ok _) =>
    let type := get32 rest
    if type = evtFreqChange then
      match client.recvAll 8 with
      | (client, _, .error thrown) => (client, thrown)
      | (client, freq, .ok _) => (client, .streamEvent type (get64 freq))
    else if type = evtStreamEnd then (⟨client.conn.close⟩, .streamEvent type 0)
    else (⟨client.conn.close⟩, .runtimeError "unknown event type")

/-- `readHeader`, with the 32 bytes it fills when it returns. -/
def StreamClient.readHeader (client : StreamClient) (magic : UInt32) :
    StreamClient × Except Thrown (List UInt8) :=
  match client.recvAll 4 with
  | (client, _, .error thrown) => (client, .error thrown)
  | (client, head, .ok _) =>
    if get32 head = magicEvt then
      let (client, thrown) := client.readEvent
      (client, .error thrown)
    else if get32 head ≠ magic then client.fail "bad RTLSTREAM/2 frame magic"
    else
      match client.recvAll 28 with
      | (client, _, .error thrown) => (client, .error thrown)
      | (client, rest, .ok _) => (client, .ok (head ++ rest))

/-- `std::vector::resize` on the underlying bytes: new elements are zero. -/
def resize (vector : List UInt8) (bytes : Nat) : List UInt8 :=
  vector.take bytes ++ List.replicate (bytes - vector.length) 0

theorem resize_length (vector : List UInt8) (bytes : Nat) :
    (resize vector bytes).length = bytes := by
  simp only [resize, List.length_append, List.length_take, List.length_replicate]
  omega

/-- `readIQ`: the client, the caller's vector, and the header or what was thrown. -/
def StreamClient.readIQ (host : Endian) (client : StreamClient) (samples : List UInt8) :
    StreamClient × List UInt8 × Except Thrown IqHdr :=
  match client.readHeader magicIq with
  | (client, .error thrown) => (client, samples, .error thrown)
  | (client, .ok hbuf) =>
    let hdr := iqHdrOf hbuf
    let n := hdr.nsamples.toNat
    if n > maxIqComponents ∨ hdr.nsamples &&& 1 ≠ 0 then
      let (client, thrown) := client.fail "invalid I/Q component count"
      (client, samples, thrown)
    else
      let samples := resize samples (n * 2)
      match client.recvAll (n * 2) with
      | (client, got, .error thrown) => (client, Memory.splice samples 0 got, .error thrown)
      | (client, got, .ok _) =>
        (client, convertSamples host n (Memory.splice samples 0 got), .ok hdr)

def StreamClient.readFFT (host : Endian) (client : StreamClient) (power : List UInt8) :
    StreamClient × List UInt8 × Except Thrown FftHdr :=
  match client.readHeader magicFft with
  | (client, .error thrown) => (client, power, .error thrown)
  | (client, .ok hbuf) =>
    let hdr := fftHdrOf hbuf
    let n := hdr.bins.toNat
    if n < 2 ∨ n > maxFftBins then
      let (client, thrown) := client.fail "invalid FFT bin count"
      (client, power, thrown)
    else
      let power := resize power (n * 4)
      match client.recvAll (n * 4) with
      | (client, got, .error thrown) => (client, Memory.splice power 0 got, .error thrown)
      | (client, got, .ok _) =>
        (client, convertBins host n (Memory.splice power 0 got), .ok hdr)

/-! ### Refinement of the abstract decoder -/

/-- How a caller reads what a method threw. -/
def Thrown.outcome : Thrown → Outcome
  | .runtimeError _ => .error
  | .streamEvent type freq => .event type freq

def Thrown.header : Thrown → Header
  | .runtimeError _ => .error
  | .streamEvent type freq => .event type freq

def cppHeaderOf : StreamClient × Except Thrown (List UInt8) → Header × Feed
  | (client, .ok buf) => (.data buf, client.conn.feed)
  | (client, .error thrown) => (thrown.header, client.conn.feed)

theorem StreamClient.recvAll_short (client : StreamClient) (len : Nat) (conn : Conn)
    (got : List UInt8) (received : client.conn.recvAll len = (conn, got, false)) :
    client.recvAll len =
      (⟨conn.close⟩, got, .error (.runtimeError "recv failed or truncated frame")) := by
  rw [StreamClient.recvAll, received]
  rfl

theorem StreamClient.recvAll_whole (client : StreamClient) (len : Nat) (conn : Conn)
    (got : List UInt8) (received : client.conn.recvAll len = (conn, got, true)) :
    client.recvAll len = (⟨conn⟩, got, .ok ()) := by
  rw [StreamClient.recvAll, received]

theorem StreamClient.readEvent_spec (client : StreamClient)
    (live : client.conn.connected = true) :
    ((client.readEvent).2.header, (client.readEvent).1.conn.feed) =
      readEventSpec client.conn.socket.incoming := by
  unfold StreamClient.readEvent readEventSpec
  rcases client.conn.recvAll_next 4 live with
    ⟨conn, got, received, _, short⟩ | ⟨conn, type, received, live, _, next⟩
  · rw [client.recvAll_short 4 conn got received, short]
    rfl
  rw [client.recvAll_whole 4 conn type received, next]
  by_cases change : get32 type = evtFreqChange
  · simp only [if_pos change]
    rcases conn.recvAll_next 8 live with
      ⟨conn', got, received, _, short⟩ | ⟨conn', freq, received, live, _, next⟩
    · rw [StreamClient.recvAll_short ⟨conn⟩ 8 conn' got received, short]
      rfl
    · rw [StreamClient.recvAll_whole ⟨conn⟩ 8 conn' freq received, next]
      simp only [Thrown.header, change, Conn.feed, live]
  · by_cases ended : get32 type = evtStreamEnd
    · simp only [ended, Thrown.header]
      rfl
    · simp only [if_neg change, if_neg ended, Thrown.header]
      rfl

theorem StreamClient.readHeader_spec (client : StreamClient) (magic : UInt32) :
    cppHeaderOf (client.readHeader magic) = readHeaderSpec client.conn.feed magic := by
  unfold StreamClient.readHeader readHeaderSpec
  rcases Bool.eq_false_or_eq_true client.conn.connected with live | closed
  · rw [if_pos (show client.conn.feed.live = true from live)]
    rcases client.conn.recvAll_next 4 live with
      ⟨conn, got, received, _, short⟩ | ⟨conn, head, received, live, _, next⟩
    · rw [client.recvAll_short 4 conn got received, Conn.feed, short]
      rfl
    rw [client.recvAll_whole 4 conn head received, Conn.feed, next]
    by_cases event : get32 head = magicEvt
    · simp only [if_pos event]
      exact StreamClient.readEvent_spec ⟨conn⟩ live
    simp only [if_neg event]
    by_cases kind : get32 head = magic
    · rw [if_neg (not_not.mpr kind), if_neg (not_not.mpr kind)]
      rcases conn.recvAll_next 28 live with
        ⟨conn', got, received, _, short⟩ | ⟨conn', rest, received, live, _, next⟩
      · rw [StreamClient.recvAll_short ⟨conn⟩ 28 conn' got received, short]
        rfl
      · rw [StreamClient.recvAll_whole ⟨conn⟩ 28 conn' rest received, next]
        simp only [cppHeaderOf, Conn.feed, live]
    · rw [if_pos kind, if_pos kind]
      rfl
  · have failed := client.conn.recvAll_closed 4 closed (by decide)
    rw [client.recvAll_short 4 _ _ failed, if_neg (by simp [Conn.feed, closed])]
    simp only [cppHeaderOf, Thrown.header, Conn.feed, Conn.close, closed]

/-- How a caller reads the result of an I/Q read. -/
def cppIqOutcome (host : Endian) (samples : List UInt8) : Except Thrown IqHdr → Outcome
  | .ok hdr => .iq hdr (loadSamples host hdr.nsamples.toNat samples)
  | .error thrown => thrown.outcome

def cppFftOutcome (host : Endian) (power : List UInt8) : Except Thrown FftHdr → Outcome
  | .ok hdr => .fft hdr (loadBins host hdr.bins.toNat power)
  | .error thrown => thrown.outcome

/-- Every I/Q read of the C++ client is the abstract decoder's, with all the room the
protocol can ask for. -/
theorem StreamClient.readIQ_refines (host : Endian) (client : StreamClient)
    (samples : List UInt8) :
    readIqSpec maxIqComponents client.conn.feed =
      (cppIqOutcome host (client.readIQ host samples).2.1 (client.readIQ host samples).2.2,
        (client.readIQ host samples).1.conn.feed) := by
  simp only [StreamClient.readIQ, readIqSpec, readFrameSpec]
  have header := client.readHeader_spec magicIq
  rcases read : client.readHeader magicIq with ⟨client', thrown | buf⟩
  · rw [read] at header
    rw [← header]
    cases thrown <;> rfl
  · rw [read] at header
    rw [← header]
    have live : client'.conn.connected = true := readHeaderSpec_live _ _ _ _ header.symm
    simp only [cppHeaderOf]
    by_cases invalid : (iqHdrOf buf).nsamples.toNat > maxIqComponents ∨
        (iqHdrOf buf).nsamples &&& 1 ≠ 0
    · rw [if_pos invalid, if_pos invalid]
      rfl
    rw [if_neg invalid, if_neg invalid]
    have fits : ¬(iqHdrOf buf).nsamples.toNat > maxIqComponents := (not_or.mp invalid).1
    rcases client'.conn.recvAll_next ((iqHdrOf buf).nsamples.toNat * 2) live with
      ⟨conn, got, received, _, short⟩ | ⟨conn, got, received, live, whole, next⟩
    · simp only [client'.recvAll_short _ _ _ received, Conn.feed, short]
      rfl
    · simp only [client'.recvAll_whole _ _ _ received, Conn.feed, next, if_neg fits,
        cppIqOutcome, live]
      rw [loadSamples_received host _ _ got whole (le_of_eq (resize_length _ _).symm)]

theorem StreamClient.readFFT_refines (host : Endian) (client : StreamClient)
    (power : List UInt8) :
    readFftSpec maxFftBins client.conn.feed =
      (cppFftOutcome host (client.readFFT host power).2.1 (client.readFFT host power).2.2,
        (client.readFFT host power).1.conn.feed) := by
  simp only [StreamClient.readFFT, readFftSpec, readFrameSpec]
  have header := client.readHeader_spec magicFft
  rcases read : client.readHeader magicFft with ⟨client', thrown | buf⟩
  · rw [read] at header
    rw [← header]
    cases thrown <;> rfl
  · rw [read] at header
    rw [← header]
    have live : client'.conn.connected = true := readHeaderSpec_live _ _ _ _ header.symm
    simp only [cppHeaderOf]
    by_cases invalid : (fftHdrOf buf).bins.toNat < 2 ∨ (fftHdrOf buf).bins.toNat > maxFftBins
    · rw [if_pos invalid, if_pos invalid]
      rfl
    rw [if_neg invalid, if_neg invalid]
    have fits : ¬(fftHdrOf buf).bins.toNat > maxFftBins := (not_or.mp invalid).2
    rcases client'.conn.recvAll_next ((fftHdrOf buf).bins.toNat * 4) live with
      ⟨conn, got, received, _, short⟩ | ⟨conn, got, received, live, whole, next⟩
    · simp only [client'.recvAll_short _ _ _ received, Conn.feed, short]
      rfl
    · simp only [client'.recvAll_whole _ _ _ received, Conn.feed, next, if_neg fits,
        cppFftOutcome, live]
      rw [loadBins_received host _ _ got whole (le_of_eq (resize_length _ _).symm)]

end RtlSdr
