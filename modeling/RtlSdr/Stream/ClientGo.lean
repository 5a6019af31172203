import RtlSdr.Stream.Decode

/-!
# The Go client (`stream_client/go/rtlstream/client.go`)

Every method returns an `error` value, and an event is one of them. The two mutexes
make each call one step, so the client is its connection.
-/
namespace RtlSdr

/-- The `error` values the methods return. -/
inductive GoError
  | eof
  | unexpectedEOF
  | closed
  | event (type : UInt32) (freq : UInt64)
  | errCapacity
  | errProtocol
deriving DecidableEq, Repr

/-- The part of `Client` that reads use. -/
structure GoClient where
  conn : Conn
deriving DecidableEq, Repr

def GoClient.close (c : GoClient) : GoClient := ⟨c.conn.close⟩

/-- `io.ReadFull` on the connection, then `Close` on an error. -/
def GoClient.readFull (c : GoClient) (len : Nat) : GoClient × List UInt8 × Option GoError :=
  match c.conn.recvAll len with
  | (conn, got, true) => (⟨conn⟩, got, none)
  | (conn, got, false) =>
    let err := if !c.conn.connected then .closed else if got = [] then .eof else .unexpectedEOF
    (GoClient.close ⟨conn⟩, got, some err)

/-- `readHeader` once the magic was an event's; it always returns an error. -/
def GoClient.readEvent (c : GoClient) : GoClient × GoError :=
  match c.readFull 4 with
  | (c, _, some err) => (c, err)
  | (c, rest, none) =>
    let type := get32 rest
    if type = evtFreqChange then
      match c.readFull 8 with
      | (c, _, some err) => (c, err)
      | (c, freq, none) => (c, .event type (get64 freq))
    else if type = evtStreamEnd then (c.close, .event type 0)
    else (c.close, .errProtocol)

/-- `readHeader`, with the 32 bytes it fills when it returns nil. -/
def GoClient.readHeader (c : GoClient) (magic : UInt32) :
    GoClient × Except GoError (List UInt8) :=
  match c.readFull 4 with
  | (c, _, some err) => (c, .error err)
  | (c, head, none) =>
    if get32 head = magicEvt then
      let (c, err) := c.readEvent
      (c, .error err)
    else if get32 head ≠ magic then (c.close, .error .errProtocol)
    else
      match c.readFull 28 with
      | (c, _, some err) => (c, .error err)
      | (c, rest, none) => (c, .ok (head ++ rest))

/-- The loop of `io.CopyN(io.Discard, …)`: single reads of at most 8192 bytes through a
`LimitedReader`. -/
def discardLoop : Nat → Socket → Nat → Socket × Bool
  | 0, s, left => (s, left == 0)
  | fuel + 1, s, left =>
    if left = 0 then (s, true)
    else
      match readOnce s (min 8192 left) with
      | (s, []) => (s, false)
      | (s, byte :: got) => discardLoop fuel s (left - (byte :: got).length)

/-- `io.CopyN(io.Discard, c.conn, bytes)`; every read takes at least one byte. -/
def GoClient.copyN (c : GoClient) (bytes : Nat) : GoClient × Option GoError :=
  if c.conn.connected then
    match discardLoop bytes c.conn.socket bytes with
    | (socket, true) => (⟨{ c.conn with socket }⟩, none)
    | (socket, false) => (⟨{ c.conn with socket }⟩, some .eof)
  else (c, if bytes = 0 then none else some .closed)

/-- What `ReadIQ` returns, and the slice it was given. -/
structure GoReadIQ where
  client : GoClient
  hdr : Option IqHdr
  count : Nat
  err : Option GoError
  samples : List Int16

/-- `ReadIQ` into a slice of `samples.length` components. -/
def GoClient.readIQ (c : GoClient) (samples : List Int16) : GoReadIQ :=
  match c.readHeader magicIq with
  | (c, .error err) => ⟨c, none, 0, some err, samples⟩
  | (c, .ok hbuf) =>
    let hdr := iqHdrOf hbuf
    if hdr.nsamples.toNat > maxIqComponents ∨ hdr.nsamples &&& 1 ≠ 0 then
      ⟨c.close, none, 0, some .errProtocol, samples⟩
    else
      let n := hdr.nsamples.toNat
      if n > samples.length then
        match c.copyN (n * 2) with
        | (c, some err) => ⟨c.close, some hdr, 0, some err, samples⟩
        | (c, none) => ⟨c, some hdr, 0, some .errCapacity, samples⟩
      else
        match c.readFull (n * 2) with
        | (c, _, some err) => ⟨c, none, 0, some err, samples⟩
        | (c, sbuf, none) =>
          let samples := (List.range n).foldl
            (fun samples i => samples.set i (sampleOf (sbuf.drop (2 * i)))) samples
          ⟨c, some hdr, n, none, samples⟩

/-- What `ReadFFT` returns. -/
structure GoReadFFT where
  client : GoClient
  hdr : Option FftHdr
  power : List UInt32
  err : Option GoError

/-- `ReadFFT` into a slice of capacity `power.length`, replaced by a new one if that is
too small. -/
def GoClient.readFFT (c : GoClient) (power : List UInt32) : GoReadFFT :=
  match c.readHeader magicFft with
  | (c, .error err) => ⟨c, none, [], some err⟩
  | (c, .ok hbuf) =>
    let hdr := fftHdrOf hbuf
    if hdr.bins.toNat < 2 ∨ hdr.bins.toNat > maxFftBins then
      ⟨c.close, none, [], some .errProtocol⟩
    else
      let nb := hdr.bins.toNat
      let power := if power.length < nb then List.replicate nb 0 else power.take nb
      match c.readFull (nb * 4) with
      | (c, _, some err) => ⟨c, none, [], some err⟩
      | (c, fbuf, none) =>
        let power := (List.range nb).foldl
          (fun power i => power.set i (get32 (fbuf.drop (4 * i)))) power
        ⟨c, some hdr, power, none⟩

/-! ### Refinement of the abstract decoder -/

def GoError.header : GoError → Header
  | .event type freq => .event type freq
  | _ => .error

def goHeaderOf : GoClient × Except GoError (List UInt8) → Header × Feed
  | (c, .ok buf) => (.data buf, c.conn.feed)
  | (c, .error err) => (err.header, c.conn.feed)

/-- How a caller reads the result of an I/Q read. -/
def GoReadIQ.outcome (out : GoReadIQ) : Outcome :=
  match out.err, out.hdr with
  | none, some hdr => .iq hdr (out.samples.take out.count)
  | some (.event type freq), _ => .event type freq
  | some .errCapacity, some hdr => .iqCapacity hdr
  | _, _ => .error

def GoReadFFT.outcome (out : GoReadFFT) : Outcome :=
  match out.err, out.hdr with
  | none, some hdr => .fft hdr out.power
  | some (.event type freq), _ => .event type freq
  | _, _ => .error

variable (c : GoClient)

theorem GoClient.readFull_short (len : Nat) (conn : Conn) (got : List UInt8)
    (received : c.conn.recvAll len = (conn, got, false)) :
    ∃ err, c.readFull len = (⟨conn.close⟩, got, some err) ∧ err.header = .error ∧
      err ≠ .errCapacity := by
  unfold GoClient.readFull
  rw [received]
  refine ⟨_, rfl, ?_, ?_⟩ <;> split_ifs <;> simp [GoError.header]

theorem GoClient.readFull_whole (len : Nat) (conn : Conn) (got : List UInt8)
    (received : c.conn.recvAll len = (conn, got, true)) : c.readFull len = (⟨conn⟩, got, none) := by
  rw [GoClient.readFull, received]

theorem GoClient.readEvent_spec (live : c.conn.connected = true) :
    ((c.readEvent).2.header, (c.readEvent).1.conn.feed) =
      readEventSpec c.conn.socket.incoming := by
  unfold GoClient.readEvent readEventSpec
  rcases c.conn.recvAll_next 4 live with
    ⟨conn, got, received, _, short⟩ | ⟨conn, type, received, live, _, next⟩
  · obtain ⟨err, failed, kind, _⟩ := c.readFull_short 4 conn got received
    rw [failed, short, kind]
    rfl
  rw [c.readFull_whole 4 conn type received, next]
  by_cases change : get32 type = evtFreqChange
  · simp only [if_pos change]
    rcases conn.recvAll_next 8 live with
      ⟨conn', got, received, _, short⟩ | ⟨conn', freq, received, live, _, next⟩
    · obtain ⟨err, failed, kind, _⟩ := GoClient.readFull_short ⟨conn⟩ 8 conn' got received
      rw [failed, short, kind]
      rfl
    · rw [GoClient.readFull_whole ⟨conn⟩ 8 conn' freq received, next]
      simp only [GoError.header, change, Conn.feed, live]
  · by_cases ended : get32 type = evtStreamEnd
    · simp only [ended, GoError.header]
      rfl
    · simp only [if_neg change, if_neg ended, GoError.header]
      rfl

theorem GoClient.readHeader_spec (magic : UInt32) :
    goHeaderOf (c.readHeader magic) = readHeaderSpec c.conn.feed magic := by
  unfold GoClient.readHeader readHeaderSpec
  rcases Bool.eq_false_or_eq_true c.conn.connected with live | closed
  · rw [if_pos (show c.conn.feed.live = true from live)]
    rcases c.conn.recvAll_next 4 live with
      ⟨conn, got, received, _, short⟩ | ⟨conn, head, received, live, _, next⟩
    · obtain ⟨err, failed, kind, _⟩ := c.readFull_short 4 conn got received
      rw [failed, Conn.feed, short, goHeaderOf, kind]
      rfl
    rw [c.readFull_whole 4 conn head received, Conn.feed, next]
    by_cases event : get32 head = magicEvt
    · simp only [if_pos event]
      exact GoClient.readEvent_spec ⟨conn⟩ live
    simp only [if_neg event]
    by_cases kind : get32 head = magic
    · rw [if_neg (not_not.mpr kind), if_neg (not_not.mpr kind)]
      rcases conn.recvAll_next 28 live with
        ⟨conn', got, received, _, short⟩ | ⟨conn', rest, received, live, _, next⟩
      · obtain ⟨err, failed, kind, _⟩ := GoClient.readFull_short ⟨conn⟩ 28 conn' got received
        rw [failed, short, goHeaderOf, kind]
        rfl
      · rw [GoClient.readFull_whole ⟨conn⟩ 28 conn' rest received, next]
        simp only [goHeaderOf, Conn.feed, live]
    · rw [if_pos kind, if_pos kind]
      rfl
  · have unread := c.conn.recvAll_closed 4 closed (by decide)
    obtain ⟨err, failed, kind, _⟩ := c.readFull_short 4 _ _ unread
    rw [failed, if_neg (by simp [Conn.feed, closed]), goHeaderOf, kind]
    simp only [Conn.feed, Conn.close, closed]

/-- Single reads of any size discard exactly `left` bytes, or all there are. -/
theorem discardLoop_spec (fuel : Nat) (s : Socket) (left : Nat) (enough : left ≤ fuel) :
    ∃ sizes, discardLoop fuel s left =
      ({ s with incoming := s.incoming.drop left, recvSizes := sizes },
        decide (left ≤ s.incoming.length)) := by
  induction fuel generalizing s left with
  | zero =>
    obtain rfl : left = 0 := Nat.le_zero.mp enough
    exact ⟨s.recvSizes, by simp [discardLoop]⟩
  | succ fuel ih =>
    rw [discardLoop]
    by_cases done : left = 0
    · subst done
      exact ⟨s.recvSizes, by simp⟩
    rw [if_neg done]
    obtain ⟨sizes, count, atMost, some, read⟩ := readOnce_spec s (min 8192 left)
    have progress : 0 < count := some (by omega)
    rw [read]
    cases taken : s.incoming.take count with
    | nil =>
      -- end of file before the frame is complete
      have empty : s.incoming = [] := by
        rcases List.take_eq_nil_iff.mp taken with zero | empty
        · omega
        · exact empty
      refine ⟨sizes, ?_⟩
      simp [empty, done]
    | cons byte got =>
      have length : (byte :: got).length = min count s.incoming.length := by
        rw [← taken, List.length_take]
      obtain ⟨sizes', rest⟩ := ih { s with incoming := s.incoming.drop count, recvSizes := sizes }
        (left - (byte :: got).length) (by simp only [List.length_cons]; omega)
      refine ⟨sizes', ?_⟩
      simp only [rest]
      simp only [List.drop_drop, List.length_drop, length, Prod.mk.injEq, decide_eq_decide]
      constructor
      · congr 1
        rcases Nat.le_total count s.incoming.length with inside | past
        · rw [Nat.min_eq_left inside, Nat.add_sub_of_le (by omega)]
        · rw [List.drop_of_length_le (by omega), List.drop_of_length_le (by omega)]
      · omega

theorem GoClient.copyN_next (bytes : Nat) (live : c.conn.connected = true) :
    (∃ c' err, c.copyN bytes = (c', some err) ∧ err.header = .error ∧ err ≠ .errCapacity ∧
      ∀ rest : List UInt8 → List UInt8 → Outcome × Feed,
        Feed.next c.conn.socket.incoming bytes .error rest = (.error, c'.close.conn.feed)) ∨
    (∃ c', c.copyN bytes = (c', none) ∧
      ∀ hdr : Outcome, Feed.next c.conn.socket.incoming bytes .error
        (fun _ bytes => (hdr, ⟨bytes, true⟩)) = (hdr, c'.conn.feed)) := by
  obtain ⟨sizes, discarded⟩ := discardLoop_spec bytes c.conn.socket bytes (le_refl _)
  unfold GoClient.copyN
  rw [if_pos live, discarded]
  by_cases enough : bytes ≤ c.conn.socket.incoming.length
  · right
    rw [decide_eq_true enough]
    refine ⟨_, rfl, fun hdr => ?_⟩
    rw [Feed.next_enough _ _ _ _ enough]
    simp only [Conn.feed, live]
  · left
    rw [decide_eq_false enough]
    refine ⟨_, _, rfl, rfl, by simp, fun rest => ?_⟩
    rw [Feed.next_short _ _ _ _ enough]
    simp only [GoClient.close, Conn.close, Conn.feed, Prod.mk.injEq, Feed.mk.injEq, true_and,
      and_true]
    exact (List.drop_of_length_le (by omega)).symm

theorem go_samples (n : Nat) (samples : List Int16) (sbuf : List UInt8)
    (room : n ≤ samples.length) :
    ((List.range n).foldl (fun samples i => samples.set i (sampleOf (sbuf.drop (2 * i))))
      samples).take n = payloadSamples n sbuf := by
  have length : ((List.range n).map fun i => sampleOf (sbuf.drop (2 * i))).length = n := by simp
  rw [Memory.foldl_set_range _ n samples room, List.take_left' length, payloadSamples,
    Memory.cells_eq_range, List.map_map]
  apply List.map_congr_left
  intro i _
  -- a component only looks at the two bytes of its cell
  simp [sampleOf]

theorem go_bins (n : Nat) (power : List UInt32) (fbuf : List UInt8) :
    (List.range n).foldl (fun power i => power.set i (get32 (fbuf.drop (4 * i))))
      (if power.length < n then List.replicate n 0 else power.take n) = payloadBins n fbuf := by
  have length : (if power.length < n then List.replicate n 0 else power.take n).length = n := by
    split_ifs
    · simp
    · rw [List.length_take]
      omega
  rw [Memory.foldl_set_range _ n _ (le_of_eq length.symm), List.drop_of_length_le (le_of_eq length),
    List.append_nil, payloadBins, Memory.cells_eq_range, List.map_map]
  apply List.map_congr_left
  intro i _
  simp [get32]

theorem GoClient.readIQ_refines (samples : List Int16) :
    readIqSpec samples.length c.conn.feed =
      ((c.readIQ samples).outcome, (c.readIQ samples).client.conn.feed) := by
  simp only [GoClient.readIQ, readIqSpec, readFrameSpec]
  have header := c.readHeader_spec magicIq
  rcases read : c.readHeader magicIq with ⟨c', err | buf⟩
  · rw [read] at header
    rw [← header]
    cases err <;> rfl
  · rw [read] at header
    rw [← header]
    have live : c'.conn.connected = true := readHeaderSpec_live _ _ _ _ header.symm
    simp only [goHeaderOf]
    by_cases invalid : (iqHdrOf buf).nsamples.toNat > maxIqComponents ∨
        (iqHdrOf buf).nsamples &&& 1 ≠ 0
    · rw [if_pos invalid, if_pos invalid]
      rfl
    rw [if_neg invalid, if_neg invalid]
    by_cases large : (iqHdrOf buf).nsamples.toNat > samples.length
    · simp only [if_pos large]
      rcases c'.copyN_next ((iqHdrOf buf).nsamples.toNat * 2) live with
        ⟨c'', err, copied, kind, capacity, short⟩ | ⟨c'', copied, next⟩
      · simp only [Conn.feed, short, copied]
        cases err <;> first | rfl | exact absurd rfl capacity | cases kind
      · simp only [copied]
        exact next _
    · simp only [if_neg large]
      rcases c'.conn.recvAll_next ((iqHdrOf buf).nsamples.toNat * 2) live with
        ⟨conn, got, received, _, short⟩ | ⟨conn, got, received, live, whole, next⟩
      · obtain ⟨err, failed, kind, capacity⟩ := c'.readFull_short _ conn got received
        simp only [failed, Conn.feed, short]
        cases err <;> first | rfl | cases kind
      · simp only [c'.readFull_whole _ conn got received, Conn.feed, next, GoReadIQ.outcome, live]
        rw [go_samples _ _ _ (by omega)]

theorem GoClient.readFFT_refines (power : List UInt32) :
    readFftSpec maxFftBins c.conn.feed =
      ((c.readFFT power).outcome, (c.readFFT power).client.conn.feed) := by
  simp only [GoClient.readFFT, readFftSpec, readFrameSpec]
  have header := c.readHeader_spec magicFft
  rcases read : c.readHeader magicFft with ⟨c', err | buf⟩
  · rw [read] at header
    rw [← header]
    cases err <;> rfl
  · rw [read] at header
    rw [← header]
    have live : c'.conn.connected = true := readHeaderSpec_live _ _ _ _ header.symm
    simp only [goHeaderOf]
    by_cases invalid : (fftHdrOf buf).bins.toNat < 2 ∨ (fftHdrOf buf).bins.toNat > maxFftBins
    · rw [if_pos invalid, if_pos invalid]
      rfl
    rw [if_neg invalid, if_neg invalid]
    have fits : ¬(fftHdrOf buf).bins.toNat > maxFftBins := (not_or.mp invalid).2
    rcases c'.conn.recvAll_next ((fftHdrOf buf).bins.toNat * 4) live with
      ⟨conn, got, received, _, short⟩ | ⟨conn, got, received, live, whole, next⟩
    · obtain ⟨err, failed, kind, capacity⟩ := c'.readFull_short _ conn got received
      simp only [failed, Conn.feed, short]
      cases err <;> first | rfl | cases kind
    · simp only [c'.readFull_whole _ conn got received, Conn.feed, next, if_neg fits,
        GoReadFFT.outcome, live]
      rw [go_bins]

end RtlSdr
