import RtlSdr.Lib.Transducer
import RtlSdr.Stream.Proto
import RtlSdr.Stream.Socket

/-!
# What a client is supposed to read

The abstract decoder consumes a finite byte string: it says, for every stream, well
formed or not, what one read call reports, what it consumes and whether the
connection survives. The three clients are compared with it.
-/
namespace RtlSdr

/-- The result of one read call, as every client can report it. -/
inductive Outcome
  | iq (hdr : IqHdr) (samples : List Int16)
  | fft (hdr : FftHdr) (power : List UInt32)
  | event (type : UInt32) (freq : UInt64)
  | iqCapacity (hdr : IqHdr)
  | fftCapacity (hdr : FftHdr)
  | error
deriving DecidableEq, Repr

/-- One component from its two bytes in network order. -/
def sampleOf (cell : List UInt8) : Int16 :=
  ((cell.getD 0 0).toUInt16 <<< 8 ||| (cell.getD 1 0).toUInt16).toInt16

def payloadSamples (n : Nat) (payload : List UInt8) : List Int16 :=
  (Memory.cells 2 n payload).map sampleOf

/-- The bin values of a payload, as bit patterns. -/
def payloadBins (n : Nat) (payload : List UInt8) : List UInt32 :=
  (Memory.cells 4 n payload).map get32

/-- A data header from its 32 bytes. -/
def iqHdrOf (buf : List UInt8) : IqHdr :=
  { magic := get32 buf
    freq := get64 (buf.drop 4)
    rate := get64 (buf.drop 12)
    seq := get64 (buf.drop 20)
    nsamples := get32 (buf.drop 28) }

def fftHdrOf (buf : List UInt8) : FftHdr :=
  { magic := get32 buf
    freq := get64 (buf.drop 4)
    rate := get64 (buf.drop 12)
    seq := get64 (buf.drop 20)
    bins := get32 (buf.drop 28) }

/-- The bytes not yet consumed, and whether the connection is still open. -/
structure Feed where
  bytes : List UInt8
  live : Bool
deriving DecidableEq, Repr

/-- What the header of a frame turns out to be. -/
inductive Header
  | data (buf : List UInt8)
  | event (type : UInt32) (freq : UInt64)
  | error
deriving DecidableEq, Repr

/-- Consume `len` bytes and continue, or run into the end of the stream. Every failure
closes the connection. -/
def Feed.next {α : Type} (bytes : List UInt8) (len : Nat) (failure : α)
    (continue_ : List UInt8 → List UInt8 → α × Feed) : α × Feed :=
  if len ≤ bytes.length then continue_ (bytes.take len) (bytes.drop len)
  else (failure, ⟨[], false⟩)

def readEventSpec (bytes : List UInt8) : Header × Feed :=
  Feed.next bytes 4 .error fun type bytes =>
    if get32 type = evtFreqChange then
      Feed.next bytes 8 .error fun freq bytes =>
        (.event evtFreqChange (get64 freq), ⟨bytes, true⟩)
    else if get32 type = evtStreamEnd then (.event evtStreamEnd 0, ⟨bytes, false⟩)
    else (.error, ⟨bytes, false⟩)

/-- The magic, then an event or the rest of the expected header. -/
def readHeaderSpec (feed : Feed) (magic : UInt32) : Header × Feed :=
  if feed.live then
    Feed.next feed.bytes 4 .error fun head bytes =>
      if get32 head = magicEvt then readEventSpec bytes
      else if get32 head ≠ magic then (.error, ⟨bytes, false⟩)
      else Feed.next bytes 28 .error fun rest bytes => (.data (head ++ rest), ⟨bytes, true⟩)
  else (.error, feed)

def readFrameSpec (feed : Feed) (magic : UInt32)
    (body : List UInt8 → List UInt8 → Outcome × Feed) : Outcome × Feed :=
  match readHeaderSpec feed magic with
  | (.data buf, feed) => body buf feed.bytes
  | (.event type freq, feed) => (.event type freq, feed)
  | (.error, feed) => (.error, feed)

/-- The decoder of I/Q reads with room for `capacity` components. -/
def readIqSpec (capacity : Nat) (feed : Feed) : Outcome × Feed :=
  readFrameSpec feed magicIq fun buf bytes =>
    let hdr := iqHdrOf buf
    let n := hdr.nsamples.toNat
    if n > maxIqComponents ∨ hdr.nsamples &&& 1 ≠ 0 then (.error, ⟨bytes, false⟩)
    else
      Feed.next bytes (n * 2) .error fun payload bytes =>
        (if n > capacity then .iqCapacity hdr else .iq hdr (payloadSamples n payload),
          ⟨bytes, true⟩)

/-- The decoder of FFT reads with room for `capacity` bins. -/
def readFftSpec (capacity : Nat) (feed : Feed) : Outcome × Feed :=
  readFrameSpec feed magicFft fun buf bytes =>
    let hdr := fftHdrOf buf
    let n := hdr.bins.toNat
    if n < 2 ∨ n > maxFftBins then (.error, ⟨bytes, false⟩)
    else
      Feed.next bytes (n * 4) .error fun payload bytes =>
        (if n > capacity then .fftCapacity hdr else .fft hdr (payloadBins n payload),
          ⟨bytes, true⟩)

/-- A read call and the capacity it is made with. -/
inductive ReadCall
  | iq (capacity : Int)
  | fft (capacity : Int)
deriving DecidableEq, Repr

/-- One read call; a negative capacity is refused before anything is received. -/
def readSpec (feed : Feed) : ReadCall → Feed × List Outcome
  | .iq capacity =>
    if capacity < 0 then (feed, [.error])
    else ((readIqSpec capacity.toNat feed).2, [(readIqSpec capacity.toNat feed).1])
  | .fft capacity =>
    if capacity < 0 then (feed, [.error])
    else ((readFftSpec capacity.toNat feed).2, [(readFftSpec capacity.toNat feed).1])

variable (bytes : List UInt8)

theorem Feed.next_enough {α : Type} (len : Nat) (failure : α)
    (rest : List UInt8 → List UInt8 → α × Feed) (enough : len ≤ bytes.length) :
    Feed.next bytes len failure rest = rest (bytes.take len) (bytes.drop len) :=
  if_pos enough

theorem Feed.next_short {α : Type} (len : Nat) (failure : α)
    (rest : List UInt8 → List UInt8 → α × Feed) (short : ¬len ≤ bytes.length) :
    Feed.next bytes len failure rest = (failure, ⟨[], false⟩) :=
  if_neg short

/-- What holds after a failure and of all that follows the bytes. -/
theorem Feed.next_rule {α : Type} (P : α × Feed → Prop) {bytes : List UInt8} {len : Nat}
    {failure : α} {rest : List UInt8 → List UInt8 → α × Feed} (failed : P (failure, ⟨[], false⟩))
    (goes : ∀ got bytes, P (rest got bytes)) : P (Feed.next bytes len failure rest) := by
  rw [Feed.next]
  split
  · exact goes _ _
  · exact failed

theorem readEventSpec_ne_data (buf : List UInt8) (feed : Feed) :
    readEventSpec bytes ≠ (.data buf, feed) := by
  simp only [readEventSpec, Feed.next]
  split_ifs <;> simp

theorem readHeaderSpec_live (feed feed' : Feed) (magic : UInt32) (buf : List UInt8)
    (read : readHeaderSpec feed magic = (.data buf, feed')) : feed'.live = true := by
  simp only [readHeaderSpec, Feed.next] at read
  split_ifs at read
  · exact absurd read (readEventSpec_ne_data _ _ _)
  · cases read
  · cases read
    rfl
  all_goals cases read

/-- A failed header or a `STREAM_END` leaves the connection closed. -/
def ClosedAfter (result : Header × Feed) : Prop :=
  (result.1 = .error ∨ ∃ freq, result.1 = .event evtStreamEnd freq) → result.2.live = false

theorem readEventSpec_closed : ClosedAfter (readEventSpec bytes) := by
  refine Feed.next_rule ClosedAfter (fun _ => rfl) fun type bytes => ?_
  split
  · refine Feed.next_rule ClosedAfter (fun _ => rfl) fun freq bytes ended => ?_
    -- a change of the frequency is neither of the two
    rcases ended with failed | ⟨_, event⟩
    · cases failed
    · exact absurd (Header.event.inj event).1 (by decide)
  · split
    · exact fun _ => rfl
    · exact fun _ => rfl

theorem readHeaderSpec_closed (feed : Feed) (magic : UInt32) :
    ClosedAfter (readHeaderSpec feed magic) := by
  rw [readHeaderSpec]
  split
  next =>
    refine Feed.next_rule ClosedAfter (fun _ => rfl) fun head bytes => ?_
    split
    · exact readEventSpec_closed bytes
    · split
      · exact fun _ => rfl
      · refine Feed.next_rule ClosedAfter (fun _ => rfl) fun rest bytes ended => ?_
        -- a data header is neither of the two
        rcases ended with failed | ⟨_, event⟩
        · cases failed
        · cases event
  next closed => exact fun _ => Bool.not_eq_true _ ▸ closed

/-- An outcome after which the connection is gone. -/
def Outcome.closes : Outcome → Bool
  | .error => true
  | .event type _ => type == evtStreamEnd
  | _ => false

theorem readFrameSpec_closes (feed : Feed) (magic : UInt32)
    (body : List UInt8 → List UInt8 → Outcome × Feed)
    (kept : ∀ buf bytes, (body buf bytes).1.closes = true → (body buf bytes).2.live = false)
    (closes : (readFrameSpec feed magic body).1.closes = true) :
    (readFrameSpec feed magic body).2.live = false := by
  have header := readHeaderSpec_closed feed magic
  unfold readFrameSpec at closes ⊢
  rcases read : readHeaderSpec feed magic with ⟨_ | ⟨type, freq⟩ | _, feed'⟩
  · rw [read] at closes
    exact kept _ _ closes
  · rw [read] at closes header
    have ended : type = evtStreamEnd := by simpa [Outcome.closes] using closes
    subst ended
    exact header (.inr ⟨freq, rfl⟩)
  · rw [read] at header
    exact header (.inl rfl)

theorem Feed.next_closes (len : Nat) (rest : List UInt8 → List UInt8 → Outcome × Feed)
    (open_ : ∀ got bytes, (rest got bytes).1.closes = false)
    (closes : (Feed.next bytes len .error rest).1.closes = true) :
    (Feed.next bytes len .error rest).2.live = false := by
  refine Feed.next_rule (fun result => result.1.closes = true → result.2.live = false)
    (fun _ => rfl) (fun got bytes closes => ?_) closes
  rw [open_] at closes
  cases closes

/-- Every error of an accepted call, and every `STREAM_END`, closes the connection. -/
theorem readIqSpec_closes (capacity : Nat) (feed : Feed)
    (closes : (readIqSpec capacity feed).1.closes = true) :
    (readIqSpec capacity feed).2.live = false := by
  refine readFrameSpec_closes feed magicIq _ (fun buf bytes closes => ?_) closes
  simp only at closes ⊢
  split_ifs at closes ⊢ with invalid large
  · rfl
  all_goals exact Feed.next_closes _ _ _ (fun _ _ => rfl) closes

theorem readFftSpec_closes (capacity : Nat) (feed : Feed)
    (closes : (readFftSpec capacity feed).1.closes = true) :
    (readFftSpec capacity feed).2.live = false := by
  refine readFrameSpec_closes feed magicFft _ (fun buf bytes closes => ?_) closes
  simp only at closes ⊢
  split_ifs at closes ⊢ with invalid large
  · rfl
  all_goals exact Feed.next_closes _ _ _ (fun _ _ => rfl) closes

/-- A closed connection answers every call with an error and loses nothing more. -/
theorem readSpec_closed (call : ReadCall) :
    readSpec ⟨bytes, false⟩ call = (⟨bytes, false⟩, [.error]) := by
  cases call <;> exact ite_self _

theorem reads_closed (calls : List ReadCall) :
    Transducer.run readSpec ⟨bytes, false⟩ calls =
      (⟨bytes, false⟩, List.replicate calls.length .error) := by
  induction calls with
  | nil => rfl
  | cons call calls ih =>
    rw [Transducer.run_cons, readSpec_closed, ih]
    rfl

/-! ### A client's connection -/

/-- A descriptor that may have been closed; the socket stays visible afterwards. -/
structure Conn where
  socket : Socket
  connected : Bool
deriving DecidableEq, Repr

def Conn.close (c : Conn) : Conn := { c with connected := false }

/-- What the peer's bytes and the state of the descriptor still allow. -/
def Conn.feed (c : Conn) : Feed := ⟨c.socket.incoming, c.connected⟩

/-- `recv_all` on a descriptor; a closed one fails with `EBADF` on the first `recv`. -/
def Conn.recvAll (c : Conn) (len : Nat) : Conn × List UInt8 × Bool :=
  if c.connected then
    let (socket, got, whole) := RtlSdr.recvAll c.socket len
    ({ c with socket }, got, whole)
  else (c, [], decide (len = 0))

/-- A receive on an open descriptor takes what it can and leaves it open. -/
theorem Conn.recvAll_live (c : Conn) (len : Nat) (live : c.connected = true) :
    ∃ sizes, c.recvAll len =
      (⟨{ c.socket with incoming := c.socket.incoming.drop len, recvSizes := sizes }, true⟩,
        c.socket.incoming.take len, decide (len ≤ c.socket.incoming.length)) := by
  obtain ⟨sizes, spec⟩ := recvAll_spec c.socket len
  refine ⟨sizes, ?_⟩
  rw [Conn.recvAll, if_pos live, spec]
  simp only [live]

/-- A receive and the abstract decoder's `next` succeed together, on the same bytes. -/
theorem Conn.recvAll_next (c : Conn) (len : Nat) (live : c.connected = true) :
    (∃ c' got, c.recvAll len = (c', got, false) ∧ c'.connected = true ∧
      ∀ {α : Type} (failure : α) (rest : List UInt8 → List UInt8 → α × Feed),
        Feed.next c.socket.incoming len failure rest = (failure, ⟨c'.socket.incoming, false⟩)) ∨
    (∃ c' got, c.recvAll len = (c', got, true) ∧ c'.connected = true ∧ got.length = len ∧
      ∀ {α : Type} (failure : α) (rest : List UInt8 → List UInt8 → α × Feed),
        Feed.next c.socket.incoming len failure rest = rest got c'.socket.incoming) := by
  obtain ⟨sizes, spec⟩ := c.recvAll_live len live
  by_cases enough : len ≤ c.socket.incoming.length
  · right
    rw [decide_eq_true enough] at spec
    refine ⟨_, _, spec, rfl, ?_, fun _ _ => Feed.next_enough _ _ _ _ enough⟩
    rw [List.length_take, Nat.min_eq_left enough]
  · left
    rw [decide_eq_false enough] at spec
    refine ⟨_, _, spec, rfl, fun _ _ => ?_⟩
    rw [Feed.next_short _ _ _ _ enough, List.drop_of_length_le (by omega)]

theorem Conn.recvAll_closed (c : Conn) (len : Nat) (closed : c.connected = false)
    (wanted : 0 < len) : c.recvAll len = (c, [], false) := by
  simp [Conn.recvAll, closed, Nat.ne_of_gt wanted]

/-! ### Host memory

The C and C++ clients receive a payload into the caller's array and convert it in
place, so the array is seen both as bytes and as native integers. -/

inductive Endian
  | little
  | big
deriving DecidableEq, Repr

def Endian.store16 (host : Endian) (value : Int16) : List UInt8 :=
  match host with
  | .little => (bytes16 value).reverse
  | .big => bytes16 value

def Endian.load16 (host : Endian) (cell : List UInt8) : Int16 :=
  match host with
  | .little => sampleOf cell.reverse
  | .big => sampleOf cell

def Endian.store32 (host : Endian) (bits : UInt32) : List UInt8 :=
  match host with
  | .little => (bytes32 bits).reverse
  | .big => bytes32 bits

def Endian.load32 (host : Endian) (cell : List UInt8) : UInt32 :=
  match host with
  | .little => get32 cell.reverse
  | .big => get32 cell

/-- `value < 32768 ? value : value - 65536` on the two bytes at `p`. -/
def signedSample (cell : List UInt8) : Int16 :=
  let value := ((cell.getD 0 0).toUInt32 <<< 8) ||| (cell.getD 1 0).toUInt32
  Int16.ofInt (if value < 32768 then value.toNat else value.toNat - 65536)

/-- The conversion loop over `n` received components. -/
def convertSamples (host : Endian) (n : Nat) (samples : List UInt8) : List UInt8 :=
  Memory.mapCells 2 (fun cell => host.store16 (signedSample cell)) n 0 samples

/-- The conversion loop over `n` received bins. -/
def convertBins (host : Endian) (n : Nat) (power : List UInt8) : List UInt8 :=
  Memory.mapCells 4 (fun cell => host.store32 (get32 cell)) n 0 power

/-- The first `n` elements of an `int16_t` array. -/
def loadSamples (host : Endian) (n : Nat) (samples : List UInt8) : List Int16 :=
  (Memory.cells 2 n samples).map host.load16

/-- The first `n` elements of a `float` array, as bit patterns. -/
def loadBins (host : Endian) (n : Nat) (power : List UInt8) : List UInt32 :=
  (Memory.cells 4 n power).map host.load32

theorem joined16 (high low : UInt8) :
    (high.toUInt16 <<< 8 ||| low.toUInt16).toNat = high.toNat * 256 + low.toNat := by
  have fits : high.toNat <<< 8 % 2 ^ 16 = high.toNat <<< 8 := by
    have := high.toNat_lt
    rw [Nat.shiftLeft_eq]
    omega
  simp only [UInt16.toNat_or, UInt16.toNat_shiftLeft, UInt8.toNat_toUInt16,
    show (8 : UInt16).toNat % 16 = 8 from rfl, fits]
  exact BigEndian.shift_or_eq _ _ _ low.toNat_lt

theorem joined32 (high low : UInt8) :
    (high.toUInt32 <<< 8 ||| low.toUInt32).toNat = high.toNat * 256 + low.toNat := by
  have fits : high.toNat <<< 8 % 2 ^ 32 = high.toNat <<< 8 := by
    have := high.toNat_lt
    rw [Nat.shiftLeft_eq]
    omega
  simp only [UInt32.toNat_or, UInt32.toNat_shiftLeft, UInt8.toNat_toUInt32,
    show (8 : UInt32).toNat % 32 = 8 from rfl, fits]
  exact BigEndian.shift_or_eq _ _ _ low.toNat_lt

theorem sampleOf_bytes16 (value : Int16) : sampleOf (bytes16 value) = value := by
  have joined : (value.toUInt16 >>> 8).toUInt8.toUInt16 <<< 8 ||| value.toUInt16.toUInt8.toUInt16 =
      value.toUInt16 := by
    apply UInt16.toNat_inj.mp
    have bound := value.toUInt16.toNat_lt
    rw [joined16, UInt16.toNat_toUInt8, UInt16.toNat_toUInt8, UInt16.toNat_shiftRight,
      show (8 : UInt16).toNat % 16 = 8 from rfl, Nat.shiftRight_eq_div_pow]
    omega
  simp only [sampleOf, bytes16, List.getD_cons_zero, List.getD_cons_succ, joined]
  rfl

/-- The branch of the C and C++ clients is the two's complement reading. -/
theorem signedSample_eq (cell : List UInt8) : signedSample cell = sampleOf cell := by
  have narrow := joined16 (cell.getD 0 0) (cell.getD 1 0)
  have wide := joined32 (cell.getD 0 0) (cell.getD 1 0)
  have native : sampleOf cell =
      Int16.ofNat ((cell.getD 0 0).toNat * 256 + (cell.getD 1 0).toNat) := by
    rw [sampleOf, ← narrow, ← UInt16.toInt16_ofNat', UInt16.ofNat_toNat]
  rw [native]
  apply Int16.toInt_inj.mp
  simp only [signedSample, UInt32.lt_iff_toNat_lt, wide, Int16.toInt_ofInt, Int16.toInt_ofNat']
  split
  · rfl
  · -- both sides are congruent modulo the word size
    simp only [Int.bmod, Int16.size]
    omega

theorem load16_store16 (host : Endian) (value : Int16) :
    host.load16 (host.store16 value) = value := by
  cases host with
  | little => simpa [Endian.load16, Endian.store16] using sampleOf_bytes16 value
  | big => exact sampleOf_bytes16 value

theorem get32_cell (bits : UInt32) : get32 (bytes32 bits) = bits := by
  simpa using get32_bytes32 bits []

theorem load32_store32 (host : Endian) (bits : UInt32) :
    host.load32 (host.store32 bits) = bits := by
  cases host with
  | little => simpa [Endian.load32, Endian.store32] using get32_cell bits
  | big => exact get32_cell bits

theorem store16_length (host : Endian) (value : Int16) : (host.store16 value).length = 2 := by
  cases host <;> simp [Endian.store16, bytes16]

theorem store32_length (host : Endian) (bits : UInt32) : (host.store32 bits).length = 4 := by
  cases host <;> simp [Endian.store32]

/-- Reading back an array that was converted cell by cell. -/
private theorem cells_mapCells {β : Type} (width n : Nat) (decode : List UInt8 → β)
    (store : β → List UInt8) (sized : ∀ value, (store value).length = width) (mem : List UInt8)
    (room : width * n ≤ mem.length) :
    Memory.cells width n (Memory.mapCells width (fun cell => store (decode cell)) n 0 mem) =
      (Memory.cells width n mem).map fun cell => store (decode cell) := by
  have converted := Memory.mapCells_eq width (fun cell => store (decode cell))
    (fun _ _ => sized _) n 0 [] mem rfl room
  rw [List.nil_append, List.nil_append] at converted
  have row := Memory.cells_flatten width
    ((Memory.cells width n mem).map fun cell => store (decode cell)) (by
      intro cell member
      obtain ⟨_, _, rfl⟩ := List.mem_map.mp member
      exact sized _)
  rw [List.length_map, Memory.cells_length] at row
  rw [converted, Memory.cells_append _ _ _ _ (Nat.le_of_eq (Memory.flatten_cells_length width n mem
    room _ (fun _ _ => sized _)).symm), row]

/-- After the loop the `int16_t` array holds the components of the payload. -/
theorem loadSamples_convertSamples (host : Endian) (n : Nat) (mem : List UInt8)
    (room : 2 * n ≤ mem.length) :
    loadSamples host n (convertSamples host n mem) = payloadSamples n mem := by
  rw [loadSamples, convertSamples,
    cells_mapCells 2 n signedSample host.store16 (store16_length host) mem room, List.map_map]
  apply List.map_congr_left
  intro cell _
  rw [Function.comp_apply, load16_store16, signedSample_eq]

theorem loadBins_convertBins (host : Endian) (n : Nat) (mem : List UInt8)
    (room : 4 * n ≤ mem.length) : loadBins host n (convertBins host n mem) = payloadBins n mem := by
  rw [loadBins, convertBins,
    cells_mapCells 4 n get32 host.store32 (store32_length host) mem room, List.map_map]
  apply List.map_congr_left
  intro cell _
  rw [Function.comp_apply, load32_store32]

/-- The caller's array after a payload was received into it and converted. -/
theorem loadSamples_received (host : Endian) (n : Nat) (mem got : List UInt8)
    (whole : got.length = n * 2) (room : n * 2 ≤ mem.length) :
    loadSamples host n (convertSamples host n (Memory.splice mem 0 got)) =
      payloadSamples n got := by
  rw [loadSamples_convertSamples host n _ (by rw [Memory.splice_length _ _ _ (by omega)]; omega),
    payloadSamples, Memory.splice, List.take_zero, List.nil_append,
    Memory.cells_append _ _ _ _ (by omega), payloadSamples]

theorem loadBins_received (host : Endian) (n : Nat) (mem got : List UInt8)
    (whole : got.length = n * 4) (room : n * 4 ≤ mem.length) :
    loadBins host n (convertBins host n (Memory.splice mem 0 got)) = payloadBins n got := by
  rw [loadBins_convertBins host n _ (by rw [Memory.splice_length _ _ _ (by omega)]; omega),
    payloadBins, Memory.splice, List.take_zero, List.nil_append,
    Memory.cells_append _ _ _ _ (by omega), payloadBins]

/-! ### The decoder inverts the encoders -/

theorem payloadSamples_sampleBytes (samples : List Int16) (rest : List UInt8) :
    payloadSamples samples.length (sampleBytes samples ++ rest) = samples := by
  have row := Memory.cells_flatten 2 (samples.map bytes16) (by
    intro cell member
    obtain ⟨_, _, rfl⟩ := List.mem_map.mp member
    rfl)
  rw [List.length_map] at row
  rw [payloadSamples, Memory.cells_append _ _ _ _ (by simp), sampleBytes,
    List.flatMap_def, row, List.map_map]
  conv => rhs; rw [← List.map_id samples]
  exact List.map_congr_left fun value _ => sampleOf_bytes16 value

theorem payloadBins_binBytes (power : List UInt32) (rest : List UInt8) :
    payloadBins power.length (binBytes power ++ rest) = power := by
  have row := Memory.cells_flatten 4 (power.map bytes32) (by
    intro cell member
    obtain ⟨_, _, rfl⟩ := List.mem_map.mp member
    exact bytes32_length _)
  rw [List.length_map] at row
  rw [payloadBins, Memory.cells_append _ _ _ _ (by simp), binBytes,
    List.flatMap_def, row, List.map_map]
  conv => rhs; rw [← List.map_id power]
  exact List.map_congr_left fun bits _ => get32_cell bits

theorem hdrFields (magic : UInt32) (freq rate seq : UInt64) (count : UInt32) :
    get32 (hdrBytes magic freq rate seq count) = magic ∧
    get64 ((hdrBytes magic freq rate seq count).drop 4) = freq ∧
    get64 ((hdrBytes magic freq rate seq count).drop 12) = rate ∧
    get64 ((hdrBytes magic freq rate seq count).drop 20) = seq ∧
    get32 ((hdrBytes magic freq rate seq count).drop 28) = count := by
  unfold hdrBytes
  refine ⟨?_, ?_, ?_, ?_, ?_⟩
  · rw [List.append_assoc, List.append_assoc, List.append_assoc, get32_bytes32]
  · rw [List.append_assoc, List.append_assoc, List.append_assoc,
      List.drop_append_of_le_length (by simp), List.drop_of_length_le (by simp), List.nil_append,
      get64_bytes64]
  · rw [List.append_assoc, List.append_assoc, List.drop_append_of_le_length (by simp),
      List.drop_of_length_le (by simp), List.nil_append, get64_bytes64]
  · rw [List.append_assoc, List.drop_append_of_le_length (by simp),
      List.drop_of_length_le (by simp), List.nil_append, get64_bytes64]
  · rw [List.drop_append_of_le_length (by simp), List.drop_of_length_le (by simp),
      List.nil_append, get32_cell]

theorem iqHdrOf_hdrBytes (hdr : IqHdr) :
    iqHdrOf (hdrBytes hdr.magic hdr.freq hdr.rate hdr.seq hdr.nsamples) = hdr := by
  obtain ⟨magic, freq, rate, seq, count⟩ :=
    hdrFields hdr.magic hdr.freq hdr.rate hdr.seq hdr.nsamples
  simp only [iqHdrOf, magic, freq, rate, seq, count]

theorem fftHdrOf_hdrBytes (hdr : FftHdr) :
    fftHdrOf (hdrBytes hdr.magic hdr.freq hdr.rate hdr.seq hdr.bins) = hdr := by
  obtain ⟨magic, freq, rate, seq, count⟩ :=
    hdrFields hdr.magic hdr.freq hdr.rate hdr.seq hdr.bins
  simp only [fftHdrOf, magic, freq, rate, seq, count]

end RtlSdr
