import RtlSdr.Lib.BigEndian
import RtlSdr.Lib.Memory

/-!
# RTLSTREAM/2 encoders and the request decoder (`rtl_stream_proto.c`)

Encoders write fields at fixed offsets of a caller's buffer, so a field is a
`Memory.splice` and the rest of the buffer is whatever the caller left there. A
pointer `buf + k` that is only read is `buf.drop k`.
-/
namespace RtlSdr

def magicReq : UInt32 := 0x52543252
def magicIq : UInt32 := 0x52543249
def magicFft : UInt32 := 0x52543246
def magicEvt : UInt32 := 0x52543245

def modeIq : UInt8 := 0
def modeFft : UInt8 := 1

def reqSize : Nat := 29
def iqHdrSize : Nat := 32
def fftHdrSize : Nat := 32
def evtHdrSize : Nat := 8
def evtFreqSize : Nat := 16

def evtFreqChange : UInt32 := 1
def evtStreamEnd : UInt32 := 2

def maxIqComponents : Nat := 262144
def maxFftBins : Nat := 65536

/-- `struct rtlsdr_stream_req`. -/
structure StreamReq where
  magic : UInt32
  freq : UInt64
  rate : UInt64
  bandwidth : UInt64
  mode : UInt8
deriving DecidableEq, Repr

/-- `struct rtlsdr_stream_iq_hdr`; `nsamples` counts `int16_t` components. -/
structure IqHdr where
  magic : UInt32
  freq : UInt64
  rate : UInt64
  seq : UInt64
  nsamples : UInt32
deriving DecidableEq, Repr

/-- `struct rtlsdr_stream_fft_hdr`. -/
structure FftHdr where
  magic : UInt32
  freq : UInt64
  rate : UInt64
  seq : UInt64
  bins : UInt32
deriving DecidableEq, Repr

/-! ### Words at an offset

The server and each client have their own copies of these four functions, all of
one text. -/

def put32 (buf : List UInt8) (off : Nat) (val : UInt32) : List UInt8 :=
  Memory.splice buf off
    [(val >>> 24).toUInt8, (val >>> 16).toUInt8, (val >>> 8).toUInt8, val.toUInt8]

def put64 (buf : List UInt8) (off : Nat) (val : UInt64) : List UInt8 :=
  put32 (put32 buf off (val >>> 32).toUInt32) (off + 4) val.toUInt32

def get32 (buf : List UInt8) : UInt32 :=
  ((buf.getD 0 0).toUInt32 <<< 24) ||| ((buf.getD 1 0).toUInt32 <<< 16) |||
    ((buf.getD 2 0).toUInt32 <<< 8) ||| (buf.getD 3 0).toUInt32

def get64 (buf : List UInt8) : UInt64 :=
  ((get32 buf).toUInt64 <<< 32) ||| (get32 (buf.drop 4)).toUInt64

/-! ### Requests -/

def validReq (req : StreamReq) : Bool :=
  req.magic == magicReq &&
    (req.mode == modeIq ||
      (req.mode == modeFft && req.freq == 0 && req.rate == 0 && req.bandwidth == 0))

/-- `rtlsdr_stream_encode_req`: the buffer afterwards, or -1 with nothing written. -/
def encodeReq (buf : List UInt8) (req : StreamReq) : Option (List UInt8) :=
  if validReq req then
    let buf := put32 buf 0 req.magic
    let buf := put64 buf 4 req.freq
    let buf := put64 buf 12 req.rate
    let buf := put64 buf 20 req.bandwidth
    some (buf.set 28 req.mode)
  else none

/-- `rtlsdr_stream_decode_req`: the fields it stores, and whether it returns 0. -/
def decodeReq (buf : List UInt8) : StreamReq × Bool :=
  let req : StreamReq :=
    { magic := get32 buf
      freq := get64 (buf.drop 4)
      rate := get64 (buf.drop 12)
      bandwidth := get64 (buf.drop 20)
      mode := buf.getD 28 0 }
  (req, validReq req)

/-! ### Frames -/

/-- The five stores shared by both frame headers. -/
def putHdr (buf : List UInt8) (magic : UInt32) (freq rate seq : UInt64) (count : UInt32) :
    List UInt8 :=
  let buf := put32 buf 0 magic
  let buf := put64 buf 4 freq
  let buf := put64 buf 12 rate
  let buf := put64 buf 20 seq
  put32 buf 28 count

def encodeIqHdr (buf : List UInt8) (hdr : IqHdr) : Option (List UInt8) :=
  if hdr.magic ≠ magicIq ∨ hdr.nsamples.toNat > maxIqComponents ∨ hdr.nsamples &&& 1 ≠ 0 then none
  else some (putHdr buf hdr.magic hdr.freq hdr.rate hdr.seq hdr.nsamples)

def encodeFftHdr (buf : List UInt8) (hdr : FftHdr) : Option (List UInt8) :=
  if hdr.magic ≠ magicFft ∨ hdr.bins.toNat < 2 ∨ hdr.bins.toNat > maxFftBins then none
  else some (putHdr buf hdr.magic hdr.freq hdr.rate hdr.seq hdr.bins)

/-- `rtlsdr_stream_encode_evt`: the buffer and the number of bytes to send. -/
def encodeEvt (buf : List UInt8) (type : UInt32) (freq : UInt64) : Option (List UInt8 × Nat) :=
  if type ≠ evtFreqChange ∧ type ≠ evtStreamEnd then none
  else
    let buf := put32 buf 0 magicEvt
    let buf := put32 buf 4 type
    if type = evtFreqChange then some (put64 buf 8 freq, evtFreqSize)
    else some (buf, evtHdrSize)

/-- The store loop of `rtlsdr_stream_encode_iq_payload`, from component `i` on. -/
def putSamples (dst : List UInt8) (i : Nat) : List Int16 → List UInt8
  | [] => dst
  | sample :: samples =>
    let value := sample.toUInt16
    putSamples ((dst.set (2 * i) (value >>> 8).toUInt8).set (2 * i + 1) value.toUInt8) (i + 1)
      samples

/-- `rtlsdr_stream_encode_iq_payload` of all of `samples` into `dst.length` bytes. -/
def encodeIqPayload (dst : List UInt8) (samples : List Int16) : Option (List UInt8) :=
  if samples.length > maxIqComponents ∨ samples.length &&& 1 ≠ 0 ∨
      dst.length < samples.length * 2 then none
  else some (putSamples dst 0 samples)

/-- The store loop of `rtlsdr_stream_encode_fft_payload`, from bin `i` on. -/
def putBins (dst : List UInt8) (i : Nat) : List UInt32 → List UInt8
  | [] => dst
  | bits :: power => putBins (put32 dst (4 * i) bits) (i + 1) power

/-- `rtlsdr_stream_encode_fft_payload`; a `float` is the 32 bits `memcpy` takes from it. -/
def encodeFftPayload (dst : List UInt8) (power : List UInt32) : Option (List UInt8) :=
  if power.length < 2 ∨ power.length > maxFftBins ∨ dst.length < power.length * 4 then none
  else some (putBins dst 0 power)

/-! ### The bytes of a word -/

def bytes32 (val : UInt32) : List UInt8 := BigEndian.toBytes 4 val.toNat

def bytes64 (val : UInt64) : List UInt8 := BigEndian.toBytes 8 val.toNat

@[simp] theorem bytes32_length (val : UInt32) : (bytes32 val).length = 4 :=
  BigEndian.toBytes_length _ _

@[simp] theorem bytes64_length (val : UInt64) : (bytes64 val).length = 8 :=
  BigEndian.toBytes_length _ _

variable (bytes buf : List UInt8) (req : StreamReq)

theorem put32_eq (off : Nat) (val : UInt32) :
    put32 buf off val = Memory.splice buf off (bytes32 val) := by
  unfold put32 bytes32
  rw [BigEndian.toBytes_four]
  congr 1
  simp only [List.cons.injEq, and_true]
  refine ⟨?_, ?_, ?_, ?_⟩ <;> apply UInt8.toNat_inj.mp <;>
    simp [UInt32.toNat_shiftRight, Nat.shiftRight_eq_div_pow]

/-- Filling a buffer front to back: what is written so far, then the untouched rest. -/
theorem splice_next (done rest src : List UInt8) (off : Nat) (here : off = done.length) :
    Memory.splice (done ++ rest) off src = done ++ src ++ rest.drop src.length := by
  subst here
  rw [Memory.splice, List.take_left, ← List.drop_drop, List.drop_left]

theorem put32_next (done rest : List UInt8) (off : Nat) (val : UInt32)
    (here : off = done.length) :
    put32 (done ++ rest) off val = (done ++ bytes32 val) ++ rest.drop 4 := by
  rw [put32_eq, splice_next done rest _ off here, bytes32_length]

theorem bytes64_halves (val : UInt64) :
    bytes64 val = bytes32 (val >>> 32).toUInt32 ++ bytes32 val.toUInt32 := by
  have high : (val >>> 32).toUInt32.toNat = val.toNat / 256 ^ 4 := by
    simp only [UInt64.toNat_toUInt32, UInt64.toNat_shiftRight, Nat.shiftRight_eq_div_pow]
    have := val.toNat_lt
    simp only [show (32 : UInt64).toNat % 64 = 32 from rfl]
    omega
  have low : val.toUInt32.toNat = val.toNat % 256 ^ 4 := UInt64.toNat_toUInt32 val
  rw [bytes64, bytes32, bytes32, high, low, BigEndian.toBytes_mod]
  exact BigEndian.toBytes_add 4 4 _

theorem put64_next (done rest : List UInt8) (off : Nat) (val : UInt64)
    (here : off = done.length) :
    put64 (done ++ rest) off val = (done ++ bytes64 val) ++ rest.drop 8 := by
  rw [put64, put32_next done rest off _ here, put32_next _ _ _ _ (by simp [here]),
    bytes64_halves, List.drop_drop, List.append_assoc done]

theorem get32_toNat (rest : List UInt8) (four : bytes.length = 4) :
    (get32 (bytes ++ rest)).toNat = BigEndian.ofBytes bytes := by
  obtain ⟨a, b, c, d, rfl⟩ : ∃ a b c d, bytes = [a, b, c, d] := by
    match bytes, four with
    | [a, b, c, d], _ => exact ⟨a, b, c, d, rfl⟩
  have hb := b.toNat_lt
  have hc := c.toNat_lt
  have hd := d.toNat_lt
  have joined : a.toNat <<< 24 ||| b.toNat <<< 16 ||| c.toNat <<< 8 ||| d.toNat =
      ((a.toNat * 256 + b.toNat) * 256 + c.toNat) * 256 + d.toNat := by
    rw [Nat.lor_assoc, Nat.lor_assoc, BigEndian.shift_or_eq c.toNat d.toNat 8 (by omega),
      BigEndian.shift_or_eq b.toNat _ 16 (by omega), BigEndian.shift_or_eq a.toNat _ 24 (by omega)]
    omega
  have small (x : UInt8) (k : Nat) (fits : k ≤ 24) : x.toNat <<< k % 2 ^ 32 = x.toNat <<< k := by
    rw [Nat.shiftLeft_eq]
    apply Nat.mod_eq_of_lt
    calc x.toNat * 2 ^ k < 2 ^ 8 * 2 ^ k :=
          Nat.mul_lt_mul_of_pos_right x.toNat_lt (Nat.two_pow_pos k)
      _ = 2 ^ (8 + k) := (Nat.pow_add 2 8 k).symm
      _ ≤ 2 ^ 32 := Nat.pow_le_pow_right (by decide) (by omega)
  simp only [get32, List.cons_append, List.getD_cons_zero, List.getD_cons_succ, UInt32.toNat_or,
    UInt32.toNat_shiftLeft, UInt8.toNat_toUInt32]
  rw [show (24 : UInt32).toNat % 32 = 24 from rfl, show (16 : UInt32).toNat % 32 = 16 from rfl,
    show (8 : UInt32).toNat % 32 = 8 from rfl, small a 24 (by omega), small b 16 (by omega),
    small c 8 (by omega), joined]
  simp [BigEndian.ofBytes]

theorem get32_bytes32 (val : UInt32) (rest : List UInt8) : get32 (bytes32 val ++ rest) = val := by
  apply UInt32.toNat_inj.mp
  rw [get32_toNat _ _ (bytes32_length val), bytes32, BigEndian.ofBytes_toBytes]
  exact Nat.mod_eq_of_lt val.toNat_lt

theorem get64_halves (high low : UInt32) :
    (high.toUInt64 <<< 32 ||| low.toUInt64).toNat = high.toNat * 2 ^ 32 + low.toNat := by
  have small : high.toNat <<< 32 % 2 ^ 64 = high.toNat <<< 32 := by
    rw [Nat.shiftLeft_eq]
    have := high.toNat_lt
    omega
  simp only [UInt64.toNat_or, UInt64.toNat_shiftLeft, UInt32.toNat_toUInt64]
  rw [show (32 : UInt64).toNat % 64 = 32 from rfl, small,
    BigEndian.shift_or_eq _ _ _ low.toNat_lt]

theorem get64_toNat (rest : List UInt8) (eight : bytes.length = 8) :
    (get64 (bytes ++ rest)).toNat = BigEndian.ofBytes bytes := by
  have left : (bytes.take 4).length = 4 := by rw [List.length_take]; omega
  have right : (bytes.drop 4).length = 4 := by rw [List.length_drop]; omega
  have high : (get32 (bytes ++ rest)).toNat = BigEndian.ofBytes (bytes.take 4) := by
    rw [← get32_toNat _ (bytes.drop 4 ++ rest) left, ← List.append_assoc, List.take_append_drop]
  have whole := BigEndian.ofBytes_append (bytes.take 4) (bytes.drop 4)
  rw [List.take_append_drop, right, show 256 ^ 4 = 2 ^ 32 from rfl] at whole
  rw [get64, get64_halves, List.drop_append_of_le_length (by omega), get32_toNat _ _ right, high,
    whole]

theorem get64_bytes64 (val : UInt64) (rest : List UInt8) : get64 (bytes64 val ++ rest) = val := by
  apply UInt64.toNat_inj.mp
  rw [get64_toNat _ _ (bytes64_length val), bytes64, BigEndian.ofBytes_toBytes]
  exact Nat.mod_eq_of_lt val.toNat_lt

theorem bytes32_get32 (rest : List UInt8) (four : bytes.length = 4) :
    bytes32 (get32 (bytes ++ rest)) = bytes := by
  rw [bytes32, get32_toNat _ _ four, ← four, BigEndian.toBytes_ofBytes]

theorem bytes64_get64 (rest : List UInt8) (eight : bytes.length = 8) :
    bytes64 (get64 (bytes ++ rest)) = bytes := by
  rw [bytes64, get64_toNat _ _ eight, ← eight, BigEndian.toBytes_ofBytes]

/-! ### What the encoders leave in the buffer -/

def reqBytes (req : StreamReq) : List UInt8 :=
  bytes32 req.magic ++ bytes64 req.freq ++ bytes64 req.rate ++ bytes64 req.bandwidth ++ [req.mode]

@[simp] theorem reqBytes_length : (reqBytes req).length = reqSize := by
  simp [reqBytes, reqSize]

/-- The byte stores of a request, wherever they are made, fill the first 29 bytes. -/
theorem putReq_eq (room : reqSize ≤ buf.length) :
    (put64 (put64 (put64 (put32 buf 0 req.magic) 4 req.freq) 12 req.rate) 20
      req.bandwidth).set 28 req.mode = reqBytes req ++ buf.drop reqSize := by
  obtain ⟨byte, rest, tail⟩ : ∃ byte rest, buf.drop 28 = byte :: rest := by
    cases tail : buf.drop 28 with
    | nil =>
      have := List.drop_eq_nil_iff.mp tail
      simp only [reqSize] at room
      omega
    | cons byte rest => exact ⟨byte, rest, rfl⟩
  have after : buf.drop reqSize = rest := by
    rw [show reqSize = 28 + 1 from rfl, ← List.drop_drop, tail]
    rfl
  have start := put32_next [] buf 0 req.magic rfl
  rw [List.nil_append, List.nil_append] at start
  rw [start, put64_next _ _ _ _ (by simp), put64_next _ _ _ _ (by simp),
    put64_next _ _ _ _ (by simp), List.drop_drop, List.drop_drop, List.drop_drop, tail,
    List.set_append_right _ _ (by simp), after]
  simp [reqBytes]

theorem encodeReq_eq (room : reqSize ≤ buf.length) :
    encodeReq buf req = if validReq req then some (reqBytes req ++ buf.drop reqSize) else none := by
  unfold encodeReq
  split
  · rw [← putReq_eq buf req room]
  · rfl

def hdrBytes (magic : UInt32) (freq rate seq : UInt64) (count : UInt32) : List UInt8 :=
  bytes32 magic ++ bytes64 freq ++ bytes64 rate ++ bytes64 seq ++ bytes32 count

@[simp] theorem hdrBytes_length (magic : UInt32) (freq rate seq : UInt64) (count : UInt32) :
    (hdrBytes magic freq rate seq count).length = 32 := by
  simp [hdrBytes]

theorem putHdr_eq (magic : UInt32) (freq rate seq : UInt64) (count : UInt32) :
    putHdr buf magic freq rate seq count = hdrBytes magic freq rate seq count ++ buf.drop 32 := by
  have start := put32_next [] buf 0 magic rfl
  rw [List.nil_append, List.nil_append] at start
  simp only [putHdr]
  rw [start, put64_next _ _ _ _ (by simp), put64_next _ _ _ _ (by simp),
    put64_next _ _ _ _ (by simp), put32_next _ _ _ _ (by simp)]
  simp [hdrBytes, List.drop_drop]

/-- An accepted I/Q header fills its buffer and keeps the protocol's limits. -/
theorem encodeIqHdr_eq (hdr : IqHdr) (out : List UInt8) (room : buf.length = iqHdrSize)
    (accepted : encodeIqHdr buf hdr = some out) :
    hdr.magic = magicIq ∧ ¬(hdr.nsamples.toNat > maxIqComponents ∨ hdr.nsamples &&& 1 ≠ 0) ∧
      out = hdrBytes hdr.magic hdr.freq hdr.rate hdr.seq hdr.nsamples := by
  unfold encodeIqHdr at accepted
  split at accepted
  · cases accepted
  next valid =>
    obtain ⟨magic, limit⟩ := not_or.mp valid
    refine ⟨not_not.mp magic, limit, ?_⟩
    have full : buf.drop 32 = [] := List.drop_of_length_le (le_of_eq room)
    rw [← Option.some.inj accepted, putHdr_eq, full, List.append_nil]

theorem encodeFftHdr_eq (hdr : FftHdr) (out : List UInt8) (room : buf.length = fftHdrSize)
    (accepted : encodeFftHdr buf hdr = some out) :
    hdr.magic = magicFft ∧ ¬(hdr.bins.toNat < 2 ∨ hdr.bins.toNat > maxFftBins) ∧
      out = hdrBytes hdr.magic hdr.freq hdr.rate hdr.seq hdr.bins := by
  unfold encodeFftHdr at accepted
  split at accepted
  · cases accepted
  next valid =>
    obtain ⟨magic, limit⟩ := not_or.mp valid
    refine ⟨not_not.mp magic, limit, ?_⟩
    have full : buf.drop 32 = [] := List.drop_of_length_le (le_of_eq room)
    rw [← Option.some.inj accepted, putHdr_eq, full, List.append_nil]

def evtBytes (type : UInt32) (freq : UInt64) : List UInt8 :=
  bytes32 magicEvt ++ bytes32 type ++ if type = evtFreqChange then bytes64 freq else []

theorem encodeEvt_eq (type : UInt32) (freq : UInt64) (out : List UInt8 × Nat)
    (accepted : encodeEvt buf type freq = some out) :
    (type = evtFreqChange ∨ type = evtStreamEnd) ∧ out.1.take out.2 = evtBytes type freq := by
  have start := put32_next [] buf 0 magicEvt rfl
  rw [List.nil_append, List.nil_append] at start
  unfold encodeEvt at accepted
  split at accepted
  · cases accepted
  next known =>
    have known : type = evtFreqChange ∨ type = evtStreamEnd := by
      by_cases change : type = evtFreqChange
      · exact Or.inl change
      · exact Or.inr (not_not.mp fun other => known ⟨change, other⟩)
    refine ⟨known, ?_⟩
    have second := put32_next (bytes32 magicEvt) (buf.drop 4) 4 type (by rw [bytes32_length])
    simp only [start, second] at accepted
    split at accepted
    next change =>
      cases accepted
      simp only
      rw [put64_next _ _ _ _ (by simp), List.take_append_of_le_length (by simp [evtFreqSize]),
        List.take_of_length_le (by simp [evtFreqSize]), evtBytes, if_pos change]
    next other =>
      cases accepted
      simp only
      rw [List.take_append_of_le_length (by simp [evtHdrSize]),
        List.take_of_length_le (by simp [evtHdrSize]), evtBytes, if_neg other, List.append_nil]

def bytes16 (sample : Int16) : List UInt8 :=
  [(sample.toUInt16 >>> 8).toUInt8, sample.toUInt16.toUInt8]

def sampleBytes (samples : List Int16) : List UInt8 := samples.flatMap bytes16

@[simp] theorem sampleBytes_length (samples : List Int16) :
    (sampleBytes samples).length = 2 * samples.length := by
  induction samples with
  | nil => rfl
  | cons sample samples ih =>
    simp only [sampleBytes, List.flatMap_cons, List.length_append, List.length_cons] at ih ⊢
    rw [ih]
    simp [bytes16]
    omega

theorem putSamples_eq (samples : List Int16) (done rest : List UInt8) (i : Nat)
    (here : done.length = 2 * i) (room : 2 * samples.length ≤ rest.length) :
    putSamples (done ++ rest) i samples =
      done ++ sampleBytes samples ++ rest.drop (2 * samples.length) := by
  induction samples generalizing done rest i with
  | nil => simp [putSamples, sampleBytes]
  | cons sample samples ih =>
    simp only [List.length_cons] at room
    match rest, room with
    | [], room => simp at room
    | [_], room => simp only [List.length_singleton] at room; omega
    | a :: b :: rest, room =>
      have stored : ((done ++ a :: b :: rest).set (2 * i) (sample.toUInt16 >>> 8).toUInt8).set
          (2 * i + 1) sample.toUInt16.toUInt8 = (done ++ bytes16 sample) ++ rest := by
        rw [← here, List.set_append_right _ _ (by omega), List.set_append_right _ _ (by omega),
          Nat.sub_self, Nat.add_sub_cancel_left]
        simp [bytes16]
      rw [putSamples, stored, ih _ _ _ (by simp [bytes16]; omega)
        (by simp only [List.length_cons] at room; omega)]
      rw [List.length_cons, show 2 * (samples.length + 1) = 2 * samples.length + 1 + 1 by omega,
        List.drop_succ_cons, List.drop_succ_cons]
      simp [sampleBytes]

theorem encodeIqPayload_eq (dst : List UInt8) (samples : List Int16) (out : List UInt8)
    (accepted : encodeIqPayload dst samples = some out) :
    out.take (2 * samples.length) = sampleBytes samples := by
  unfold encodeIqPayload at accepted
  split at accepted
  · cases accepted
  next fits =>
    cases accepted
    have room : 2 * samples.length ≤ dst.length := by omega
    have filled := putSamples_eq samples [] dst 0 rfl room
    rw [List.nil_append, List.nil_append] at filled
    rw [filled, List.take_append_of_le_length (by simp), List.take_of_length_le (by simp)]

def binBytes (power : List UInt32) : List UInt8 := power.flatMap bytes32

@[simp] theorem binBytes_length (power : List UInt32) :
    (binBytes power).length = 4 * power.length := by
  induction power with
  | nil => rfl
  | cons bits power ih =>
    simp only [binBytes, List.flatMap_cons, List.length_append, List.length_cons,
      bytes32_length] at ih ⊢
    rw [ih]
    omega

theorem putBins_eq (power : List UInt32) (done rest : List UInt8) (i : Nat)
    (here : done.length = 4 * i) :
    putBins (done ++ rest) i power = done ++ binBytes power ++ rest.drop (4 * power.length) := by
  induction power generalizing done rest i with
  | nil => simp [putBins, binBytes]
  | cons bits power ih =>
    rw [putBins, put32_next _ _ _ _ here.symm, ih _ _ _ (by simp [here]; omega), List.drop_drop,
      List.length_cons, Nat.mul_succ, Nat.add_comm (4 * power.length)]
    simp [binBytes]

theorem encodeFftPayload_eq (dst : List UInt8) (power : List UInt32) (out : List UInt8)
    (accepted : encodeFftPayload dst power = some out) :
    out.take (4 * power.length) = binBytes power := by
  unfold encodeFftPayload at accepted
  split at accepted
  · cases accepted
  next fits =>
    cases accepted
    have filled := putBins_eq power [] dst 0 rfl
    rw [List.nil_append, List.nil_append] at filled
    rw [filled, List.take_append_of_le_length (by simp), List.take_of_length_le (by simp)]

end RtlSdr
