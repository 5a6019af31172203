import RtlSdr.Stream.ClientC

/-!
# The request, from the client's call to the server's fields

The client and the server each have an encoder of the 29 bytes, and the server the
one decoder. All three state the same rule about the mode and the zero fields.
-/
namespace RtlSdr

/-- What the caller of `rtlsdr_stream_request` asks for. -/
def requestOf (freq rate bandwidth : UInt64) (mode : UInt8) : StreamReq :=
  ⟨magicReq, freq, rate, bandwidth, mode⟩

theorem decodeReq_reqBytes (req : StreamReq) : decodeReq (reqBytes req) = (req, validReq req) := by
  have magic : get32 (reqBytes req) = req.magic := by
    simp only [reqBytes, List.append_assoc, get32_bytes32]
  have freq : get64 ((reqBytes req).drop 4) = req.freq := by
    simp only [reqBytes, List.append_assoc]
    rw [List.drop_left' (bytes32_length _), get64_bytes64]
  have rate : get64 ((reqBytes req).drop 12) = req.rate := by
    have before : (bytes32 req.magic ++ bytes64 req.freq).length = 12 := by simp
    rw [reqBytes, List.append_assoc, List.append_assoc, List.drop_left' before, get64_bytes64]
  have bandwidth : get64 ((reqBytes req).drop 20) = req.bandwidth := by
    have before : (bytes32 req.magic ++ bytes64 req.freq ++ bytes64 req.rate).length = 20 := by
      simp
    rw [reqBytes, List.append_assoc, List.drop_left' before, get64_bytes64]
  have mode : (reqBytes req).getD 28 0 = req.mode := by
    simp [reqBytes]
  simp only [decodeReq, magic, freq, rate, bandwidth, mode]

theorem reqBytes_decodeReq (buf : List UInt8) (sized : buf.length = reqSize) :
    reqBytes (decodeReq buf).1 = buf := by
  -- cut the buffer at the field offsets
  have magic : bytes32 (get32 buf) = buf.take 4 := by
    rw [← bytes32_get32 (buf.take 4) (buf.drop 4) (by simp [sized, reqSize]),
      List.take_append_drop]
  have word (off : Nat) (inside : off + 8 ≤ 29) :
      bytes64 (get64 (buf.drop off)) = (buf.drop off).take 8 := by
    rw [← bytes64_get64 ((buf.drop off).take 8) ((buf.drop off).drop 8)
      (by simp only [List.length_take, List.length_drop, sized, reqSize]; omega),
      List.take_append_drop]
  have last : [buf.getD 28 0] = buf.drop 28 := by
    rw [List.drop_eq_getElem_cons (by simp [sized, reqSize]),
      List.drop_of_length_le (by simp [sized, reqSize]), List.getD_eq_getElem]
  simp only [reqBytes, decodeReq, magic, word 4 (by omega), word 12 (by omega),
    word 20 (by omega), last]
  -- and glue the pieces together again
  rw [← List.take_add, ← List.take_add, ← List.take_add, List.take_append_drop]

/-- The client's own check is `valid_req` of the request it would encode. -/
theorem streamRequest_rule (freq rate bandwidth : UInt64) (mode : UInt8) :
    validReq (requestOf freq rate bandwidth mode) =
      !((mode != modeIq && mode != modeFft) ||
        (mode == modeFft && (freq != 0 || rate != 0 || bandwidth != 0))) := by
  simp only [validReq, requestOf, beq_self_eq_true, Bool.true_and]
  by_cases iq : mode = modeIq
  · subst iq
    simp [modeIq, modeFft]
  · by_cases fft : mode = modeFft
    · subst fft
      simp [modeIq, modeFft, bne, Bool.and_assoc]
    · simp [beq_eq_false_iff_ne.mpr iq, beq_eq_false_iff_ne.mpr fft, bne]

/-- A first request on a fresh context sends exactly what the server's encoder
produces, or nothing if that encoder refuses. -/
theorem streamRequest_fresh (socket : Socket) (freq rate bandwidth : UInt64) (mode : UInt8) :
    streamRequest (streamConnect socket) freq rate bandwidth mode =
      if validReq (requestOf freq rate bandwidth mode) then
        let (socket, sent) := sendAll socket (reqBytes (requestOf freq rate bandwidth mode))
        (⟨⟨socket, sent⟩, true, ⟨0, 0⟩⟩, sent)
      else (streamConnect socket, false) := by
  have filled := putReq_eq (List.replicate 29 0) (requestOf freq rate bandwidth mode) (by decide)
  have nothing : (List.replicate 29 (0 : UInt8)).drop reqSize = [] := by decide
  rw [nothing, List.append_nil] at filled
  simp only [requestOf] at filled
  rw [streamRequest_rule]
  simp only [streamRequest, streamConnect, Bool.not_true, Bool.false_or, filled, requestOf]
  split_ifs with refused accepted accepted
  · simp [refused] at accepted
  · rfl
  · rfl
  · simp [refused] at accepted

/-- The two encoders and the decoder of a request agree on every input. -/
theorem request_codec :
    (∀ (freq rate bandwidth : UInt64) (mode : UInt8) (buf : List UInt8) (socket : Socket),
      buf.length = reqSize →
      match encodeReq buf (requestOf freq rate bandwidth mode) with
      | none =>
        streamRequest (streamConnect socket) freq rate bandwidth mode =
          (streamConnect socket, false)
      | some bytes =>
        bytes.length = reqSize ∧
        (∃ taken, taken <+: bytes ∧
          (streamRequest (streamConnect socket) freq rate bandwidth mode).1.conn.socket.outgoing =
            socket.outgoing ++ taken ∧
          ((streamRequest (streamConnect socket) freq rate bandwidth mode).2 = true →
            taken = bytes)) ∧
        ((∀ answer ∈ socket.sendAnswers, answer.works = true) →
          (streamRequest (streamConnect socket) freq rate bandwidth mode).2 = true) ∧
        decodeReq bytes = (requestOf freq rate bandwidth mode, true)) ∧
    (∀ buf : List UInt8, buf.length = reqSize →
      ((decodeReq buf).2 = true ↔
        ∃ scratch req, scratch.length = reqSize ∧ encodeReq scratch req = some buf) ∧
      ((decodeReq buf).2 = true → ∀ scratch, scratch.length = reqSize →
        encodeReq scratch (decodeReq buf).1 = some buf)) := by
  -- a 29-byte buffer is filled completely, whatever it held
  have encoded (buf : List UInt8) (req : StreamReq) (sized : buf.length = reqSize) :
      encodeReq buf req = if validReq req then some (reqBytes req) else none := by
    rw [encodeReq_eq buf req (le_of_eq sized.symm), List.drop_of_length_le (le_of_eq sized),
      List.append_nil]
  constructor
  · intro freq rate bandwidth mode buf socket sized
    rw [encoded buf _ sized, streamRequest_fresh]
    by_cases valid : validReq (requestOf freq rate bandwidth mode) = true
    · rw [if_pos valid, if_pos valid]
      obtain ⟨taken, working⟩ := sendLoop_spec socket.sendAnswers socket
        (reqBytes (requestOf freq rate bandwidth mode))
      refine ⟨reqBytes_length _, taken, working, ?_⟩
      rw [decodeReq_reqBytes, valid]
    · rw [if_neg valid, if_neg valid]
  · intro buf sized
    have again (valid : (decodeReq buf).2 = true) (scratch : List UInt8)
        (room : scratch.length = reqSize) : encodeReq scratch (decodeReq buf).1 = some buf := by
      rw [encoded scratch _ room, reqBytes_decodeReq buf sized]
      exact if_pos valid
    refine ⟨⟨fun valid => ⟨buf, _, sized, again valid buf sized⟩, ?_⟩, again⟩
    rintro ⟨scratch, req, room, accepted⟩
    rw [encoded scratch req room] at accepted
    split at accepted
    next valid =>
      obtain rfl := Option.some.inj accepted
      rw [decodeReq_reqBytes]
      exact valid
    next => cases accepted

/-- An I/Q request over a connection that interrupts and then takes the bytes in two parts. -/
theorem request_codec_two_parts :
    let socket : Socket := ⟨[], [], [], [.interrupted, .accepted 5, .accepted 24]⟩
    (streamRequest (streamConnect socket) 100000000 240000 200000 modeIq).2 = true ∧
    (decodeReq (reqBytes (requestOf 100000000 240000 200000 modeIq))).2 = true :=
  ⟨((request_codec.1 100000000 240000 200000 modeIq (List.replicate 29 0)
      ⟨[], [], [], [.interrupted, .accepted 5, .accepted 24]⟩ (by decide)).2.2.1 (by decide)),
    ((request_codec.2 _ (reqBytes_length _)).1).mpr
      ⟨List.replicate 29 0, requestOf 100000000 240000 200000 modeIq, by decide, by decide⟩⟩

end RtlSdr
