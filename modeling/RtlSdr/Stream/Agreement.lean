import RtlSdr.Stream.ClientC
import RtlSdr.Stream.ClientCpp
import RtlSdr.Stream.ClientGo

/-!
# The three clients agree

Each client refines the abstract decoder, so on one stream they consume the same
bytes and classify every call alike, whatever the stream holds and however each
connection fragments it. A C++ read has no capacity; apart from that its result is
the others'.
-/
namespace RtlSdr

/-- The same read made on all three clients, with the arguments each of them takes. -/
inductive JointRead
  | iq (capacity : Nat) (hdr : IqHdr) (array : List UInt8) (slice : List Int16)
      (vector : List UInt8) (room : 2 * capacity ≤ array.length) (sized : slice.length = capacity)
  | fft (maxBins : Nat) (hdr : FftHdr) (array : List UInt8) (slice : List UInt32)
      (vector : List UInt8) (room : 4 * maxBins ≤ array.length) (large : maxFftBins ≤ maxBins)

def JointRead.c : JointRead → StreamRead
  | .iq capacity hdr array _ _ _ _ => .iq hdr array capacity
  | .fft maxBins hdr array _ _ _ _ => .fft hdr array maxBins

def JointRead.call : JointRead → ReadCall
  | .iq capacity _ _ _ _ _ _ => .iq capacity
  | .fft .. => .fft maxFftBins

def cRead (host : Endian) (ctx : StreamCtx) (read : JointRead) : StreamCtx × List Outcome :=
  streamRead host ctx read.c

def goRead (c : GoClient) : JointRead → GoClient × List Outcome
  | .iq _ _ _ slice _ _ _ => ((c.readIQ slice).client, [(c.readIQ slice).outcome])
  | .fft _ _ _ slice _ _ _ => ((c.readFFT slice).client, [(c.readFFT slice).outcome])

def cppRead (host : Endian) (client : StreamClient) : JointRead → StreamClient × List Outcome
  | .iq _ _ _ _ vector _ _ =>
    ((client.readIQ host vector).1,
      [cppIqOutcome host (client.readIQ host vector).2.1 (client.readIQ host vector).2.2])
  | .fft _ _ _ _ vector _ _ =>
    ((client.readFFT host vector).1,
      [cppFftOutcome host (client.readFFT host vector).2.1 (client.readFFT host vector).2.2])

/-- What a caller with room for only `capacity` components would have been told. -/
def Outcome.within (capacity : Nat) : Outcome → Outcome
  | .iq hdr samples => if hdr.nsamples.toNat > capacity then .iqCapacity hdr else .iq hdr samples
  | outcome => outcome

/-- A C++ read reports as if it had room for everything. -/
def JointRead.limit : JointRead → Outcome → Outcome
  | .iq capacity _ _ _ _ _ _, outcome => outcome.within capacity
  | .fft .., outcome => outcome

/-! ### One call -/

theorem readFftSpec_large (capacity : Nat) (feed : Feed) (large : maxFftBins ≤ capacity) :
    readFftSpec capacity feed = readFftSpec maxFftBins feed := by
  unfold readFftSpec
  congr 1
  funext buf bytes
  by_cases invalid : (fftHdrOf buf).bins.toNat < 2 ∨ (fftHdrOf buf).bins.toNat > maxFftBins
  · simp only [if_pos invalid]
  · have fits : ¬(fftHdrOf buf).bins.toNat > maxFftBins := (not_or.mp invalid).2
    have within : ¬(fftHdrOf buf).bins.toNat > capacity :=
      fun exceeds => fits (lt_of_le_of_lt large exceeds)
    simp only [if_neg invalid, if_neg fits, if_neg within]

/-- Less room changes the report of an I/Q read and nothing else. -/
theorem readIqSpec_within (capacity : Nat) (feed : Feed) :
    readIqSpec capacity feed =
      ((readIqSpec maxIqComponents feed).1.within capacity,
        (readIqSpec maxIqComponents feed).2) := by
  unfold readIqSpec readFrameSpec
  rcases readHeaderSpec feed magicIq with ⟨header, feed'⟩
  cases header with
  | event type freq => rfl
  | error => rfl
  | data buf =>
    by_cases invalid : (iqHdrOf buf).nsamples.toNat > maxIqComponents ∨
        (iqHdrOf buf).nsamples &&& 1 ≠ 0
    · simp only [if_pos invalid]
      rfl
    have fits : ¬(iqHdrOf buf).nsamples.toNat > maxIqComponents := (not_or.mp invalid).1
    simp only [if_neg invalid, if_neg fits]
    by_cases enough : (iqHdrOf buf).nsamples.toNat * 2 ≤ feed'.bytes.length
    · rw [Feed.next_enough _ _ _ _ enough, Feed.next_enough _ _ _ _ enough]
      rfl
    · rw [Feed.next_short _ _ _ _ enough, Feed.next_short _ _ _ _ enough]
      rfl

theorem cRead_joint (host : Endian) (ctx : StreamCtx) (read : JointRead) :
    readSpec ctx.conn.feed read.call =
      ((cRead host ctx read).1.conn.feed, (cRead host ctx read).2) := by
  cases read with
  | iq capacity hdr array slice vector room sized =>
    exact streamRead_refines host ctx (.iq hdr array capacity) room
  | fft maxBins hdr array slice vector room large =>
    calc readSpec ctx.conn.feed (.fft maxFftBins)
        = readSpec ctx.conn.feed (.fft maxBins) := by
          simp only [readSpec, Int.toNat_natCast, readFftSpec_large maxBins _ large]
          rfl
      _ = _ := streamRead_refines host ctx (.fft hdr array maxBins) room

theorem goRead_joint (c : GoClient) (read : JointRead) :
    readSpec c.conn.feed read.call = ((goRead c read).1.conn.feed, (goRead c read).2) := by
  cases read with
  | iq capacity hdr array slice vector room sized =>
    have refines := c.readIQ_refines slice
    rw [sized] at refines
    simp only [JointRead.call, readSpec, goRead, Int.toNat_natCast, refines]
    rfl
  | fft maxBins hdr array slice vector room large =>
    have refines := c.readFFT_refines slice
    simp only [JointRead.call, readSpec, goRead, Int.toNat_natCast, refines]
    rfl

/-- A C++ read is the abstract read with all the room the protocol can ask for. -/
def JointRead.cppCall : JointRead → ReadCall
  | .iq .. => .iq maxIqComponents
  | .fft .. => .fft maxFftBins

theorem cppRead_joint (host : Endian) (client : StreamClient) (read : JointRead) :
    readSpec client.conn.feed read.cppCall =
      ((cppRead host client read).1.conn.feed, (cppRead host client read).2) := by
  cases read with
  | iq capacity hdr array slice vector room sized =>
    simp only [JointRead.cppCall, readSpec, cppRead, Int.toNat_natCast,
      client.readIQ_refines host vector]
    rfl
  | fft maxBins hdr array slice vector room large =>
    simp only [JointRead.cppCall, readSpec, cppRead, Int.toNat_natCast,
      client.readFFT_refines host vector]
    rfl

theorem readSpec_limit (feed : Feed) (read : JointRead) :
    readSpec feed read.call =
      ((readSpec feed read.cppCall).1, (readSpec feed read.cppCall).2.map read.limit) := by
  cases read with
  | iq capacity hdr array slice vector room sized =>
    have spec := readIqSpec_within capacity feed
    simp only [JointRead.call, JointRead.cppCall, readSpec, Int.toNat_natCast, spec]
    rfl
  | fft maxBins hdr array slice vector room large => exact (Prod.mk.eta).symm

theorem readSpec_closes (feed : Feed) (read : JointRead) (outcome : Outcome)
    (reported : outcome ∈ (readSpec feed read.call).2) (closes : outcome.closes = true) :
    (readSpec feed read.call).1.live = false := by
  cases read with
  | iq capacity hdr array slice vector room sized =>
    have accepted : ¬((capacity : Int) < 0) := not_lt.mpr (Int.natCast_nonneg _)
    simp only [JointRead.call, readSpec, if_neg accepted, List.mem_singleton] at reported ⊢
    subst reported
    exact readIqSpec_closes _ _ closes
  | fft maxBins hdr array slice vector room large =>
    have accepted : ¬((maxFftBins : Int) < 0) := by decide
    simp only [JointRead.call, readSpec, if_neg accepted, List.mem_singleton] at reported ⊢
    subst reported
    exact readFftSpec_closes _ _ closes

/-! ### Whole sessions -/

/-- The sessions of the C++ client, told apart from the others only by capacity errors. -/
theorem reads_limit (feed : Feed) (reads : List JointRead) :
    Transducer.run readSpec feed (reads.map JointRead.call) =
      ((Transducer.run readSpec feed (reads.map JointRead.cppCall)).1,
        List.zipWith JointRead.limit reads
          (Transducer.run readSpec feed (reads.map JointRead.cppCall)).2) := by
  induction reads generalizing feed with
  | nil => rfl
  | cons read reads ih =>
    -- every call answers with one outcome, so the two lists stay in step
    obtain ⟨outcome, single⟩ : ∃ outcome, (readSpec feed read.cppCall).2 = [outcome] := by
      cases read with
      | iq => exact ⟨_, rfl⟩
      | fft => exact ⟨_, rfl⟩
    simp only [List.map_cons, Transducer.run_cons, readSpec_limit feed read, single, ih]
    rfl

/-- A session in which something closes the connection ends with it closed. -/
theorem reads_close (feed : Feed) (reads : List JointRead) (outcome : Outcome)
    (reported : outcome ∈ (Transducer.run readSpec feed (reads.map JointRead.call)).2)
    (closes : outcome.closes = true) :
    (Transducer.run readSpec feed (reads.map JointRead.call)).1.live = false := by
  induction reads generalizing feed with
  | nil => cases reported
  | cons read reads ih =>
    rw [List.map_cons, Transducer.run_cons] at reported ⊢
    rcases List.mem_append.mp reported with here | later
    · have closed := readSpec_closes feed read outcome here closes
      rcases next : (readSpec feed read.call).1 with ⟨bytes, live⟩
      rw [next] at closed
      subst closed
      rw [reads_closed]
    · exact ih _ later

section Sessions

variable {σ : Type} (step : σ → JointRead → σ × List Outcome) (feedOf : σ → Feed)
  (call : JointRead → ReadCall)
  (refines : ∀ s read, readSpec (feedOf s) (call read) = (feedOf (step s read).1, (step s read).2))

include refines

/-- A client that refines the decoder call by call does so over whole sessions. -/
theorem session_refines (s : σ) (reads : List JointRead) :
    Transducer.run readSpec (feedOf s) (reads.map call) =
      (feedOf (Transducer.run step s reads).1, (Transducer.run step s reads).2) :=
  Transducer.run_map step readSpec feedOf call reads (fun s read _ => refines s read) s

theorem session_closed (s : σ) (reads : List JointRead) (closed : (feedOf s).live = false) :
    (Transducer.run step s reads).2 = List.replicate reads.length .error := by
  have whole := session_refines step feedOf call refines s reads
  rcases now : feedOf s with ⟨bytes, live⟩
  rw [now] at whole closed
  subst closed
  rw [reads_closed, List.length_map] at whole
  exact (congrArg Prod.snd whole).symm

end Sessions

/-- On every stream and for every fragmentation the three clients report the same,
consume the same, and give up together. -/
theorem clients_agree (host : Endian) (stream : List UInt8) (ctx : StreamCtx) (go : GoClient)
    (cpp : StreamClient) (reads : List JointRead) (cStream : ctx.conn.feed = ⟨stream, true⟩)
    (goStream : go.conn.feed = ⟨stream, true⟩) (cppStream : cpp.conn.feed = ⟨stream, true⟩) :
    let c := Transducer.run (cRead host) ctx reads
    let g := Transducer.run goRead go reads
    let p := Transducer.run (cppRead host) cpp reads
    c.2 = g.2 ∧ c.2 = List.zipWith JointRead.limit reads p.2 ∧
      c.1.conn.feed = g.1.conn.feed ∧ c.1.conn.feed = p.1.conn.feed ∧
      ((∃ outcome ∈ c.2, outcome.closes = true) → ∀ later : List JointRead,
        (Transducer.run (cRead host) c.1 later).2 = List.replicate later.length .error ∧
        (Transducer.run goRead g.1 later).2 = List.replicate later.length .error ∧
        (Transducer.run (cppRead host) p.1 later).2 = List.replicate later.length .error) := by
  intro c g p
  have cSession : Transducer.run readSpec ⟨stream, true⟩ (reads.map JointRead.call) =
      (c.1.conn.feed, c.2) := by
    rw [← cStream]
    exact session_refines (cRead host) (·.conn.feed) _ (cRead_joint host) ctx reads
  have goSession : Transducer.run readSpec ⟨stream, true⟩ (reads.map JointRead.call) =
      (g.1.conn.feed, g.2) := by
    rw [← goStream]
    exact session_refines goRead (·.conn.feed) _ goRead_joint go reads
  have cppSession : Transducer.run readSpec ⟨stream, true⟩ (reads.map JointRead.cppCall) =
      (p.1.conn.feed, p.2) := by
    rw [← cppStream]
    exact session_refines (cppRead host) (·.conn.feed) _ (cppRead_joint host) cpp reads
  have limited := reads_limit ⟨stream, true⟩ reads
  rw [cSession, cppSession] at limited
  have same : (c.1.conn.feed, c.2) = (g.1.conn.feed, g.2) := cSession.symm.trans goSession
  obtain ⟨goFeed, goOutcomes⟩ := Prod.mk.inj same
  obtain ⟨cppFeed, cppOutcomes⟩ := Prod.mk.inj limited
  refine ⟨goOutcomes, cppOutcomes, goFeed, cppFeed, ?_⟩
  rintro ⟨outcome, reported, closes⟩ later
  have closed : c.1.conn.feed.live = false := by
    have ended := reads_close ⟨stream, true⟩ reads outcome (by rw [cSession]; exact reported) closes
    rw [cSession] at ended
    exact ended
  refine ⟨?_, ?_, ?_⟩
  · exact session_closed (cRead host) (·.conn.feed) _ (cRead_joint host) c.1 later closed
  · exact session_closed goRead (·.conn.feed) _ goRead_joint g.1 later
      ((congrArg Feed.live goFeed).symm.trans closed)
  · exact session_closed (cppRead host) (·.conn.feed) _ (cppRead_joint host) p.1 later
      ((congrArg Feed.live cppFeed).symm.trans closed)

/-- A frame too large for the caller of the C and Go clients, then a truncated one, over
three different fragmentations. -/
theorem clients_agree_truncated :
    let stream := hdrBytes magicIq 1 2 3 2 ++ [0, 1, 255, 254, 82]
    let reads : List JointRead :=
      [.iq 0 ⟨0, 0, 0, 0, 0⟩ [] [] [] (by decide) rfl, .iq 0 ⟨0, 0, 0, 0, 0⟩ [] [] [] (by decide) rfl]
    (Transducer.run (cRead .little) (streamConnect ⟨stream, [5, 0, 9], [], []⟩) reads).2 =
        (Transducer.run goRead ⟨⟨⟨stream, [1, 1, 1], [], []⟩, true⟩⟩ reads).2 ∧
      (Transducer.run (cRead .little) (streamConnect ⟨stream, [5, 0, 9], [], []⟩) reads).2 =
        List.zipWith JointRead.limit reads
          (Transducer.run (cppRead .little) ⟨⟨⟨stream, [], [], []⟩, true⟩⟩ reads).2 := by
  intro stream reads
  have agree := clients_agree .little stream (streamConnect ⟨stream, [5, 0, 9], [], []⟩)
    ⟨⟨⟨stream, [1, 1, 1], [], []⟩, true⟩⟩ ⟨⟨⟨stream, [], [], []⟩, true⟩⟩ reads rfl rfl rfl
  exact ⟨agree.1, agree.2.1⟩

end RtlSdr
