import Mathlib.Data.List.Basic

/-!
# The frames in a decoded buffer

`messages` of `rtl_adsb.c` gathers the bits that `manchester` left in the buffer. Everything above 1
ends a frame, and the first byte says how long the frame is. The buffer is the list of samples from
`i` on, and the result is the list of the calls of `display`.
-/
namespace RtlSdr.Adsb

def longFrame : Nat := 112
def shortFrame : Nat := 56

/-- A bit of `adsb_frame`, the first one in the highest place. -/
def setBit (frame : List UInt8) (dataI : Nat) : List UInt8 :=
  let index := dataI / 8
  let shift := 7 - dataI % 8
  frame.modify index (· ||| 1 <<< UInt8.ofNat shift)

/-- The variables of `messages` behind its inner loop. -/
structure Scan where
  dataI : Nat
  frameLen : Nat
  frame : List UInt8
  rest : List UInt16

def frameLoop : List UInt16 → Nat → Nat → List UInt8 → Scan
  | [], dataI, frameLen, frame => { dataI, frameLen, frame, rest := [] }
  | sample :: rest, dataI, frameLen, frame =>
    if sample ≤ 1 ∧ dataI < frameLen then
      let frame := if sample ≠ 0 then setBit frame dataI else frame
      if dataI = 7 then
        -- the loop is left before `i` and `data_i` move on
        if frame.headD 0 = 0 then { dataI, frameLen, frame, rest := sample :: rest }
        else if frame.headD 0 &&& 0x80 ≠ 0 then frameLoop rest (dataI + 1) longFrame frame
        else frameLoop rest (dataI + 1) shortFrame frame
      else frameLoop rest (dataI + 1) frameLen frame
    else { dataI, frameLen, frame, rest := sample :: rest }

theorem frameLoop_rest (samples : List UInt16) (dataI frameLen : Nat) (frame : List UInt8) :
    (frameLoop samples dataI frameLen frame).rest <:+ samples := by
  fun_induction frameLoop samples dataI frameLen frame with
  | case1 => exact List.suffix_rfl
  | case2 => exact List.suffix_rfl
  | case3 sample rest _ _ _ _ _ _ ih => exact ih.trans (List.suffix_cons sample rest)
  | case4 sample rest _ _ _ _ _ _ ih => exact ih.trans (List.suffix_cons sample rest)
  | case5 sample rest _ _ _ _ _ _ ih => exact ih.trans (List.suffix_cons sample rest)
  | case6 => exact List.suffix_rfl

def messages : List UInt16 → List (List UInt8 × Nat)
  | [] => []
  | sample :: rest =>
    if sample > 1 then messages rest
    else
      let scan := frameLoop (sample :: rest) 0 longFrame (List.replicate 14 0)
      -- the sample that ended the frame is passed over
      if scan.dataI < scan.frameLen - 1 then messages (scan.rest.drop 1)
      else (scan.frame, scan.frameLen) :: messages (scan.rest.drop 1)
termination_by samples => samples.length
decreasing_by
  · exact Nat.lt_succ_self _
  all_goals
    have shorter := (frameLoop_rest (sample :: rest) 0 longFrame (List.replicate 14 0)).length_le
    rw [List.length_cons] at shorter
    rw [List.length_drop, List.length_cons]
    omega

/-! ### Packing -/

/-- Bits to a number, the most significant one first. -/
def byteOf (bits : List Bool) : UInt8 := bits.foldl (fun byte bit => 2 * byte + bit.toUInt8) 0

/-- The bits of one byte of a frame, 0 where there is none. -/
def bitsAt (bits : List Bool) (index : Nat) : List Bool :=
  (List.range 8).map fun k => bits.getD (8 * index + k) false

/-- Bits to the fourteen bytes of a frame. -/
def pack (bits : List Bool) : List UInt8 :=
  (List.range 14).map fun index => byteOf (bitsAt bits index)

variable {bits read : List Bool} {k frameLen : Nat} {samples : List UInt16} {sample marker : UInt16}

theorem byteOf_set (byte : bits.length = 8) (inside : k < 8) :
    byteOf (bits.set k true) = byteOf bits ||| 1 <<< UInt8.ofNat (7 - k) := by
  have each : ∀ k < 8, ∀ b₀ b₁ b₂ b₃ b₄ b₅ b₆ b₇,
      byteOf ([b₀, b₁, b₂, b₃, b₄, b₅, b₆, b₇].set k true) =
        byteOf [b₀, b₁, b₂, b₃, b₄, b₅, b₆, b₇] ||| 1 <<< UInt8.ofNat (7 - k) := by
    decide +kernel
  match bits, byte with
  | [_, _, _, _, _, _, _, _], _ => exact each k inside _ _ _ _ _ _ _ _

theorem bitsAt_length (bits : List Bool) (index : Nat) : (bitsAt bits index).length = 8 := by
  rw [bitsAt, List.length_map, List.length_range]

theorem bitsAt_getElem (bits : List Bool) (index : Nat) (inside : k < 8) :
    (bitsAt bits index)[k]? = some (bits.getD (8 * index + k) false) := by
  rw [bitsAt, List.getElem?_map, List.getElem?_range inside, Option.map_some]

theorem getD_snoc (bits : List Bool) (bit : Bool) (i : Nat) :
    (bits ++ [bit]).getD i false = if i = bits.length then bit else bits.getD i false := by
  rw [List.getD_eq_getElem?_getD, List.getD_eq_getElem?_getD]
  split
  next last => rw [last, List.getElem?_concat_length, Option.getD_some]
  next other =>
    rcases Nat.lt_or_gt_of_ne other with before | behind
    · rw [List.getElem?_append_left before]
    · rw [List.getElem?_eq_none (by rw [List.length_append, List.length_singleton]; omega),
        List.getElem?_eq_none (by omega)]

theorem bitsAt_false (bits : List Bool) (index : Nat) :
    bitsAt (bits ++ [false]) index = bitsAt bits index := by
  refine List.map_congr_left fun k _ => ?_
  rw [getD_snoc]
  split
  next last => rw [last, List.getD_eq_getElem?_getD, List.getElem?_eq_none (Nat.le_refl _),
    Option.getD_none]
  next => rfl

theorem bitsAt_true (bits : List Bool) (index : Nat) :
    bitsAt (bits ++ [true]) index =
      if bits.length / 8 = index then (bitsAt bits index).set (bits.length % 8) true
      else bitsAt bits index := by
  split
  next here =>
    refine List.ext_getElem? fun k => ?_
    by_cases inside : k < 8
    · rw [bitsAt_getElem _ _ inside, List.getElem?_set, bitsAt_getElem _ _ inside, bitsAt_length,
        getD_snoc]
      by_cases same : bits.length % 8 = k
      · rw [if_pos same, if_pos (by omega), if_pos (by omega)]
      · rw [if_neg same, if_neg (by omega)]
    · rw [List.getElem?_eq_none (by rw [bitsAt_length]; omega),
        List.getElem?_eq_none (by rw [List.length_set, bitsAt_length]; omega)]
  next other =>
    refine List.map_congr_left fun k inside => ?_
    rw [List.mem_range] at inside
    rw [getD_snoc, if_neg (by omega)]

theorem pack_false (bits : List Bool) : pack (bits ++ [false]) = pack bits := by
  refine List.map_congr_left fun index _ => ?_
  rw [bitsAt_false]

theorem pack_true (bits : List Bool) : pack (bits ++ [true]) = setBit (pack bits) bits.length := by
  refine List.ext_getElem? fun index => ?_
  dsimp only [setBit]
  rw [List.getElem?_modify, pack, pack, List.getElem?_map, List.getElem?_map]
  by_cases inside : index < 14
  · rw [List.getElem?_range inside, Option.map_some, Option.map_some, bitsAt_true]
    split
    next =>
      rw [byteOf_set (bitsAt_length bits index) (Nat.mod_lt _ (by decide))]
      rfl
    next => rfl
  · rw [List.getElem?_eq_none (by rw [List.length_range]; omega)]
    rfl

theorem pack_head (byte : bits.length = 8) : (pack bits).headD 0 = byteOf bits := by
  have whole : bitsAt bits 0 = bits := by
    refine List.ext_getElem (by rw [bitsAt_length, byte]) fun k inside inside' => ?_
    rw [bitsAt_length] at inside
    refine Option.some.inj ?_
    rw [← List.getElem?_eq_getElem, ← List.getElem?_eq_getElem, bitsAt_getElem bits 0 inside,
      List.getD_eq_getElem?_getD, Nat.mul_zero, Nat.zero_add, List.getElem?_eq_getElem inside',
      Option.getD_some]
  rw [pack, List.range_succ_eq_map, List.map_cons, List.headD_cons, whole]

theorem byteOf_eq_zero (byte : bits.length = 8) : byteOf bits = 0 ↔ true ∉ bits := by
  have each : ∀ b₀ b₁ b₂ b₃ b₄ b₅ b₆ b₇, byteOf [b₀, b₁, b₂, b₃, b₄, b₅, b₆, b₇] = 0 ↔
      true ∉ [b₀, b₁, b₂, b₃, b₄, b₅, b₆, b₇] := by
    decide +kernel
  match bits, byte with
  | [_, _, _, _, _, _, _, _], _ => exact each _ _ _ _ _ _ _ _

theorem byteOf_top (byte : bits.length = 8) :
    byteOf bits &&& 0x80 ≠ 0 ↔ bits.head? = some true := by
  have each : ∀ b₀ b₁ b₂ b₃ b₄ b₅ b₆ b₇, byteOf [b₀, b₁, b₂, b₃, b₄, b₅, b₆, b₇] &&& 0x80 ≠ 0 ↔
      some b₀ = some true := by
    decide +kernel
  match bits, byte with
  | [_, _, _, _, _, _, _, _], _ => exact each _ _ _ _ _ _ _ _

/-! ### Frames -/

/-- A sample that `manchester` leaves for a bit. -/
def sampleOf (bit : Bool) : UInt16 := if bit then 1 else 0

theorem sampleOf_le (bit : Bool) : sampleOf bit ≤ 1 := by
  cases bit <;> decide

theorem pack_sample (read : List Bool) (bit : Bool) :
    (if sampleOf bit ≠ 0 then setBit (pack read) read.length else pack read) =
      pack (read ++ [bit]) := by
  cases bit with
  | false => exact (pack_false read).symm
  | true => exact (pack_true read).symm

theorem frameLoop_bit (bit : Bool) (rest : List UInt16) (clear : read.length ≠ 7)
    (fits : read.length < frameLen) :
    frameLoop (sampleOf bit :: rest) read.length frameLen (pack read) =
      frameLoop rest (read ++ [bit]).length frameLen (pack (read ++ [bit])) := by
  rw [frameLoop, if_pos ⟨sampleOf_le bit, fits⟩]
  dsimp only
  rw [if_neg clear, pack_sample, List.length_append, List.length_singleton]

theorem frameLoop_bits (read bits : List Bool) (frameLen : Nat) (rest : List UInt16)
    (clear : ∀ k < bits.length, read.length + k ≠ 7)
    (fits : read.length + bits.length ≤ frameLen) :
    frameLoop (bits.map sampleOf ++ rest) read.length frameLen (pack read) =
      frameLoop rest (read ++ bits).length frameLen (pack (read ++ bits)) := by
  induction bits generalizing read with
  | nil => rw [List.append_nil, List.map_nil, List.nil_append]
  | cons bit bits ih =>
    have length : (read ++ [bit]).length = read.length + 1 := by
      rw [List.length_append, List.length_singleton]
    rw [List.length_cons] at clear fits
    rw [List.map_cons, List.cons_append,
      frameLoop_bit bit _ (clear 0 (Nat.succ_pos _)) (by omega), ih (read ++ [bit]) ?_ (by omega),
      List.append_assoc, List.singleton_append]
    intro k inside
    have other := clear (k + 1) (by omega)
    omega

theorem frameLoop_byte (bit : Bool) (rest : List UInt16) (seven : read.length = 7)
    (fits : 7 < frameLen) :
    frameLoop (sampleOf bit :: rest) 7 frameLen (pack read) =
      if byteOf (read ++ [bit]) = 0 then
        { dataI := 7, frameLen, frame := pack (read ++ [bit]), rest := sampleOf bit :: rest }
      else if byteOf (read ++ [bit]) &&& 0x80 ≠ 0 then
        frameLoop rest 8 longFrame (pack (read ++ [bit]))
      else frameLoop rest 8 shortFrame (pack (read ++ [bit])) := by
  have byte : (read ++ [bit]).length = 8 := by
    rw [List.length_append, List.length_singleton, seven]
  have gathered := pack_sample read bit
  rw [seven] at gathered
  rw [frameLoop, if_pos ⟨sampleOf_le bit, fits⟩]
  dsimp only
  rw [if_pos rfl, gathered, pack_head byte]

theorem frameLoop_full (rest : List UInt16) (frameLen : Nat) (frame : List UInt8) :
    frameLoop rest frameLen frameLen frame = { dataI := frameLen, frameLen, frame, rest } := by
  cases rest with
  | nil => rfl
  | cons sample rest => exact if_neg fun goes => Nat.lt_irrefl _ goes.2

/-- The messages that are sent: 112 bits when the first one is set, and otherwise 56, with a
first byte other than 0. -/
def IsMessage (bits : List Bool) : Prop :=
  bits.length = longFrame ∧ bits.head? = some true ∨
    bits.length = shortFrame ∧ bits.head? = some false ∧ true ∈ bits.take 8

instance (bits : List Bool) : Decidable (IsMessage bits) :=
  inferInstanceAs (Decidable (_ ∨ _))

/-- The first byte of a message says how long it is. -/
theorem IsMessage.split (message : IsMessage bits) :
    ∃ first others, bits = first ++ others ∧ first.length = 8 ∧ byteOf first ≠ 0 ∧
      bits.length = if byteOf first &&& 0x80 ≠ 0 then longFrame else shortFrame := by
  have long : 8 ≤ bits.length := by
    rcases message with ⟨length, _⟩ | ⟨length, _⟩ <;> rw [length] <;> decide
  have byte : (bits.take 8).length = 8 := by
    rw [List.length_take, Nat.min_eq_left long]
  have head : (bits.take 8).head? = bits.head? := by
    rw [List.head?_take, if_neg (by decide)]
  refine ⟨bits.take 8, bits.drop 8, (List.take_append_drop 8 bits).symm, byte, ?_, ?_⟩
  · intro zero
    rw [byteOf_eq_zero byte] at zero
    rcases message with ⟨_, first⟩ | ⟨_, _, some⟩
    · exact zero (List.mem_of_head? (head.trans first))
    · exact zero some
  · rcases message with ⟨length, first⟩ | ⟨length, first, _⟩
    · rw [if_pos ((byteOf_top byte).mpr (head.trans first)), length]
    · have low : ¬ byteOf (bits.take 8) &&& 0x80 ≠ 0 := by
        rw [byteOf_top byte, head, first]
        decide
      rw [if_neg low, length]

theorem frameLoop_others {first : List Bool} (byte : first.length = 8) (others : List Bool)
    (rest : List UInt16) :
    frameLoop (others.map sampleOf ++ rest) 8 (first ++ others).length (pack first) =
      { dataI := (first ++ others).length, frameLen := (first ++ others).length,
        frame := pack (first ++ others), rest } := by
  have reads := frameLoop_bits first others (first ++ others).length rest (by omega)
    (Nat.le_of_eq List.length_append.symm)
  rw [byte, frameLoop_full] at reads
  exact reads

theorem frameLoop_message (message : IsMessage bits) (rest : List UInt16) :
    frameLoop (bits.map sampleOf ++ rest) 0 longFrame (pack []) =
      { dataI := bits.length, frameLen := bits.length, frame := pack bits, rest } := by
  obtain ⟨first, others, rfl, byte, nonzero, length⟩ := message.split
  have ends := frameLoop_others byte others rest
  obtain ⟨read, bit, rfl, seven⟩ : ∃ read bit, first = read ++ [bit] ∧ read.length = 7 := by
    have some : first ≠ [] := List.ne_nil_of_length_pos (by omega)
    refine ⟨first.dropLast, first.getLast some, (List.dropLast_append_getLast some).symm, ?_⟩
    rw [List.length_dropLast, byte]
  -- seven bits, then the one that decides, then as many as it says
  have begins := frameLoop_bits [] read longFrame (sampleOf bit :: (others.map sampleOf ++ rest))
    (by rw [seven, List.length_nil]; omega) (by rw [seven]; decide)
  rw [List.length_nil, List.nil_append, seven, frameLoop_byte bit _ seven (by decide),
    if_neg nonzero] at begins
  rw [List.map_append, List.map_append, List.map_singleton, List.append_assoc, List.append_assoc,
    List.singleton_append, begins]
  split at length
  next top => rw [if_pos top, ← length, ends]
  next low => rw [if_neg low, ← length, ends]

theorem pack_nil : pack [] = List.replicate 14 0 := by decide

theorem messages_scan (first : samples.head? = some sample) (low : sample ≤ 1) {scan : Scan}
    (scanned : frameLoop samples 0 longFrame (pack []) = scan) :
    messages samples =
      if scan.dataI < scan.frameLen - 1 then messages (scan.rest.drop 1)
      else (scan.frame, scan.frameLen) :: messages (scan.rest.drop 1) := by
  obtain ⟨rest, rfl⟩ := List.head?_eq_some_iff.mp first
  rw [messages, if_neg (UInt16.not_lt.mpr low), ← pack_nil]
  dsimp only
  rw [scanned]

theorem messages_message (message : IsMessage bits) (rest : List UInt16) :
    messages (bits.map sampleOf ++ rest) = (pack bits, bits.length) :: messages (rest.drop 1) := by
  have scanned := frameLoop_message message rest
  cases bits with
  | nil => exact absurd message (by decide)
  | cons bit bits =>
    rw [messages_scan rfl (sampleOf_le bit) scanned]
    exact if_neg (Nat.not_lt.mpr (Nat.sub_le _ _))

/-! ### Nothing -/

theorem messages_marker (marker : sample > 1) (rest : List UInt16) :
    messages (sample :: rest) = messages rest := by
  rw [messages, if_pos marker]

theorem messages_markers (above : marker > 1) (n : Nat) (rest : List UInt16) :
    messages (List.replicate n marker ++ rest) = messages rest := by
  induction n with
  | zero => rfl
  | succ n ih => rw [List.replicate_succ, List.cons_append, messages_marker above, ih]

theorem frameLoop_zeros {n : Nat} (few : n ≤ 7) (rest : List UInt16) :
    frameLoop (List.replicate n 0 ++ rest) 0 longFrame (pack []) =
      frameLoop rest n longFrame (pack (List.replicate n false)) := by
  have reads := frameLoop_bits [] (List.replicate n false) longFrame rest
    (by rw [List.length_replicate, List.length_nil]; omega)
    (by rw [List.length_replicate, List.length_nil, longFrame]; omega)
  rw [List.map_replicate, List.length_nil, List.nil_append, List.length_replicate] at reads
  exact reads

theorem frameLoop_eight (rest : List UInt16) :
    frameLoop (List.replicate 8 0 ++ rest) 0 longFrame (pack []) =
      { dataI := 7, frameLen := longFrame, frame := pack (List.replicate 8 false),
        rest := 0 :: rest } := by
  have byte := frameLoop_byte false rest (List.length_replicate (a := false) (n := 7))
    (show 7 < longFrame by decide)
  rw [if_pos (by decide)] at byte
  rw [List.replicate_succ', List.append_assoc, frameLoop_zeros (Nat.le_refl 7),
    List.replicate_succ']
  exact byte

theorem messages_zeros (n : Nat) {m : Nat} (marked : 0 < m) (above : marker > 1)
    (rest : List UInt16) :
    messages (List.replicate n 0 ++ (List.replicate m marker ++ rest)) = messages rest := by
  obtain ⟨m, rfl⟩ := Nat.exists_eq_add_one.mpr marked
  induction n using Nat.strongRecOn with
  | ind n ih =>
    rcases Nat.eq_zero_or_pos n with rfl | positive
    · exact messages_markers above (m + 1) rest
    have first : (List.replicate n 0 ++ (List.replicate (m + 1) marker ++ rest)).head? =
        some (0 : UInt16) := by
      rw [List.head?_append, List.head?_replicate, if_neg (by omega)]
      rfl
    -- eight zeros are one frame; fewer of them end at the first marker
    rcases Nat.lt_or_ge n 8 with few | many
    · have stops : frameLoop (List.replicate (m + 1) marker ++ rest) n longFrame
            (pack (List.replicate n false)) =
          { dataI := n, frameLen := longFrame, frame := pack (List.replicate n false),
            rest := List.replicate (m + 1) marker ++ rest } :=
        if_neg fun goes => UInt16.not_lt.mpr goes.1 above
      have scanned := (frameLoop_zeros (Nat.le_of_lt_succ few) _).trans stops
      rw [messages_scan first (by decide) scanned, if_pos (by dsimp only [longFrame]; omega)]
      exact messages_markers above m rest
    · obtain ⟨k, rfl⟩ := Nat.exists_eq_add_of_le many
      rw [← List.replicate_append_replicate, List.append_assoc] at first ⊢
      rw [messages_scan first (by decide) (frameLoop_eight _)]
      have given : 7 < longFrame - 1 := by decide
      rw [if_pos given]
      exact ih k (by omega)

/-- All bits that are set lie among the last 16 samples. -/
def Silent (samples : List UInt16) : Prop := ∀ j, samples[j]? = some 1 → samples.length ≤ j + 16

theorem Silent.drop (silent : Silent samples) (n : Nat) : Silent (samples.drop n) := by
  intro j set
  rw [List.getElem?_drop] at set
  have late := silent (n + j) set
  rw [List.length_drop]
  omega

theorem Silent.suffix {rest : List UInt16} (silent : Silent samples) (suffix : rest <:+ samples) :
    Silent rest := by
  rw [List.suffix_iff_eq_drop.mp suffix]
  exact silent.drop _

theorem frameLoop_bound (samples : List UInt16) (dataI frameLen : Nat) (frame : List UInt8)
    (short : shortFrame ≤ frameLen) :
    (frameLoop samples dataI frameLen frame).dataI ≤ dataI + samples.length ∧
      shortFrame ≤ (frameLoop samples dataI frameLen frame).frameLen := by
  fun_induction frameLoop samples dataI frameLen frame with
  | case1 | case2 => exact ⟨Nat.le_add_right _ _, short⟩
  | case3 sample rest _ _ _ _ _ _ ih | case4 sample rest _ _ _ _ _ _ ih =>
    obtain ⟨bound, short'⟩ := ih (by decide)
    rw [List.length_cons]
    exact ⟨by omega, short'⟩
  | case5 sample rest _ _ _ _ _ _ ih =>
    obtain ⟨bound, short'⟩ := ih short
    rw [List.length_cons]
    exact ⟨by omega, short'⟩
  | case6 => exact ⟨Nat.le_add_right _ _, short⟩

/-- Without a set bit in the first byte the frame is given up there, if it gets that far. -/
theorem frameLoop_empty {dataI : Nat} (frameLen : Nat) {frame : List UInt8} (early : dataI ≤ 7)
    (zero : frame.headD 0 = 0) (none : ∀ j, dataI + j < 8 → samples[j]? ≠ some 1) :
    (frameLoop samples dataI frameLen frame).dataI ≤ 7 ∧
      (frameLoop samples dataI frameLen frame).frameLen = frameLen := by
  induction samples generalizing dataI with
  | nil => exact ⟨early, rfl⟩
  | cons sample rest ih =>
    rw [frameLoop]
    by_cases goes : sample ≤ 1 ∧ dataI < frameLen
    · have zeroSample : sample = 0 := by
        have notOne : sample ≠ 1 := fun one => none 0 (by omega) (congrArg some one)
        have small : sample.toNat ≤ 1 := UInt16.le_iff_toNat_le.mp goes.1
        have notOne' : sample.toNat ≠ 1 := fun one => notOne (UInt16.toNat_inj.mp one)
        have zero' : sample.toNat = (0 : UInt16).toNat := by
          rw [UInt16.toNat_zero]
          omega
        exact UInt16.toNat_inj.mp zero'
      rw [if_pos goes, zeroSample]
      dsimp only
      rw [ite_not, if_pos rfl]
      by_cases seven : dataI = 7
      · rw [if_pos seven, if_pos zero]
        exact ⟨early, rfl⟩
      · rw [if_neg seven]
        refine ih (by omega) fun j inside => ?_
        exact none (j + 1) (by omega)
    · rw [if_neg goes]
      exact ⟨early, rfl⟩

/-- A frame needs a set bit in its first byte and 47 samples behind it. -/
theorem Silent.scan (silent : Silent samples) :
    (frameLoop samples 0 longFrame (pack [])).dataI <
      (frameLoop samples 0 longFrame (pack [])).frameLen - 1 := by
  obtain ⟨bound, short⟩ := frameLoop_bound samples 0 longFrame (pack []) (by decide)
  by_cases set : ∃ j < 8, samples[j]? = some 1
  · obtain ⟨j, first, one⟩ := set
    have late := silent j one
    rw [shortFrame] at short
    omega
  · have none : ∀ j, 0 + j < 8 → samples[j]? ≠ some 1 :=
      fun j inside one => set ⟨j, by omega, one⟩
    have zero : (pack []).headD 0 = 0 := by decide
    obtain ⟨few, long⟩ := frameLoop_empty longFrame (Nat.zero_le 7) zero none
    rw [long]
    exact Nat.lt_of_le_of_lt few (by decide)

theorem messages_silent (silent : Silent samples) : messages samples = [] := by
  fun_induction messages samples with
  | case1 => rfl
  | case2 sample rest marker ih => exact ih (silent.drop 1)
  | case3 sample rest low scan empty ih =>
    exact ih ((silent.suffix (frameLoop_rest _ _ _ _)).drop 1)
  | case4 sample rest low scan full ih =>
    have empty := silent.scan
    rw [pack_nil] at empty
    exact absurd empty full

end RtlSdr.Adsb
