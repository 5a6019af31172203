import RtlSdr.Fm.Demod

/-!
# The range of the decimated samples

Both decimators of rtl_fm have a gain: a boxcar of `n` samples gives up to `128 * n`, and every
pass of `fifth_order` doubles. What is stored is 16 bits wide, so that the machine and the
unbounded integers agree exactly as long as the gain is small.
-/
namespace RtlSdr.Fm

open Checked CArray Transducer

/-- Buffers as `rtlsdr_callback` can be called with. -/
def Buffers (bufs : List (List UInt8)) : Prop :=
  ∀ buf ∈ bufs, buf ≠ [] ∧ buf.length % 8 = 0 ∧ (buf.length : Int) ≤ maximumBufLength

/-! ### The loudest input -/

theorem pairs_replicate (x : Int) (n : Nat) :
    pairs (List.replicate (2 * n) x) = List.replicate n (x, x) := by
  induction n with
  | zero => rfl
  | succ n ih => rw [Nat.mul_succ, List.replicate_succ, List.replicate_succ, pairs, ih,
      List.replicate_succ]

theorem pairs_replicate_odd (x : Int) (n : Nat) :
    pairs (List.replicate (2 * n + 1) x) = List.replicate n (x, x) := by
  induction n with
  | zero => rfl
  | succ n ih =>
    have more : 2 * (n + 1) + 1 = 2 * n + 1 + 1 + 1 := by omega
    rw [more, List.replicate_succ, List.replicate_succ, pairs, ih, List.replicate_succ]

/-- Eight bytes that `rtlsdr_callback` turns into the largest sample, `128 + 128j`. -/
def loudest (offsetTuning : Bool) : List UInt8 :=
  if offsetTuning then List.replicate 8 255 else [255, 255, 255, 0, 0, 0, 0, 255]

theorem buf16_loudest (offsetTuning : Bool) (n : Nat) :
    buf16 offsetTuning (List.replicate n (loudest offsetTuning)).flatten =
      List.replicate (n * 8) 128 := by
  cases offsetTuning with
  | true =>
    change ((List.replicate n (List.replicate 8 (255 : UInt8))).flatten).map byteSample = _
    rw [List.flatten_replicate_replicate, List.map_replicate]
    rfl
  | false =>
    change (rotate90 (List.replicate n (loudest false)).flatten).map byteSample = _
    induction n with
    | zero => rfl
    | succ n ih =>
      have group (rest : List UInt8) :
          rotate90 (loudest false ++ rest) = List.replicate 8 255 ++ rotate90 rest := rfl
      rw [List.replicate_succ, List.flatten_cons, group, List.map_append, ih, List.map_replicate,
        Nat.succ_mul, Nat.add_comm, List.replicate_add]
      rfl

theorem loudest_length (offsetTuning : Bool) (n : Nat) :
    (List.replicate n (loudest offsetTuning)).flatten.length = n * 8 := by
  rw [← buf16_length offsetTuning, buf16_loudest, List.length_replicate]

theorem loudest_buffer (offsetTuning : Bool) {n : Nat} (some : 0 < n) (fits : n ≤ 32768) :
    (List.replicate n (loudest offsetTuning)).flatten ≠ [] ∧
      (List.replicate n (loudest offsetTuning)).flatten.length % 8 = 0 ∧
      ((List.replicate n (loudest offsetTuning)).flatten.length : Int) ≤ maximumBufLength := by
  have size := maximumBufLength_eq
  refine ⟨fun none => ?_, ?_, ?_⟩
  · have length := loudest_length offsetTuning n
    rw [none, List.length_nil] at length
    omega
  · rw [loudest_length, Nat.mul_mod_left]
  · rw [loudest_length]
    omega

/-! ### `low_pass` -/

/-- Everything that `low_pass` stores for a sequence of buffers. -/
def boxcarStored (w : Words) (downsample : Int) (offsetTuning : Bool) (bufs : List (List UInt8)) :
    List (Int × Int) :=
  (run (lowPassBlock w downsample) .empty (bufs.map fun buf => pairs (buf16 offsetTuning buf))).2

theorem boxcarStored_eq {w : Words} (lawful : w.Lawful) {downsample : Nat}
    (positive : 0 < downsample) (offsetTuning : Bool) (bufs : List (List UInt8)) :
    boxcarStored w downsample offsetTuning bufs =
      (List.range ((bufs.map fun buf => pairs (buf16 offsetTuning buf)).flatten.length /
          downsample)).map fun k =>
        windowSum w (((bufs.map fun buf => pairs (buf16 offsetTuning buf)).flatten.drop
          (downsample * k)).take downsample) := by
  rw [boxcarStored, run_flatten (lowPassStep w downsample) _ _
    (fun acc block _ => lowPassBlock_eq w downsample acc block),
    boxcar_stream lawful downsample positive]

theorem mem_pairs {xs : List Int} {p : Int × Int} (member : p ∈ pairs xs) :
    p.1 ∈ xs ∧ p.2 ∈ xs := by
  induction xs using pairs.induct with
  | case1 x y rest ih =>
    rw [pairs, List.mem_cons] at member
    rcases member with rfl | later
    · exact ⟨List.mem_cons_self, List.mem_cons_of_mem _ List.mem_cons_self⟩
    · obtain ⟨first, second⟩ := ih later
      exact ⟨List.mem_cons_of_mem _ (List.mem_cons_of_mem _ first),
        List.mem_cons_of_mem _ (List.mem_cons_of_mem _ second)⟩
  | case2 xs short =>
    rw [pairs.eq_2 xs short] at member
    cases member

/-- A sum of 255 bytes fits, and one of 256 does not. -/
theorem boxcarStored_iff (downsample : Nat) (positive : 0 < downsample) (offsetTuning : Bool) :
    (∀ bufs, Buffers bufs → boxcarStored machine downsample offsetTuning bufs =
      boxcarStored unbounded downsample offsetTuning bufs) ↔ downsample ≤ 255 := by
  constructor
  · intro same
    have shape : Buffers
        (List.replicate downsample (List.replicate 1 (loudest offsetTuning)).flatten) := by
      intro buf member
      rw [List.eq_of_mem_replicate member]
      exact loudest_buffer offsetTuning Nat.one_pos (by decide)
    have equal := same _ shape
    have stream : ((List.replicate downsample
        (List.replicate 1 (loudest offsetTuning)).flatten).map fun buf =>
          pairs (buf16 offsetTuning buf)).flatten = List.replicate (downsample * 4) (128, 128) := by
      rw [List.map_replicate, buf16_loudest, pairs_replicate 128 4,
        List.flatten_replicate_replicate]
    rw [boxcarStored_eq machine_lawful positive, boxcarStored_eq unbounded_lawful positive, stream,
      List.map_inj_left] at equal
    have count : (List.replicate (downsample * 4) ((128 : Int), (128 : Int))).length / downsample =
        4 := by
      rw [List.length_replicate, Nat.mul_div_cancel_left 4 positive]
    -- the first window has the loudest samples only, and is kept if their sum fits
    have first := equal 0 (by rw [count]; decide)
    rw [Nat.mul_zero, List.drop_zero, List.take_replicate, Nat.min_eq_left (by omega)] at first
    have loud : machine.int16 (downsample * 128) = downsample * 128 := by
      have real := congrArg Prod.fst first
      simpa [windowSum, List.map_replicate, List.sum_replicate, unbounded] using real
    have fits := isInt16_int16 (downsample * 128)
    rw [loud] at fits
    have high := fits.2
    omega
  · intro few bufs _
    rw [boxcarStored_eq machine_lawful positive, boxcarStored_eq unbounded_lawful positive,
      List.map_inj_left]
    intro k _
    have short := List.length_take_le downsample
      ((bufs.map fun buf => pairs (buf16 offsetTuning buf)).flatten.drop (downsample * k))
    refine (windowSum_small _ (by omega) ?_).1
    intro x member
    have inside := List.mem_of_mem_drop (List.mem_of_mem_take member)
    rw [List.mem_flatten] at inside
    obtain ⟨block, listed, inside⟩ := inside
    obtain ⟨buf, _, rfl⟩ := List.mem_map.mp listed
    obtain ⟨first, second⟩ := mem_pairs inside
    exact ⟨mem_buf16 first, mem_buf16 second⟩

/-! ### `fifth_order` -/

/-- In the range of the bytes, times `gain`. -/
def Within (gain x : Int) : Prop := -127 * gain ≤ x ∧ x ≤ 128 * gain

structure Taps.Within (gain : Int) (t : Taps) : Prop where
  a : Fm.Within gain t.a
  b : Fm.Within gain t.b
  c : Fm.Within gain t.c
  d : Fm.Within gain t.d
  e : Fm.Within gain t.e
  f : Fm.Within gain t.f

variable {gain base lpLen : Int} {passes r : Nat} {s : Passes} {buf : List UInt8}

/-- The filter has a gain of two, and is computed as in unbounded integers while that fits. -/
theorem Taps.Within.sum {t : Taps} (within : t.Within gain) (small : gain ≤ 64) :
    t.sum machine = t.sum unbounded ∧ Fm.Within (2 * gain) (t.sum unbounded) := by
  obtain ⟨⟨_, _⟩, ⟨_, _⟩, ⟨_, _⟩, ⟨_, _⟩, ⟨_, _⟩, ⟨_, _⟩⟩ := within
  have range : Fm.Within (2 * gain) (t.sum unbounded) := by
    change -127 * (2 * gain) ≤ (t.a + (t.b + t.e) * 5 + (t.c + t.d) * 10 + t.f) >>> (4 : Nat) ∧
      (t.a + (t.b + t.e) * 5 + (t.c + t.d) * 10 + t.f) >>> (4 : Nat) ≤ 128 * (2 * gain)
    rw [Int.shiftRight_eq_div_pow]
    omega
  refine ⟨int16_eq ⟨?_, ?_⟩, range⟩
  · exact Int.le_trans (by omega) range.1
  · exact Int.lt_of_le_of_lt range.2 (by omega)

/-- The values that a call on one component reads. -/
def Reads (gain : Int) (data : Buf) (base length : Int) : Prop :=
  ∀ j, 0 ≤ j → j % 2 = 0 → j = 0 ∨ j < length → Within gain (data (base + j))

/-- The loop of `fifth_order`, with its outputs behind it and its inputs before it. -/
structure FifthOrder.Ranged (gain : Int) (before : Buf) (base length : Int) (s : FifthOrder) :
    Prop where
  aligned : 4 ≤ s.i ∧ s.i % 4 = 0
  taps : s.taps.Within gain
  outputs : ∀ j, 0 ≤ j → j % 2 = 0 → 2 * j < s.i → Within (2 * gain) (s.data (base + j))
  inputs : ∀ j, j % 2 = 0 → s.i - 2 ≤ j → j < length → Within gain (s.data (base + j))
  other : ∀ j, (j - base) % 2 = 1 → s.data j = before j

theorem fifthOrderRound_ranged (small : gain ≤ 64) {before : Buf} {length : Int} {s : FifthOrder}
    (now : s.Ranged gain before base length) (going : s.i < length) :
    fifthOrderRound machine base s = fifthOrderRound unbounded base s ∧
      (fifthOrderRound machine base s).value.Ranged gain before base length := by
  obtain ⟨⟨start, aligned⟩, taps, outputs, inputs, other⟩ := now
  have next : (s.taps.next (s.data (base + (s.i - 2))) (s.data (base + s.i))).Within gain :=
    ⟨taps.c, taps.d, taps.e, taps.f, inputs _ (by omega) (by omega) (by omega),
      inputs _ (by omega) (by omega) going⟩
  obtain ⟨same, range⟩ := next.sum small
  have value (w : Words) : (fifthOrderRound w base s).value =
      ⟨s.i + 4, s.taps.next (s.data (base + (s.i - 2))) (s.data (base + s.i)),
        Function.update s.data (base + s.i / 2)
          ((s.taps.next (s.data (base + (s.i - 2))) (s.data (base + s.i))).sum w)⟩ := rfl
  refine ⟨Checked.ext ?_ rfl, ?_⟩
  · rw [value, value, same]
  · rw [value, same]
    refine ⟨⟨by dsimp only; omega, by dsimp only; omega⟩, next, ?_, ?_, ?_⟩
    · intro j nonneg even behind
      dsimp only at behind ⊢
      by_cases here : j = s.i / 2
      · rw [here, Function.update_self]
        exact range
      · rw [Function.update_of_ne (by omega)]
        exact outputs j nonneg even (by omega)
    · intro j even ahead inside
      dsimp only at ahead ⊢
      rw [Function.update_of_ne (by omega)]
      exact inputs j even (by omega) inside
    · intro j odd
      dsimp only
      rw [Function.update_of_ne (by omega)]
      exact other j odd

theorem fifthOrder_loop (w : Words) (data : Buf) (length : Int) (hist : Taps) (low : 0 ≤ base)
    (first : base < maximumBufLength) :
    fifthOrder w data base length hist =
      (whileLoop (fun s => s.i < length) (fifthOrderRound w base) length.toNat
        ⟨4, hist.first (data base), Function.update data base ((hist.first (data base)).sum w)⟩ >>=
        fun s => pure (s.data, s.taps)) := by
  rw [fifthOrder, load_eq low first, pure_bind]
  dsimp only
  rw [save_eq low first, pure_bind]

theorem fifthOrder_ranged (small : gain ≤ 64) {data : Buf} {length : Int} {hist : Taps}
    (low : 0 ≤ base) (first : base < maximumBufLength) (fits : base + length ≤ maximumBufLength)
    (reads : Reads gain data base length) (within : hist.Within gain) :
    fifthOrder machine data base length hist = fifthOrder unbounded data base length hist ∧
      (fifthOrder machine data base length hist).value.2.Within gain ∧
      (∀ j, 0 ≤ j → j % 2 = 0 → j = 0 ∨ 2 * j < length →
        Within (2 * gain) ((fifthOrder machine data base length hist).value.1 (base + j))) ∧
      ∀ j, (j - base) % 2 = 1 →
        (fifthOrder machine data base length hist).value.1 j = data j := by
  have sample : Within gain (data base) := by
    have zero := reads 0 (Int.le_refl 0) rfl (.inl rfl)
    rwa [Int.add_zero] at zero
  have taps : (hist.first (data base)).Within gain :=
    ⟨within.b, within.c, within.d, within.e, within.f, sample⟩
  obtain ⟨same, range⟩ := taps.sum small
  -- the first output replaces the first sample, before the loop
  have start : FifthOrder.Ranged gain data base length
      ⟨4, hist.first (data base),
        Function.update data base ((hist.first (data base)).sum machine)⟩ := by
    rw [same]
    refine ⟨⟨Int.le_refl 4, rfl⟩, taps, ?_, ?_, ?_⟩
    · intro j nonneg even behind
      dsimp only at behind ⊢
      have zero : base + j = base := by omega
      rw [zero, Function.update_self]
      exact range
    · intro j even ahead inside
      dsimp only at ahead ⊢
      rw [Function.update_of_ne (by omega)]
      exact reads j (by omega) even (.inr inside)
    · intro j odd
      dsimp only
      rw [Function.update_of_ne (by omega)]
  -- while every sum fits, the loops of both kinds of integers go through the same states
  obtain ⟨agree, last⟩ := whileLoop_agree (fun s : FifthOrder => s.i < length)
    (fifthOrderRound machine base) (fifthOrderRound unbounded base)
    (FifthOrder.Ranged gain data base length)
    (fun s now going => fifthOrderRound_ranged small now (of_decide_eq_true going))
    length.toNat _ start
  have exactly := fifthOrder_exact machine data base length hist low first fits
  rw [fifthOrder_loop machine data length hist low first, exact_bind, exact_pure,
    Bool.and_true] at exactly
  have ended := of_decide_eq_false
    (whileLoop_ended (fun s : FifthOrder => s.i < length) _ _ _ exactly)
  refine ⟨?_, last.taps, ?_, last.other⟩
  · rw [fifthOrder_loop machine data length hist low first, agree, same,
      fifthOrder_loop unbounded data length hist low first]
  · intro j nonneg even behind
    have aligned := last.aligned
    exact last.outputs j nonneg even (by omega)

/-- The histories of the passes up to `passes`. -/
def RowsWithin (passes : Nat) (rows : Int → Taps) : Prop :=
  ∀ i < passes, (rows (i : Nat)).Within (2 ^ i)

/-- The passes that keep the values of `lowpassed` small enough. -/
structure Passes.Ranged (lpLen : Int) (passes : Nat) (s : Passes) : Prop where
  inPhase : Reads (2 ^ passes) s.lowpassed 0 (lpLen >>> passes)
  quadrature : Reads (2 ^ passes) s.lowpassed 1 ((lpLen >>> passes) - 1)

theorem two_pow_le {i : Nat} (few : i < passes) (most : passes ≤ 7) : (2 : Int) ^ i ≤ 64 :=
  pow_le_pow_right₀ (by decide : (1 : Int) ≤ 2) (by omega : i ≤ 6)

theorem RowsWithin.update {rows : Int → Taps} (within : RowsWithin passes rows) (i : Nat)
    {taps : Taps} (new : taps.Within (2 ^ i)) :
    RowsWithin passes (Function.update rows i taps) := by
  intro k few
  by_cases same : k = i
  · rw [same, Function.update_self]
    exact new
  · rw [Function.update_of_ne (by omega)]
    exact within k few

theorem fifthPass_ranged (low : 0 ≤ lpLen) (fits : lpLen ≤ maximumBufLength) {i : Nat}
    (few : i < passes) (most : passes ≤ 7) (inRows : RowsWithin passes s.lpIHist)
    (quRows : RowsWithin passes s.lpQHist) (now : s.Ranged lpLen i) :
    fifthPass machine lpLen i s = fifthPass unbounded lpLen i s ∧
      (fifthPass machine lpLen i s).value.Ranged lpLen (i + 1) ∧
      RowsWithin passes (fifthPass machine lpLen i s).value.lpIHist ∧
      RowsWithin passes (fifthPass machine lpLen i s).value.lpQHist := by
  have size := maximumBufLength_eq
  have small := two_pow_le few most
  have shifted : lpLen >>> i ≤ lpLen := by
    rw [Int.shiftRight_eq_div_pow]
    exact Int.ediv_le_self _ low
  have half : lpLen >>> (i + 1) = lpLen >>> i / 2 := by
    rw [Int.shiftRight_add, Int.shiftRight_eq_div_pow _ 1]
    rfl
  have double : (2 : Int) ^ (i + 1) = 2 * 2 ^ i := by rw [pow_succ, mul_comm]
  obtain ⟨inSame, inTaps, inOut, inOther⟩ := fifthOrder_ranged small (Int.le_refl 0) (by omega)
    (by omega) now.inPhase (inRows i few)
  -- the second component reads what the call for the first one has not touched
  have reads : Reads (2 ^ i)
      (fifthOrder machine s.lowpassed 0 (lpLen >>> i) (s.lpIHist i)).value.1 1
      ((lpLen >>> i) - 1) := by
    intro j nonneg even inside
    rw [inOther _ (by omega)]
    exact now.quadrature j nonneg even inside
  obtain ⟨quSame, quTaps, quOut, quOther⟩ := fifthOrder_ranged small (by decide) (by omega)
    (by omega) reads (quRows i few)
  refine ⟨?_, ⟨?_, ?_⟩, inRows.update i inTaps, quRows.update i quTaps⟩
  · rw [fifthPass, fifthPass, ← inSame]
    refine Checked.ext ?_ ?_
    · rw [value_bind, value_bind, value_bind, value_bind, quSame]
    · rw [exact_bind, exact_bind, exact_bind, exact_bind, quSame]
  · intro j nonneg even inside
    have kept := quOther (0 + j) (by omega)
    have within := inOut j nonneg even (by omega)
    rw [double]
    change Within (2 * 2 ^ i) ((fifthOrder machine _ 1 _ _).value.1 (0 + j))
    rw [kept]
    exact within
  · intro j nonneg even inside
    rw [double]
    exact quOut j nonneg even (by omega)

theorem fifthPasses_ranged (low : 0 ≤ lpLen) (fits : lpLen ≤ maximumBufLength) (i passes : Nat)
    (few : i ≤ passes) (most : passes ≤ 7) (inRows : RowsWithin passes s.lpIHist)
    (quRows : RowsWithin passes s.lpQHist) (now : s.Ranged lpLen 0) :
    fifthPasses machine lpLen i s = fifthPasses unbounded lpLen i s ∧
      (fifthPasses machine lpLen i s).value.Ranged lpLen i ∧
      RowsWithin passes (fifthPasses machine lpLen i s).value.lpIHist ∧
      RowsWithin passes (fifthPasses machine lpLen i s).value.lpQHist := by
  induction i with
  | zero => exact ⟨rfl, now, inRows, quRows⟩
  | succ i ih =>
    obtain ⟨same, ranged, inRows, quRows⟩ := ih (by omega)
    obtain ⟨agree, next⟩ := fifthPass_ranged low fits few most inRows quRows ranged
    refine ⟨?_, next⟩
    rw [fifthPasses, fifthPasses, ← same]
    refine Checked.ext ?_ ?_
    · rw [value_bind, value_bind, agree]
    · rw [exact_bind, exact_bind, agree]

/-- A buffer is received and goes through the first `passes` of the passes. The later passes do not
change what the earlier ones read. -/
def passBuffer (w : Words) (passes : Nat) (offsetTuning : Bool) (s : Passes) (buf : List UInt8) :
    Passes :=
  (fifthPasses w buf.length passes
    { s with lowpassed := memcpy s.lowpassed (buf16 offsetTuning buf) }).value

def Passes.empty : Passes := ⟨fun _ => .empty, fun _ => .empty, fun _ => 0⟩

/-- The arrays after a sequence of buffers. -/
def passesStored (w : Words) (passes : Nat) (offsetTuning : Bool) (bufs : List (List UInt8)) :
    Passes :=
  bufs.foldl (passBuffer w passes offsetTuning) .empty

theorem ranged_receive (s : Passes) (offsetTuning : Bool) (some : buf ≠ [])
    (whole : buf.length % 8 = 0) :
    Passes.Ranged buf.length 0
      { s with lowpassed := memcpy s.lowpassed (buf16 offsetTuning buf) } := by
  have length := List.length_pos_iff.mpr some
  have bytes (i : Int) (low : 0 ≤ i) (high : i < buf.length) :
      Within (2 ^ 0) (memcpy s.lowpassed (buf16 offsetTuning buf) i) := by
    have inside : 0 ≤ i ∧ i < (buf16 offsetTuning buf).length := by
      rw [buf16_length]
      exact ⟨low, high⟩
    rw [memcpy, if_pos inside, List.getD_eq_getElem _ _ (by omega)]
    exact mem_buf16 (List.getElem_mem _)
  have unshifted : (buf.length : Int) >>> (0 : Nat) = buf.length := by
    rw [Int.shiftRight_eq_div_pow]
    exact Int.ediv_one _
  constructor
  · intro j low even inside
    exact bytes _ (by omega) (by omega)
  · intro j low even inside
    exact bytes _ (by omega) (by omega)

theorem passBuffer_ranged {most : Nat} (few : passes ≤ most) (small : most ≤ 7)
    (offsetTuning : Bool) (inRows : RowsWithin most s.lpIHist)
    (quRows : RowsWithin most s.lpQHist) (some : buf ≠ []) (whole : buf.length % 8 = 0)
    (fits : (buf.length : Int) ≤ maximumBufLength) :
    passBuffer machine passes offsetTuning s buf = passBuffer unbounded passes offsetTuning s buf ∧
      RowsWithin most (passBuffer machine passes offsetTuning s buf).lpIHist ∧
      RowsWithin most (passBuffer machine passes offsetTuning s buf).lpQHist := by
  have received := ranged_receive s offsetTuning some whole
  rw [passBuffer, passBuffer]
  generalize memcpy s.lowpassed (buf16 offsetTuning buf) = lowpassed at received
  obtain ⟨same, _, next⟩ := fifthPasses_ranged (Int.natCast_nonneg _) fits passes most few small
    (s := ⟨s.lpIHist, s.lpQHist, lowpassed⟩) inRows quRows received
  exact ⟨congrArg Checked.value same, next⟩

theorem passesStored_agree {most : Nat} (few : passes ≤ most) (small : most ≤ 7)
    (offsetTuning : Bool) (bufs : List (List UInt8)) (shape : Buffers bufs) :
    passesStored machine passes offsetTuning bufs =
      passesStored unbounded passes offsetTuning bufs := by
  have fold (s : Passes) (inRows : RowsWithin most s.lpIHist)
      (quRows : RowsWithin most s.lpQHist) :
      bufs.foldl (passBuffer machine passes offsetTuning) s =
        bufs.foldl (passBuffer unbounded passes offsetTuning) s := by
    induction bufs generalizing s with
    | nil => rw [List.foldl_nil, List.foldl_nil]
    | cons buf rest ih =>
      obtain ⟨some, whole, fits⟩ := shape buf List.mem_cons_self
      obtain ⟨same, inNext, quNext⟩ :=
        passBuffer_ranged few small offsetTuning inRows quRows some whole fits
      rw [List.foldl_cons, List.foldl_cons, ← same]
      exact ih (fun buf member => shape buf (List.mem_cons_of_mem _ member)) _ inNext quNext
  have zeros : RowsWithin most fun _ => Taps.empty := by
    intro i _
    have power : (0 : Int) ≤ 2 ^ i := Int.pow_nonneg (by decide)
    have zero : Within (2 ^ i) 0 := ⟨by omega, by omega⟩
    exact ⟨zero, zero, zero, zero, zero, zero⟩
  exact fold .empty zeros zeros

/-! ### Eight passes over the loudest input -/

theorem fifthStep_constant (x : Int) (n : Nat) :
    run (fifthStep unbounded) ⟨x, x, x, x, x, x⟩ (List.replicate n (x, x)) =
      (⟨x, x, x, x, x, x⟩, List.replicate n (2 * x)) := by
  have sum : Taps.sum unbounded ⟨x, x, x, x, x, x⟩ = 2 * x := by
    change (x + (x + x) * 5 + (x + x) * 10 + x) >>> (4 : Nat) = 2 * x
    rw [Int.shiftRight_eq_div_pow]
    omega
  induction n with
  | zero => rfl
  | succ n ih =>
    rw [List.replicate_succ, run_cons, fifthStep, Taps.next, ih, sum, List.replicate_succ]
    rfl

theorem fifthCall_settled (hist : Taps) (before : List Int) (seven : before.length = 7) (x : Int)
    (n : Nat) :
    ∃ after : List Int, after.length = 7 ∧
      (fifthCall unbounded hist (before ++ List.replicate (2 * n + 9) x)).2 =
        after ++ List.replicate (n + 1) (2 * x) := by
  obtain ⟨b0, b1, b2, b3, b4, b5, b6, rfl⟩ : ∃ b0 b1 b2 b3 b4 b5 b6,
      before = [b0, b1, b2, b3, b4, b5, b6] := by
    match before, seven with
    | [b0, b1, b2, b3, b4, b5, b6], _ => exact ⟨b0, b1, b2, b3, b4, b5, b6, rfl⟩
  have constant : pairs (List.replicate (2 * n + 3) x) = List.replicate (n + 1) (x, x) :=
    pairs_replicate_odd x (n + 1)
  have split : 2 * n + 9 = 6 + (2 * n + 3) := by omega
  have inputs : pairs ([b1, b2, b3, b4, b5, b6] ++ List.replicate (2 * n + 9) x) =
      (b1, b2) :: (b3, b4) :: (b5, b6) :: (x, x) :: (x, x) :: (x, x) ::
        List.replicate (n + 1) (x, x) := by
    rw [split, List.replicate_add, ← constant]
    rfl
  rw [List.cons_append, fifthCall, inputs]
  simp only [run_cons, fifthStep, Taps.next, fifthStep_constant]
  exact ⟨[_, _, _, _, _, _, _], rfl, rfl⟩

theorem loud_lengths : ∀ i : Nat, i < 8 →
    2 ^ (11 - i) - 7 = 2 * (2 ^ (10 - i) - 8) + 9 ∧
      2 ^ (11 - (i + 1)) - 7 = 2 ^ (10 - i) - 8 + 1 ∧
      (4096 : Int) >>> i = 2 * ((2 * (2 ^ (10 - i) - 8) + 16 : Nat) : Int) := by
  decide

/-- The loudest input, after some of the passes: seven values, and then the largest. -/
theorem fifthPasses_settled (s : Passes) (passes : Nat) (few : passes ≤ 8)
    (start : Holds s.lowpassed 2 0 (List.replicate 2048 128)) :
    ∃ before : List Int, before.length = 7 ∧
      Holds (fifthPasses unbounded 4096 passes s).value.lowpassed 2 0
        (before ++ List.replicate (2 ^ (11 - passes) - 7) (128 * 2 ^ passes)) := by
  induction passes with
  | zero => exact ⟨List.replicate 7 128, List.length_replicate, start⟩
  | succ i ih =>
    obtain ⟨before, seven, holds⟩ := ih (by omega)
    obtain ⟨left, next, length⟩ := loud_lengths i few
    rw [left] at holds
    rw [next]
    generalize 2 ^ (10 - i) - 8 = n at holds length
    have count : (before ++ List.replicate (2 * n + 9) (128 * 2 ^ i : Int)).length =
        2 * n + 16 := by
      rw [List.length_append, seven, List.length_replicate]
      omega
    have some : before ++ List.replicate (2 * n + 9) (128 * 2 ^ i : Int) ≠ [] :=
      List.length_pos_iff.mp (by omega)
    have double : (128 * 2 ^ (i + 1) : Int) = 2 * (128 * 2 ^ i) := by
      rw [pow_succ]
      omega
    rw [double, fifthPasses, value_bind]
    generalize (fifthPasses unbounded 4096 i s).value = t at holds
    obtain ⟨after, settled, outputs⟩ :=
      fifthCall_settled (t.lpIHist i) before seven (128 * 2 ^ i) n
    obtain ⟨_, inPhase, _⟩ := fifthOrder_value unbounded t.lowpassed 0 ((4096 : Int) >>> i)
      (t.lpIHist i) _ some holds (.inl (by rw [length, count]))
    rw [outputs] at inPhase
    -- The second call works on the other component.
    obtain ⟨_, _, other⟩ := fifthOrder_value unbounded
      (fifthOrder unbounded t.lowpassed 0 ((4096 : Int) >>> i) (t.lpIHist i)).value.1 1
      ((4096 : Int) >>> i - 1)
      (t.lpQHist i) (gather _ 2 1 (2 * n + 16))
      (List.length_pos_iff.mp (by rw [gather_length]; omega)) (holds_gather _)
      (.inr (by rw [length, gather_length]))
    refine ⟨after, settled, inPhase.congr ?_⟩
    intro k _
    exact other _ (by omega)

theorem passesStored_eight (offsetTuning : Bool) :
    ∃ bufs, Buffers bufs ∧
      passesStored machine 8 offsetTuning bufs ≠ passesStored unbounded 8 offsetTuning bufs := by
  have length := loudest_length offsetTuning 512
  refine ⟨[(List.replicate 512 (loudest offsetTuning)).flatten], ?_, ?_⟩
  · intro buf member
    rw [List.mem_singleton.mp member]
    exact loudest_buffer offsetTuning (by decide) (by decide)
  · intro same
    have stored (w : Words) : passesStored w 8 offsetTuning
        [(List.replicate 512 (loudest offsetTuning)).flatten] = (fifthPasses w 4096 8
          ⟨Passes.empty.lpIHist, Passes.empty.lpQHist,
            memcpy Passes.empty.lowpassed (List.replicate 4096 128)⟩).value := by
      rw [passesStored, List.foldl_cons, List.foldl_nil, passBuffer, buf16_loudest, length]
      rfl
    have received : Holds (memcpy Passes.empty.lowpassed (List.replicate 4096 128)) 2 0
        (List.replicate 2048 128) := by
      apply holds_of_at
      intro k inside
      rw [List.length_replicate] at inside
      rw [List.getElem_replicate, memcpy, List.length_replicate, if_pos (by omega),
        List.getD_eq_getElem _ _ (by rw [List.length_replicate]; omega), List.getElem_replicate]
    -- behind the first seven samples every pass doubles the constant: 128 becomes 32768
    obtain ⟨before, seven, settled⟩ := fifthPasses_settled ⟨Passes.empty.lpIHist,
      Passes.empty.lpQHist, memcpy Passes.empty.lowpassed (List.replicate 4096 128)⟩ 8
      (Nat.le_refl 8) received
    rw [← stored unbounded, ← same, stored machine] at settled
    have last := settled.at 7 (by rw [List.length_append, seven, List.length_replicate]; decide)
    rw [List.getElem_append_right (by omega), List.getElem_replicate] at last
    have int16 := fifthPasses_gives (by decide : (0 : Int) ≤ 4096) (by decide) 8
      ⟨Passes.empty.lpIHist, Passes.empty.lpQHist,
        memcpy Passes.empty.lowpassed (List.replicate 4096 128)⟩
      (AllInt16.memcpy (fun _ => isInt16_zero) (by
        intro x member
        rw [List.eq_of_mem_replicate member]
        decide))
    have high := (int16.2 (0 + 2 * (7 : Nat))).2
    rw [last] at high
    revert high
    decide

/-! ### Which rates are safe -/

theorem boxcarSize_le_iff (positive : 1 ≤ r) : boxcarSize r ≤ 255 ↔ 3922 ≤ r := by
  have few : 1000000 / r < 255 ↔ 1000000 < 255 * r := Nat.div_lt_iff_lt_mul positive
  rw [boxcarSize]
  omega

theorem passCount_le_iff (positive : 1 ≤ r) : passCount r ≤ 7 ↔ 7875 ≤ r := by
  have few : 1000000 / r < 127 ↔ 1000000 < 127 * r := Nat.div_lt_iff_lt_mul positive
  have small : (boxcarSize r).log2 < 7 ↔ boxcarSize r < 2 ^ 7 :=
    Nat.log2_lt (Nat.succ_ne_zero _)
  rw [boxcarSize] at small
  rw [passCount, boxcarSize]
  omega

/-- What `low_pass`, and what the passes of `fifth_order`, store in 16 bits is what they store in
unbounded integers for every input: which rates this is so for. -/
theorem decimation_range_iff (r : Nat) (positive : 1 ≤ r) (freq edge : Int)
    (offsetTuning fm : Bool) :
    ((∀ bufs, Buffers bufs →
      boxcarStored machine (optimalSettings freq r 0 edge offsetTuning fm).value.downsample
          offsetTuning bufs =
        boxcarStored unbounded (optimalSettings freq r 0 edge offsetTuning fm).value.downsample
          offsetTuning bufs) ↔ 3922 ≤ r) ∧
    ((∀ bufs, Buffers bufs → ∀ passes : Nat,
      (passes : Int) ≤ (optimalSettings freq r 1 edge offsetTuning fm).value.downsamplePasses →
      passesStored machine passes offsetTuning bufs =
        passesStored unbounded passes offsetTuning bufs) ↔ 7875 ≤ r) := by
  obtain ⟨_, downsample, _⟩ := optimalSettings_exact positive freq 0 edge offsetTuning fm
  obtain ⟨_, _, count⟩ := optimalSettings_exact positive freq 1 edge offsetTuning fm
  rw [downsample, count, chooseDownsample_boxcar positive,
    chooseDownsample_passes positive (by decide), value_pure, value_pure]
  dsimp only
  constructor
  · rw [← boxcarSize_le_iff positive]
    exact boxcarStored_iff (boxcarSize r) (Nat.succ_pos _) offsetTuning
  · rw [← passCount_le_iff positive]
    constructor
    · intro same
      by_contra many
      obtain ⟨bufs, shape, differ⟩ := passesStored_eight offsetTuning
      exact differ (same bufs shape 8 (by omega))
    · intro few bufs shape passes most
      exact passesStored_agree (by omega) few offsetTuning bufs shape

/-- The default rate of rtl_fm. -/
theorem decimation_range_default :
    (∀ bufs, Buffers bufs →
      boxcarStored machine (optimalSettings 100000000 (24000 : Nat) 0 0 false true).value.downsample
          false bufs =
        boxcarStored unbounded
          (optimalSettings 100000000 (24000 : Nat) 0 0 false true).value.downsample false bufs) ∧
    ∀ bufs, Buffers bufs → ∀ passes : Nat, (passes : Int) ≤
        (optimalSettings 100000000 (24000 : Nat) 1 0 false true).value.downsamplePasses →
      passesStored machine passes false bufs = passesStored unbounded passes false bufs :=
  ⟨(decimation_range_iff 24000 (by decide) 100000000 0 false true).1.mpr (by decide),
    (decimation_range_iff 24000 (by decide) 100000000 0 false true).2.mpr (by decide)⟩

/-- At a rate of 3921 the capture rate is supported, and 256 of the loudest samples wrap to the
least value. -/
theorem lowPass_loudest_wraps :
    Librtlsdr.rateSupported (optimalSettings 100000000 3921 0 0 true true).value.rate = true ∧
    (optimalSettings 100000000 3921 0 0 true true).value.downsample = 256 ∧
    boxcarStored machine 256 true [List.replicate 512 255] = [(-32768, -32768)] ∧
    boxcarStored unbounded 256 true [List.replicate 512 255] = [(32768, 32768)] := by
  have stream : ([List.replicate 512 (255 : UInt8)].map fun buf => pairs (buf16 true buf)).flatten =
      List.replicate 256 (128, 128) := by
    have loud : buf16 true (List.replicate 512 255) = List.replicate 512 128 := by
      change (List.replicate 512 (255 : UInt8)).map byteSample = _
      rw [List.map_replicate]
      rfl
    rw [List.map_singleton, loud, pairs_replicate 128 256, List.flatten_singleton]
  have stored {w : Words} (lawful : w.Lawful) :
      boxcarStored w (256 : Nat) true [List.replicate 512 255] =
        [windowSum w (List.replicate 256 (128, 128))] := by
    rw [boxcarStored_eq lawful (by decide), stream, List.length_replicate, Nat.div_self (by decide),
      List.range_one, List.map_singleton, Nat.mul_zero, List.drop_zero, List.take_replicate,
      Nat.min_self]
  refine ⟨by decide +kernel, by decide +kernel, ?_, ?_⟩
  · exact (stored machine_lawful).trans (by decide +kernel)
  · exact (stored unbounded_lawful).trans (by decide +kernel)

end RtlSdr.Fm
