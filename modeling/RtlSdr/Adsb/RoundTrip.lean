import RtlSdr.Adsb.Manchester
import RtlSdr.Adsb.Messages

/-!
# From a transmission to the frame

A buffer holds a preamble, a message with two samples for each bit, and zeros before and behind it.
`manchester` compacts the message in place, and the last 16 samples may turn into set bits.
`messages` shows the message, once, and nothing of that.
-/
namespace RtlSdr.Adsb

/-! ### The transmission -/

def preambleSamples (hi lo : UInt16) : List UInt16 :=
  (List.range preambleLen).map fun i => if i = 0 ∨ i = 2 ∨ i = 7 ∨ i = 9 then hi else lo

/-- A pulse in the first or in the second half. -/
def modulate (hi lo : UInt16) (bit : Bool) : List UInt16 := if bit then [hi, lo] else [lo, hi]

def transmission (hi lo : UInt16) (zeros : Nat) (bits : List Bool) (trailing : Nat) :
    List UInt16 :=
  List.replicate zeros 0 ++ (preambleSamples hi lo ++
    (bits.flatMap (modulate hi lo) ++ List.replicate trailing 0))

/-! ### The preamble -/

variable {buf out rest : List UInt16} {s : State} {lo hi : UInt16}
  {passes j gap left trailing : Nat} {bits : List Bool}

theorem preamble_zero {i : Nat} (zero : buf[i]? = some 0) : preamble buf i = some false := by
  rw [preamble, preambleLen, preambleLoop, Nat.add_zero, zero]
  rfl

theorem search_zeros {k : Nat} (passes : Nat) (zeros : ∀ j < k, s.buf[s.i + j]? = some 0) :
    search (k + passes) s = search passes { s with i := s.i + k } := by
  induction k generalizing s with
  | zero => rw [Nat.zero_add, Nat.add_zero]
  | succ k ih =>
    have here : preamble s.buf s.i = some false := preamble_zero (zeros 0 (Nat.succ_pos k))
    rw [Nat.add_right_comm, search, here]
    have behind : ∀ j < k, s.buf[s.i + 1 + j]? = some 0 := by
      intro j inside
      rw [Nat.add_assoc, Nat.add_comm 1 j]
      exact zeros (j + 1) (by omega)
    dsimp only [Option.bind_eq_bind, Option.bind_some]
    rw [if_neg Bool.false_ne_true, ih (s := { s with i := s.i + 1 }) behind, Nat.add_assoc,
      Nat.add_comm 1 k]

theorem preambleLoop_pulses {i i2 : Nat} {low high : UInt16}
    (samples : ∀ j < i2 + passes,
      buf[i + j]? = some (if j = 0 ∨ j = 2 ∨ j = 7 ∨ j = 9 then hi else lo)) (pulse : lo < hi)
    (above : low < hi) (below : lo < high) : preambleLoop buf i passes i2 low high = some true := by
  induction passes generalizing i2 low high with
  | zero => rfl
  | succ passes ih =>
    have next : ∀ j < i2 + 1 + passes,
        buf[i + j]? = some (if j = 0 ∨ j = 2 ∨ j = 7 ∨ j = 9 then hi else lo) :=
      fun j inside => samples j (by omega)
    rw [preambleLoop, samples i2 (by omega)]
    dsimp only [Option.bind_eq_bind, Option.bind_some]
    by_cases high : i2 = 0 ∨ i2 = 2 ∨ i2 = 7 ∨ i2 = 9
    · simp only [if_pos high]
      rw [if_neg (UInt16.not_le.mpr above)]
      exact ih next above pulse
    · simp only [if_neg high]
      rw [if_neg (UInt16.not_le.mpr below)]
      exact ih next pulse below

theorem preambleSamples_getElem (hi lo : UInt16) (inside : j < preambleLen) :
    (preambleSamples hi lo)[j]? = some (if j = 0 ∨ j = 2 ∨ j = 7 ∨ j = 9 then hi else lo) := by
  rw [preambleSamples, List.getElem?_map, List.getElem?_range inside, Option.map_some]

theorem preambleSamples_length (hi lo : UInt16) : (preambleSamples hi lo).length = preambleLen := by
  rw [preambleSamples, List.length_map, List.length_range]

theorem getElem_preamble (out rest : List UInt16) (hi lo : UInt16) (inside : j < preambleLen) :
    (out ++ (preambleSamples hi lo ++ rest))[out.length + j]? =
      some (if j = 0 ∨ j = 2 ∨ j = 7 ∨ j = 9 then hi else lo) := by
  rw [List.getElem?_append_right (Nat.le_add_right _ _), Nat.add_sub_cancel_left,
    List.getElem?_append_left (by rw [preambleSamples_length]; exact inside),
    preambleSamples_getElem hi lo inside]

theorem preamble_found (out rest : List UInt16) (pulse : lo < hi) :
    preamble (out ++ (preambleSamples hi lo ++ rest)) out.length = some true := by
  have positive : (0 : UInt16) < hi := UInt16.lt_of_le_of_lt UInt16.zero_le pulse
  have largest : hi ≤ 65535 := UInt16.le_iff_toNat_le.mpr (Nat.le_of_lt_succ hi.toNat_lt)
  have bounded : lo < 65535 := UInt16.lt_of_lt_of_le pulse largest
  refine preambleLoop_pulses ?_ pulse positive bounded
  intro j inside
  exact getElem_preamble out rest hi lo (by omega)

theorem markFrom_append (out marked rest : List UInt16) :
    markFrom marked.length out.length (out ++ (marked ++ rest)) =
      some (out ++ (List.replicate marked.length messageGo ++ rest)) := by
  induction marked generalizing out with
  | nil => rfl
  | cons sample marked ih =>
    rw [List.length_cons, markFrom, put_inside (by simp)]
    dsimp only [Option.bind_eq_bind, Option.bind_some]
    rw [List.set_append_right _ _ (Nat.le_refl _), Nat.sub_self, List.cons_append,
      List.set_cons_zero]
    have shifted := ih (out ++ [messageGo])
    rw [List.length_append, List.length_singleton, List.append_assoc, List.singleton_append,
      List.append_assoc, List.singleton_append] at shifted
    rw [List.replicate_succ, List.cons_append]
    exact shifted

theorem search_found (out rest : List UInt16) (pulse : lo < hi) (passes : Nat) (a b : UInt16) :
    search (passes + 1)
        { buf := out ++ (preambleSamples hi lo ++ rest), i := out.length, a, b } =
      some { buf := out ++ (List.replicate preambleLen messageGo ++ rest),
             i := out.length + preambleLen, a := hi, b := lo } := by
  have first : (out ++ (preambleSamples hi lo ++ rest))[out.length]? = some hi :=
    getElem_preamble out rest hi lo (show 0 < preambleLen by decide)
  have second : (out ++ (preambleSamples hi lo ++ rest))[out.length + 1]? = some lo :=
    getElem_preamble out rest hi lo (show 1 < preambleLen by decide)
  have marked := markFrom_append out (preambleSamples hi lo) rest
  rw [preambleSamples_length] at marked
  rw [search]
  dsimp only
  rw [preamble_found out rest pulse]
  dsimp only [Option.bind_eq_bind, Option.bind_some]
  rw [if_pos rfl, first, second]
  dsimp only [Option.bind_some]
  rw [marked]
  rfl

/-! ### The bits -/

/-- The decoder has compacted what it read to `out`, and `rest` lies ahead. -/
structure Decoded (s : State) (out : List UInt16) (gap : Nat) (rest : List UInt16) : Prop where
  buf : s.buf = out ++ (List.replicate gap overwrite ++ rest)
  i : s.i = out.length + gap

theorem Decoded.pair {c d : UInt16} (decoded : Decoded s out gap (c :: d :: rest)) :
    s.buf[s.i]? = some c ∧ s.buf[s.i + 1]? = some d := by
  have length : (List.replicate gap overwrite).length = gap := List.length_replicate
  rw [decoded.buf, decoded.i, Nat.add_assoc]
  constructor
  · rw [List.getElem?_append_right (Nat.le_add_right _ _), Nat.add_sub_cancel_left,
      List.getElem?_append_right (by omega), length, Nat.sub_self]
    rfl
  · rw [List.getElem?_append_right (Nat.le_add_right _ _), Nat.add_sub_cancel_left,
      List.getElem?_append_right (by omega), length, Nat.add_sub_cancel_left]
    rfl

theorem set_behind (out rest ahead : List UInt16) (k : Nat) (x : UInt16) :
    (out ++ (rest ++ ahead)).set (out.length + rest.length + k) x =
      out ++ (rest ++ ahead.set k x) := by
  rw [Nat.add_assoc, List.set_append_right _ _ (Nat.le_add_right _ _), Nat.add_sub_cancel_left,
    List.set_append_right _ _ (Nat.le_add_right _ _), Nat.add_sub_cancel_left]

theorem Decoded.mark {c d : UInt16} (decoded : Decoded s out gap (c :: d :: rest))
    (bit a b : UInt16) :
    Decoded (s.mark out.length bit a b) (out ++ [bit]) (gap + 1) rest where
  buf := by
    -- both samples of the pair join the gap, and the bit takes its first place
    have second := set_behind out (List.replicate gap overwrite) (c :: d :: rest) 1 overwrite
    have first := set_behind out (List.replicate gap overwrite) (c :: overwrite :: rest) 0 overwrite
    have whole : List.replicate gap overwrite ++ overwrite :: overwrite :: rest =
        overwrite :: (List.replicate (gap + 1) overwrite ++ rest) := by
      rw [← List.cons_append, ← List.replicate_succ, List.replicate_succ', List.replicate_succ',
        List.append_assoc, List.append_assoc]
      rfl
    rw [List.length_replicate, List.set_cons_succ, List.set_cons_zero] at second
    rw [List.length_replicate, Nat.add_zero, List.set_cons_zero] at first
    rw [State.mark, decoded.buf, decoded.i]
    dsimp only
    rw [second, first, whole, List.set_append_right _ _ (Nat.le_refl _), Nat.sub_self,
      List.set_cons_zero, List.append_assoc, List.singleton_append]
  i := by
    rw [State.mark, List.length_append, List.length_singleton, decoded.i]
    dsimp only
    omega

theorem Decoded.order (decoded : Decoded s out gap rest) : out.length ≤ s.i := by
  rw [decoded.i]
  exact Nat.le_add_right _ _

variable (quality allowedErrors : Int)

theorem singleManchester_pair (pulse : lo < hi) (previous bit : Bool) :
    singleManchester quality (if previous then hi else lo) (if previous then lo else hi)
      (if bit then hi else lo) (if bit then lo else hi) = sampleOf bit := by
  have order : ¬ hi < lo := UInt16.lt_asymm pulse
  cases previous <;> cases bit <;>
    simp only [singleManchester, sampleOf, gt_iff_lt, pulse, order, decide_true, decide_false,
      UInt16.lt_irrefl, Bool.and_true, Bool.and_false, Bool.not_true, Bool.not_false,
      Bool.false_eq_true, if_true, if_false, ite_self]

theorem sampleOf_ne_bad (bit : Bool) : sampleOf bit ≠ badSample := by
  cases bit <;> decide

/-- The message is decoded whole: after each pair the next one is accepted. -/
theorem decode_bits (errors : Int) (pulse : lo < hi) (passes : Nat)
    (decoded : Decoded s out gap (bits.flatMap (modulate hi lo) ++ rest)) (previous : Bool)
    (isA : s.a = if previous then hi else lo) (isB : s.b = if previous then lo else hi) :
    ∃ s', decode quality allowedErrors (bits.length + passes) out.length errors s =
        decode quality allowedErrors passes (out ++ bits.map sampleOf).length errors s' ∧
      Decoded s' (out ++ bits.map sampleOf) (gap + bits.length) rest := by
  induction bits generalizing s out gap previous with
  | nil =>
    rw [List.map_nil, List.append_nil, List.length_nil, Nat.zero_add, Nat.add_zero]
    exact ⟨s, rfl, decoded⟩
  | cons bit bits ih =>
    have pair : modulate hi lo bit = [if bit then hi else lo, if bit then lo else hi] := by
      cases bit <;> rfl
    rw [List.flatMap_cons, pair] at decoded
    have accepted := singleManchester_pair quality pulse previous bit
    rw [← isA, ← isB] at accepted
    have marked := decoded.mark (sampleOf bit) (if bit then hi else lo) (if bit then lo else hi)
    -- this pair is the one that the next bit is compared with
    obtain ⟨s', decodes, decoded'⟩ := ih marked bit rfl rfl
    refine ⟨s', ?_, ?_⟩
    · obtain ⟨readC, readD⟩ := decoded.pair
      rw [List.length_cons, Nat.add_right_comm,
        decode_succ quality allowedErrors errors _ readC readD decoded.order, accepted,
        if_neg (sampleOf_ne_bad bit), List.map_cons, List.append_cons, ← decodes,
        List.length_append, List.length_singleton]
    · rw [List.map_cons, List.append_cons, List.length_cons, Nat.add_comm bits.length,
        ← Nat.add_assoc]
      exact decoded'

/-! ### The zeros behind the message -/

theorem singleManchester_zeros (a b : UInt16) :
    singleManchester quality a b 0 0 = badSample ∨ singleManchester quality a b 0 0 = 0 := by
  simp only [singleManchester, gt_iff_lt, UInt16.lt_irrefl, decide_false, Bool.false_and,
    Bool.false_eq_true, if_false]
  split_ifs <;> simp

/-- However long the loop goes on in the zeros, it marks no bit that is set. -/
theorem decode_zeros (errors : Int) {odd : Nat}
    (decoded : Decoded s out (gap + 1) (List.replicate (2 * passes + odd) 0)) :
    ∃ s' filler left, decode quality allowedErrors passes out.length errors s = some s' ∧
      s'.buf = out ++ (filler ++ List.replicate left 0) ∧ s'.i = out.length + filler.length ∧
        1 ∉ filler := by
  induction passes generalizing s out gap errors with
  | zero =>
    refine ⟨s, List.replicate (gap + 1) overwrite, odd, rfl, ?_, ?_, ?_⟩
    · rw [decoded.buf, Nat.mul_zero, Nat.zero_add]
    · rw [decoded.i, List.length_replicate]
    · intro set
      exact absurd (List.eq_of_mem_replicate set) (by decide)
  | succ passes ih =>
    rw [Nat.mul_succ, Nat.add_right_comm, List.replicate_succ, List.replicate_succ] at decoded
    -- a marked zero only makes the filler longer
    have marks (errors' : Int) (a b : UInt16) :
        ∃ s' filler left,
          decode quality allowedErrors passes (out.length + 1) errors' (s.mark out.length 0 a b) =
              some s' ∧
            s'.buf = out ++ (filler ++ List.replicate left 0) ∧
              s'.i = out.length + filler.length ∧ 1 ∉ filler := by
      obtain ⟨s', filler, left, decodes, buf, i, unset⟩ := ih errors' (decoded.mark 0 a b)
      rw [List.length_append, List.length_singleton] at decodes i
      refine ⟨s', 0 :: filler, left, decodes, ?_, ?_, ?_⟩
      · rw [buf, List.append_assoc, List.singleton_append, List.cons_append]
      · rw [i, List.length_cons]
        omega
      · rw [List.mem_cons, not_or]
        exact ⟨by decide, unset⟩
    obtain ⟨readC, readD⟩ := decoded.pair
    rw [decode_succ quality allowedErrors errors passes readC readD decoded.order]
    split
    next bad =>
      split
      next exhausted =>
        refine ⟨_, badSample :: List.replicate gap overwrite, 2 * passes + odd + 2, rfl, ?_, ?_, ?_⟩
        · dsimp only
          rw [decoded.buf, List.set_append_right _ _ (Nat.le_refl _), Nat.sub_self,
            List.replicate_succ, List.cons_append, List.set_cons_zero, List.cons_append]
          rfl
        · rw [List.length_cons, List.length_replicate]
          exact decoded.i
        · rw [List.mem_cons, not_or]
          exact ⟨by decide, fun set => absurd (List.eq_of_mem_replicate set) (by decide)⟩
      next => exact marks _ _ _
    next good =>
      rw [(singleManchester_zeros quality s.a s.b).resolve_left good]
      exact marks _ _ _

/-! ### The end of the buffer -/

/-- Where the search only moves on, it may as well start at its end. -/
theorem manchesterLoop_skip (passes : Nat)
    (zeros : ∀ j, s.i + j < s.buf.length → s.buf[s.i + j]? = some 0)
    (length : s.buf.length = s.i + left + preambleLen) :
    manchesterLoop quality allowedErrors passes s =
      manchesterLoop quality allowedErrors passes { s with i := s.i + left } := by
  have sixteen : preambleLen = 16 := rfl
  cases passes with
  | zero => rfl
  | succ passes =>
    have before : s.buf.length - preambleLen - s.i = left + 0 := by omega
    have behind : s.buf.length - preambleLen - (s.i + left) = 0 := by omega
    rw [manchesterLoop, manchesterLoop, if_pos (by omega), if_pos (by dsimp only; omega), before,
      search_zeros 0 (fun j inside => zeros j (by omega))]
    dsimp only
    rw [behind]

/-- What was decoded before the last 16 samples stays, and there are no set bits between. -/
theorem manchesterLoop_tail {filler : List UInt16}
    (buf : s.buf = out ++ (filler ++ List.replicate left 0))
    (i : s.i = out.length + filler.length) (unset : 1 ∉ filler)
    (enough : 3 * (s.buf.length - s.i) + 3 ≤ passes) :
    ∃ tail, manchesterLoop quality allowedErrors passes s = some (out ++ tail) ∧ Silent tail := by
  have length : s.buf.length = s.i + left := by
    rw [buf, i, List.length_append, List.length_append, List.length_replicate, Nat.add_assoc]
  have zeros : ∀ j, s.i + j < s.buf.length → s.buf[s.i + j]? = some 0 := by
    intro j inside
    have few : j < left := by omega
    rw [buf, i, Nat.add_assoc, List.getElem?_append_right (Nat.le_add_right _ _),
      Nat.add_sub_cancel_left, List.getElem?_append_right (Nat.le_add_right _ _),
      Nat.add_sub_cancel_left, List.getElem?_replicate, if_pos few]
  -- the search moves to the last 16 samples, where the decoder takes over
  obtain ⟨s₁, same, sameBuf, forward, last, inside⟩ : ∃ s₁,
      manchesterLoop quality allowedErrors passes s =
          manchesterLoop quality allowedErrors passes s₁ ∧
        s₁.buf = s.buf ∧ s.i ≤ s₁.i ∧ s.buf.length ≤ s₁.i + 16 ∧ s₁.i ≤ s.buf.length := by
    rcases Nat.lt_or_ge left 16 with few | many
    · exact ⟨s, rfl, rfl, Nat.le_refl _, by omega, by omega⟩
    · have room : s.buf.length = s.i + (left - 16) + preambleLen := by
        rw [length, preambleLen]
        omega
      refine ⟨_, manchesterLoop_skip quality allowedErrors passes zeros room, rfl, ?_, ?_, ?_⟩
      all_goals
        dsimp only
        omega
  have fair : ∀ j, s₁.i < j → s₁.buf.length ≤ j + 15 → s₁.buf[j]? ≠ some badSample := by
    intro j beyond _ bad
    obtain ⟨bound, _⟩ := List.getElem?_eq_some_iff.mp bad
    obtain ⟨k, rfl⟩ := Nat.exists_eq_add_of_le (show s.i ≤ j by omega)
    rw [sameBuf] at bound bad
    rw [zeros k bound] at bad
    exact absurd bad (by decide)
  have enough₁ : 3 * (s₁.buf.length - s₁.i) + 3 ≤ passes + 0 := by
    rw [sameBuf]
    omega
  obtain ⟨final, done, finalLength, kept⟩ := manchesterLoop_some quality allowedErrors (k := 0)
    (sameBuf ▸ inside) fair trivial (Nat.zero_le 2) enough₁
  rw [sameBuf] at kept finalLength
  have begins : final.take out.length = out := by
    refine List.ext_getElem? fun j => ?_
    rw [List.getElem?_take]
    split
    next low => rw [kept j (by omega), buf, List.getElem?_append_left low]
    next high => rw [List.getElem?_eq_none (Nat.le_of_not_lt high)]
  refine ⟨final.drop out.length, ?_, ?_⟩
  · have whole := List.take_append_drop out.length final
    rw [begins] at whole
    rw [same, done, whole]
  · intro j set
    rw [List.getElem?_drop] at set
    rw [List.length_drop]
    by_contra early
    rw [kept _ (by omega), buf, List.getElem?_append_right (Nat.le_add_right _ _),
      Nat.add_sub_cancel_left] at set
    rcases List.mem_append.mp (List.mem_of_getElem? set) with inFiller | inZeros
    · exact unset inFiller
    · exact absurd (List.eq_of_mem_replicate inZeros) (by decide)

/-! ### The round trip -/

theorem modulate_length (hi lo : UInt16) (bits : List Bool) :
    (bits.flatMap (modulate hi lo)).length = 2 * bits.length := by
  induction bits with
  | nil => rfl
  | cons bit bits ih =>
    have pair : (modulate hi lo bit).length = 2 := by cases bit <;> rfl
    rw [List.flatMap_cons, List.length_append, pair, ih, List.length_cons]
    omega

theorem transmission_length (hi lo : UInt16) (zeros : Nat) (bits : List Bool) (trailing : Nat) :
    (transmission hi lo zeros bits trailing).length =
      zeros + preambleLen + (2 * bits.length + trailing) := by
  rw [transmission, List.length_append, List.length_append, List.length_append,
    List.length_replicate, List.length_replicate, preambleSamples_length, modulate_length]
  omega

/-- The samples that are passed over before the message. -/
def found (zeros : Nat) : List UInt16 :=
  List.replicate zeros 0 ++ List.replicate preambleLen messageGo

theorem found_length (zeros : Nat) : (found zeros).length = zeros + preambleLen := by
  rw [found, List.length_append, List.length_replicate, List.length_replicate]

theorem search_transmission (pulse : lo < hi) (zeros : Nat) (bits : List Bool)
    (silence : 16 ≤ trailing) :
    ∃ s, search ((transmission hi lo zeros bits trailing).length - preambleLen)
          { buf := transmission hi lo zeros bits trailing, i := 0, a := 0, b := 0 } = some s ∧
        s.a = hi ∧ s.b = lo ∧
          Decoded s (found zeros) 0
            (bits.flatMap (modulate hi lo) ++ List.replicate trailing 0) := by
  have count : (transmission hi lo zeros bits trailing).length - preambleLen =
      zeros + (2 * bits.length + (trailing - 1) + 1) := by
    rw [transmission_length]
    omega
  have ahead : ∀ j < zeros, (transmission hi lo zeros bits trailing)[0 + j]? = some 0 := by
    intro j inside
    have early : j < (List.replicate zeros (0 : UInt16)).length := by
      rw [List.length_replicate]
      exact inside
    rw [Nat.zero_add, transmission, List.getElem?_append_left early, List.getElem?_replicate,
      if_pos inside]
  have finds := search_found (List.replicate zeros 0)
    (bits.flatMap (modulate hi lo) ++ List.replicate trailing 0) pulse
    (2 * bits.length + (trailing - 1)) 0 0
  rw [List.length_replicate] at finds
  rw [count, search_zeros _ ahead, Nat.zero_add]
  refine ⟨_, finds, rfl, rfl, ?_, ?_⟩
  · rw [found, List.append_assoc]
    rfl
  · exact (found_length zeros).symm

theorem decode_transmission (pulse : lo < hi) (nonempty : bits ≠ [])
    (decoded : Decoded s out 0 (bits.flatMap (modulate hi lo) ++ List.replicate trailing 0))
    (isA : s.a = hi) (isB : s.b = lo) :
    ∃ s' filler left,
      decode quality allowedErrors ((s.buf.length - s.i) / 2) s.i 0 s = some s' ∧
        s'.buf = out ++ bits.map sampleOf ++ (filler ++ List.replicate left 0) ∧
          s'.i = (out ++ bits.map sampleOf).length + filler.length ∧ 1 ∉ filler := by
  have passes : (s.buf.length - s.i) / 2 = bits.length + trailing / 2 := by
    rw [decoded.buf, decoded.i, List.length_append, List.length_append, List.length_append,
      List.length_replicate, List.length_replicate, modulate_length]
    omega
  have start : s.i = out.length := decoded.i
  obtain ⟨s₁, decodes, decoded₁⟩ := decode_bits quality allowedErrors 0 pulse (trailing / 2)
    decoded true isA isB
  have positive : 0 < bits.length := List.length_pos_iff.mpr nonempty
  have gap : 0 + bits.length = bits.length - 1 + 1 := by omega
  have zeros : trailing = 2 * (trailing / 2) + trailing % 2 := (Nat.div_add_mod trailing 2).symm
  rw [gap, zeros] at decoded₁
  rw [passes, start, decodes]
  exact decode_zeros quality allowedErrors 0 decoded₁

theorem IsMessage.ne_nil (message : IsMessage bits) : bits ≠ [] := by
  rintro rfl
  exact absurd message (by decide)

/-- Every message that is sent is shown, once and as it was sent, whatever the pulses, the zeros
around it, the quality and the number of allowed errors. -/
theorem messages_manchester (quality allowedErrors : Int) {hi lo : UInt16} (pulse : lo < hi)
    (zeros : Nat) {bits : List Bool} (message : IsMessage bits) {trailing : Nat}
    (silence : 16 ≤ trailing) {passes : Nat}
    (enough : 3 * (transmission hi lo zeros bits trailing).length + 3 ≤ passes) :
    (manchester quality allowedErrors passes (transmission hi lo zeros bits trailing)).map
      messages = some [(pack bits, bits.length)] := by
  have length := transmission_length hi lo zeros bits trailing
  obtain ⟨passes, rfl⟩ : ∃ p, passes = p + 1 := ⟨passes - 1, by omega⟩
  have sixteen : preambleLen = 16 := rfl
  have goes : 0 + 1 < (transmission hi lo zeros bits trailing).length := by omega
  -- the first pass finds the message and decodes it
  obtain ⟨s₁, searched, isA, isB, decoded⟩ := search_transmission pulse zeros bits silence
  obtain ⟨s₂, filler, left, decodes, buf, i, unset⟩ :=
    decode_transmission quality allowedErrors pulse message.ne_nil decoded isA isB
  have sameLength : s₂.buf.length = (transmission hi lo zeros bits trailing).length := by
    obtain ⟨t₁, t₂, searched', decodes', moved, _⟩ := pass_some quality allowedErrors
      (s := { buf := transmission hi lo zeros bits trailing, i := 0, a := 0, b := 0 }) goes
    obtain rfl : s₁ = t₁ := Option.some.inj (searched.symm.trans searched')
    obtain rfl : s₂ = t₂ := Option.some.inj (decodes.symm.trans decodes')
    exact moved.length
  have further : 16 ≤ s₂.i := by
    rw [i, List.length_append, found_length]
    omega
  have enough₂ : 3 * (s₂.buf.length - s₂.i) + 3 ≤ passes := by omega
  -- all that follows lies behind it, and is silent
  obtain ⟨tail, ends, silent⟩ :=
    manchesterLoop_tail quality allowedErrors buf i unset enough₂
  rw [manchester, manchesterLoop, if_pos goes]
  dsimp only
  rw [Nat.sub_zero, searched]
  dsimp only [Option.bind_eq_bind, Option.bind_some]
  rw [decodes]
  dsimp only [Option.bind_some]
  rw [ends, Option.map_some, found, List.append_assoc, List.append_assoc,
    messages_zeros zeros (by decide) (by decide), messages_message message,
    messages_silent (silent.drop 1)]

/-- A long message of which all bits but the last are set. -/
theorem messages_manchester_long :
    (manchester 10 5 903 (transmission 100 3 7 (List.replicate 111 true ++ [false]) 53)).map
      messages = some [(List.replicate 13 0xff ++ [0xfe], 112)] :=
  messages_manchester 10 5 (by decide) 7 (by decide) (by decide) (by decide +kernel)

end RtlSdr.Adsb
