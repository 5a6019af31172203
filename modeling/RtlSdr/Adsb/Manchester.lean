import Mathlib.Data.List.Basic

/-!
# The decoder of `rtl_adsb.c`

`manchester` looks for a preamble, writes one bit for each pair of samples behind it, and goes on
looking where the encoding breaks. In the last 16 samples it decodes without a preamble. There the
outer loop can come back to the same samples without having moved; that it moves on at the third
time is due to the magnitudes, since a sum of two squares is never 255.
-/
namespace RtlSdr.Adsb

def messageGo : UInt16 := 253
def overwrite : UInt16 := 254
def badSample : UInt16 := 255

def preambleLen : Nat := 16

/-! ### Magnitudes -/

def abs8 (x : Int) : Int := if x ≥ 127 then x - 127 else 127 - x

/-- The table that `squares_precompute` fills. -/
def squares (i : UInt8) : UInt16 := UInt16.ofInt (abs8 i.toNat * abs8 i.toNat)

/-- `magnitute`. Two bytes become one sample of 16 bits in their place. -/
def magnitute : List UInt8 → List UInt16
  | i :: q :: rest => (squares i + squares q) :: magnitute rest
  | [_] | [] => []

/-! ### One bit -/

/-- `single_manchester`, with the global `quality`. -/
def singleManchester (quality : Int) (a b c d : UInt16) : UInt16 :=
  let bitP : Bool := a > b
  let bit : Bool := c > d
  if quality = 0 then if bit then 1 else 0
  else if quality = 5 then
    if bit && bitP && b > c then badSample
    else if !bit && !bitP && b < c then badSample
    else if bit then 1 else 0
  else if quality = 10 then
    if bit && bitP && c > b then 1
    else if bit && !bitP && d < b then 1
    else if !bit && bitP && d > b then 0
    else if !bit && !bitP && c < b then 0
    else badSample
  else
    if bit && bitP && c > b && d < a then 1
    else if bit && !bitP && c > a && d < b then 1
    else if !bit && bitP && c < a && d > b then 0
    else if !bit && !bitP && c < b && d > a then 0
    else badSample

/-! ### The loops

An access outside of the buffer makes the result `none`. The passes of the inner loops are
those of their conditions; only the outer loop is given a number. -/

def put (buf : List UInt16) (i : Nat) (val : UInt16) : Option (List UInt16) :=
  if i < buf.length then some (buf.set i val) else none

def preambleLoop (buf : List UInt16) (i : Nat) : Nat → Nat → UInt16 → UInt16 → Option Bool
  | 0, _, _, _ => some true
  | passes + 1, i2, low, high => do
    let sample ← buf[i + i2]?
    let pulse := i2 = 0 ∨ i2 = 2 ∨ i2 = 7 ∨ i2 = 9
    -- the last sample of either kind, not the extreme of all of them
    let high := if pulse then sample else high
    let low := if pulse then low else sample
    if high ≤ low then some false else preambleLoop buf i passes (i2 + 1) low high

def preamble (buf : List UInt16) (i : Nat) : Option Bool := preambleLoop buf i preambleLen 0 0 65535

/-- The buffer and the variables that outlive a pass of the outer loop. -/
structure State where
  buf : List UInt16
  i : Nat
  a : UInt16
  b : UInt16

/-- `MESSAGEGO` in consecutive samples. -/
def markFrom : Nat → Nat → List UInt16 → Option (List UInt16)
  | 0, _, buf => some buf
  | passes + 1, i, buf => do
    let buf ← put buf i messageGo
    markFrom passes (i + 1) buf

def search : Nat → State → Option State
  | 0, s => some s
  | passes + 1, s => do
    let found ← preamble s.buf s.i
    if found then
      -- the pair that the first bit is compared with
      let a ← s.buf[s.i]?
      let b ← s.buf[s.i + 1]?
      let buf ← markFrom preambleLen s.i s.buf
      some { buf, i := s.i + preambleLen, a, b }
    else search passes { s with i := s.i + 1 }

/-- A bit in the place `i2` of the two samples at `i`. -/
def markBit (buf : List UInt16) (i i2 : Nat) (bit : UInt16) : Option (List UInt16) := do
  let buf ← put buf (i + 1) overwrite
  let buf ← put buf i overwrite
  put buf i2 bit

/-- The loop that marks bits until the encoding breaks. -/
def decode (quality allowedErrors : Int) : Nat → Nat → Int → State → Option State
  | 0, _, _, s => some s
  | passes + 1, i2, errors, s => do
    let c ← s.buf[s.i]?
    let d ← s.buf[s.i + 1]?
    let bit := singleManchester quality s.a s.b c d
    if bit = badSample then
      if errors + 1 > allowedErrors then
        let buf ← put s.buf i2 badSample
        -- `i` stays, and the pair is now the one to compare with
        some { s with buf, a := c, b := d }
      else
        let buf ← markBit s.buf s.i i2 (if c > d then 1 else 0)
        -- these don't have to match the bit
        decode quality allowedErrors passes (i2 + 1) (errors + 1)
          { buf, i := s.i + 2, a := 0, b := 65535 }
    else
      let buf ← markBit s.buf s.i i2 bit
      decode quality allowedErrors passes (i2 + 1) errors { buf, i := s.i + 2, a := c, b := d }

def manchesterLoop (quality allowedErrors : Int) : Nat → State → Option (List UInt16)
  | 0, _ => none
  | passes + 1, s =>
    if s.i + 1 < s.buf.length then do
      let s ← search (s.buf.length - preambleLen - s.i) s
      let s ← decode quality allowedErrors ((s.buf.length - s.i) / 2) s.i 0 s
      manchesterLoop quality allowedErrors passes s
    else some s.buf

def manchester (quality allowedErrors : Int) (passes : Nat) (buf : List UInt16) :
    Option (List UInt16) :=
  manchesterLoop quality allowedErrors passes { buf, i := 0, a := 0, b := 0 }

/-! ### Accesses -/

variable {buf : List UInt16} {i i2 passes k : Nat} {s : State}

theorem put_inside (inside : i < buf.length) (val : UInt16) :
    put buf i val = some (buf.set i val) := if_pos inside

theorem preambleLoop_some (inside : i + i2 + passes ≤ buf.length) (low high : UInt16) :
    ∃ found, preambleLoop buf i passes i2 low high = some found := by
  induction passes generalizing i2 low high with
  | zero => exact ⟨true, rfl⟩
  | succ passes ih =>
    rw [preambleLoop, List.getElem?_eq_getElem (by omega)]
    have next : i + (i2 + 1) + passes ≤ buf.length := by omega
    exact iteInduction (motive := fun result => ∃ found, result = some found)
      (fun _ => ⟨false, rfl⟩) (fun _ => ih next _ _)

theorem preamble_some (inside : i + preambleLen ≤ buf.length) :
    ∃ found, preamble buf i = some found :=
  preambleLoop_some (by omega) 0 65535

theorem markFrom_some (inside : i + passes ≤ buf.length) :
    ∃ buf', markFrom passes i buf = some buf' ∧ buf'.length = buf.length ∧
      (∀ j < i, buf'[j]? = buf[j]?) ∧ ∀ j, i + passes ≤ j → buf'[j]? = buf[j]? := by
  induction passes generalizing i buf with
  | zero => exact ⟨buf, rfl, rfl, fun _ _ => rfl, fun _ _ => rfl⟩
  | succ passes ih =>
    have room : i + 1 + passes ≤ (buf.set i messageGo).length := by
      rw [List.length_set]
      omega
    obtain ⟨buf', marked, length, before, behind⟩ := ih room
    refine ⟨buf', ?_, ?_, ?_, ?_⟩
    · rw [markFrom, put_inside (by omega)]
      exact marked
    · rw [length, List.length_set]
    · intro j low
      rw [before j (by omega), List.getElem?_set_ne (by omega)]
    · intro j beyond
      rw [behind j (by omega), List.getElem?_set_ne (by omega)]

theorem markBit_some (inside : i + 1 < buf.length) (order : i2 ≤ i) (bit : UInt16) :
    markBit buf i i2 bit = some (((buf.set (i + 1) overwrite).set i overwrite).set i2 bit) := by
  rw [markBit, put_inside inside]
  dsimp only [Option.bind_eq_bind, Option.bind_some]
  rw [put_inside (by rw [List.length_set]; omega)]
  dsimp only [Option.bind_some]
  rw [put_inside (by rw [List.length_set, List.length_set]; omega)]

/-! ### What a pass leaves alone -/

/-- The state has moved forward; what lies before the first place that was written to and what
lies ahead is as it was. -/
structure Moved (from₀ : Nat) (s s' : State) : Prop where
  length : s'.buf.length = s.buf.length
  forward : s.i ≤ s'.i
  inside : s'.i ≤ s'.buf.length
  before : ∀ j < from₀, s'.buf[j]? = s.buf[j]?
  ahead : ∀ j, s'.i < j → s'.buf[j]? = s.buf[j]?

theorem search_some (inside : s.i ≤ s.buf.length)
    (bound : passes ≤ s.buf.length - preambleLen - s.i) :
    ∃ s', search passes s = some s' ∧ Moved s.i s s' ∧ (0 < passes → s.i < s'.i) := by
  induction passes generalizing s with
  | zero =>
    exact ⟨s, rfl, ⟨rfl, Nat.le_refl _, inside, fun _ _ => rfl, fun _ _ => rfl⟩, by omega⟩
  | succ passes ih =>
    have room : s.i + preambleLen ≤ s.buf.length := by omega
    have sixteen : preambleLen = 16 := rfl
    obtain ⟨found, looked⟩ := preamble_some room
    rw [search, looked]
    dsimp only [Option.bind_eq_bind, Option.bind_some]
    cases found with
    | true =>
      obtain ⟨buf', marked, length, before, behind⟩ := markFrom_some room
      rw [if_pos rfl, List.getElem?_eq_getElem (by omega), List.getElem?_eq_getElem (by omega)]
      dsimp only [Option.bind_some]
      rw [marked]
      refine ⟨_, rfl, ⟨length, by dsimp only; omega, by dsimp only; omega, before, ?_⟩, ?_⟩
      · intro j beyond
        exact behind j (Nat.le_of_lt beyond)
      · dsimp only
        omega
    | false =>
      obtain ⟨s', moves, moved, _⟩ :=
        ih (s := { s with i := s.i + 1 }) (by dsimp only; omega) (by dsimp only; omega)
      have forward : s.i + 1 ≤ s'.i := moved.forward
      rw [if_neg Bool.false_ne_true]
      refine ⟨s', moves, ⟨moved.length, by omega, moved.inside, ?_, moved.ahead⟩, fun _ => forward⟩
      intro j low
      exact moved.before j (Nat.lt_succ_of_lt low)

theorem Moved.trans {from₀ from₁ : Nat} {s' s'' : State} (first : Moved from₀ s s')
    (second : Moved from₁ s' s'') (order : from₀ ≤ from₁) :
    Moved from₀ s s'' where
  length := second.length.trans first.length
  forward := Nat.le_trans first.forward second.forward
  inside := second.inside
  before j low := (second.before j (by omega)).trans (first.before j low)
  ahead j beyond :=
    (second.ahead j beyond).trans (first.ahead j (Nat.lt_of_le_of_lt second.forward beyond))

/-- The budget of errors is used up before the first bit: only the sample at `i2` and the pair
for the comparison change. -/
def Stuck (quality : Int) (i2 : Nat) (s s' : State) : Prop :=
  ∃ c d, s.buf[s.i]? = some c ∧ s.buf[s.i + 1]? = some d ∧
    singleManchester quality s.a s.b c d = badSample ∧
      s' = { s with buf := s.buf.set i2 badSample, a := c, b := d }

def State.mark (s : State) (i2 : Nat) (bit a b : UInt16) : State where
  buf := ((s.buf.set (s.i + 1) overwrite).set s.i overwrite).set i2 bit
  i := s.i + 2
  a := a
  b := b

theorem moved_mark (inside : s.i + 1 < s.buf.length) (order : i2 ≤ s.i) (bit a b : UInt16) :
    Moved i2 s (s.mark i2 bit a b) where
  length := by simp only [State.mark, List.length_set]
  forward := Nat.le_add_right _ _
  inside := by
    simp only [State.mark, List.length_set]
    omega
  before j low := by
    rw [State.mark, List.getElem?_set_ne (by omega), List.getElem?_set_ne (by omega),
      List.getElem?_set_ne (by omega)]
  ahead j beyond := by
    have far : s.i + 2 < j := beyond
    rw [State.mark, List.getElem?_set_ne (by omega), List.getElem?_set_ne (by omega),
      List.getElem?_set_ne (by omega)]

theorem moved_stuck (inside : s.i ≤ s.buf.length) (order : i2 ≤ s.i) (a b : UInt16) :
    Moved i2 s { s with buf := s.buf.set i2 badSample, a, b } where
  length := List.length_set
  forward := Nat.le_refl _
  inside := by
    rw [List.length_set]
    exact inside
  before j low := List.getElem?_set_ne (by omega)
  ahead j beyond := by
    dsimp only at beyond
    exact List.getElem?_set_ne (by omega)

variable (quality allowedErrors : Int)

theorem decode_succ (errors : Int) (passes : Nat) {c d : UInt16} (readC : s.buf[s.i]? = some c)
    (readD : s.buf[s.i + 1]? = some d) (order : i2 ≤ s.i) :
    decode quality allowedErrors (passes + 1) i2 errors s =
      if singleManchester quality s.a s.b c d = badSample then
        if errors + 1 > allowedErrors then
          some { s with buf := s.buf.set i2 badSample, a := c, b := d }
        else decode quality allowedErrors passes (i2 + 1) (errors + 1)
          (s.mark i2 (if c > d then 1 else 0) 0 65535)
      else decode quality allowedErrors passes (i2 + 1) errors
        (s.mark i2 (singleManchester quality s.a s.b c d) c d) := by
  obtain ⟨pair, _⟩ := List.getElem?_eq_some_iff.mp readD
  have inside : i2 < s.buf.length := by omega
  rw [decode, readC, readD]
  dsimp only [Option.bind_eq_bind, Option.bind_some]
  rw [put_inside inside, markBit_some pair order, markBit_some pair order]
  rfl

theorem decode_some (errors : Int) (inside : s.i + 2 * passes ≤ s.buf.length) (order : i2 ≤ s.i) :
    ∃ s', decode quality allowedErrors passes i2 errors s = some s' ∧ Moved i2 s s' ∧
      (0 < passes → s.i < s'.i ∨ Stuck quality i2 s s') := by
  induction passes generalizing i2 errors s with
  | zero =>
    have bound : s.i ≤ s.buf.length := by omega
    exact ⟨s, rfl, ⟨rfl, Nat.le_refl _, bound, fun _ _ => rfl, fun _ _ => rfl⟩, by omega⟩
  | succ passes ih =>
    have pair : s.i + 1 < s.buf.length := by omega
    -- a marked bit leaves the loop with one pass less, two samples on
    have marks (errors' : Int) (bit a b : UInt16) :
        ∃ s', decode quality allowedErrors passes (i2 + 1) errors' (s.mark i2 bit a b) = some s' ∧
          Moved i2 s s' ∧ (0 < passes + 1 → s.i < s'.i ∨ Stuck quality i2 s s') := by
      have step := moved_mark pair order bit a b
      have next : (s.mark i2 bit a b).i = s.i + 2 := rfl
      have room : (s.mark i2 bit a b).i + 2 * passes ≤ (s.mark i2 bit a b).buf.length := by
        rw [step.length, next]
        omega
      have order' : i2 + 1 ≤ (s.mark i2 bit a b).i := by omega
      obtain ⟨s', decoded, moved, _⟩ := ih errors' room order'
      have further := moved.forward
      exact ⟨s', decoded, step.trans moved (Nat.le_succ i2), fun _ => .inl (by omega)⟩
    have readC := List.getElem?_eq_getElem (Nat.lt_of_succ_lt pair)
    have readD := List.getElem?_eq_getElem pair
    rw [decode_succ quality allowedErrors errors passes readC readD order]
    split
    next bad =>
      split
      next exhausted =>
        exact ⟨_, rfl, moved_stuck (by omega) order _ _,
          fun _ => .inr ⟨_, _, readC, readD, bad, rfl⟩⟩
      next => exact marks _ _ _ _
    next => exact marks _ _ _ _

/-- One pass of the outer loop moves on, or it is in the last 16 samples and stuck. -/
theorem pass_some (goes : s.i + 1 < s.buf.length) :
    ∃ s₁ s₂, search (s.buf.length - preambleLen - s.i) s = some s₁ ∧
      decode quality allowedErrors ((s₁.buf.length - s₁.i) / 2) s₁.i 0 s₁ = some s₂ ∧
        Moved s.i s s₂ ∧ (s.i < s₂.i ∨ s.buf.length ≤ s.i + 16 ∧ Stuck quality s.i s s₂) := by
  have inside : s.i ≤ s.buf.length := by omega
  obtain ⟨s₁, searched, moved₁, advances⟩ := search_some inside (Nat.le_refl _)
  have inside₁ := moved₁.inside
  have room : s₁.i + 2 * ((s₁.buf.length - s₁.i) / 2) ≤ s₁.buf.length := by omega
  obtain ⟨s₂, decoded, moved₂, marks⟩ :=
    decode_some quality allowedErrors 0 room (Nat.le_refl s₁.i)
  refine ⟨s₁, s₂, searched, decoded, moved₁.trans moved₂ moved₁.forward, ?_⟩
  have forward₂ := moved₂.forward
  by_cases searches : 0 < s.buf.length - preambleLen - s.i
  · exact .inl (Nat.lt_of_lt_of_le (advances searches) forward₂)
  · have none : s.buf.length - preambleLen - s.i = 0 := by omega
    have last : s.buf.length ≤ s.i + 16 := by
      rw [preambleLen] at none
      omega
    rw [none] at searched
    obtain rfl : s = s₁ := Option.some.inj searched
    exact (marks (by omega)).imp_right fun stuck => ⟨last, stuck⟩

/-! ### The third time -/

/-- A pair that starts with `BADSAMPLE` agrees with itself, whatever the quality. -/
theorem singleManchester_again {d : UInt16} (fair : d ≠ badSample) :
    singleManchester quality badSample d badSample d ≠ badSample := by
  rcases Nat.lt_or_gt_of_ne (fun same => fair (UInt16.toNat_inj.mp same)) with below | above
  · have bit : d < badSample := UInt16.lt_iff_toNat_lt.mpr below
    have order : ¬ badSample < d := UInt16.lt_asymm bit
    simp only [singleManchester, gt_iff_lt, bit, order, decide_true, decide_false, Bool.and_true,
      Bool.and_false, Bool.not_true, Bool.false_eq_true, if_true, if_false]
    split_ifs <;> decide
  · have bit : badSample < d := UInt16.lt_iff_toNat_lt.mpr above
    have order : ¬ d < badSample := UInt16.lt_asymm bit
    simp only [singleManchester, gt_iff_lt, bit, order, decide_true, decide_false, Bool.and_true,
      Bool.and_false, Bool.not_false, Bool.false_eq_true, if_true, if_false]
    split_ifs <;> decide

/-- What the outer loop has left behind when it comes back to the same pair for the `k`-th
time. -/
def Waits (s : State) : Nat → Prop
  | 0 => True
  | 1 => s.buf[s.i]? = some badSample ∧ s.buf[s.i + 1]? = some s.b
  | _ => s.a = badSample ∧ s.buf[s.i]? = some badSample ∧ s.buf[s.i + 1]? = some s.b

theorem stuck_waits {quality : Int} {s' : State} (stuck : Stuck quality s.i s s')
    (waits : Waits s k) (fair : s.buf[s.i + 1]? ≠ some badSample) :
    k < 2 ∧ s'.i = s.i ∧ Waits s' (k + 1) := by
  obtain ⟨c, d, readC, readD, bad, rfl⟩ := stuck
  obtain ⟨inside, _⟩ := List.getElem?_eq_some_iff.mp readC
  have self : (s.buf.set s.i badSample)[s.i]? = some badSample := List.getElem?_set_self inside
  have next : (s.buf.set s.i badSample)[s.i + 1]? = some d := by
    rw [List.getElem?_set_ne (by omega), readD]
  match k, waits with
  | 0, _ => exact ⟨by omega, rfl, self, next⟩
  | 1, ⟨first, _⟩ =>
    have same : c = badSample := Option.some.inj (readC.symm.trans first)
    exact ⟨by omega, rfl, same, self, next⟩
  | k + 2, ⟨held, first, second⟩ =>
    have sameC : c = badSample := Option.some.inj (readC.symm.trans first)
    have sameD : d = s.b := Option.some.inj (readD.symm.trans second)
    subst sameC sameD
    rw [held] at bad
    exact absurd bad (singleManchester_again quality fun is => fair (is ▸ readD))

/-- Three passes of the outer loop for each sample are enough when none of the last 15 samples
has the value of `BADSAMPLE`. What lies behind the state is not written to again. -/
theorem manchesterLoop_some (inside : s.i ≤ s.buf.length)
    (fair : ∀ j, s.i < j → s.buf.length ≤ j + 15 → s.buf[j]? ≠ some badSample) (waits : Waits s k)
    (times : k ≤ 2) (enough : 3 * (s.buf.length - s.i) + 3 ≤ passes + k) :
    ∃ out, manchesterLoop quality allowedErrors passes s = some out ∧
      out.length = s.buf.length ∧ ∀ j < s.i, out[j]? = s.buf[j]? := by
  -- the measure falls by three where the loop moves on, and by one where it is stuck
  induction passes generalizing s k with
  | zero => omega
  | succ passes ih =>
    rw [manchesterLoop]
    by_cases goes : s.i + 1 < s.buf.length
    · obtain ⟨s₁, s₂, searched, decoded, moved, how⟩ := pass_some quality allowedErrors goes
      have length := moved.length
      have fair₂ : ∀ j, s₂.i < j → s₂.buf.length ≤ j + 15 → s₂.buf[j]? ≠ some badSample := by
        intro j beyond last
        rw [moved.ahead j beyond]
        exact fair j (Nat.lt_of_le_of_lt moved.forward beyond) (length ▸ last)
      -- three passes are left for each sample ahead, less those already spent on this one
      have left : ∃ k', Waits s₂ k' ∧ k' ≤ 2 ∧ 3 * (s₂.buf.length - s₂.i) + 3 ≤ passes + k' := by
        rcases how with further | ⟨last, stuck⟩
        · exact ⟨0, trivial, Nat.zero_le 2, by omega⟩
        · obtain ⟨again, same, waits₂⟩ :=
            stuck_waits stuck waits (fair (s.i + 1) (Nat.lt_succ_self _) (by omega))
          exact ⟨k + 1, waits₂, again, by omega⟩
      obtain ⟨k', waits', times', enough'⟩ := left
      obtain ⟨out, done, length', before⟩ := ih moved.inside fair₂ waits' times' enough'
      rw [if_pos goes, searched]
      dsimp only [Option.bind_eq_bind, Option.bind_some]
      rw [decoded]
      refine ⟨out, done, length'.trans length, fun j low => ?_⟩
      exact (before j (Nat.lt_of_lt_of_le low moved.forward)).trans (moved.before j low)
    · exact ⟨s.buf, if_neg goes, rfl, fun _ _ => rfl⟩

/-! ### Termination -/

theorem squares_toNat (i : UInt8) : ∃ j ≤ 128, (squares i).toNat = j * j := by
  have byte := i.toNat_lt
  obtain ⟨j, small, same⟩ : ∃ j : Nat, j ≤ 128 ∧ abs8 i.toNat = j := by
    rw [abs8]
    split
    · exact ⟨i.toNat - 127, by omega, by omega⟩
    · exact ⟨127 - i.toNat, by omega, by omega⟩
  have bound : j * j ≤ 128 * 128 := Nat.mul_le_mul small small
  refine ⟨j, small, ?_⟩
  rw [squares, same, ← Int.natCast_mul, UInt16.ofInt]
  generalize j * j = square at bound ⊢
  have kept : ((square : Int) % 2 ^ 16).toNat = square := by omega
  have fits : square < 2 ^ 16 := by omega
  rw [kept, UInt16.toNat_ofNat_of_lt' fits]

theorem squares_add_ne (i q : UInt8) : squares i + squares q ≠ badSample := by
  obtain ⟨j, smallJ, isJ⟩ := squares_toNat i
  obtain ⟨k, smallK, isK⟩ := squares_toNat q
  have boundJ : j * j ≤ 128 * 128 := Nat.mul_le_mul smallJ smallJ
  have boundK : k * k ≤ 128 * 128 := Nat.mul_le_mul smallK smallK
  intro bad
  have sum : j * j + k * k = 255 := by
    have wrapped := congrArg UInt16.toNat bad
    rw [UInt16.toNat_add, isJ, isK, Nat.mod_eq_of_lt (by omega)] at wrapped
    exact wrapped
  have mod4 (n : Nat) : n * n % 4 = 0 ∨ n * n % 4 = 1 := by
    have residue : n % 4 = 0 ∨ n % 4 = 1 ∨ n % 4 = 2 ∨ n % 4 = 3 := by omega
    rw [Nat.mul_mod]
    rcases residue with is | is | is | is <;> rw [is] <;> decide
  have modJ := mod4 j
  have modK := mod4 k
  omega

theorem magnitute_fair (iq : List UInt8) : badSample ∉ magnitute iq := by
  fun_induction magnitute iq with
  | case1 i q rest ih =>
    rw [List.mem_cons, not_or]
    exact ⟨(squares_add_ne i q).symm, ih⟩
  | case2 => exact List.not_mem_nil
  | case3 => exact List.not_mem_nil

/-- `manchester` ends, without an access outside of the buffer, on the magnitudes of any bytes,
whatever the quality and the number of allowed errors. -/
theorem manchester_ends (quality allowedErrors : Int) (iq : List UInt8) {passes : Nat}
    (enough : 3 * (magnitute iq).length + 3 ≤ passes) :
    ∃ out, manchester quality allowedErrors passes (magnitute iq) = some out ∧
      out.length = (magnitute iq).length := by
  have fair : ∀ j, 0 < j → (magnitute iq).length ≤ j + 15 →
      (magnitute iq)[j]? ≠ some badSample := by
    intro j _ _ bad
    exact magnitute_fair iq (List.mem_of_getElem? bad)
  obtain ⟨out, done, length, _⟩ := manchesterLoop_some quality allowedErrors (k := 0)
    (s := { buf := magnitute iq, i := 0, a := 0, b := 0 }) (Nat.zero_le _) fair trivial
    (Nat.zero_le 2) enough
  exact ⟨out, done, length⟩

/-- Sixteen samples without a preamble, where the first pair already uses up the errors. -/
theorem manchester_ends_silence :
    ∃ out, manchester 10 (-1) 51 (magnitute (List.replicate 32 127)) = some out ∧
      out.length = (magnitute (List.replicate 32 127)).length :=
  manchester_ends 10 (-1) (List.replicate 32 127) (by decide)

end RtlSdr.Adsb
