import Mathlib.Algebra.Group.Nat.Defs
import Mathlib.Data.List.TakeWhile

/-!
# Sending a frame (`rtlsdr_stream_sendv` in `rtl_stream_server.c`)

One or two pieces of memory go to a socket that takes as much of them at a time as it likes. A byte
is followed by its address, so that what is sent is compared with the pieces and what the socket is
shown with their bounds.
-/
namespace RtlSdr

/-- `struct iovec`. -/
structure Iovec where
  iovBase : Nat
  iovLen : UInt64
deriving DecidableEq, Repr

/-- The addresses of the bytes of a piece. -/
def Iovec.addresses (v : Iovec) : List Nat :=
  (List.range v.iovLen.toNat).map fun k => v.iovBase + k

/-- The addresses of the concatenation of pieces. -/
def addresses (iov : List Iovec) : List Nat := iov.flatMap Iovec.addresses

def bytesAt (mem : Nat → UInt8) (at_ : List Nat) : List UInt8 := at_.map mem

/-- The result of `sendmsg`: an error after which the call tries again (`EINTR`, `EAGAIN`),
another error, 0, or the number of bytes that were taken, which is at least one and at most
all there are, and fits into `ssize_t`. -/
inductive Sendmsg
  | again
  | failed
  | nothing
  | took (most : Nat)
deriving DecidableEq, Repr

/-- What the socket does in one round of the loop: whether `wait_socket` succeeds, and what
`sendmsg` returns if it does. -/
structure Turn where
  ready : Bool
  sendmsg : Sendmsg
deriving DecidableEq, Repr

def ssizeMax : Nat := 2 ^ 63 - 1

/-- The bytes a `sendmsg` takes of those it is shown. -/
def tookCount (most : Nat) (shown : List Nat) : Nat := min (most + 1) (min shown.length ssizeMax)

/-- The local variables of the call, the caller's array, and what the socket has seen. -/
structure Sendv where
  iov : List Iovec
  pending : List Iovec
  first : Nat
  /-- The addresses of the bytes the socket has accepted. -/
  accepted : List Nat
  /-- The addresses that were handed to `sendmsg`. -/
  shown : List Nat
deriving DecidableEq, Repr

/-- `while (first < count && pending[first].iov_len == 0) first++`. -/
def skipEmpty (pending : List Iovec) (first : Nat) : Nat :=
  first + ((pending.drop first).takeWhile fun v => v.iovLen = 0).length

/-- `while (first < count && (size_t)n >= pending[first].iov_len)`, over the pieces from
`first` on. -/
def passWhole (n : Int64) (first : Nat) : List Iovec → Nat × Int64
  | [] => (first, n)
  | v :: rest =>
    if n.toUInt64 ≥ v.iovLen then passWhole (n.toUInt64 - v.iovLen).toInt64 (first + 1) rest
    else (first, n)

/-- Cut the first `n` bytes off a piece. -/
def Iovec.cut (v : Iovec) (n : Int64) : Iovec :=
  ⟨v.iovBase + n.toUInt64.toNat, v.iovLen - n.toUInt64⟩

/-- What follows a `sendmsg` that took `n` bytes. -/
def advance (pending : List Iovec) (first : Nat) (n : Int64) : List Iovec × Nat :=
  let passed := passWhole n first (pending.drop first)
  -- `if (first < count)`
  match pending[passed.1]? with
  | none => (pending, passed.1)
  | some v => (pending.set passed.1 (v.cut passed.2), passed.1)

/-- One round of the loop with a piece in turn; the result is `none` if the loop goes on. -/
def sendvRound (s : Sendv) (turn : Turn) : Option Int × Sendv :=
  if turn.ready = false then (some (-1), s)
  else
    let offer := addresses (s.pending.drop s.first)
    let s := { s with shown := s.shown ++ offer }
    match turn.sendmsg with
    | .again => (none, s)
    | .failed => (some (-1), s)
    -- `errno = EPIPE`
    | .nothing => (some (-1), s)
    | .took most =>
      let n := tookCount most offer
      let moved := advance s.pending s.first (UInt64.ofNat n).toInt64
      (none,
        { s with
          pending := moved.1
          first := moved.2
          accepted := s.accepted ++ offer.take n })

/-- The loop, with the socket's turns. The result is `none` while it has not returned. -/
def sendvLoop (s : Sendv) : List Turn → Option Int × Sendv
  | [] =>
    let s := { s with first := skipEmpty s.pending s.first }
    if s.first < s.pending.length then (none, s) else (some 0, s)
  | turn :: turns =>
    let s := { s with first := skipEmpty s.pending s.first }
    if s.first < s.pending.length then
      match sendvRound s turn with
      | (none, s) => sendvLoop s turns
      | returned => returned
    else (some 0, s)

/-- `rtlsdr_stream_sendv`; `prepared` says whether the calls of `fcntl` and `setsockopt`
succeed. -/
def rtlsdrStreamSendv (prepared : Bool) (iov : List Iovec) (turns : List Turn) :
    Option Int × Sendv :=
  -- the copy of the array
  let s : Sendv := { iov, pending := iov, first := 0, accepted := [], shown := [] }
  if iov.length < 1 ∨ iov.length > 2 then (some (-1), s)
  else if prepared = false then (some (-1), s)
  else sendvLoop s turns

/-! ### One round -/

@[simp] theorem addresses_nil : addresses [] = [] := rfl

@[simp] theorem addresses_cons (v : Iovec) (iov : List Iovec) :
    addresses (v :: iov) = v.addresses ++ addresses iov := rfl

@[simp] theorem Iovec.addresses_length (v : Iovec) : v.addresses.length = v.iovLen.toNat := by
  simp [Iovec.addresses]

theorem Iovec.addresses_cut (v : Iovec) (n : Int64) (less : n.toUInt64.toNat < v.iovLen.toNat) :
    (v.cut n).addresses = v.addresses.drop n.toUInt64.toNat := by
  have left : (v.iovLen - n.toUInt64).toNat = v.iovLen.toNat - n.toUInt64.toNat :=
    UInt64.toNat_sub_of_le _ _ (UInt64.le_iff_toNat_le.mpr (Nat.le_of_lt less))
  apply List.ext_getElem
  · simp [Iovec.cut, left]
  · intro i _ _
    simp only [Iovec.addresses, Iovec.cut, List.getElem_map, List.getElem_range,
      List.getElem_drop]
    omega

theorem addresses_skipEmpty (pending : List Iovec) (first : Nat) :
    addresses (pending.drop (skipEmpty pending first)) = addresses (pending.drop first) := by
  rw [skipEmpty, ← List.drop_drop]
  generalize pending.drop first = rest
  induction rest with
  | nil => rfl
  | cons v rest ih =>
    by_cases empty : v.iovLen = 0
    · rw [List.takeWhile_cons_of_pos (by simpa using empty), List.length_cons,
        List.drop_succ_cons, ih, addresses_cons]
      simp [Iovec.addresses, empty]
    · rw [List.takeWhile_cons_of_neg (by simpa using empty)]
      rfl

theorem skipEmpty_nonempty (pending : List Iovec) (first : Nat)
    (more : skipEmpty pending first < pending.length) :
    addresses (pending.drop (skipEmpty pending first)) ≠ [] := by
  rw [skipEmpty, ← List.drop_drop]
  have left : ((pending.drop first).takeWhile fun v => v.iovLen = 0).length <
      (pending.drop first).length := by
    rw [List.length_drop]
    unfold skipEmpty at more
    omega
  generalize pending.drop first = rest at left ⊢
  induction rest with
  | nil => simp at left
  | cons v rest ih =>
    by_cases empty : v.iovLen = 0
    · rw [List.takeWhile_cons_of_pos (by simpa using empty)] at left ⊢
      simp only [List.length_cons, Nat.succ_lt_succ_iff] at left
      exact ih left
    · rw [List.takeWhile_cons_of_neg (by simpa using empty)]
      intro none
      have length := congrArg List.length none
      simp only [List.length_nil, List.drop_zero, addresses_cons, List.length_append,
        Iovec.addresses_length] at length
      exact empty (UInt64.toNat_inj.mp (show v.iovLen.toNat = 0 by omega))

/-- `(size_t)n` is reduced by the pieces that are passed; the bytes behind are those of the
rest, with the front of the first one cut off. -/
theorem addresses_passWhole (n : Int64) (first : Nat) (rest : List Iovec)
    (few : n.toUInt64.toNat ≤ (addresses rest).length) :
    ∃ whole, whole ≤ rest.length ∧ (passWhole n first rest).1 = first + whole ∧
      match rest[whole]? with
      | none => (addresses rest).drop n.toUInt64.toNat = []
      | some v => (passWhole n first rest).2.toUInt64.toNat < v.iovLen.toNat ∧
          (addresses rest).drop n.toUInt64.toNat =
            addresses (v.cut (passWhole n first rest).2 :: rest.drop (whole + 1)) := by
  induction rest generalizing n first with
  | nil => exact ⟨0, Nat.le_refl 0, rfl, by simp⟩
  | cons v rest ih =>
    rw [addresses_cons, List.length_append, Iovec.addresses_length] at few
    rw [passWhole]
    by_cases enough : n.toUInt64 ≥ v.iovLen
    · have atLeast : v.iovLen.toNat ≤ n.toUInt64.toNat := UInt64.le_iff_toNat_le.mp enough
      -- the subtraction is in `size_t`, and its result goes back into `ssize_t`
      have left : (n.toUInt64 - v.iovLen).toInt64.toUInt64.toNat =
          n.toUInt64.toNat - v.iovLen.toNat := by
        rw [UInt64.toUInt64_toInt64, UInt64.toNat_sub_of_le _ _ enough]
      obtain ⟨whole, inside, moved, tail⟩ :=
        ih (n.toUInt64 - v.iovLen).toInt64 (first + 1) (by rw [left]; omega)
      rw [if_pos enough]
      refine ⟨whole + 1, Nat.succ_le_succ inside, by omega, ?_⟩
      have behind : (addresses (v :: rest)).drop n.toUInt64.toNat =
          (addresses rest).drop (n.toUInt64.toNat - v.iovLen.toNat) := by
        rw [addresses_cons, List.drop_append, List.drop_of_length_le (by simpa using atLeast),
          Iovec.addresses_length, List.nil_append]
      rw [List.getElem?_cons_succ, behind, ← left]
      exact tail
    · have less : n.toUInt64.toNat < v.iovLen.toNat :=
        Nat.lt_of_not_le fun le => enough (UInt64.le_iff_toNat_le.mpr le)
      rw [if_neg enough]
      refine ⟨0, Nat.zero_le _, rfl, less, ?_⟩
      rw [addresses_cons, addresses_cons, v.addresses_cut n less, List.drop_append_of_le_length]
      · rfl
      · rw [Iovec.addresses_length]
        exact Nat.le_of_lt less

theorem addresses_advance (pending : List Iovec) (first : Nat) (n : Int64)
    (few : n.toUInt64.toNat ≤ (addresses (pending.drop first)).length) :
    addresses ((advance pending first n).1.drop (advance pending first n).2) =
      (addresses (pending.drop first)).drop n.toUInt64.toNat := by
  obtain ⟨whole, _, moved, tail⟩ := addresses_passWhole n first (pending.drop first) few
  rw [List.getElem?_drop, ← moved] at tail
  unfold advance
  dsimp only
  cases here : pending[(passWhole n first (pending.drop first)).1]? with
  | none =>
    rw [here] at tail
    rw [tail, List.drop_of_length_le (List.getElem?_eq_none_iff.mp here)]
    rfl
  | some v =>
    rw [here] at tail
    obtain ⟨inside, _⟩ := List.getElem?_eq_some_iff.mp here
    rw [tail.2, List.drop_drop]
    dsimp only
    rw [List.drop_eq_getElem_cons (by simpa using inside), List.getElem_set_self,
      List.drop_set_of_lt (Nat.lt_succ_self _), moved]
    rfl

/-! ### The loop -/

/-- What the socket has accepted and what is left make up the pieces. -/
structure Sending (iov : List Iovec) (s : Sendv) : Prop where
  unmodified : s.iov = iov
  split : s.accepted ++ addresses (s.pending.drop s.first) = addresses iov
  inside : ∀ a ∈ s.shown, a ∈ addresses iov

variable {iov : List Iovec} {s : Sendv}

theorem Sending.skip (sending : Sending iov s) :
    Sending iov { s with first := skipEmpty s.pending s.first } where
  unmodified := sending.unmodified
  split := by
    rw [addresses_skipEmpty]
    exact sending.split
  inside := sending.inside

/-- A turn with which the call tries again. -/
def Turn.retries (turn : Turn) : Bool := turn.ready && turn.sendmsg = .again

/-- What a round with something left to send comes to. -/
structure RoundOf (iov : List Iovec) (s : Sendv) (turn : Turn) (out : Option Int × Sendv) :
    Prop where
  sending : Sending iov out.2
  /-- It returns only because of an error, with something left. -/
  returns : ∀ r, out.1 = some r → r = -1 ∧ addresses (out.2.pending.drop out.2.first) ≠ []
  /-- It goes on only after bytes were taken, or to try again. -/
  goesOn : out.1 = none →
    (addresses (out.2.pending.drop out.2.first)).length + (if turn.retries then 0 else 1) ≤
      (addresses (s.pending.drop s.first)).length

theorem sendvRound_of (sending : Sending iov s) (left : addresses (s.pending.drop s.first) ≠ [])
    (turn : Turn) : RoundOf iov s turn (sendvRound s turn) := by
  have shown : Sending iov { s with shown := s.shown ++ addresses (s.pending.drop s.first) } := by
    refine ⟨sending.unmodified, sending.split, ?_⟩
    intro a member
    rcases List.mem_append.mp member with before | now
    · exact sending.inside a before
    · rw [← sending.split]
      exact List.mem_append_right _ now
  unfold sendvRound
  by_cases waits : turn.ready = false
  · rw [if_pos waits]
    exact ⟨sending, by rintro r ⟨⟩; exact ⟨rfl, left⟩, nofun⟩
  · rw [if_neg waits]
    have ready : turn.ready = true := by simpa using waits
    dsimp only
    cases answer : turn.sendmsg with
    | again =>
      refine ⟨shown, nofun, fun _ => ?_⟩
      rw [if_pos (by simp [Turn.retries, ready, answer])]
      exact Nat.le_refl _
    | failed | nothing => exact ⟨shown, by rintro r ⟨⟩; exact ⟨rfl, left⟩, nofun⟩
    | took most =>
      have some : 0 < (addresses (s.pending.drop s.first)).length := List.length_pos_iff.mpr left
      generalize offered : addresses (s.pending.drop s.first) = offer at shown some
      -- the count is a positive `ssize_t`
      have count : 1 ≤ tookCount most offer ∧ tookCount most offer ≤ offer.length ∧
          tookCount most offer < 2 ^ 63 := by
        unfold tookCount ssizeMax
        omega
      have value : (UInt64.ofNat (tookCount most offer)).toInt64.toUInt64.toNat =
          tookCount most offer := by
        rw [UInt64.toUInt64_toInt64]
        exact UInt64.toNat_ofNat_of_lt' (show _ < 2 ^ 64 by omega)
      have moved := addresses_advance s.pending s.first
        (UInt64.ofNat (tookCount most offer)).toInt64 (by rw [value, offered]; exact count.2.1)
      rw [value, offered] at moved
      refine ⟨⟨sending.unmodified, ?_, shown.inside⟩, nofun, fun _ => ?_⟩
      · dsimp only
        rw [moved, List.append_assoc, List.take_append_drop, ← offered]
        exact sending.split
      · dsimp only
        rw [moved, offered, List.length_drop]
        split <;> omega

theorem sendvLoop_spec (sending : Sending iov s) (turns : List Turn) :
    Sending iov (sendvLoop s turns).2 ∧
      ((sendvLoop s turns).1 = some 0 ↔
        addresses ((sendvLoop s turns).2.pending.drop (sendvLoop s turns).2.first) = []) ∧
      ((sendvLoop s turns).1 = none →
        (turns.countP fun turn => !turn.retries) <
          (addresses (s.pending.drop s.first)).length) := by
  induction turns generalizing s with
  | nil =>
    rw [sendvLoop]
    dsimp only
    split
    · next more =>
      have left := skipEmpty_nonempty _ _ more
      refine ⟨sending.skip, iff_of_false nofun left, fun _ => ?_⟩
      rw [← addresses_skipEmpty]
      exact List.length_pos_iff.mpr left
    · next done =>
      refine ⟨sending.skip, iff_of_true rfl ?_, nofun⟩
      rw [List.drop_of_length_le (Nat.le_of_not_lt done)]
      rfl
  | cons turn turns ih =>
    rw [sendvLoop]
    dsimp only
    split
    · next more =>
      have left := skipEmpty_nonempty _ _ more
      obtain ⟨next, returns, goesOn⟩ := sendvRound_of sending.skip left turn
      generalize sendvRound { s with first := skipEmpty s.pending s.first } turn = out
        at next returns goesOn ⊢
      obtain ⟨r, s'⟩ := out
      cases r with
      | none =>
        obtain ⟨sent, finished, running⟩ := ih next
        refine ⟨sent, finished, fun still => ?_⟩
        have fewer : _ < (addresses (s'.pending.drop s'.first)).length := running still
        have moved := goesOn rfl
        rw [addresses_skipEmpty] at moved
        dsimp only at fewer moved
        rw [List.countP_cons]
        by_cases retries : turn.retries
        · rw [if_pos retries] at moved
          simp only [retries, Bool.not_true, Bool.false_eq_true, if_false]
          omega
        · rw [if_neg retries] at moved
          simp only [retries, Bool.not_false, if_true]
          omega
      | some r =>
        obtain ⟨failed, left'⟩ := returns r rfl
        subst failed
        exact ⟨next, iff_of_false nofun left', nofun⟩
    · next done =>
      refine ⟨sending.skip, iff_of_true rfl ?_, nofun⟩
      rw [List.drop_of_length_le (Nat.le_of_not_lt done)]
      rfl

theorem mem_addresses (iov : List Iovec) (a : Nat) :
    a ∈ addresses iov ↔ ∃ v ∈ iov, v.iovBase ≤ a ∧ a < v.iovBase + v.iovLen.toNat := by
  simp only [addresses, Iovec.addresses, List.mem_flatMap, List.mem_map, List.mem_range]
  constructor
  · rintro ⟨v, member, k, inside, rfl⟩
    exact ⟨v, member, by omega, by omega⟩
  · rintro ⟨v, member, low, high⟩
    exact ⟨v, member, a - v.iovBase, by omega, by omega⟩

/-- **Sending a frame**: whatever the socket does, it accepts a prefix of the pieces laid end to
end, all of it exactly if the call returns 0; only bytes of the pieces are read, and the
caller's array stays as it is. The call has returned once there were as many turns as bytes
with which it does not just try again. -/
theorem stream_sendv (mem : Nat → UInt8) (iov : List Iovec) (one : 1 ≤ iov.length)
    (two : iov.length ≤ 2) (turns : List Turn) :
    let out := rtlsdrStreamSendv true iov turns
    bytesAt mem out.2.accepted <+: bytesAt mem (addresses iov) ∧
      (out.1 = some 0 ↔ bytesAt mem out.2.accepted = bytesAt mem (addresses iov)) ∧
      (∀ a ∈ out.2.shown, ∃ v ∈ iov, v.iovBase ≤ a ∧ a < v.iovBase + v.iovLen.toNat) ∧
      out.2.iov = iov ∧
      (out.1 = none → (turns.countP fun turn => !turn.retries) < (addresses iov).length) := by
  have start : Sending iov { iov, pending := iov, first := 0, accepted := [], shown := [] } :=
    ⟨rfl, rfl, nofun⟩
  have loop : rtlsdrStreamSendv true iov turns =
      sendvLoop { iov, pending := iov, first := 0, accepted := [], shown := [] } turns := by
    rw [rtlsdrStreamSendv, if_neg (by omega), if_neg nofun]
  obtain ⟨sending, finished, running⟩ := sendvLoop_spec start turns
  rw [loop]
  generalize sendvLoop { iov, pending := iov, first := 0, accepted := [], shown := [] } turns = out
    at sending finished running ⊢
  have parts := congrArg (bytesAt mem) sending.split
  rw [bytesAt, List.map_append] at parts
  refine ⟨⟨_, parts⟩, ?_, ?_, sending.unmodified, running⟩
  · rw [finished]
    constructor
    · intro none
      rw [none, List.map_nil, List.append_nil] at parts
      exact parts
    · intro all
      -- nothing is left, by the lengths
      have length := congrArg List.length all
      rw [← parts, List.length_append, bytesAt, List.length_map, List.length_map] at length
      exact List.length_eq_zero_iff.mp (by omega)
  · intro a member
    exact (mem_addresses iov a).mp (sending.inside a member)

/-- A header and a payload: the first `sendmsg` ends between them, the second is interrupted. -/
theorem stream_sendv_two_pieces :
    let out := rtlsdrStreamSendv true [⟨100, 2⟩, ⟨200, 3⟩]
      [⟨true, .took 1⟩, ⟨true, .again⟩, ⟨true, .took 0⟩, ⟨true, .took 9⟩]
    out.1 = some 0 ∧ bytesAt Nat.toUInt8 out.2.accepted = [100, 101, 200, 201, 202] :=
  ⟨by decide, (stream_sendv Nat.toUInt8 [⟨100, 2⟩, ⟨200, 3⟩] (by decide) (by decide)
    [⟨true, .took 1⟩, ⟨true, .again⟩, ⟨true, .took 0⟩, ⟨true, .took 9⟩]).2.1.mp (by decide)⟩

end RtlSdr
