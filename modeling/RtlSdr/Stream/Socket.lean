import Mathlib.Data.List.Basic

/-!
# A stream socket seen from one end

The peer's bytes are a finite list followed by end of file, or by nothing the model looks at.
`recvSizes` and `sendAnswers` list how the kernel answers each call; quantifying over them
quantifies over every way of fragmenting, coalescing and interrupting the transfers.
-/
namespace RtlSdr

/-- How the kernel answers one `send`. -/
inductive SendAnswer
  | interrupted
  | refused
  | accepted (atMost : Nat)
deriving DecidableEq, Repr

structure Socket where
  /-- Bytes of the peer that no `recv` has returned yet. -/
  incoming : List UInt8
  /-- Zero is `EINTR`, `n + 1` at most `n + 1` bytes. -/
  recvSizes : List Nat
  /-- Bytes the kernel has accepted for the peer. -/
  outgoing : List UInt8
  sendAnswers : List SendAnswer
deriving DecidableEq, Repr

/-- The loop of `recv_all` under the kernel's decisions: the bytes it stores, and
whether that is all of them (the return value 0). -/
def recvLoop : List Nat → Socket → Nat → Socket × List UInt8 × Bool
  | sizes, s, 0 => ({ s with recvSizes := sizes }, [], true)
  | [], s, left =>
    -- one full `recv`, and end of file on the next one if it was short
    ({ s with incoming := s.incoming.drop left, recvSizes := [] }, s.incoming.take left,
      decide (left ≤ s.incoming.length))
  | 0 :: sizes, s, left => recvLoop sizes s left
  | (size + 1) :: sizes, s, left =>
    if s.incoming = [] then ({ s with recvSizes := sizes }, [], false)
    else
      let got := s.incoming.take (min (size + 1) left)
      let (s, rest, whole) := recvLoop sizes { s with incoming := s.incoming.drop got.length }
        (left - got.length)
      (s, got ++ rest, whole)

def recvAll (s : Socket) (len : Nat) : Socket × List UInt8 × Bool := recvLoop s.recvSizes s len

private theorem recvLoop_spec (decisions : List Nat) (s : Socket) (len : Nat) :
    ∃ sizes, recvLoop decisions s len =
      ({ s with incoming := s.incoming.drop len, recvSizes := sizes }, s.incoming.take len,
        decide (len ≤ s.incoming.length)) := by
  induction decisions generalizing s len with
  | nil =>
    cases len with
    | zero => exact ⟨[], by simp [recvLoop]⟩
    | succ len => exact ⟨[], rfl⟩
  | cons size sizes ih =>
    cases len with
    | zero => exact ⟨size :: sizes, by simp [recvLoop]⟩
    | succ len =>
      cases size with
      | zero => exact ih s (len + 1)
      | succ size =>
        rw [recvLoop]
        · by_cases drained : s.incoming = []
          · rw [if_pos drained]
            exact ⟨sizes, by simp [drained]⟩
          · rw [if_neg drained]
            -- the piece this `recv` returns, then the rest by induction
            have count : (s.incoming.take (min (size + 1) (len + 1))).length ≤ s.incoming.length ∧
                (s.incoming.take (min (size + 1) (len + 1))).length ≤ len + 1 := by
              rw [List.length_take]
              omega
            have same : s.incoming.take (min (size + 1) (len + 1)) =
                s.incoming.take (s.incoming.take (min (size + 1) (len + 1))).length := by
              rw [List.length_take, List.take_eq_take_iff]
              omega
            generalize s.incoming.take (min (size + 1) (len + 1)) = got at count same
            obtain ⟨sizes', rest⟩ :=
              ih { s with incoming := s.incoming.drop got.length } (len + 1 - got.length)
            refine ⟨sizes', ?_⟩
            simp only [rest, List.drop_drop, Nat.add_sub_of_le count.2, Prod.mk.injEq, true_and]
            constructor
            · calc got ++ (s.incoming.drop got.length).take (len + 1 - got.length)
                  = s.incoming.take got.length ++
                      (s.incoming.drop got.length).take (len + 1 - got.length) := by rw [← same]
                _ = s.incoming.take (len + 1) := by
                    rw [← List.take_add, Nat.add_sub_of_le count.2]
            · rw [List.length_drop, decide_eq_decide]
              omega
        · simp

/-- Whatever the fragmentation, `recv_all` takes exactly the next `len` bytes, or all
there are when the stream ends first. -/
theorem recvAll_spec (s : Socket) (len : Nat) :
    ∃ sizes, recvAll s len =
      ({ s with incoming := s.incoming.drop len, recvSizes := sizes }, s.incoming.take len,
        decide (len ≤ s.incoming.length)) :=
  recvLoop_spec _ s len

/-- A single read, as Go's runtime makes it: `EINTR` is retried inside, and an empty
answer is end of file. -/
def readLoop : List Nat → Socket → Nat → Socket × List UInt8
  | [], s, len =>
    ({ s with incoming := s.incoming.drop len, recvSizes := [] }, s.incoming.take len)
  | 0 :: sizes, s, len => readLoop sizes s len
  | (size + 1) :: sizes, s, len =>
    ({ s with incoming := s.incoming.drop (min (size + 1) len), recvSizes := sizes },
      s.incoming.take (min (size + 1) len))

def readOnce (s : Socket) (len : Nat) : Socket × List UInt8 := readLoop s.recvSizes s len

private theorem readLoop_spec (decisions : List Nat) (s : Socket) (len : Nat) :
    ∃ sizes count, count ≤ len ∧ (0 < len → 0 < count) ∧ readLoop decisions s len =
      ({ s with incoming := s.incoming.drop count, recvSizes := sizes },
        s.incoming.take count) := by
  induction decisions with
  | nil => exact ⟨[], len, Nat.le_refl _, id, rfl⟩
  | cons size sizes ih =>
    cases size with
    | zero => exact ih
    | succ size =>
      refine ⟨sizes, min (size + 1) len, Nat.min_le_right _ _, fun some => ?_, rfl⟩
      exact Nat.lt_min.mpr ⟨Nat.succ_pos _, some⟩

theorem readOnce_spec (s : Socket) (len : Nat) :
    ∃ sizes count, count ≤ len ∧ (0 < len → 0 < count) ∧ readOnce s len =
      ({ s with incoming := s.incoming.drop count, recvSizes := sizes },
        s.incoming.take count) :=
  readLoop_spec _ s len

/-! ### Sending -/

def sendLoop : List SendAnswer → Socket → List UInt8 → Socket × Bool
  | answers, s, [] => ({ s with sendAnswers := answers }, true)
  | [], s, buf => ({ s with outgoing := s.outgoing ++ buf, sendAnswers := [] }, true)
  | .interrupted :: answers, s, buf => sendLoop answers s buf
  | .refused :: answers, s, _ => ({ s with sendAnswers := answers }, false)
  | .accepted 0 :: answers, s, _ => ({ s with sendAnswers := answers }, false)
  | .accepted (most + 1) :: answers, s, buf =>
    sendLoop answers { s with outgoing := s.outgoing ++ buf.take (most + 1) } (buf.drop (most + 1))

/-- `send_all`: whether every byte was accepted. -/
def sendAll (s : Socket) (buf : List UInt8) : Socket × Bool := sendLoop s.sendAnswers s buf

/-- The answers a working connection gives: it may interrupt and fragment. -/
def SendAnswer.works : SendAnswer → Bool
  | .interrupted => true
  | .refused => false
  | .accepted atMost => decide (0 < atMost)

theorem sendLoop_spec (answers : List SendAnswer) (s : Socket) (buf : List UInt8) :
    (∃ taken, taken <+: buf ∧ (sendLoop answers s buf).1.outgoing = s.outgoing ++ taken ∧
      ((sendLoop answers s buf).2 = true → taken = buf)) ∧
    ((∀ answer ∈ answers, answer.works = true) → (sendLoop answers s buf).2 = true) := by
  induction answers generalizing s buf with
  | nil =>
    cases buf with
    | nil => exact ⟨⟨[], by simp, by simp [sendLoop], by simp⟩, by simp [sendLoop]⟩
    | cons byte buf => exact ⟨⟨byte :: buf, by simp, by simp [sendLoop], by simp⟩, by simp [sendLoop]⟩
  | cons answer answers ih =>
    cases buf with
    | nil => exact ⟨⟨[], by simp, by simp [sendLoop], by simp⟩, by simp [sendLoop]⟩
    | cons byte buf =>
      cases answer with
      | interrupted =>
        obtain ⟨taken, working⟩ := ih s (byte :: buf)
        exact ⟨taken, fun all => working fun a member => all a (List.mem_cons_of_mem _ member)⟩
      | refused =>
        refine ⟨⟨[], by simp, by simp [sendLoop], by simp [sendLoop]⟩, fun all => ?_⟩
        exact absurd (all _ List.mem_cons_self) (by simp [SendAnswer.works])
      | accepted most =>
        cases most with
        | zero =>
          refine ⟨⟨[], by simp, by simp [sendLoop], by simp [sendLoop]⟩, fun all => ?_⟩
          exact absurd (all _ List.mem_cons_self) (by simp [SendAnswer.works])
        | succ most =>
          obtain ⟨⟨taken, inside, out, whole⟩, working⟩ :=
            ih { s with outgoing := s.outgoing ++ (byte :: buf).take (most + 1) }
              ((byte :: buf).drop (most + 1))
          refine ⟨⟨(byte :: buf).take (most + 1) ++ taken, ?_, ?_, ?_⟩, ?_⟩
          · obtain ⟨rest, equal⟩ := inside
            exact ⟨rest, by rw [List.append_assoc, equal, List.take_append_drop]⟩
          · rw [sendLoop, out, List.append_assoc]
            simp
          · intro sent
            rw [sendLoop] at sent
            · rw [whole sent, List.take_append_drop]
            · simp
          · intro all
            rw [sendLoop]
            · exact working fun a member => all a (List.mem_cons_of_mem _ member)
            · simp

end RtlSdr
