import RtlSdr.Lib.Transducer

/-!
# The PPM measurement of rtl_test

`ppm_test` is to throw the first seconds of data away, but the comparison of the time to begin with
the clock is the wrong way round. A second call before that time begins to measure at once; and if
the second call is later, no call ever begins.
-/
namespace RtlSdr.RtlTest

/-! ### The program -/

/-- `struct time_generic`. -/
structure Time where
  tvSec : Int
  tvNsec : Fin 1000000000
deriving DecidableEq, Repr

/-- A reading of the clock in nanoseconds. -/
def Time.nanos (t : Time) : Int := t.tvSec * 1000000000 + t.tvNsec.val

inductive PpmInit
  | no
  | dump
  | run
deriving DecidableEq, Repr

def ppmDumpTime : Int := 5

/-- The static variables of `ppm_test`. -/
structure Ppm where
  nsamples : UInt64
  interval : UInt64
  nsamplesTotal : UInt64
  intervalTotal : UInt64
  ppmRecent : Time
  ppmInit : PpmInit
deriving DecidableEq, Repr

def Ppm.start : Ppm := ⟨0, 0, 0, 0, ⟨0, 0⟩, .no⟩

/-- What a line of output is computed from. -/
structure PpmReport where
  nsamples : UInt64
  interval : UInt64
  nsamplesTotal : UInt64
  intervalTotal : UInt64
deriving DecidableEq, Repr

/-- A call: the reading of the clock, and `len`. -/
structure PpmCall where
  now : Time
  len : UInt32
deriving DecidableEq, Repr

/-- `ppm_test` once it runs. -/
def ppmMeasure (duration : UInt32) (s : Ppm) (call : PpmCall) : Ppm × List PpmReport :=
  let s := { s with
    nsamples := s.nsamples + (call.len / 2).toUInt64
    interval := UInt64.ofInt (call.now.tvSec - s.ppmRecent.tvSec) }
  if s.interval < duration.toUInt64 then (s, [])
  else
    let interval := s.interval * 1000000000 +
      UInt64.ofInt ((call.now.tvNsec.val : Int) - s.ppmRecent.tvNsec.val)
    let report : PpmReport :=
      ⟨s.nsamples, interval, s.nsamplesTotal + s.nsamples, s.intervalTotal + interval⟩
    ({ s with
        nsamples := 0
        interval := interval
        nsamplesTotal := report.nsamplesTotal
        intervalTotal := report.intervalTotal
        ppmRecent := call.now }, [report])

def ppmTest (duration : UInt32) (s : Ppm) (call : PpmCall) : Ppm × List PpmReport :=
  match s.ppmInit with
  | .no =>
    ({ s with
        ppmRecent := { s.ppmRecent with tvSec := call.now.tvSec + ppmDumpTime }
        ppmInit := .dump }, [])
  | .dump =>
    if s.ppmRecent.tvSec < call.now.tvSec then (s, [])
    else ({ s with ppmRecent := call.now, ppmInit := .run }, [])
  | .run => ppmMeasure duration s call

/-! ### The warm-up -/

def ppmAfter (duration : UInt32) (calls : List PpmCall) : Ppm :=
  (Transducer.run (ppmTest duration) Ppm.start calls).1

/-- A call that contributes nothing: it leaves the counters alone, and it is not the one that the
measured interval begins with. -/
structure Discards (before after : Ppm) : Prop where
  nsamples : after.nsamples = before.nsamples
  interval : after.interval = before.interval
  nsamplesTotal : after.nsamplesTotal = before.nsamplesTotal
  intervalTotal : after.intervalTotal = before.intervalTotal
  waits : after.ppmInit ≠ .run

/-- Nothing is measured in the first five seconds after the call `first`, and after the sixth every
call measures or begins to. -/
structure WarmsUp (duration : UInt32) (first : PpmCall) (calls : List PpmCall) : Prop where
  discarded : ∀ before call after, calls = before ++ call :: after →
    call.now.nanos < first.now.nanos + ppmDumpTime * 1000000000 →
    Discards (ppmAfter duration before) (ppmAfter duration (before ++ [call]))
  begins : ∀ before call after, calls = before ++ call :: after →
    first.now.nanos + (ppmDumpTime + 1) * 1000000000 < call.now.nanos →
    (ppmAfter duration (before ++ [call])).ppmInit = .run

/-- The second call comes within the second in which the warm-up ends, and not before its end; or
it comes after that second, and no call is more than six seconds after the first. -/
def WellSpaced (first : PpmCall) : List PpmCall → Prop
  | [] => True
  | second :: rest =>
    (first.now.nanos + ppmDumpTime * 1000000000 ≤ second.now.nanos ∧
        second.now.tvSec ≤ first.now.tvSec + ppmDumpTime) ∨
      (first.now.tvSec + ppmDumpTime < second.now.tvSec ∧ ∀ call ∈ second :: rest,
        call.now.nanos ≤ first.now.nanos + (ppmDumpTime + 1) * 1000000000)

/-! ### Steps -/

theorem ppmAfter_concat (duration : UInt32) (calls : List PpmCall) (call : PpmCall) :
    ppmAfter duration (calls ++ [call]) = (ppmTest duration (ppmAfter duration calls) call).1 := by
  rw [ppmAfter, Transducer.run_concat]
  rfl

variable {duration : UInt32} {s : Ppm} {call second first : PpmCall} {rest : List PpmCall}

theorem ppmTest_dump (dump : s.ppmInit = .dump) :
    (ppmTest duration s call).1 =
      if s.ppmRecent.tvSec < call.now.tvSec then s
      else { s with ppmRecent := call.now, ppmInit := .run } := by
  rw [ppmTest, dump]
  split_ifs <;> rfl

theorem ppmTest_run (run : s.ppmInit = .run) : (ppmTest duration s call).1.ppmInit = .run := by
  rw [ppmTest, run]
  simp only [ppmMeasure]
  split_ifs <;> exact run

theorem sec_le_of_nanos_le {t u : Time} (le : t.nanos ≤ u.nanos) : t.tvSec ≤ u.tvSec := by
  unfold Time.nanos at le
  omega

/-! ### Runs -/

def waiting (first : PpmCall) : Ppm :=
  { Ppm.start with ppmRecent := ⟨first.now.tvSec + ppmDumpTime, 0⟩, ppmInit := .dump }

theorem ppmAfter_first (duration : UInt32) (first : PpmCall) :
    ppmAfter duration [first] = waiting first := rfl

theorem ppmAfter_late (duration : UInt32) (first : PpmCall) (calls : List PpmCall)
    (late : ∀ call ∈ calls, first.now.tvSec + ppmDumpTime < call.now.tvSec) :
    ppmAfter duration (first :: calls) = waiting first := by
  induction calls using List.reverseRecOn with
  | nil => exact ppmAfter_first duration first
  | append_singleton calls call ih =>
    have earlier := ih fun call member => late call (List.mem_append_left _ member)
    have now := late call (by simp)
    rw [← List.cons_append, ppmAfter_concat, earlier, ppmTest_dump rfl]
    exact if_pos now

theorem ppmAfter_soon (duration : UInt32)
    (soon : second.now.tvSec ≤ first.now.tvSec + ppmDumpTime) (calls : List PpmCall) :
    (ppmAfter duration (first :: second :: calls)).ppmInit = .run := by
  induction calls using List.reverseRecOn with
  | nil =>
    have step := ppmAfter_concat duration [first] second
    have not_later : ¬(waiting first).ppmRecent.tvSec < second.now.tvSec := Int.not_lt.mpr soon
    rw [ppmAfter_first, ppmTest_dump rfl, if_neg not_later, List.singleton_append] at step
    rw [step]
  | append_singleton calls call ih =>
    rw [← List.cons_append, ← List.cons_append, ppmAfter_concat]
    exact ppmTest_run ih

theorem cons_eq_split {before after : List PpmCall}
    (split : first :: rest = before ++ call :: after) :
    (before = [] ∧ call = first) ∨
      ∃ later, before = first :: later ∧ rest = later ++ call :: after := by
  cases before with
  | nil =>
    rw [List.nil_append] at split
    cases split
    exact .inl ⟨rfl, rfl⟩
  | cons head later =>
    rw [List.cons_append] at split
    cases split
    exact .inr ⟨later, rfl, rfl⟩

theorem first_discards (duration : UInt32) (first : PpmCall) :
    Discards (ppmAfter duration []) (ppmAfter duration ([] ++ [first])) := by
  rw [List.nil_append, ppmAfter_first]
  exact ⟨rfl, rfl, rfl, rfl, by simp [waiting]⟩

/-- With a second call that is not later than the time to begin, all depends on that call. -/
theorem warmsUp_soon (duration : UInt32) (soon : second.now.tvSec ≤ first.now.tvSec + ppmDumpTime)
    (least : ∀ call ∈ second :: rest, second.now.nanos ≤ call.now.nanos) :
    WarmsUp duration first (first :: second :: rest) ↔
      first.now.nanos + ppmDumpTime * 1000000000 ≤ second.now.nanos := by
  constructor
  · intro warms
    by_contra early
    have discards := warms.discarded [first] second rest rfl (Int.not_le.mp early)
    exact discards.waits (ppmAfter_soon duration soon [])
  · intro ended
    refine ⟨?_, ?_⟩
    · intro before call after split early
      rcases cons_eq_split split with ⟨rfl, rfl⟩ | ⟨later, _, tail⟩
      · exact first_discards duration call
      · -- the other calls come after the second one
        have after_second := least call (by rw [tail]; simp)
        omega
    · intro before call after split late
      rcases cons_eq_split split with ⟨rfl, rfl⟩ | ⟨later, rfl, tail⟩
      · simp only [ppmDumpTime] at late
        omega
      · rcases cons_eq_split tail with ⟨rfl, rfl⟩ | ⟨later, rfl, _⟩
        · exact ppmAfter_soon duration soon []
        · exact ppmAfter_soon duration soon (later ++ [call])

/-- With a later second call nothing is ever measured, which may not go on for six seconds. -/
theorem warmsUp_late (duration : UInt32) (late : first.now.tvSec + ppmDumpTime < second.now.tvSec)
    (least : ∀ call ∈ second :: rest, second.now.nanos ≤ call.now.nanos) :
    WarmsUp duration first (first :: second :: rest) ↔ ∀ call ∈ second :: rest,
      call.now.nanos ≤ first.now.nanos + (ppmDumpTime + 1) * 1000000000 := by
  have all_late : ∀ call ∈ second :: rest, first.now.tvSec + ppmDumpTime < call.now.tvSec :=
    fun call member => Int.lt_of_lt_of_le late (sec_le_of_nanos_le (least call member))
  have waits (before after : List PpmCall) (split : second :: rest = before ++ after) :
      ppmAfter duration (first :: before) = waiting first := by
    apply ppmAfter_late
    intro call member
    exact all_late call (by rw [split]; exact List.mem_append_left _ member)
  constructor
  · intro warms call member
    by_contra after_six
    obtain ⟨before, after, split⟩ := List.append_of_mem member
    have run := warms.begins (first :: before) call after (by rw [split]; rfl)
      (Int.not_le.mp after_six)
    rw [List.cons_append, waits _ after (by rw [split]; simp)] at run
    cases run
  · intro within
    refine ⟨?_, ?_⟩
    · intro before call after split early
      rcases cons_eq_split split with ⟨rfl, rfl⟩ | ⟨later, rfl, tail⟩
      · exact first_discards duration call
      · rw [List.cons_append, waits later _ tail, waits _ after (by rw [tail]; simp)]
        exact ⟨rfl, rfl, rfl, rfl, by simp [waiting]⟩
    · intro before call after split after_six
      rcases cons_eq_split split with ⟨rfl, rfl⟩ | ⟨later, rfl, tail⟩
      · simp only [ppmDumpTime] at after_six
        omega
      · have before_six := within call (by rw [tail]; simp)
        omega

/-- Exactly when the measurement warms up and then runs. -/
theorem ppmTest_warmsUp_iff (duration : UInt32) (first : PpmCall) (rest : List PpmCall)
    (ordered : (first :: rest).Pairwise fun call later => call.now.nanos ≤ later.now.nanos) :
    WarmsUp duration first (first :: rest) ↔ WellSpaced first rest := by
  cases rest with
  | nil =>
    refine ⟨fun _ => trivial, fun _ => ⟨?_, ?_⟩⟩
    · intro before call after split early
      rcases cons_eq_split split with ⟨rfl, rfl⟩ | ⟨later, _, rest⟩
      · exact first_discards duration call
      · simp at rest
    · intro before call after split late
      rcases cons_eq_split split with ⟨rfl, rfl⟩ | ⟨later, _, rest⟩
      · simp only [ppmDumpTime] at late
        omega
      · simp at rest
  | cons second rest =>
    have least : ∀ call ∈ second :: rest, second.now.nanos ≤ call.now.nanos := by
      intro call member
      rcases List.mem_cons.mp member with rfl | member
      · exact Int.le_refl _
      · exact (List.pairwise_cons.mp (List.pairwise_cons.mp ordered).2).1 call member
    by_cases soon : second.now.tvSec ≤ first.now.tvSec + ppmDumpTime
    · rw [warmsUp_soon duration soon least, WellSpaced]
      constructor
      · intro ended
        exact .inl ⟨ended, soon⟩
      · rintro (⟨ended, _⟩ | ⟨late, _⟩)
        · exact ended
        · omega
    · have late := Int.not_le.mp soon
      rw [warmsUp_late duration late least, WellSpaced]
      constructor
      · intro within
        exact .inr ⟨late, within⟩
      · rintro (⟨_, early⟩ | ⟨_, within⟩)
        · exact absurd early soon
        · exact within

/-- A call `tenths` of a second after the clock's zero, with 16384 samples. -/
def callAt (tenths : Nat) : PpmCall :=
  ⟨⟨tenths / 10, Fin.ofNat 1000000000 (tenths % 10 * 100000000)⟩, 32768⟩

/-- A second call in the very second that the warm-up ends. -/
theorem ppmTest_warmsUp_punctual :
    WarmsUp 10 (callAt 3) [callAt 3, callAt 55, callAt 56, callAt 80] :=
  (ppmTest_warmsUp_iff 10 (callAt 3) [callAt 55, callAt 56, callAt 80] (by decide)).mpr
    (.inl (by decide))

/-- Calls ten times a second count from the third one on, and calls every seven seconds never. -/
theorem ppmTest_reversed :
    (ppmAfter 10 [callAt 0, callAt 1, callAt 2]).nsamples = 16384 ∧
      ¬WarmsUp 10 (callAt 0) [callAt 0, callAt 1, callAt 2] ∧
      (ppmAfter 10 [callAt 0, callAt 70, callAt 140, callAt 210]).ppmInit = .dump ∧
      ¬WarmsUp 10 (callAt 0) [callAt 0, callAt 70, callAt 140, callAt 210] := by
  refine ⟨by decide, fun warms => ?_, by decide, fun warms => ?_⟩
  · have discards := warms.discarded [callAt 0, callAt 1] (callAt 2) [] rfl (by decide)
    exact absurd discards.nsamples (by decide)
  · have run := warms.begins [callAt 0] (callAt 70) [callAt 140, callAt 210] rfl (by decide)
    exact absurd run (by decide)

end RtlSdr.RtlTest
