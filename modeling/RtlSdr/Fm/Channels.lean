import RtlSdr.Lib.Loops

/-!
# The channel list of rtl_fm

Every `-f` adds to `controller.freqs`: one frequency, two, or a range. `main` looks at the length
before an argument and the loop of a range looks at it after each frequency, but nothing does
between the two frequencies of `start:stop`.
-/
namespace RtlSdr.Fm

open Checked CArray

def frequenciesLimit : Int := 1000

/-- An argument of `-f` after the conversion of its numbers. -/
inductive FreqArg where
  | single (freq : UInt32)
  | pair (start stop : UInt32)
  | range (start stop step : Int)

structure Controller where
  freqs : Int → UInt32
  freqLen : Int

def Controller.init : Controller := ⟨fun i => if i = 0 then 100000000 else 0, 0⟩

def Controller.add (s : Controller) (freq : UInt32) : Checked Controller := do
  let freqs ← save frequenciesLimit s.freqs s.freqLen freq
  pure ⟨freqs, s.freqLen + 1⟩

/-- The variables of the loop over a range, and whether it has been left by `break`. -/
structure RangeLoop where
  i : Int
  controller : Controller
  broken : Bool

-- `plus` is the addition of the loop counter, whatever it gives where it overflows
variable (plus : Int → Int → Int)

def rangeRound (step : Int) (s : RangeLoop) : Checked RangeLoop := do
  let controller ← s.controller.add (UInt32.ofInt s.i)
  if controller.freqLen ≥ frequenciesLimit then pure ⟨s.i, controller, true⟩
  else pure ⟨plus s.i step, controller, false⟩

def frequencyRange (s : Controller) : FreqArg → Checked Controller
  | .single freq => s.add freq
  | .pair start stop => do (← s.add start).add stop
  | .range start stop step => do
    let loop ← whileLoop (fun s => !s.broken && decide (s.i ≤ stop)) (rangeRound plus step)
      frequenciesLimit.toNat ⟨start, s, false⟩
    pure loop.controller

/-- The option `-f` of `main`. -/
def optionF (s : Controller) (arg : FreqArg) : Checked Controller :=
  if s.freqLen ≥ frequenciesLimit then pure s else frequencyRange plus s arg

/-- The channel list after a sequence of `-f`. -/
def channels (args : List FreqArg) : Checked Controller := args.foldlM (optionF plus) .init

theorem add_inside {s : Controller} {freq : UInt32} (low : 0 ≤ s.freqLen)
    (room : s.freqLen < frequenciesLimit) :
    s.add freq = pure ⟨Function.update s.freqs s.freqLen freq, s.freqLen + 1⟩ := by
  rw [Controller.add, save_eq low room]
  rfl

theorem rangeRound_inside (s : RangeLoop) (step : Int) (low : 0 ≤ s.controller.freqLen)
    (room : s.controller.freqLen < frequenciesLimit) :
    (rangeRound plus step s).exact = true ∧
      (rangeRound plus step s).value.controller.freqLen = s.controller.freqLen + 1 ∧
      ((rangeRound plus step s).value.broken = true ↔
        s.controller.freqLen + 1 = frequenciesLimit) := by
  rw [rangeRound, add_inside low room, pure_bind]
  dsimp only
  split_ifs with full
  · exact ⟨rfl, rfl, iff_of_true rfl (by omega)⟩
  · exact ⟨rfl, rfl, iff_of_false id (by omega)⟩

theorem range_inside (s : Controller) (start stop step : Int) (low : 0 ≤ s.freqLen)
    (room : s.freqLen < frequenciesLimit) :
    (frequencyRange plus s (.range start stop step)).exact = true ∧
      s.freqLen ≤ (frequencyRange plus s (.range start stop step)).value.freqLen ∧
      (frequencyRange plus s (.range start stop step)).value.freqLen ≤ frequenciesLimit := by
  constructor
  · rw [frequencyRange, exact_bind, exact_pure, Bool.and_true]
    -- the rounds that are left are the places that are left
    refine whileLoop_exact
      (fun left (s : RangeLoop) => 0 ≤ s.controller.freqLen ∧
        s.controller.freqLen + (left : Int) = frequenciesLimit ∧ (left = 0 → s.broken = true))
      ?_ ?_ (frequenciesLimit - s.freqLen).toNat _ ⟨low, ?_, ?_⟩ _ ?_
    · rintro s ⟨_, _, full⟩
      rw [full rfl]
      rfl
    · rintro left s ⟨low, places, _⟩ _
      obtain ⟨exactly, length, broken⟩ :=
        rangeRound_inside plus s step low (by omega)
      refine ⟨exactly, ?_, ?_, ?_⟩
      · rw [length]
        omega
      · rw [length]
        omega
      · intro last
        exact broken.mpr (by omega)
    · dsimp only
      omega
    · intro none
      omega
    · omega
  · have kept := whileLoop_invariant (fun s => !s.broken && decide (s.i ≤ stop))
      (rangeRound plus step)
      (fun loop : RangeLoop => s.freqLen ≤ loop.controller.freqLen ∧
        loop.controller.freqLen ≤ frequenciesLimit ∧
        (loop.broken = false → loop.controller.freqLen < frequenciesLimit))
      (by
        rintro loop ⟨grown, _, going⟩ test
        have unbroken : loop.broken = false := by
          cases broken : loop.broken with
          | false => rfl
          | true =>
            rw [broken] at test
            cases test
        have place := going unbroken
        obtain ⟨_, length, broken⟩ := rangeRound_inside plus loop step (by omega) place
        refine ⟨by omega, by omega, ?_⟩
        intro on
        rw [on] at broken
        have more : ¬loop.controller.freqLen + 1 = frequenciesLimit :=
          fun full => absurd (broken.mpr full) Bool.false_ne_true
        omega)
      frequenciesLimit.toNat ⟨start, s, false⟩
      ⟨Int.le_refl _, Int.le_of_lt room, fun _ => room⟩
    exact ⟨kept.1, kept.2.1⟩

/-- Two frequencies for a list with one place. -/
def Overfills (s : Controller) : FreqArg → Prop
  | .pair _ _ => s.freqLen = 999
  | _ => False

theorem optionF_inside (s : Controller) (arg : FreqArg) (low : 0 ≤ s.freqLen)
    (high : s.freqLen ≤ frequenciesLimit) (fits : ¬Overfills s arg) :
    (optionF plus s arg).exact = true ∧ 0 ≤ (optionF plus s arg).value.freqLen ∧
      (optionF plus s arg).value.freqLen ≤ frequenciesLimit := by
  rw [optionF]
  split_ifs with full
  · exact ⟨rfl, low, high⟩
  · have room : s.freqLen < frequenciesLimit := Int.not_le.mp full
    cases arg with
    | single freq =>
      rw [frequencyRange, add_inside low room]
      refine ⟨rfl, ?_, ?_⟩
      · change 0 ≤ s.freqLen + 1
        omega
      · exact room
    | pair start stop =>
      have both : s.freqLen + 1 < frequenciesLimit := by
        change ¬s.freqLen = 999 at fits
        rw [frequenciesLimit] at room ⊢
        omega
      rw [frequencyRange, add_inside low room, pure_bind,
        add_inside (by dsimp only; omega) both]
      refine ⟨rfl, ?_, both⟩
      change 0 ≤ s.freqLen + 1 + 1
      omega
    | range start stop step =>
      obtain ⟨exactly, grown, limit⟩ := range_inside plus s start stop step low room
      exact ⟨exactly, Int.le_trans low grown, limit⟩

theorem optionF_overfull (s : Controller) (arg : FreqArg) (last : Overfills s arg) :
    (optionF plus s arg).exact = false := by
  cases arg with
  | single freq => exact last.elim
  | range start stop step => exact last.elim
  | pair start stop =>
    change s.freqLen = 999 at last
    have beyond : ¬(0 ≤ s.freqLen + 1 ∧ s.freqLen + 1 < frequenciesLimit) := by
      rw [last]
      decide
    rw [optionF, if_neg (by rw [last]; decide), frequencyRange,
      add_inside (by omega) (by rw [last]; decide), pure_bind, Controller.add, exact_bind, save,
      decide_eq_false beyond, Bool.false_and]

theorem channels_concat (args : List FreqArg) (arg : FreqArg) :
    channels plus (args ++ [arg]) = channels plus args >>= fun s => optionF plus s arg := by
  rw [channels, channels, List.foldlM_append]
  congr 1
  funext s
  exact bind_pure _

theorem channels_inside (args : List FreqArg)
    (fits : ∀ before arg after, args = before ++ arg :: after →
      ¬Overfills (channels plus before).value arg) :
    (channels plus args).exact = true ∧ 0 ≤ (channels plus args).value.freqLen ∧
      (channels plus args).value.freqLen ≤ frequenciesLimit := by
  induction args using List.reverseRecOn with
  | nil => exact ⟨rfl, Int.le_refl _, (by decide : (0 : Int) ≤ 1000)⟩
  | append_singleton args arg ih =>
    obtain ⟨exactly, low, high⟩ := ih (by
      intro before next after split
      apply fits before next (after ++ [arg])
      rw [split, List.append_assoc, List.cons_append])
    have here := optionF_inside plus (channels plus args).value arg low high (fits args arg [] rfl)
    rw [channels_concat, exact_bind, exactly, Bool.true_and]
    exact here

theorem exact_of_append (args more : List FreqArg)
    (exactly : (channels plus (args ++ more)).exact = true) :
    (channels plus args).exact = true := by
  rw [channels, List.foldlM_append, exact_bind, Bool.and_eq_true] at exactly
  exact exactly.1

/-- Every access is inside of `freqs`, the length stays within the limit and every loop ends, if
and only if no `start:stop` comes when one place is left. -/
theorem channels_inside_iff (args : List FreqArg) :
    ((channels plus args).exact = true ∧
      ∀ before, before <+: args → (channels plus before).value.freqLen ≤ frequenciesLimit) ↔
      ∀ before start stop after, args = before ++ .pair start stop :: after →
        (channels plus before).value.freqLen ≠ 999 := by
  constructor
  · rintro ⟨exactly, _⟩ before start stop after split last
    have upTo : args = (before ++ [.pair start stop]) ++ after := by
      rw [split, List.append_assoc, List.singleton_append]
    rw [upTo] at exactly
    have now := exact_of_append plus _ _ exactly
    rw [channels_concat, exact_bind,
      optionF_overfull plus (channels plus before).value (.pair start stop) last,
      Bool.and_false] at now
    cases now
  · intro never
    have fits : ∀ before arg after, args = before ++ arg :: after →
        ¬Overfills (channels plus before).value arg := by
      intro before arg after split overfills
      cases arg with
      | single freq => exact overfills
      | range start stop step => exact overfills
      | pair start stop => exact never before start stop after split overfills
    refine ⟨(channels_inside plus args fits).1, ?_⟩
    rintro before ⟨rest, rfl⟩
    refine (channels_inside plus before ?_).2.2
    intro first arg after split
    apply fits first arg (after ++ rest)
    rw [split, List.append_assoc, List.cons_append]

/-- `-f 0:997:1` adds 998 channels, one more makes 999, and `start:stop` writes to index 1000. -/
theorem channels_overfull :
    (channels (· + ·) [.range 0 997 1, .single 5, .pair 6 7]).exact = false ∧
      (channels (· + ·) [.range 0 997 1, .single 5, .pair 6 7]).value.freqLen = 1001 := by
  decide +kernel

end RtlSdr.Fm
