import Mathlib.Algebra.Ring.Int.Defs
import RtlSdr.R82xx.Pll
import RtlSdr.R82xx.Registers

/-!
# The gains of the R82xx

`nearest_gain` picks one of the gains that the library advertises, and `r82xx_set_gain` raises the
LNA and the mixer in turn until their steps add up to what is asked for.
-/
namespace RtlSdr.R82xx

/-- `r82xx_gains` of `rtlsdr_get_tuner_gains`. -/
def r82xxGains : List Int :=
  [0, 9, 14, 27, 37, 77, 87, 125, 144, 157, 166, 197, 207, 229, 254, 280, 297, 328, 338, 364, 372,
    386, 402, 421, 434, 439, 445, 480, 496]

/-- `abs` of a difference, both of type `int`. -/
def gainError (targetGain gain : Int) : Int :=
  Int.bmod ((targetGain - gain).bmod 4294967296).natAbs 4294967296

def closer (targetGain nearest gain : Int) : Int :=
  if gainError targetGain gain < gainError targetGain nearest then gain else nearest

/-- What `nearest_gain` returns once the gain mode is set. -/
def nearestGain (gains : List Int) (targetGain : Int) : Int :=
  gains.foldl (closer targetGain) (gains.headD 0)

theorem gainError_eq {target gain : Int}
    (fits : -2147483648 < target - gain ∧ target - gain < 2147483648) :
    gainError target gain = (target - gain).natAbs := by
  have within (difference : Int) (fits : -2147483648 < difference ∧ difference < 2147483648) :
      difference.bmod 4294967296 = difference :=
    Int.bmod_eq_of_le_mul_two (by omega) (by omega)
  unfold gainError
  rw [within _ fits]
  exact within _ (by omega)

theorem nearest_foldl (target : Int) (gains : List Int) (nearest : Int) :
    gains.foldl (closer target) nearest ∈ nearest :: gains ∧ ∀ gain ∈ nearest :: gains,
      gainError target (gains.foldl (closer target) nearest) ≤ gainError target gain := by
  induction gains generalizing nearest with
  | nil => simp
  | cons gain gains ih =>
    obtain ⟨member, least⟩ := ih (closer target nearest gain)
    rw [List.foldl_cons]
    generalize gains.foldl (closer target) (closer target nearest gain) = found at member least ⊢
    simp only [List.mem_cons, forall_eq_or_imp] at member least ⊢
    obtain ⟨now, later⟩ := least
    rw [closer] at member now
    split_ifs at member now
    · exact ⟨.inr member, by omega, now, later⟩
    · exact ⟨member.imp_right .inr, now, by omega, later⟩

/-- What the steps up to an index add up to. -/
def gainOf (steps : List Int) (index : UInt8) : Int := (steps.take (index.toNat + 1)).sum

theorem setGain_chip {env : Env} {world world' : World} {gain : Int} (coherent : Coherent world)
    (run : r82xxSetGain env true gain world = (.ok (), world')) :
    let indices := gainIndices gain 15 0 0 0
    world'.chip 5 = maskReg8 (maskReg8 (world.chip 5) 0x10 0x10) indices.1.toUInt8 0x0f ∧
    world'.chip 7 = maskReg8 (maskReg8 (world.chip 7) 0 0x10) indices.2.toUInt8 0x0f := by
  obtain ⟨_, off, auto, run⟩ := Prog.bind_eq_ok run
  obtain ⟨_, read, data, run⟩ := Prog.bind_eq_ok run
  obtain ⟨_, fixed, vga, run⟩ := Prog.bind_eq_ok run
  obtain ⟨coherent, first, _⟩ := writeAll_ok coherent auto
  have kept : Coherent read ∧ read.chip = off.chip :=
    (keeps_read_of (I := fun world => Coherent world ∧ world.chip = off.chip) env
      (fun _ _ holds => holds) 4).ok ⟨coherent, rfl⟩ data
  obtain ⟨coherent, second, _⟩ := writeAll_ok kept.1 vga
  obtain ⟨coherent, third, _⟩ := writeAll_ok coherent run
  rw [third, second, kept.2, first]
  exact ⟨rfl, rfl⟩

/-- **The gain of the tuner**: where its differences do not overflow, `nearest_gain` picks an
advertised gain as close as any to the one asked for, and setting it leaves manual steps in the chip
that add up to exactly this gain. -/
theorem nearest_gain_exact {env : Env} {world world' : World} {target gain : Int}
    (coherent : Coherent world) (fits : -2147483152 < target ∧ target < 2147483648)
    (nearest : nearestGain r82xxGains target = gain)
    (run : r82xxSetGain env true gain world = (.ok (), world')) :
    gain ∈ r82xxGains ∧ (∀ other ∈ r82xxGains, (target - gain).natAbs ≤ (target - other).natAbs) ∧
    world'.chip 5 &&& 0x10 = 0x10 ∧ world'.chip 7 &&& 0x10 = 0 ∧
    gainOf lnaGainSteps (world'.chip 5 &&& 0x0f) + gainOf mixerGainSteps (world'.chip 7 &&& 0x0f) =
      gain := by
  obtain ⟨member, least⟩ := nearest_foldl target r82xxGains 0
  rw [show r82xxGains.foldl (closer target) 0 = gain from nearest] at member least
  have small : ∀ gain ∈ 0 :: r82xxGains, 0 ≤ gain ∧ gain ≤ 496 := by decide
  have exact_ (gain : Int) (here : gain ∈ 0 :: r82xxGains) :
      gainError target gain = (target - gain).natAbs := by
    have := small gain here
    exact gainError_eq (by omega)
  have sums : ∀ gain ∈ 0 :: r82xxGains,
      gainOf lnaGainSteps ((gainIndices gain 15 0 0 0).1.toUInt8 &&& 0x0f) +
        gainOf mixerGainSteps ((gainIndices gain 15 0 0 0).2.toUInt8 &&& 0x0f) = gain := by
    decide +kernel
  obtain ⟨chip5, chip7⟩ := setGain_chip coherent run
  refine ⟨(List.mem_cons.mp member).elim (fun zero => zero ▸ List.mem_cons_self) id,
    fun other here => ?_, ?_, ?_, ?_⟩
  · have here := List.mem_cons_of_mem 0 here
    have close := least other here
    rw [exact_ gain member, exact_ other here] at close
    exact Int.ofNat_le.mp close
  · rw [chip5, maskReg8_outside _ _ (by decide), maskReg8_inside]
    rfl
  · rw [chip7, maskReg8_outside _ _ (by decide), maskReg8_inside]
    rfl
  · rw [chip5, chip7, maskReg8_inside, maskReg8_inside]
    exact sums gain member

theorem nearest_gain_exact_400 :
    let chip := (r82xxSetGain (busFailing fun _ => false) true 402 newWorld).2.chip
    gainOf lnaGainSteps (chip 5 &&& 0x0f) + gainOf mixerGainSteps (chip 7 &&& 0x0f) = 402 := by
  have nearest : nearestGain r82xxGains 400 = 402 := by decide +kernel
  have set : (r82xxSetGain (busFailing fun _ => false) true 402 newWorld).1 = .ok () := by
    decide +kernel
  exact (nearest_gain_exact (fun _ _ => rfl) (by decide) nearest (Prog.run_eq_ok set)).2.2.2.2

end RtlSdr.R82xx
