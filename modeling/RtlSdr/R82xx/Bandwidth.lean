import Mathlib.Tactic.IntervalCases
import RtlSdr.Lib.Checked
import RtlSdr.R82xx.IntFreq
import RtlSdr.R82xx.Registers

/-!
# The bandwidth of the tuner

Up to 2.43 MHz `r82xx_set_bandwidth` makes up the bandwidth from two optional contributions of the
high-pass filter and one of the low-pass filter. Each step begins where the one before ends, so what
is realised grows with what was asked for, and is never less.
-/
namespace RtlSdr.R82xx

open Prog

/-! ### The low-pass filter -/

variable {bw bw' : Int}

theorem lowPassLoop_wide {filters : List Int} {i k : Nat} {filter : Int}
    (here : filters[k]? = some filter) (passed : i + k < lowPassLoop bw filters i) :
    bw ≤ filter := by
  induction filters generalizing i k with
  | nil => cases here
  | cons first narrower ih =>
    rw [lowPassLoop] at passed
    split_ifs at passed with narrow
    · omega
    · cases k with
      | zero =>
        cases here
        exact Int.not_lt.mp narrow
      | succ k =>
        have later : i + 1 + k < lowPassLoop bw narrower (i + 1) := by omega
        exact ih here later

theorem lowPassLoop_antitone (smaller : bw ≤ bw') (filters : List Int) (i : Nat) :
    lowPassLoop bw' filters i ≤ lowPassLoop bw filters i := by
  induction filters generalizing i with
  | nil => exact Nat.le_refl i
  | cons filter narrower ih =>
    rw [lowPassLoop, lowPassLoop]
    split_ifs with stops' stops
    · exact Nat.le_refl i
    · exact Nat.le_of_succ_le (lowPassLoop_bounds bw narrower (i + 1)).1
    · omega
    · exact ih (i + 1)

/-- The contribution of the low-pass filter. -/
def lowPass (bw : Int) : Int := ifLowPassBwTable.getD (lowPassLoop bw ifLowPassBwTable 0 - 1) 0

theorem ifLowPassBwTable_descending :
    ∀ j < 10, ∀ i ≤ j, ifLowPassBwTable.getD j 0 ≤ ifLowPassBwTable.getD i 0 := by
  decide

theorem lowPass_range (narrow : bw ≤ 1700000) :
    bw ≤ lowPass bw ∧ 350000 ≤ lowPass bw ∧ lowPass bw ≤ 1700000 := by
  obtain ⟨positive, inside⟩ := lowPassLoop_pos bw narrow
  have bound : lowPassLoop bw ifLowPassBwTable 0 - 1 < ifLowPassBwTable.length := by
    change _ < 10
    omega
  have here := List.getElem?_eq_getElem bound
  have entry : lowPass bw = ifLowPassBwTable.get ⟨_, bound⟩ := by
    rw [lowPass, List.getD_eq_getElem?_getD, here]
    rfl
  refine ⟨?_, ?_, ?_⟩
  · have passed : 0 + (lowPassLoop bw ifLowPassBwTable 0 - 1) <
        lowPassLoop bw ifLowPassBwTable 0 := by omega
    rw [entry]
    exact lowPassLoop_wide here passed
  · exact ifLowPassBwTable_descending 9 (by decide) _ (by omega)
  · exact ifLowPassBwTable_descending _ bound 0 (Nat.zero_le _)

theorem lowPass_monotone (smaller : bw ≤ bw') (narrow : bw' ≤ 1700000) :
    lowPass bw ≤ lowPass bw' := by
  obtain ⟨positive, inside⟩ := lowPassLoop_pos bw (smaller.trans narrow)
  have longer := lowPassLoop_antitone smaller ifLowPassBwTable 0
  exact ifLowPassBwTable_descending _ (by omega) _ (Nat.sub_le_sub_right longer 1)

/-! ### The contributions -/

/-- The contribution of 380 kHz, where it is added. -/
def highPass2 (bw : Int) : Int := if bw > 1700000 + filtHpBw1 then filtHpBw2 else 0

/-- The contribution of 350 kHz, where it is added. -/
def highPass1 (bw : Int) : Int := if bw - highPass2 bw > 1700000 then filtHpBw1 else 0

/-- What is left for the low-pass filter. -/
def lowPassPart (bw : Int) : Int := bw - highPass2 bw - highPass1 bw

/-- The index with which the table of low-pass filters is read after `--i`. -/
def lowPassIndex (bw : Int) : Option Int :=
  if bw > 1700000 + filtHpBw1 + filtHpBw2 then none
  else some ((lowPassLoop (lowPassPart bw) ifLowPassBwTable 0 : Int) - 1)

def realBw (bw : Int) : Int := highPass2 bw + highPass1 bw + lowPass (lowPassPart bw)

/-- The four ways to make up a bandwidth. -/
inductive Parts : Int → Int → Int → Prop
  | low {bw : Int} (upper : bw ≤ 1700000) : Parts bw 0 0
  | first {bw : Int} (lower : 1700000 < bw) (upper : bw ≤ 2050000) : Parts bw 0 350000
  | second {bw : Int} (lower : 2050000 < bw) (upper : bw ≤ 2080000) : Parts bw 380000 0
  | both {bw : Int} (lower : 2080000 < bw) (upper : bw ≤ 2430000) : Parts bw 380000 350000

theorem parts (narrow : bw ≤ 2430000) : Parts bw (highPass2 bw) (highPass1 bw) := by
  rw [highPass1]
  by_cases two : bw > 2050000
  · have high : highPass2 bw = 380000 := if_pos two
    rw [high]
    by_cases one : bw - 380000 > 1700000
    · rw [if_pos one]
      exact .both (by omega) narrow
    · rw [if_neg one]
      exact .second two (by omega)
  · have low : highPass2 bw = 0 := if_neg two
    rw [low]
    by_cases one : bw - 0 > 1700000
    · rw [if_pos one]
      exact .first (by omega) (by omega)
    · rw [if_neg one]
      exact .low (by omega)

theorem lowPassPart_le (narrow : bw ≤ 2430000) : lowPassPart bw ≤ 1700000 := by
  rw [lowPassPart]
  have parts := parts narrow
  generalize highPass2 bw = second, highPass1 bw = first at parts ⊢
  cases parts with
  | low | first | second | both => omega

theorem realBw_le (narrow : bw ≤ 2430000) :
    realBw bw ≤ highPass2 bw + highPass1 bw + 1700000 ∧
      0 ≤ highPass2 bw + highPass1 bw ∧ highPass2 bw + highPass1 bw ≤ 730000 := by
  obtain ⟨_, _, most⟩ := lowPass_range (lowPassPart_le narrow)
  have parts := parts narrow
  rw [realBw]
  generalize highPass2 bw = second, highPass1 bw = first at parts ⊢
  cases parts with
  | low | first | second | both => omega

theorem realBw_ge (narrow : bw ≤ 2430000) : bw ≤ realBw bw ∧ 350000 ≤ realBw bw := by
  obtain ⟨least, positive, _⟩ := lowPass_range (lowPassPart_le narrow)
  have parts := parts narrow
  rw [realBw]
  generalize lowPass (lowPassPart bw) = filter at least positive ⊢
  rw [lowPassPart] at least
  generalize highPass2 bw = second, highPass1 bw = first at parts least ⊢
  cases parts with
  | low | first | second | both => omega

/-- It grows within the steps and from each step to the next. -/
theorem realBw_monotone (smaller : bw ≤ bw') (narrow : bw' ≤ 2430000) : realBw bw ≤ realBw bw' := by
  have part' := lowPassPart_le narrow
  have within : lowPassPart bw ≤ lowPassPart bw' →
      lowPass (lowPassPart bw) ≤ lowPass (lowPassPart bw') :=
    fun le => lowPass_monotone le part'
  obtain ⟨_, _, most⟩ := lowPass_range (lowPassPart_le (smaller.trans narrow))
  obtain ⟨least, _, _⟩ := lowPass_range part'
  have parts := parts (smaller.trans narrow)
  have parts' := R82xx.parts narrow
  rw [realBw, realBw]
  generalize lowPass (lowPassPart bw) = filter, lowPass (lowPassPart bw') = filter'
    at within most least ⊢
  rw [lowPassPart] at least
  rw [lowPassPart, lowPassPart] at within
  generalize highPass2 bw = second, highPass1 bw = first, highPass2 bw' = second',
    highPass1 bw' = first' at parts parts' within least ⊢
  cases parts with
  | low | first | second | both =>
    cases parts' with
    | low | first | second | both => omega

/-! ### The registers and the intermediate frequency -/

theorem narrowBandwidth_eq (bw : Int) :
    narrowBandwidth bw =
      { reg0a := 0x00
        reg0b := 0x80 ||| (if bw > 1700000 + filtHpBw1 then 0x00 else 0x20) |||
          (if bw - highPass2 bw > 1700000 then 0x00 else 0x40) |||
          (15 - (lowPassLoop (lowPassPart bw) ifLowPassBwTable 0 - 1)).toUInt8
        intFreq := UInt32.ofInt (2300000 + highPass2 bw + highPass1 bw - (realBw bw).tdiv 2) } := by
  have first : (if bw > 1700000 + filtHpBw1 then bw - filtHpBw2 else bw) = bw - highPass2 bw := by
    rw [highPass2]
    split <;> omega
  have second : (if bw - highPass2 bw > 1700000 then bw - highPass2 bw - filtHpBw1
      else bw - highPass2 bw) = lowPassPart bw := by
    rw [lowPassPart, highPass1]
    split <;> omega
  simp only [narrowBandwidth, first, second]
  rfl

/-- The middle of the passband, with the upper edge at 2.3 MHz and the contributions. -/
theorem narrowBandwidth_intFreq (narrow : bw ≤ 2430000) :
    ((narrowBandwidth bw).intFreq.toNat : Int) =
      2300000 + highPass2 bw + highPass1 bw - realBw bw / 2 := by
  obtain ⟨_, positive⟩ := realBw_ge narrow
  obtain ⟨most, _, _⟩ := realBw_le narrow
  rw [narrowBandwidth_eq, Int.tdiv_eq_ediv_of_nonneg (by omega)]
  exact Checked.toNat_ofInt (by omega) (by omega)

/-- The bits for the high-pass filter are clear where its contributions are added. -/
theorem narrowBandwidth_highPass (narrow : bw ≤ 2430000) :
    ((narrowBandwidth bw).reg0b &&& 0x20 = 0 ↔ highPass2 bw = filtHpBw2) ∧
      ((narrowBandwidth bw).reg0b &&& 0x40 = 0 ↔ highPass1 bw = filtHpBw1) := by
  obtain ⟨positive, inside⟩ := lowPassLoop_pos _ (lowPassPart_le narrow)
  rw [narrowBandwidth_eq, highPass1, highPass2]
  dsimp only
  generalize lowPassLoop (lowPassPart bw) ifLowPassBwTable 0 = i at positive inside ⊢
  -- one case for each filter and each way to make up the bandwidth
  interval_cases i <;> split_ifs <;> decide

theorem setBandwidth_reg0b {env : Env} {world world' : World} {intFreq : UInt32}
    (coherent : Coherent world) (run : r82xxSetBandwidth env bw world = (.ok intFreq, world')) :
    world'.chip 0x0b &&& 0xef = (bandwidth bw).reg0b &&& 0xef := by
  let chosen : World := { world with priv := { world.priv with intFreq := (bandwidth bw).intFreq } }
  have begun : r82xxSetBandwidth env bw world =
      (do
        writeAll env [.mask 0x0a (bandwidth bw).reg0a 0x10, .mask 0x0b (bandwidth bw).reg0b 0xef]
        pure (bandwidth bw).intFreq : Driver UInt32) chosen := rfl
  rw [begun] at run
  obtain ⟨_, written, writes, returned⟩ := bind_eq_ok run
  cases returned
  have start : Coherent chosen := coherent
  obtain ⟨_, chip, _⟩ := writeAll_ok start writes
  rw [chip]
  exact maskReg8_inside _ _ _

/-- The choice of the filters by `r82xx_set_bandwidth`, for every bandwidth. -/
theorem setBandwidth_selects (bw : Int) :
    (∀ i ∈ lowPassIndex bw, 0 ≤ i ∧ i < ifLowPassBwTable.length) ∧
    (bw ≤ 2430000 →
      bw ≤ realBw bw ∧ 350000 ≤ realBw bw ∧ (∀ narrower ≤ bw, realBw narrower ≤ realBw bw) ∧
      ((bandwidth bw).reg0b &&& 0x20 = 0 ↔ highPass2 bw = filtHpBw2) ∧
      ((bandwidth bw).reg0b &&& 0x40 = 0 ↔ highPass1 bw = filtHpBw1) ∧
      (bandwidth bw).intFreq.toNat + realBw bw / 2 = 2300000 + highPass2 bw + highPass1 bw ∧
      0 < (bandwidth bw).intFreq.toNat - realBw bw / 2) ∧
    ∀ env world intFreq world', r82xxSetBandwidth env bw world = (.ok intFreq, world') →
      intFreq = (bandwidth bw).intFreq ∧ world'.priv.intFreq = intFreq ∧
        (Coherent world → world'.chip 0x0b &&& 0xef = (bandwidth bw).reg0b &&& 0xef) := by
  refine ⟨?_, ?_, ?_⟩
  · intro i index
    rw [lowPassIndex] at index
    split_ifs at index with wide
    · cases index
    · have narrow : bw ≤ 2430000 := Int.not_lt.mp wide
      obtain ⟨positive, inside⟩ := lowPassLoop_pos _ (lowPassPart_le narrow)
      cases index
      have length : ifLowPassBwTable.length = 10 := rfl
      omega
  · intro narrow
    have chosen : bandwidth bw = narrowBandwidth bw := by
      have narrow : ¬bw > 1700000 + filtHpBw1 + filtHpBw2 := Int.not_lt.mpr narrow
      rw [bandwidth, if_neg (by omega), if_neg (by omega), if_neg narrow]
    obtain ⟨least, positive⟩ := realBw_ge narrow
    obtain ⟨second, first⟩ := narrowBandwidth_highPass narrow
    have middle := narrowBandwidth_intFreq narrow
    have most := realBw_le narrow
    rw [chosen]
    refine ⟨least, positive, ?_, second, first, by omega, by omega⟩
    intro narrower smaller
    exact realBw_monotone smaller narrow
  · intro env world intFreq world' run
    obtain ⟨returned, kept⟩ := setBandwidth_intFreq env bw world world' intFreq run
    exact ⟨returned, kept, fun coherent => setBandwidth_reg0b coherent run⟩

/-- 2 MHz: one contribution and the filter of 1.7 MHz, 2.05 MHz around 1.625 MHz. -/
theorem setBandwidth_selects_two :
    realBw 2000000 = 2050000 ∧ (bandwidth 2000000).intFreq = 1625000 ∧
      (∀ narrower ≤ 2000000, realBw narrower ≤ 2050000) ∧
      0 < (bandwidth 2000000).intFreq.toNat - realBw 2000000 / 2 := by
  obtain ⟨_, _, monotone, _, _, _, edge⟩ := (setBandwidth_selects 2000000).2.1 (by decide)
  exact ⟨by decide, by decide, monotone, edge⟩

end RtlSdr.R82xx
