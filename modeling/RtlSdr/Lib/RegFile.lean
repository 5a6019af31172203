import Mathlib.Data.List.Basic

/-!
# Register files

Registers of one byte under consecutive numbers. A store of several bytes goes to as many
registers from its first one on, as a device with an auto-incrementing address does it.
-/

/-- The value of each register. -/
abbrev RegFile := Nat → UInt8

namespace RegFile

def store (file : RegFile) (reg : Nat) (bytes : List UInt8) : RegFile := fun i =>
  if reg ≤ i then (bytes[i - reg]?).getD (file i) else file i

/-- Single bytes to single registers, one after the other. -/
def storeAll (file : RegFile) (writes : List (Nat × UInt8)) : RegFile :=
  writes.foldl (fun regs write => regs.store write.1 [write.2]) file

def load (file : RegFile) (reg len : Nat) : List UInt8 :=
  (List.range len).map fun i => file (reg + i)

variable (file : RegFile) (reg : Nat) (bytes : List UInt8)

theorem store_inside (i : Nat) (byte : UInt8) (here : bytes[i]? = some byte) :
    store file reg bytes (reg + i) = byte := by
  rw [store, if_pos (Nat.le_add_right _ _), Nat.add_sub_cancel_left, here]
  rfl

theorem store_outside (i : Nat) (outside : i < reg ∨ reg + bytes.length ≤ i) :
    store file reg bytes i = file i := by
  unfold store
  split
  next behind =>
    rw [List.getElem?_eq_none (by omega)]
    rfl
  next => rfl

theorem store_other {reg i : Nat} (byte : UInt8) (other : i ≠ reg) :
    store file reg [byte] i = file i :=
  store_outside file reg [byte] i (by rw [List.length_singleton]; omega)

theorem store_append (first second : List UInt8) :
    store (store file reg first) (reg + first.length) second =
      store file reg (first ++ second) := by
  funext i
  by_cases before : i < reg
  · rw [store_outside _ _ _ _ (.inl (by omega)), store_outside _ _ _ _ (.inl before),
      store_outside _ _ _ _ (.inl before)]
  · obtain ⟨k, rfl⟩ : ∃ k, i = reg + k := ⟨i - reg, by omega⟩
    by_cases inFirst : k < first.length
    · rw [store_outside _ _ _ _ (.inl (by omega)),
        store_inside _ _ _ _ _ (List.getElem?_eq_getElem inFirst)]
      exact (store_inside _ _ _ _ _ (by
        rw [List.getElem?_append_left inFirst, List.getElem?_eq_getElem inFirst])).symm
    · by_cases inSecond : k - first.length < second.length
      · have here := List.getElem?_eq_getElem inSecond
        have place : reg + k = reg + first.length + (k - first.length) := by omega
        rw [store_inside _ _ (first ++ second) k _ (by
          rw [List.getElem?_append_right (by omega), here])]
        rw [place]
        exact store_inside _ _ _ _ _ here
      · rw [store_outside _ _ _ _ (.inr (by omega)), store_outside _ _ _ _ (.inr (by omega)),
          store_outside _ _ _ _ (.inr (by rw [List.length_append]; omega))]

@[simp] theorem load_length (len : Nat) : (load file reg len).length = len := by
  rw [load, List.length_map, List.length_range]

theorem load_getElem (len i : Nat) (inside : i < len) :
    (load file reg len)[i]? = some (file (reg + i)) := by
  simp [load, inside]

theorem load_eq_iff :
    load file reg bytes.length = bytes ↔
      ∀ i (inside : i < bytes.length), file (reg + i) = bytes.get ⟨i, inside⟩ := by
  constructor
  · intro same i inside
    have here := load_getElem file reg bytes.length i inside
    rw [same, List.getElem?_eq_getElem inside] at here
    exact (Option.some.inj here).symm
  · intro all
    apply List.ext_get
    · exact load_length file reg _
    · intro i _ inside
      simpa [load] using all i inside

theorem load_store : load (store file reg bytes) reg bytes.length = bytes := by
  rw [load_eq_iff]
  intro i inside
  exact store_inside file reg bytes i _ (List.getElem?_eq_getElem inside)

theorem store_load (same : load file reg bytes.length = bytes) : store file reg bytes = file := by
  rw [load_eq_iff] at same
  funext i
  by_cases outside : i < reg ∨ reg + bytes.length ≤ i
  · exact store_outside file reg bytes i outside
  · obtain ⟨k, rfl⟩ : ∃ k, i = reg + k := ⟨i - reg, by omega⟩
    have inside : k < bytes.length := by omega
    rw [same k inside]
    exact store_inside file reg bytes k _ (List.getElem?_eq_getElem inside)

end RegFile
