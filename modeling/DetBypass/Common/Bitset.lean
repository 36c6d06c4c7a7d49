/-
# The bitset

`common/bitset.h`: a set of positions below `nb` in an array of `char`.  The
slots are signed 8-bit `char`s; `|=` and `&=` promote a slot to `int`, combine
it with an `int` mask and store the low 8 bits, and `BITSET_TEST` is the `int`
that remains under the mask.  A position is a `Fin nb` and an array has
`BITSET_SLOTS (nb)` slots, so no access leaves the array (`bitSlot_lt`).

`mem_set` and `mem_clear` say that the macros change one position, also in a
slot whose top bit makes the stored `char` negative.
-/

import Mathlib.Logic.Function.Basic
import Mathlib.Tactic.Common

namespace DetBypass

/-- `CHAR_BIT`. -/
def charBit : ℕ := 8

/-- `BITMASK (b)`. -/
def bitMask (b : ℕ) : BitVec 32 := 1 <<< (b % charBit)

/-- `BITSLOT (b)`. -/
def bitSlot (b : ℕ) : ℕ := b / charBit

/-- `BITSET_SLOTS (nb)`. -/
def bitsetSlots (nb : ℕ) : ℕ := (nb + charBit - 1) / charBit

/-- Every bit has its slot in the array. -/
theorem bitSlot_lt {b nb : ℕ} (h : b < nb) : bitSlot b < bitsetSlots nb := by
  simp only [bitSlot, bitsetSlots, charBit]
  omega

/-- `BITSET_DECLARE (name, nb)`. -/
structure Bitset (nb : ℕ) where
  slots : Fin (bitsetSlots nb) → BitVec 8

namespace Bitset

variable {nb : ℕ} {a : Bitset nb} {b c : Fin nb}

/-- `BITSET_INIT`. -/
def init (nb : ℕ) : Bitset nb := ⟨fun _ => 0⟩

/-- The slot of a position. -/
def slot (b : Fin nb) : Fin (bitsetSlots nb) := ⟨bitSlot b, bitSlot_lt b.isLt⟩

/-- A slot, promoted to `int`. -/
def load (a : Bitset nb) (b : Fin nb) : BitVec 32 := (a.slots (slot b)).signExtend 32

/-- An `int` stored in a slot. -/
def store (a : Bitset nb) (b : Fin nb) (v : BitVec 32) : Bitset nb :=
  ⟨Function.update a.slots (slot b) (v.setWidth 8)⟩

/-- `BITSET_SET`. -/
def set (a : Bitset nb) (b : Fin nb) : Bitset nb := a.store b (a.load b ||| bitMask b)

/-- `BITSET_CLEAR`. -/
def clear (a : Bitset nb) (b : Fin nb) : Bitset nb := a.store b (a.load b &&& ~~~ bitMask b)

/-- `BITSET_TEST`. -/
def test (a : Bitset nb) (b : Fin nb) : BitVec 32 := a.load b &&& bitMask b

/-- The position is in the set: its bit of its slot. -/
def Mem (a : Bitset nb) (b : Fin nb) : Prop :=
  (a.slots (slot b)).getLsbD (b % charBit) = true

instance : Decidable (a.Mem b) := inferInstanceAs (Decidable (_ = true))

/-- The mask of a bit has it alone. -/
theorem bitMask_eq (b : ℕ) : bitMask b = BitVec.twoPow 32 (b % charBit) := rfl

/-- A bit lies in its byte. -/
theorem mod_charBit_lt (b : ℕ) : b % charBit < 8 := Nat.mod_lt _ (by decide)

/-- The low 8 bits of a promoted slot are the slot. -/
theorem getLsbD_load {i : ℕ} (hi : i < 8) (a : Bitset nb) (b : Fin nb) :
    (a.load b).getLsbD i = (a.slots (slot b)).getLsbD i := by
  rw [load, BitVec.getLsbD_signExtend, if_pos hi, decide_eq_true (by omega), Bool.true_and]

/-- Two positions with the same slot and the same bit are equal. -/
theorem eq_of_slot_eq (hslot : slot b = slot c) (hbit : (b : ℕ) % charBit = c % charBit) :
    b = c := by
  have hdiv : (b : ℕ) / charBit = c / charBit := congrArg Fin.val hslot
  have hb := Nat.div_add_mod (b : ℕ) charBit
  have hc := Nat.div_add_mod (c : ℕ) charBit
  rw [hdiv, hbit, hc] at hb
  exact Fin.ext hb.symm

/-- A store whose low bits differ from the slot at one position at most. -/
theorem mem_store (a : Bitset nb) (b c : Fin nb) {v : BitVec 32} {x : Bool}
    (hv : ∀ i < 8, v.getLsbD i =
      if i = (b : ℕ) % charBit then x else (a.slots (slot b)).getLsbD i) :
    (a.store b v).Mem c ↔ if c = b then x = true else a.Mem c := by
  have hi := mod_charBit_lt c
  by_cases hslot : slot c = slot b
  · rw [Mem, store, hslot]
    simp only [Function.update_self]
    rw [BitVec.getLsbD_setWidth, decide_eq_true hi,
      Bool.true_and, hv _ hi]
    by_cases hcb : c = b
    · rw [if_pos hcb, hcb, if_pos rfl]
    · rw [if_neg hcb, if_neg fun hbit => hcb (eq_of_slot_eq hslot hbit), Mem, hslot]
  · have hcb : c ≠ b := fun h => hslot (h ▸ rfl)
    simp only [Mem, store, Function.update_of_ne hslot, if_neg hcb]

/-- `BITSET_INIT` leaves no bit set. -/
@[simp] theorem not_mem_init : ¬ (init nb).Mem b := by
  simp [Mem, init]

/-- **`BITSET_SET` adds its position** and keeps the others. -/
@[simp] theorem mem_set : (a.set b).Mem c ↔ c = b ∨ a.Mem c := by
  rw [set, mem_store a b c (x := true) fun i hi => ?_]
  · by_cases hcb : c = b <;> simp [hcb]
  · rw [BitVec.getLsbD_or, getLsbD_load hi, bitMask_eq, BitVec.getLsbD_twoPow,
      decide_eq_true (show (b : ℕ) % charBit < 32 by have := mod_charBit_lt b; omega)]
    by_cases hib : i = (b : ℕ) % charBit
    · simp [hib]
    · simp [hib, Ne.symm hib]

/-- **`BITSET_CLEAR` removes its position** and keeps the others. -/
@[simp] theorem mem_clear : (a.clear b).Mem c ↔ c ≠ b ∧ a.Mem c := by
  rw [clear, mem_store a b c (x := false) fun i hi => ?_]
  · by_cases hcb : c = b <;> simp [hcb]
  · rw [BitVec.getLsbD_and, getLsbD_load hi, BitVec.getLsbD_not, bitMask_eq,
      BitVec.getLsbD_twoPow, decide_eq_true (show i < 32 by omega),
      decide_eq_true (show (b : ℕ) % charBit < 32 by have := mod_charBit_lt b; omega)]
    by_cases hib : i = (b : ℕ) % charBit
    · simp [hib]
    · simp [hib, Ne.symm hib]

/-- **`BITSET_TEST` is non-zero exactly on the set.** -/
theorem test_ne_zero : a.test b ≠ 0 ↔ a.Mem b := by
  have hi := mod_charBit_lt b
  rw [test, bitMask_eq, BitVec.and_twoPow, getLsbD_load hi, Mem]
  by_cases hb : (a.slots (slot b)).getLsbD (b % charBit) = true
  · simp only [hb, if_true, iff_true]
    intro h
    have hbit := congrArg (BitVec.getLsbD · (b % charBit)) h
    simp [BitVec.getLsbD_twoPow] at hbit
    omega
  · simp [hb]

end Bitset
end DetBypass
