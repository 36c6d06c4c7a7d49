/-
# Runs of the bitset macros

The macros of `common/bitset.h` on the array itself: a list of `char`s and
positions that are plain numbers, so that an access can leave the array, which is
`none`.  A `Bitset` is such an array with its size (`toChars`), and on positions
below that size the macros are its operations (`bitsetSet_toChars`,
`bitsetClear_toChars`, `bitsetTest_toChars`).  So a run stays in the array, and a
bit is what the last operation on it made it (`bitsetRun_test`).
-/

import DetBypass.Common.Bitset
import Mathlib.Data.List.OfFn
import Mathlib.Data.List.Induction

namespace DetBypass

/-- `volatile char name[…]`. -/
abbrev Chars := List (BitVec 8)

/-- `BITSET_INIT (a, nb)`, the `memset` over `BITSET_SLOTS (nb)` slots. -/
def bitsetInit (nb : ℕ) (a : Chars) : Option Chars :=
  if bitsetSlots nb ≤ a.length then
    some (List.replicate (bitsetSlots nb) 0 ++ a.drop (bitsetSlots nb))
  else none

/-- `BITSET_SET (a, b)`. -/
def bitsetSet (a : Chars) (b : ℕ) : Option Chars :=
  a[bitSlot b]?.map fun slot =>
    a.set (bitSlot b) ((slot.signExtend 32 ||| bitMask b).setWidth 8)

/-- `BITSET_CLEAR (a, b)`. -/
def bitsetClear (a : Chars) (b : ℕ) : Option Chars :=
  a[bitSlot b]?.map fun slot =>
    a.set (bitSlot b) ((slot.signExtend 32 &&& ~~~ bitMask b).setWidth 8)

/-- `BITSET_TEST (a, b)`. -/
def bitsetTest (a : Chars) (b : ℕ) : Option (BitVec 32) :=
  a[bitSlot b]?.map fun slot => slot.signExtend 32 &&& bitMask b

/-- An operation at a position. -/
inductive BitsetOp
  | set (b : ℕ)
  | clear (b : ℕ)
deriving DecidableEq

/-- The position of an operation. -/
def BitsetOp.pos : BitsetOp → ℕ
  | .set b | .clear b => b

/-- One operation. -/
def bitsetStep (a : Chars) : BitsetOp → Option Chars
  | .set b => bitsetSet a b
  | .clear b => bitsetClear a b

/-- A sequence of operations. -/
def bitsetRun (a : Chars) (ops : List BitsetOp) : Option Chars := ops.foldlM bitsetStep a

/-- The last operation at a position. -/
def lastAt (ops : List BitsetOp) (b : ℕ) : Option BitsetOp :=
  ops.reverse.find? fun op => op.pos = b

/-- The last operation on a bit, after one more. -/
theorem lastAt_concat (ops : List BitsetOp) (op : BitsetOp) (b : ℕ) :
    lastAt (ops ++ [op]) b = if op.pos = b then some op else lastAt ops b := by
  rw [lastAt, List.reverse_concat, List.find?_cons]
  by_cases hb : op.pos = b
  · simp [hb]
  · simp [hb, lastAt]

namespace Bitset

variable {nb : ℕ} {a : Bitset nb} {b c : Fin nb}

/-- The array of a bitset. -/
def toChars (a : Bitset nb) : Chars := List.ofFn a.slots

/-- The array has as many bytes as slots. -/
@[simp] theorem length_toChars (a : Bitset nb) : a.toChars.length = bitsetSlots nb :=
  List.length_ofFn

/-- The slot of a position below the size is in the array. -/
theorem getElem?_toChars (a : Bitset nb) (b : Fin nb) :
    a.toChars[bitSlot b]? = some (a.slots (slot b)) := by
  rw [toChars, List.getElem?_ofFn, dif_pos (bitSlot_lt b.isLt)]
  rfl

/-- A store to that slot. -/
theorem set_toChars (a : Bitset nb) (b : Fin nb) (v : BitVec 32) :
    a.toChars.set (bitSlot b) (v.setWidth 8) = (a.store b v).toChars := by
  refine List.ext_getElem (by simp) fun i hi _ => ?_
  rw [List.length_set, length_toChars] at hi
  by_cases he : bitSlot b = i
  · subst he
    simp [toChars, store, slot]
  · have hne : (⟨i, hi⟩ : Fin (bitsetSlots nb)) ≠ slot b := fun h => he (congrArg Fin.val h).symm
    simp [toChars, store, List.getElem_set_ne he, Function.update_of_ne hne]

/-- `BITSET_SET` on the bytes is that of the bits. -/
theorem bitsetSet_toChars (a : Bitset nb) (b : Fin nb) :
    bitsetSet a.toChars b = some (a.set b).toChars := by
  rw [bitsetSet, getElem?_toChars, Option.map_some, set_toChars]
  rfl

/-- So is `BITSET_CLEAR`. -/
theorem bitsetClear_toChars (a : Bitset nb) (b : Fin nb) :
    bitsetClear a.toChars b = some (a.clear b).toChars := by
  rw [bitsetClear, getElem?_toChars, Option.map_some, set_toChars]
  rfl

/-- And `BITSET_TEST`. -/
theorem bitsetTest_toChars (a : Bitset nb) (b : Fin nb) :
    bitsetTest a.toChars b = some (a.test b) := by
  rw [bitsetTest, getElem?_toChars, Option.map_some]
  rfl

/-- A cleared array is the empty set. -/
theorem bitsetInit_eq {chars : Chars} (h : chars.length = bitsetSlots nb) :
    bitsetInit nb chars = some (init nb).toChars := by
  rw [bitsetInit, if_pos h.ge, List.drop_eq_nil_of_le h.le, List.append_nil, toChars, init,
    List.ofFn_const]

/-- The value of a test depends on the position only. -/
theorem test_eq : a.test b = if a.Mem b then bitMask b else 0 := by
  rw [test, bitMask_eq, BitVec.and_twoPow, getLsbD_load (mod_charBit_lt b)]
  rfl

/-- **One operation** keeps the array and changes its own position. -/
theorem step_toChars (a : Bitset nb) {op : BitsetOp} (hop : op.pos < nb) :
    ∃ a' : Bitset nb, bitsetStep a.toChars op = some a'.toChars ∧
      ∀ b : Fin nb, a'.Mem b ↔ if op.pos = b then op = .set b else a.Mem b := by
  cases op with
  | set b =>
      refine ⟨a.set ⟨b, hop⟩, bitsetSet_toChars a ⟨b, hop⟩, fun c => ?_⟩
      by_cases hc : b = c
      · subst hc
        simp [BitsetOp.pos]
      · have hne : c ≠ ⟨b, hop⟩ := fun h => hc (congrArg Fin.val h).symm
        simp [BitsetOp.pos, hc, hne]
  | clear b =>
      refine ⟨a.clear ⟨b, hop⟩, bitsetClear_toChars a ⟨b, hop⟩, fun c => ?_⟩
      by_cases hc : b = c
      · subst hc
        simp [BitsetOp.pos]
      · have hne : c ≠ ⟨b, hop⟩ := fun h => hc (congrArg Fin.val h).symm
        simp [BitsetOp.pos, hc, hne]

/-- **A run** keeps the array, and a position is in the set if the last operation
on it was a set. -/
theorem run_toChars {ops : List BitsetOp} (h : ∀ op ∈ ops, op.pos < nb) :
    ∃ a : Bitset nb, bitsetRun (init nb).toChars ops = some a.toChars ∧
      ∀ b : Fin nb, a.Mem b ↔ lastAt ops b = some (.set b) := by
  induction ops using List.reverseRecOn with
  | nil => exact ⟨init nb, rfl, fun b => by simp [lastAt]⟩
  | append_singleton ops op ih =>
      obtain ⟨a, hrun, hmem⟩ := ih fun op' hop' => h op' (List.mem_append_left _ hop')
      obtain ⟨a', hstep, hmem'⟩ :=
        step_toChars a (h op (List.mem_append_right _ (List.mem_singleton_self op)))
      refine ⟨a', ?_, fun b => ?_⟩
      · rw [bitsetRun] at hrun ⊢
        rw [List.foldlM_append, hrun]
        simpa using hstep
      · rw [hmem', lastAt_concat]
        split_ifs
        · exact (Option.some_inj).symm
        · exact hmem b

end Bitset

/-- **The macros implement a finite set.**  For every size, whatever the array
held: no access of a run at positions below the size leaves the array, and a bit
is set exactly if the last operation on it was a set; an operation at another
position does not change the value of its test. -/
theorem bitsetRun_test {nb : ℕ} {chars : Chars} (hchars : chars.length = bitsetSlots nb)
    {ops : List BitsetOp} (h : ∀ op ∈ ops, op.pos < nb) :
    ∃ a, (bitsetInit nb chars).bind (bitsetRun · ops) = some a ∧ a.length = bitsetSlots nb ∧
      ∀ b < nb, ∃ v, bitsetTest a b = some v ∧ (v ≠ 0 ↔ lastAt ops b = some (.set b)) ∧
        ∀ op : BitsetOp, op.pos < nb → op.pos ≠ b →
          ∃ a', bitsetStep a op = some a' ∧ bitsetTest a' b = some v := by
  obtain ⟨a, hrun, hmem⟩ := Bitset.run_toChars h
  refine ⟨a.toChars, ?_, a.length_toChars, fun b hb => ?_⟩
  · rw [Bitset.bitsetInit_eq hchars]
    exact hrun
  · refine ⟨a.test ⟨b, hb⟩, a.bitsetTest_toChars ⟨b, hb⟩, ?_, fun op hop hne => ?_⟩
    · rw [Bitset.test_ne_zero]
      exact hmem ⟨b, hb⟩
    · obtain ⟨a', hstep, hmem'⟩ := a.step_toChars hop
      refine ⟨a'.toChars, hstep, ?_⟩
      have hsame : a'.Mem ⟨b, hb⟩ ↔ a.Mem ⟨b, hb⟩ := by
        rw [hmem', if_neg hne]
      rw [a'.bitsetTest_toChars ⟨b, hb⟩, Bitset.test_eq, Bitset.test_eq, if_congr hsame rfl rfl]

/-- Bits 7 and 6 of the second of two slots: the `char` is negative while bit 15
is set. -/
theorem bitsetRun_test_sixteen :
    ∃ a, (bitsetInit 16 [3, 5]).bind (bitsetRun · [.set 15, .set 14, .clear 14]) = some a ∧
      ∃ v, bitsetTest a 15 = some v ∧ v ≠ 0 := by
  obtain ⟨a, hrun, -, htest⟩ := bitsetRun_test
    (show ([3, 5] : Chars).length = bitsetSlots 16 by decide)
    (show ∀ op ∈ [BitsetOp.set 15, .set 14, .clear 14], op.pos < 16 by decide)
  obtain ⟨v, hv, hiff, -⟩ := htest 15 (by decide)
  exact ⟨a, hrun, v, hv, hiff.2 (by decide)⟩

end DetBypass
