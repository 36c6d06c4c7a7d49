/-
# Numbers in a text, as `strtol` reads them

`strtol` in base 10 skips whitespace, takes a sign and the digits after it, and
saturates at the bounds of a 64-bit `long`; a text without digits is 0.
`atoll` is that value as an `int64_t`, `atoi` the same value cut to its low 32
bits.

What they are as machine integers is said of the number the text writes, of any
size: `atoll` has it below `2 ^ 63` (`atoll_toUInt64_toNat_eq_iff`), and `atoi`,
extended to 64 bits with its sign, below `2 ^ 31` and at the one value
`2 ^ 64 - 1` (`atoi_toUInt64_toNat_eq_iff`).
-/

import Mathlib.Data.Nat.Notation
import Mathlib.Data.Int.Notation
import Mathlib.Order.Lattice
import Mathlib.Algebra.Order.Ring.Int
import Mathlib.Data.List.TakeWhile

namespace DetBypass
namespace Lib

variable {text : List Char} {n : ℕ}

/-- `isspace`. -/
def isSpace (c : Char) : Bool := c == ' ' || (9 ≤ c.toNat && c.toNat ≤ 13)

/-- The number of the digits a text begins with. -/
def digitRun (text : List Char) : ℕ := Nat.ofDigitChars 10 (text.takeWhile Char.isDigit) 0

/-- The number a text begins with, after whitespace and a sign. -/
def number (text : List Char) : ℤ :=
  match text.dropWhile isSpace with
  | '-' :: text => -(digitRun text : ℤ)
  | '+' :: text => digitRun text
  | text => digitRun text

/-- Digits, and their number. -/
def IsDecimal (text : List Char) (n : ℕ) : Prop :=
  text ≠ [] ∧ text.all Char.isDigit = true ∧ Nat.ofDigitChars 10 text 0 = n

instance : Decidable (IsDecimal text n) := inferInstanceAs (Decidable (_ ∧ _))

/-- `strtol (…, NULL, 10)`, as an integer. -/
def strtol (text : List Char) : ℤ := max (-2 ^ 63) (min (number text) (2 ^ 63 - 1))

/-- `atoll`. -/
def atoll (text : List Char) : Int64 := Int64.ofInt (strtol text)

/-- `atoi`: the `int` that `strtol` is cut to. -/
def atoi (text : List Char) : Int32 := Int32.ofInt (strtol text)

example : atoi " -12x".toList = -12 := by decide

/-! ### The number of a text -/

/-- A digit is no space. -/
theorem not_isSpace_of_isDigit {c : Char} (hc : c.isDigit = true) : isSpace c = false := by
  simp only [Char.isDigit, Bool.and_eq_true, decide_eq_true_eq] at hc
  have h48 : 48 ≤ c.toNat := hc.1
  have hne : c ≠ ' ' := by
    rintro rfl
    exact absurd h48 (by decide)
  simp [isSpace, hne]
  omega

/-- **A decimal is its number.** -/
theorem number_of_isDecimal (h : IsDecimal text n) : number text = n := by
  obtain ⟨hne, hall, rfl⟩ := h
  have hdigits := List.all_eq_true.1 hall
  obtain ⟨c, text, rfl⟩ := List.exists_cons_of_ne_nil hne
  have hrun : digitRun (c :: text) = Nat.ofDigitChars 10 (c :: text) 0 := by
    rw [digitRun, List.takeWhile_eq_self_iff.2 hdigits]
  have hc := hdigits c (List.mem_cons_self ..)
  have hdrop : (c :: text).dropWhile isSpace = c :: text :=
    List.dropWhile_cons_of_neg (by simp [not_isSpace_of_isDigit hc])
  rw [number, hdrop, ← hrun]
  split
  · exact absurd hc (by simp_all)
  · exact absurd hc (by simp_all)
  · rfl

/-! ### As machine integers -/

/-- The result is a `long`. -/
theorem strtol_lt (text : List Char) : -2 ^ 63 ≤ strtol text ∧ strtol text < 2 ^ 63 := by
  unfold strtol
  omega

/-- Clamping makes no zero. -/
theorem strtol_eq_zero_iff : strtol text = 0 ↔ number text = 0 := by
  unfold strtol
  omega

/-- `atoll` is `strtol`. -/
theorem atoll_toInt (text : List Char) : (atoll text).toInt = strtol text :=
  Int64.toInt_ofInt_of_le (strtol_lt text).1 (strtol_lt text).2

/-- The low 32 bits, and the sign they have. -/
theorem atoi_toInt (text : List Char) : (atoi text).toInt =
    if strtol text % 2 ^ 32 < 2 ^ 31 then strtol text % 2 ^ 32
    else strtol text % 2 ^ 32 - 2 ^ 32 :=
  Int32.toInt_ofInt

/-- The unsigned value of a 64-bit integer. -/
theorem toNat_toUInt64 (x : Int64) : (x.toUInt64.toNat : ℤ) = x.toInt % 2 ^ 64 := by
  have h : x.toInt = if 2 * x.toUInt64.toNat < 2 ^ 64 then (x.toUInt64.toNat : ℤ)
      else x.toUInt64.toNat - (2 ^ 64 : ℕ) := BitVec.toInt_eq_toNat_cond x.toBitVec
  have hlt := x.toUInt64.toNat_lt
  rw [h]
  split_ifs <;> omega

/-- As a `uint64_t` it is 0 only for 0. -/
theorem atoll_toUInt64_eq_zero_iff : (atoll text).toUInt64 = 0 ↔ number text = 0 := by
  have hval := toNat_toUInt64 (atoll text)
  have hlt := strtol_lt text
  rw [atoll_toInt] at hval
  rw [← strtol_eq_zero_iff, ← UInt64.toNat_inj]
  show _ = 0 ↔ _
  omega

/-- `atoi` is 0 where the low 32 bits are. -/
theorem atoi_toUInt64_eq_zero_iff :
    (atoi text).toInt64.toUInt64 = 0 ↔ strtol text % 2 ^ 32 = 0 := by
  have hval := toNat_toUInt64 (atoi text).toInt64
  rw [Int32.toInt_toInt64, atoi_toInt] at hval
  rw [← UInt64.toNat_inj]
  show _ = 0 ↔ _
  split_ifs at hval <;> omega

/-- **`atoll` is the number below `2 ^ 63`**, and the bound from there on. -/
theorem atoll_toUInt64_toNat_eq_iff (h : number text = n) :
    (atoll text).toUInt64.toNat = n ↔ n < 2 ^ 63 := by
  have hval := toNat_toUInt64 (atoll text)
  rw [atoll_toInt, strtol, h] at hval
  omega

/-- **`atoi` is the number below `2 ^ 31`**; above, its sign and what it cuts off
leave only the largest 64-bit value, which saturates and comes out as -1. -/
theorem atoi_toUInt64_toNat_eq_iff (h : number text = n) (hn : n < 2 ^ 64) :
    (atoi text).toInt64.toUInt64.toNat = n ↔ n < 2 ^ 31 ∨ n = 2 ^ 64 - 1 := by
  have hval := toNat_toUInt64 (atoi text).toInt64
  rw [Int32.toInt_toInt64, atoi_toInt, strtol, h] at hval
  split_ifs at hval <;> omega

end Lib
end DetBypass
