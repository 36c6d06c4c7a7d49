/-
# Bytes in hexadecimal

A byte is printed as two hexadecimal digits (`%02x`), several of them with a separator
between them.  `scanHex` is the conversion `%x` of `sscanf`: whitespace,
a sign and the prefix `0x` are skipped, every digit that follows is taken, and the
value saturates at an `unsigned long`.  `scanBytes` is a format of such conversions
cut to bytes (`%hhx`), which stops at the first text that does not match.

A text of bytes is read back (`scanBytes_printBytes`): as many as the format
asks for, or all of them if the text has fewer.
-/

import DetBypass.Lib.Strtol
import Mathlib.Data.List.Basic

namespace DetBypass
namespace Lib

/-- The value of a hexadecimal digit, of either case. -/
def hexValue (c : Char) : Option ℕ :=
  if c.isDigit then some (c.toNat - 48)
  else if 97 ≤ c.toNat ∧ c.toNat ≤ 102 then some (c.toNat - 87)
  else if 65 ≤ c.toNat ∧ c.toNat ≤ 70 then some (c.toNat - 55)
  else none

/-- The hexadecimal digits a text begins with, after those of `n`, and what follows
them. -/
def hexRun : ℕ → List Char → ℕ × List Char
  | n, [] => (n, [])
  | n, c :: text =>
    match hexValue c with
    | some d => hexRun (16 * n + d) text
    | none => (n, c :: text)

/-- The sign a text begins with, and what follows it. -/
def scanSign : List Char → Bool × List Char
  | '-' :: text => (true, text)
  | '+' :: text => (false, text)
  | text => (false, text)

/-- What follows the prefix `0x`, if there is one. -/
def dropPrefix : List Char → List Char
  | '0' :: 'x' :: text | '0' :: 'X' :: text => text
  | text => text

/-- `strtoul` of a number with its sign. -/
def unsignedLong (negative : Bool) (n : ℕ) : ℕ :=
  if 2 ^ 64 ≤ n then 2 ^ 64 - 1 else if negative then (2 ^ 64 - n) % 2 ^ 64 else n

/-- The conversion `%x`: the value and what follows it, unless there is no digit. -/
def scanHex (text : List Char) : Option (ℕ × List Char) :=
  let (negative, text) := scanSign (text.dropWhile isSpace)
  let text := dropPrefix text
  match text with
  | [] => none
  | c :: _ =>
    if (hexValue c).isSome then
      let (n, rest) := hexRun 0 text
      some (unsignedLong negative n, rest)
    else none

/-- The bytes that a format of `n` conversions `%hhx` with a separator between them
assigns; `sscanf` returns their number, or `EOF`. -/
def scanBytes (sep : Char) : ℕ → List Char → List UInt8
  | 0, _ => []
  | n + 1, text =>
    match scanHex text with
    | none => []
    | some (v, rest) => UInt8.ofNat v :: match rest with
      | [] => []
      | c :: rest => if c = sep then scanBytes sep n rest else []

/-- The two digits of a byte. -/
def printByte (digit : ℕ → Char) (b : UInt8) : List Char :=
  [digit (b.toNat / 16), digit (b.toNat % 16)]

/-- Bytes with a separator between them. -/
def printBytes (digit : ℕ → Char) (sep : Char) : List UInt8 → List Char
  | [] => []
  | [b] => printByte digit b
  | b :: b' :: bytes => printByte digit b ++ sep :: printBytes digit sep (b' :: bytes)

example : scanBytes ':' 3 " 0xa:-1:1ff;".toList = [10, 255, 255] := by decide

/-! ### Digits -/

/-- Characters for the sixteen digits. -/
def IsHexDigits (digit : ℕ → Char) : Prop := ∀ n < 16, hexValue (digit n) = some n

/-- The digits of Lean are hexadecimal digits. -/
theorem isHexDigits_digitChar : IsHexDigits Nat.digitChar := by
  unfold IsHexDigits
  decide

variable {digit : ℕ → Char} {sep c : Char} {text rest : List Char}

/-- Hexadecimal digits begin at `'0'`. -/
theorem le_of_hexValue {n : ℕ} (h : hexValue c = some n) : 48 ≤ c.toNat := by
  unfold hexValue at h
  split_ifs at h with hc hlower hupper
  · simp only [Char.isDigit, Bool.and_eq_true, decide_eq_true_eq] at hc
    exact hc.1
  · omega
  · omega

/-- A digit is no whitespace, sign, or letter of the prefix. -/
theorem ne_of_hexValue {n : ℕ} (h : hexValue c = some n) :
    isSpace c = false ∧ c ≠ '-' ∧ c ≠ '+' ∧ c ≠ 'x' ∧ c ≠ 'X' := by
  have hne : ∀ d, hexValue d = none → c ≠ d := by
    rintro d hd rfl
    rw [h] at hd
    cases hd
  refine ⟨?_, hne _ (by decide), hne _ (by decide), hne _ (by decide), hne _ (by decide)⟩
  have h48 := le_of_hexValue h
  simp only [isSpace, beq_eq_false_iff_ne.2 (hne ' ' (by decide)), Bool.false_or,
    Bool.and_eq_false_iff, decide_eq_false_iff_not]
  omega

/-- The text ends, or goes on with something other than a digit. -/
def NoDigit (text : List Char) : Prop := ∀ c ∈ text.head?, hexValue c = none

/-- A run ends where no digit stands. -/
theorem hexRun_of_noDigit (h : NoDigit rest) (n : ℕ) : hexRun n rest = (n, rest) := by
  cases rest with
  | nil => rfl
  | cons c rest =>
      rw [hexRun, h c (by simp)]

/-- **A printed byte is read back**, and nothing of what follows it. -/
theorem scanHex_printByte (hdigit : IsHexDigits digit) (b : UInt8) (h : NoDigit rest) :
    scanHex (printByte digit b ++ rest) = some (b.toNat, rest) := by
  have hlt : b.toNat < 256 := b.toNat_lt
  have hhigh := hdigit (b.toNat / 16) (by omega)
  have hlow := hdigit (b.toNat % 16) (by omega)
  obtain ⟨hspace, hminus, hplus, -⟩ := ne_of_hexValue hhigh
  obtain ⟨-, -, -, hx, hx'⟩ := ne_of_hexValue hlow
  have hdrop : (printByte digit b ++ rest).dropWhile isSpace = printByte digit b ++ rest :=
    List.dropWhile_cons_of_neg (by simp [hspace])
  have hsign : scanSign (printByte digit b ++ rest) = (false, printByte digit b ++ rest) := by
    simp only [printByte, List.cons_append, List.nil_append]
    unfold scanSign
    split
    · simp_all
    · simp_all
    · rfl
  have hzero : dropPrefix (printByte digit b ++ rest) = printByte digit b ++ rest := by
    simp only [printByte, List.cons_append, List.nil_append]
    unfold dropPrefix
    split
    · simp_all
    · simp_all
    · rfl
  have hrun : hexRun 0 (printByte digit b ++ rest) = (b.toNat, rest) := by
    simp only [printByte, List.cons_append, List.nil_append, hexRun, hhigh, hlow,
      hexRun_of_noDigit h]
    rw [Prod.mk.injEq]
    exact ⟨by omega, rfl⟩
  have hulong : unsignedLong false b.toNat = b.toNat := by
    rw [unsignedLong, if_neg (by omega), if_neg (by decide)]
  unfold scanHex
  rw [hdrop, hsign]
  simp only [hzero]
  simp only [hrun, hulong]
  simp [printByte, hhigh]

/-! ### Bytes -/

/-- The text has digits and separators only. -/
theorem hexValue_of_mem_printBytes (hdigit : IsHexDigits digit) {bytes : List UInt8}
    (hc : c ∈ printBytes digit sep bytes) : hexValue c ≠ none ∨ c = sep := by
  have hbyte (b : UInt8) (h : c ∈ printByte digit b) : hexValue c ≠ none := by
    have hlt : b.toNat < 256 := b.toNat_lt
    simp only [printByte, List.mem_cons, List.not_mem_nil, or_false] at h
    rcases h with rfl | rfl
    · simp [hdigit (b.toNat / 16) (by omega)]
    · simp [hdigit (b.toNat % 16) (by omega)]
  fun_induction printBytes digit sep bytes with
  | case1 => simp at hc
  | case2 b => exact Or.inl (hbyte b hc)
  | case3 b b' bytes ih =>
      rcases List.mem_append.1 hc with hc | hc
      · exact Or.inl (hbyte b hc)
      · rcases List.mem_cons.1 hc with hc | hc
        · exact Or.inr hc
        · exact ih hc

/-- Two digits for each byte, and a separator between. -/
theorem printBytes_length (bytes : List UInt8) :
    (printBytes digit sep bytes).length = 3 * bytes.length - 1 := by
  fun_induction printBytes digit sep bytes with
  | case1 => rfl
  | case2 b => rfl
  | case3 b b' bytes ih =>
      simp only [List.length_append, List.length_cons, ih, printByte, List.length_nil]
      omega

/-- The text of the first bytes. -/
theorem printBytes_take (bytes : List UInt8) (n : ℕ) :
    (printBytes digit sep bytes).take (3 * n - 1) = printBytes digit sep (bytes.take n) := by
  induction bytes generalizing n with
  | nil => simp [printBytes]
  | cons b bytes ih =>
      cases n with
      | zero => simp [printBytes]
      | succ n =>
          cases bytes with
          | nil => simp [printBytes, printByte, show 3 * (n + 1) - 1 = 3 * n + 2 by omega]
          | cons b' bytes =>
              cases n with
              | zero => simp [printBytes, printByte]
              | succ n =>
                  have ih := ih (n + 1)
                  rw [List.take_succ_cons, List.take_succ_cons] at *
                  simp only [printBytes, printByte, List.cons_append, List.nil_append,
                    show 3 * (n + 1 + 1) - 1 = (3 * (n + 1) - 1) + 1 + 1 + 1 by omega,
                    List.take_succ_cons, ih]

/-- **Bytes are read back**, those that the format asks for. -/
theorem scanBytes_printBytes (hdigit : IsHexDigits digit) (hsep : hexValue sep = none)
    (bytes : List UInt8) {n : ℕ} (hn : bytes.length ≤ n) (h : NoDigit rest)
    (hrest : rest.head? ≠ some sep) (hscan : bytes = [] → scanHex rest = none) :
    scanBytes sep n (printBytes digit sep bytes ++ rest) = bytes := by
  fun_induction printBytes digit sep bytes generalizing n with
  | case1 =>
      cases n with
      | zero => rfl
      | succ n => simp [scanBytes, hscan rfl]
  | case2 b =>
      obtain ⟨n, rfl⟩ := Nat.exists_eq_succ_of_ne_zero (Nat.ne_of_gt hn)
      rw [scanBytes, scanHex_printByte hdigit b h]
      cases rest with
      | nil => simp
      | cons c rest => simp_all
  | case3 b b' bytes ih =>
      obtain ⟨n, rfl⟩ := Nat.exists_eq_succ_of_ne_zero (Nat.ne_of_gt (Nat.zero_lt_of_lt hn))
      have hnext : NoDigit (sep :: (printBytes digit sep (b' :: bytes) ++ rest)) := by
        simpa [NoDigit] using hsep
      rw [List.append_assoc, List.cons_append, scanBytes, scanHex_printByte hdigit b hnext]
      simp only [UInt8.ofNat_toNat, if_pos]
      rw [ih (Nat.le_of_succ_le_succ hn) (by simp)]

end Lib
end DetBypass
