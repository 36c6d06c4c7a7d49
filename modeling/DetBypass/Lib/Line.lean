/-
# Lines of numbers

A line is printed as a label and decimals, one space before each, and a newline
(`printLine`).  It is read as Python does: `readLine` takes the text up to its
first newline, `splitOn ' '` cuts it at every space, and `readInt` is `int (…)`
of a string, which ignores whitespace at both ends and allows a sign and single
underscores between digits.  Reading back a line gives its numbers
(`readLine_printLine`, `readInts_printLine`).
-/

import DetBypass.Lib.Decimal
import Mathlib.Data.Int.Notation
import Mathlib.Data.List.DropRight

namespace DetBypass
namespace Lib

variable {text w label : List Char} {c : Char} {n : ℕ} {values : List ℕ}

/-- The first line of a text with its newline, and the rest. -/
def readLine : List Char → List Char × List Char
  | [] => ([], [])
  | c :: text =>
    if c = '\n' then ([c], text) else (c :: (readLine text).1, (readLine text).2)

/-- The digits of a number, single underscores between them. -/
def readDigits (text : List Char) : Option ℕ :=
  if ∀ part ∈ text.splitOn '_', part ≠ [] ∧ part.all Char.isDigit = true then
    some (Nat.ofDigitChars 10 (text.filter fun c => c ≠ '_') 0)
  else none

/-- A text without the whitespace at both ends. -/
def strip (text : List Char) : List Char :=
  (text.dropWhile Char.isWhitespace).rdropWhile Char.isWhitespace

/-- `int (…)` of a string, `none` where it raises. -/
def readInt (text : List Char) : Option ℤ :=
  let text := strip text
  if text.head? = some '-' then (readDigits text.tail).map fun n : ℕ => -(n : ℤ)
  else if text.head? = some '+' then (readDigits text.tail).map Int.ofNat
  else (readDigits text).map Int.ofNat

/-- The numbers of a line, after its label. -/
def readInts (line : List Char) : Option (List ℤ) :=
  (line.splitOn ' ').tail.mapM readInt

/-- A label and numbers. -/
def printLine (label : List Char) (values : List ℕ) : List Char :=
  label ++ ((values.flatMap fun v => ' ' :: Nat.toDigits 10 v) ++ ['\n'])

/-! ### One number -/

/-- A decimal has digits only. -/
theorem isDigit_of_mem_toDigits (hc : c ∈ Nat.toDigits 10 n) : c.isDigit = true :=
  Nat.isDigit_of_mem_toDigits (by decide) (by decide) hc

/-- A digit is none of the separators. -/
theorem ne_of_isDigit {d : Char} (hc : c.isDigit = true) (hd : d.isDigit = false) : c ≠ d := by
  rintro rfl
  rw [hc] at hd
  exact Bool.noConfusion hd

/-- And nothing that is none. -/
theorem not_mem_toDigits (hd : c.isDigit = false) : c ∉ Nat.toDigits 10 n := fun hmem =>
  ne_of_isDigit (isDigit_of_mem_toDigits hmem) hd rfl

/-- A decimal reads as its number. -/
theorem readDigits_toDigits (n : ℕ) : readDigits (Nat.toDigits 10 n) = some n := by
  unfold readDigits
  rw [List.splitOn_eq_singleton (not_mem_toDigits (by decide)), if_pos, List.filter_eq_self.2,
    Nat.ofDigitChars_ten_toDigits]
  · exact fun c hc => by simpa using ne_of_isDigit (isDigit_of_mem_toDigits hc) (by decide)
  · intro part hpart
    rw [List.mem_singleton.1 hpart]
    exact ⟨Nat.toDigits_ne_nil, List.all_eq_true.2 fun c hc => isDigit_of_mem_toDigits hc⟩

/-- Whitespace after digits is stripped. -/
theorem strip_toDigits (hw : ∀ c ∈ w, c.isWhitespace = true) :
    strip (Nat.toDigits 10 n ++ w) = Nat.toDigits 10 n := by
  have hdigit : ∀ c ∈ Nat.toDigits 10 n, ¬ c.isWhitespace = true := fun c hc => by
    rw [isWhitespace_of_isDigit (isDigit_of_mem_toDigits hc)]
    decide
  have hright : (Nat.toDigits 10 n ++ w).rdropWhile Char.isWhitespace = Nat.toDigits 10 n := by
    rw [List.rdropWhile, List.reverse_append, List.dropWhile_append_of_pos (by simpa using hw)]
    exact List.rdropWhile_eq_self_iff.2 fun hne => hdigit _ (List.getLast_mem hne)
  obtain ⟨c, cs, hcs⟩ := List.exists_cons_of_ne_nil (Nat.toDigits_ne_nil (n := n) (b := 10))
  rw [strip, hcs, List.cons_append,
    List.dropWhile_cons_of_neg (hdigit c (hcs ▸ List.mem_cons_self ..)), ← List.cons_append, ← hcs,
    hright]

/-- **Reading back a number**, with whitespace after it. -/
theorem readInt_toDigits (hw : ∀ c ∈ w, c.isWhitespace = true) :
    readInt (Nat.toDigits 10 n ++ w) = some (n : ℤ) := by
  have hhead : ∀ d, d.isDigit = false → (Nat.toDigits 10 n).head? ≠ some d := fun d hd he =>
    not_mem_toDigits hd (List.mem_of_head? he)
  unfold readInt
  rw [strip_toDigits hw]
  dsimp only
  rw [if_neg (hhead '-' (by decide)), if_neg (hhead '+' (by decide)), readDigits_toDigits]
  rfl

/-! ### A line -/

/-- A line ends at its newline. -/
theorem readLine_append (hw : '\n' ∉ w) (text : List Char) :
    readLine (w ++ '\n' :: text) = (w ++ ['\n'], text) := by
  induction w with
  | nil => rfl
  | cons c w ih =>
      rw [List.mem_cons, not_or] at hw
      rw [List.cons_append, readLine, if_neg (Ne.symm hw.1), ih hw.2, List.cons_append]

/-- A text without a newline is one line. -/
theorem readLine_of_not_mem (hw : '\n' ∉ w) : readLine w = (w, []) := by
  induction w with
  | nil => rfl
  | cons c w ih =>
      rw [List.mem_cons, not_or] at hw
      rw [readLine, if_neg (Ne.symm hw.1), ih hw.2]

/-- **The first line is the one printed.** -/
theorem readLine_printLine (hlabel : '\n' ∉ label) (values : List ℕ) (text : List Char) :
    readLine (printLine label values ++ text) = (printLine label values, text) := by
  have hvalues : '\n' ∉ values.flatMap fun v => ' ' :: Nat.toDigits 10 v := by
    intro hmem
    obtain ⟨v, -, hv⟩ := List.mem_flatMap.1 hmem
    rcases List.mem_cons.1 hv with he | hv
    · exact absurd he (by decide)
    · exact not_mem_toDigits (by decide) hv
  have h := readLine_append (w := label ++ values.flatMap fun v => ' ' :: Nat.toDigits 10 v)
    (by simp [hlabel, hvalues]) text
  simpa only [printLine, List.append_assoc, List.singleton_append] using h

/-- The words of a line from a number on. -/
theorem mapM_readInt_splitOn (v : ℕ) (values : List ℕ) :
    ((Nat.toDigits 10 v ++ ((values.flatMap fun v => ' ' :: Nat.toDigits 10 v) ++ ['\n'])).splitOn
      ' ').mapM readInt = some ((v :: values).map fun v : ℕ => (v : ℤ)) := by
  have hspace : ∀ v, ' ' ∉ Nat.toDigits 10 v := fun v => not_mem_toDigits (by decide)
  induction values generalizing v with
  | nil =>
      have hnot : ' ' ∉ Nat.toDigits 10 v ++ ['\n'] := by simp [hspace]
      rw [List.flatMap_nil, List.nil_append, List.splitOn_eq_singleton hnot]
      simp [readInt_toDigits (n := v) (w := ['\n']) (by simp)]
  | cons u values ih =>
      have hv := readInt_toDigits (n := v) (w := []) (by simp)
      rw [List.append_nil] at hv
      rw [List.flatMap_cons, List.cons_append, List.cons_append, List.append_assoc,
        List.splitOn_append_cons_self_of_not_mem (hspace v), List.mapM_cons, hv]
      have ih := ih u
      simp only [ih]
      rfl

/-- **Reading back a line** gives its numbers. -/
theorem readInts_printLine (hlabel : ' ' ∉ label) (hvalues : values ≠ []) :
    readInts (printLine label values) = some (values.map fun v : ℕ => (v : ℤ)) := by
  obtain ⟨v, values, rfl⟩ := List.exists_cons_of_ne_nil hvalues
  unfold readInts printLine
  rw [List.flatMap_cons, List.cons_append, List.cons_append, List.append_assoc,
    List.splitOn_append_cons_self_of_not_mem hlabel, List.tail_cons, mapM_readInt_splitOn]

/-- The first number alone, after the label. -/
theorem bind_readInt_of_readInts {line : List Char} {v : ℤ} {vs : List ℤ}
    (h : readInts line = some (v :: vs)) : (line.splitOn ' ')[1]?.bind readInt = some v := by
  unfold readInts at h
  cases hwords : line.splitOn ' ' with
  | nil => exact absurd hwords (List.splitOn_ne_nil _ _)
  | cons w words =>
      rw [hwords, List.tail_cons] at h
      cases words with
      | nil => simp at h
      | cons w words =>
          rw [List.mapM_cons] at h
          obtain ⟨v', hv, h⟩ := Option.bind_eq_some_iff.1 h
          obtain ⟨vs', -, h⟩ := Option.bind_eq_some_iff.1 h
          obtain ⟨rfl, -⟩ := List.cons.inj (Option.some.inj h)
          exact hv

end Lib
end DetBypass
