/-
# Decimals in a text

A measurement file is a text of decimals separated by whitespace: what `%llu`
prints, and what a reader that splits at whitespace reads.  `printDecimals`
writes numbers, each followed by its separator; `readDecimals` reads the runs
of characters between whitespace as numbers; and reading what was printed gives
the numbers back, whatever the separators (`readDecimals_printDecimals`).
-/

import Mathlib.Data.List.Basic
import Mathlib.Data.Nat.Notation

namespace DetBypass
namespace Lib

variable {text w : List Char} {c : Char}

/-- Whitespace, and at least one character of it. -/
def Blank (w : List Char) : Prop :=
  w ≠ [] ∧ ∀ c ∈ w, c.isWhitespace = true

instance (w : List Char) : Decidable (Blank w) :=
  inferInstanceAs (Decidable (_ ∧ _))

/-- The runs of characters other than whitespace. -/
def fields (text : List Char) : List (List Char) :=
  (text.splitOnP Char.isWhitespace).filter fun w => !w.isEmpty

/-- The decimals of a text, separated by whitespace. -/
def readDecimals (text : List Char) : List ℕ :=
  (fields text).map fun w => Nat.ofDigitChars 10 w 0

/-- Numbers in decimal, each followed by its separator. -/
def printDecimals (items : List (ℕ × List Char)) : List Char :=
  items.flatMap fun item => Nat.toDigits 10 item.1 ++ item.2

/-- No number, no text. -/
@[simp] theorem printDecimals_nil : printDecimals [] = [] := rfl

/-- A number, its separator and the rest. -/
@[simp] theorem printDecimals_cons (item : ℕ × List Char) (items : List (ℕ × List Char)) :
    printDecimals (item :: items) = Nat.toDigits 10 item.1 ++ item.2 ++ printDecimals items := by
  rw [printDecimals, List.flatMap_cons, printDecimals]

/-- Texts follow each other. -/
theorem printDecimals_append (items items' : List (ℕ × List Char)) :
    printDecimals (items ++ items') = printDecimals items ++ printDecimals items' :=
  List.flatMap_append

/-- A text splits at any whitespace of it. -/
theorem fields_append_cons (hc : c.isWhitespace = true) (x y : List Char) :
    fields (x ++ c :: y) = fields x ++ fields y := by
  rw [fields, List.splitOnP_append_cons x y hc, List.filter_append, fields, fields]

/-- The empty text has no fields. -/
theorem fields_nil : fields [] = [] := by
  simp [fields]

/-- Whitespace in front belongs to no field. -/
theorem fields_append_of_forall (hw : ∀ c ∈ w, c.isWhitespace = true) (text : List Char) :
    fields (w ++ text) = fields text := by
  induction w with
  | nil => rfl
  | cons c w ih =>
      have hc : c.isWhitespace = true := hw c (List.mem_cons_self ..)
      have h := fields_append_cons hc [] (w ++ text)
      rw [fields_nil, List.nil_append, List.nil_append] at h
      rw [List.cons_append, h]
      exact ih fun c' hc' => hw c' (List.mem_cons_of_mem _ hc')

/-- A run without whitespace is one field. -/
theorem fields_eq_singleton (hne : w ≠ []) (hw : ∀ c ∈ w, c.isWhitespace = false) :
    fields w = [w] := by
  rw [fields, List.splitOnP_eq_singleton hw]
  simp [hne]

/-- A digit is not whitespace. -/
theorem isWhitespace_of_isDigit (hc : c.isDigit = true) : c.isWhitespace = false := by
  simp only [Char.isDigit, Bool.and_eq_true, decide_eq_true_eq] at hc
  obtain ⟨hlo, -⟩ := hc
  have h48 : 48 ≤ c.val.toNat := hlo
  have hne : ∀ d : Char, d.val.toNat < 48 → c ≠ d := fun d hd he => by
    subst he
    omega
  simp [Char.isWhitespace, hne ' ' (by decide), hne '\t' (by decide), hne '\r' (by decide),
    hne '\n' (by decide)]

/-- **Reading back what was printed.** -/
theorem readDecimals_printDecimals {items : List (ℕ × List Char)}
    (h : ∀ item ∈ items, Blank item.2) :
    readDecimals (printDecimals items) = items.map Prod.fst := by
  induction items with
  | nil => simp [readDecimals, fields_nil]
  | cons item items ih =>
      obtain ⟨n, w⟩ := item
      obtain ⟨hne, hw⟩ := h (n, w) (List.mem_cons_self ..)
      obtain ⟨c, w, rfl⟩ := List.exists_cons_of_ne_nil hne
      have hdigits : fields (Nat.toDigits 10 n) = [Nat.toDigits 10 n] :=
        fields_eq_singleton Nat.toDigits_ne_nil fun d hd =>
          isWhitespace_of_isDigit (Nat.isDigit_of_mem_toDigits (by decide) (by decide) hd)
      have hfields : fields (printDecimals ((n, c :: w) :: items)) =
          Nat.toDigits 10 n :: fields (printDecimals items) := by
        rw [printDecimals_cons, List.append_assoc, List.cons_append,
          fields_append_cons (hw c (List.mem_cons_self ..)), hdigits,
          fields_append_of_forall fun c' hc' => hw c' (List.mem_cons_of_mem _ hc')]
        rfl
      have ih := ih fun item hitem => h item (List.mem_cons_of_mem _ hitem)
      rw [readDecimals] at ih ⊢
      rw [hfields, List.map_cons, List.map_cons, ih, Nat.ofDigitChars_ten_toDigits]

end Lib
end DetBypass
