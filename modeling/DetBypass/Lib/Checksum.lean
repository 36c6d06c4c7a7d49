/-
# The one's-complement checksum

The checksum of the Internet protocols adds 16-bit words with the carry added
back at the low end.  That is addition modulo `65535` with two zeros: a sum is
`65535` exactly when the plain sum is a positive multiple of `65535`
(`onesSum_eq_iff`), and folding a wide sum keeps it modulo `65535`
(`fold_modEq`).  Swapping the bytes of every word multiplies by 256, so the order
of the bytes does not matter (`sum_wordsBe`).
-/

import DetBypass.Lib.Memory
import Mathlib.Algebra.Order.BigOperators.Group.List
import Mathlib.Data.Nat.ModEq

namespace DetBypass
namespace Lib

open Memory

variable {m m' : Memory} {a c k j : ℕ} {l : List ℕ}

/-- The sum of two 16-bit words, the carry added at the low end. -/
def endAround (x y : ℕ) : ℕ :=
  if x + y < 65536 then x + y else x + y - 65535

/-- The one's-complement sum of 16-bit words. -/
def onesSum : List ℕ → ℕ
  | [] => 0
  | w :: l => endAround w (onesSum l)

/-- The upper part of a sum is added to its low 16 bits. -/
def fold (c : ℕ) : ℕ :=
  if c / 65536 = 0 then c else c % 65536 + c / 65536

/-- The big-endian 16-bit words from `a` on. -/
def wordsBe (m : Memory) (a k : ℕ) : List ℕ :=
  (List.range k).map fun i => 256 * (m (a + 2 * i)).toNat + (m (a + 2 * i + 1)).toNat

/-- The little-endian 16-bit words from `a` on. -/
def wordsLe (m : Memory) (a k : ℕ) : List ℕ :=
  (List.range k).map fun i => load m (a + 2 * i) 2

/-! ### Sums modulo 65535 -/

/-- A one's-complement sum is the sum modulo `65535`, and 0 only if that is. -/
theorem onesSum_spec (h : ∀ w ∈ l, w < 65536) :
    onesSum l ≤ 65535 ∧ onesSum l ≡ l.sum [MOD 65535] ∧ (onesSum l = 0 ↔ l.sum = 0) := by
  induction l with
  | nil => exact ⟨Nat.zero_le _, rfl, Iff.rfl⟩
  | cons w l ih =>
      obtain ⟨hle, hmod, hzero⟩ := ih fun w' hw' => h w' (List.mem_cons_of_mem _ hw')
      have hw := h w (List.mem_cons_self ..)
      unfold Nat.ModEq at hmod ⊢
      rw [onesSum, endAround, List.sum_cons]
      split_ifs
      · omega
      · omega

/-- **A sum is all ones** exactly when the plain sum is a positive multiple of
`65535`. -/
theorem onesSum_eq_iff (h : ∀ w ∈ l, w < 65536) :
    onesSum l = 65535 ↔ 65535 ∣ l.sum ∧ 0 < l.sum := by
  obtain ⟨hle, hmod, hzero⟩ := onesSum_spec h
  unfold Nat.ModEq at hmod
  omega

/-- A fold keeps the sum modulo 65535. -/
theorem fold_modEq (c : ℕ) : fold c ≡ c [MOD 65535] := by
  unfold fold Nat.ModEq
  split_ifs
  · rfl
  · omega

/-- And zero only zero folds to. -/
theorem fold_eq_zero_iff : fold c = 0 ↔ c = 0 := by
  unfold fold
  split_ifs
  · rfl
  · omega

/-- **Four folds** leave 16 bits of a sum of 64. -/
theorem fold_four_le (h : c < 2 ^ 64) : fold (fold (fold (fold c))) ≤ 65535 := by
  -- the second fold brings no carry past bit 32, the third none past bit 17
  have h₁ : fold c ≤ 2 ^ 48 + 65534 := by
    unfold fold
    split_ifs <;> omega
  have h₂ : fold (fold c) ≤ 2 ^ 32 + 65534 := by
    generalize fold c = c₁ at h₁ ⊢
    unfold fold
    split_ifs <;> omega
  have h₃ : fold (fold (fold c)) ≤ 131070 := by
    generalize fold (fold c) = c₂ at h₂ ⊢
    unfold fold
    split_ifs <;> omega
  generalize fold (fold (fold c)) = c₃ at h₃ ⊢
  unfold fold
  split_ifs <;> omega

/-! ### The words of a header -/

/-- Two bytes, the low one first. -/
theorem load_two : load m a 2 = (m a).toNat + 256 * (m (a + 1)).toNat := by
  simp [load]

/-- The words have 16 bits. -/
theorem wordsBe_lt {w : ℕ} (hw : w ∈ wordsBe m a k) : w < 65536 := by
  obtain ⟨i, -, rfl⟩ := List.mem_map.1 hw
  have h₀ := (m (a + 2 * i)).toNat_lt
  have h₁ := (m (a + 2 * i + 1)).toNat_lt
  omega

/-- One word more at the end. -/
theorem sum_wordsLe_succ : (wordsLe m a (k + 1)).sum = (wordsLe m a k).sum +
    load m (a + 2 * k) 2 := by
  simp [wordsLe, List.range_succ]

/-- One word more in front. -/
theorem wordsLe_succ (m : Memory) (a k : ℕ) :
    wordsLe m a (k + 1) = load m a 2 :: wordsLe m (a + 2) k := by
  simp only [wordsLe, List.range_succ_eq_map, List.map_cons, List.map_map]
  refine congrArg _ (List.map_congr_left fun i _ => congrArg (load m · 2) ?_)
  show a + 2 * (i + 1) = a + 2 + 2 * i
  omega

/-- The words depend on their bytes only. -/
theorem wordsLe_congr (h : ∀ i, a ≤ i → i < a + 2 * k → m i = m' i) :
    wordsLe m a k = wordsLe m' a k :=
  List.map_congr_left fun j hj => load_congr fun i hi hi' =>
    h i (by omega) (by have := List.mem_range.1 hj; omega)

/-- No word is more than the sum. -/
theorem load_le_sum_wordsLe (hj : j < k) : load m (a + 2 * j) 2 ≤ (wordsLe m a k).sum :=
  List.single_le_sum (fun _ _ => Nat.zero_le _) _
    (List.mem_map.2 ⟨j, List.mem_range.2 hj, rfl⟩)

/-- The big-endian sum, modulo `65535`. -/
theorem sum_wordsBe (m : Memory) (a k : ℕ) :
    (wordsBe m a k).sum ≡ 256 * (wordsLe m a k).sum [MOD 65535] ∧
      ((wordsBe m a k).sum = 0 ↔ (wordsLe m a k).sum = 0) := by
  induction k with
  | zero => exact ⟨rfl, Iff.rfl⟩
  | succ k ih =>
      have hsucc : (wordsBe m a (k + 1)).sum = (wordsBe m a k).sum +
          (256 * (m (a + 2 * k)).toNat + (m (a + 2 * k + 1)).toNat) := by
        simp [wordsBe, List.range_succ]
      unfold Nat.ModEq at ih ⊢
      rw [hsucc, sum_wordsLe_succ, load_two]
      omega

/-- **The order of the bytes does not matter** for a sum of all ones. -/
theorem onesSum_wordsBe_iff :
    onesSum (wordsBe m a k) = 65535 ↔ 65535 ∣ (wordsLe m a k).sum ∧ 0 < (wordsLe m a k).sum := by
  obtain ⟨hmod, hzero⟩ := sum_wordsBe m a k
  have hdvd : 65535 ∣ (wordsBe m a k).sum ↔ 65535 ∣ (wordsLe m a k).sum := by
    rw [hmod.dvd_iff (Nat.dvd_refl _)]
    exact Nat.Coprime.dvd_mul_left (by decide)
  rw [onesSum_eq_iff fun w => wordsBe_lt, hdvd]
  omega

/-- One word of a header changes. -/
theorem sum_wordsLe_update (hj : j < k)
    (h : ∀ i < k, i ≠ j → load m' (a + 2 * i) 2 = load m (a + 2 * i) 2) :
    (wordsLe m' a k).sum + load m (a + 2 * j) 2 =
      (wordsLe m a k).sum + load m' (a + 2 * j) 2 := by
  induction k with
  | zero => exact absurd hj (Nat.not_lt_zero j)
  | succ k ih =>
      rw [sum_wordsLe_succ, sum_wordsLe_succ]
      rcases Nat.lt_succ_iff_lt_or_eq.1 hj with hlt | rfl
      · have := ih hlt fun i hi => h i (by omega)
        rw [h k (Nat.lt_succ_self k) (by omega)]
        omega
      · have hsame : wordsLe m' a j = wordsLe m a j :=
          List.map_congr_left fun i hi =>
            h i (by have := List.mem_range.1 hi; omega) (by have := List.mem_range.1 hi; omega)
        rw [hsame]
        omega

end Lib
end DetBypass
