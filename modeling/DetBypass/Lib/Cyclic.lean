/-
# Positions on a cycle

A ring buffer with `N` slots keeps its cursors modulo `N`, while an argument
about it counts: the `j`-th element ever reserved, the `j`-th ever consumed.
`pos N j` is the slot of the `j`-th element.  Everything a ring argument needs
of the wrap-around is here: the cursor steps by one (`pos_succ`), a lap brings
it back (`pos_add_self`), a window of `N` consecutive counts meets every slot
(`exists_pos`) exactly once (`pos_inj`).
-/

import Mathlib.Data.Nat.ModEq
import Mathlib.Data.Fin.Basic

namespace DetBypass
namespace Lib

variable {N : ℕ} [NeZero N] {K i j : ℕ}

/-- The slot of the `j`-th element of a ring with `N` slots. -/
def pos (N : ℕ) [NeZero N] (j : ℕ) : Fin N :=
  Fin.ofNat N j

/-- The position is the number modulo the size. -/
@[simp] theorem pos_val (j : ℕ) : (pos N j).val = j % N := rfl

/-- Numbers begin at the first position. -/
theorem pos_zero : pos N 0 = 0 := rfl

/-- A position is its own. -/
theorem pos_val_self (k : Fin N) : pos N k.val = k :=
  Fin.ext (by simp [Nat.mod_eq_of_lt k.isLt])

/-- The cursor `(j + 1) % N`. -/
theorem pos_succ (j : ℕ) : pos N (j + 1) = pos N j + 1 := by
  apply Fin.ext
  rw [Fin.val_add, pos_val, pos_val]
  simp [Nat.add_mod]

/-- Positions add up. -/
theorem pos_add (i j : ℕ) : pos N (i + j) = pos N i + pos N j := by
  apply Fin.ext
  simp [Fin.val_add, Nat.add_mod]

/-- A whole lap is no move. -/
theorem pos_add_self (j : ℕ) : pos N (j + N) = pos N j :=
  Fin.ext (by simp)

/-- Two numbers share their position modulo the size. -/
theorem pos_eq_pos_iff : pos N i = pos N j ↔ i % N = j % N := by
  simp [Fin.ext_iff]

/-- Two counts of one slot are a whole number of laps apart. -/
theorem exists_lap_of_pos_eq (h : pos N i = pos N j) (hij : i ≤ j) : ∃ m, j = i + N * m := by
  obtain ⟨m, hm⟩ := (Nat.modEq_iff_dvd' hij).1 (pos_eq_pos_iff.1 h)
  exact ⟨m, by omega⟩

/-- Two different counts of one slot are at least a lap apart. -/
theorem add_le_of_pos_eq (h : pos N i = pos N j) (hij : i < j) : i + N ≤ j := by
  obtain ⟨m, rfl⟩ := exists_lap_of_pos_eq h hij.le
  rcases Nat.eq_zero_or_pos m with rfl | hm
  · simp at hij
  · exact Nat.add_le_add_left (Nat.le_mul_of_pos_right N hm) i

/-- Inside a window of `N` counts no slot is met twice. -/
theorem pos_inj (hi : K ≤ i) (hi' : i < K + N) (hj : K ≤ j) (hj' : j < K + N)
    (h : pos N i = pos N j) : i = j := by
  rcases Nat.lt_trichotomy i j with hij | hij | hij
  · have := add_le_of_pos_eq h hij
    omega
  · exact hij
  · have := add_le_of_pos_eq h.symm hij
    omega

/-- A window of `N` counts meets every slot. -/
theorem exists_pos (K : ℕ) (k : Fin N) : ∃ j, K ≤ j ∧ j < K + N ∧ pos N j = k := by
  have hN : 0 < N := Nat.pos_of_ne_zero (NeZero.ne N)
  have hK : K % N < N := Nat.mod_lt K hN
  have hdiv := Nat.div_add_mod K N
  by_cases h : K % N ≤ k.val
  · refine ⟨N * (K / N) + k.val, by omega, by omega, Fin.ext ?_⟩
    simp [Nat.mod_eq_of_lt k.isLt]
  · refine ⟨N * (K / N) + N + k.val, by omega, by omega, Fin.ext ?_⟩
    simp [Nat.mod_eq_of_lt k.isLt, Nat.add_assoc]

/-- The cyclic run of `n` slots starting at `k`. -/
def cyclicRun (k : Fin N) (n : ℕ) : Set (Fin N) :=
  {l | ∃ i < n, l = k + pos N i}

/-- The slots of the counts `K ≤ j < K + n` are the cyclic run of `n` slots
starting at the slot of `K`. -/
theorem mem_cyclicRun_pos {n : ℕ} {l : Fin N} :
    l ∈ cyclicRun (pos N K) n ↔ ∃ j, K ≤ j ∧ j < K + n ∧ pos N j = l := by
  constructor
  · rintro ⟨i, hi, rfl⟩
    exact ⟨K + i, by omega, by omega, pos_add K i⟩
  · rintro ⟨j, hj, hj', rfl⟩
    refine ⟨j - K, by omega, ?_⟩
    rw [← pos_add, Nat.add_sub_cancel' hj]

end Lib
end DetBypass
