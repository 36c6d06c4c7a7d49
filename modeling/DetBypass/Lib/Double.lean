/-
# Natural numbers in double precision

A float64 has 53 significant bits.  Of the natural numbers with `53 + e` binary
digits it holds the multiples of `2 ^ e` (`spacing`), and `double n` is the one
nearest to `n`, at a tie the even multiple.  It is `n` exactly when `n` is such
a multiple itself (`double_eq_iff`).
-/

import Mathlib.Algebra.GroupWithZero.Nat

namespace DetBypass
namespace Lib

variable {n : ℕ}

/-- The distance of the float64 numbers around `n`. -/
def spacing (n : ℕ) : ℕ := 2 ^ (n.log2 - 52)

/-- `n` rounded to a float64, ties to even. -/
def double (n : ℕ) : ℕ :=
  let below := n / spacing n
  let rest := n % spacing n
  if 2 * rest < spacing n ∨ 2 * rest = spacing n ∧ below % 2 = 0 then below * spacing n
  else (below + 1) * spacing n

/-- No spacing is zero. -/
theorem spacing_pos (n : ℕ) : 0 < spacing n :=
  Nat.two_pow_pos _

/-- **What a float64 holds.** -/
theorem double_eq_iff : double n = n ↔ spacing n ∣ n := by
  have hpos := spacing_pos n
  have hrest : n % spacing n < spacing n := Nat.mod_lt n hpos
  have hn : n / spacing n * spacing n + n % spacing n = n := Nat.div_add_mod' n (spacing n)
  rw [Nat.dvd_iff_mod_eq_zero]
  unfold double
  dsimp only
  split
  · omega
  · rw [Nat.succ_mul]
    omega

end Lib
end DetBypass
