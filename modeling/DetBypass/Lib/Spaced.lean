/-
# Times with a least distance

Times in a list are spaced by `d` if each is `d` at least after every earlier one.
Then the times at two places are as many distances apart as the places
(`Spaced.add_mul_le`), and a window of length `w` has no more than `w / d` of them,
rounded up (`Spaced.length_window_le`).
-/

import DetBypass.Lib.Rounds

namespace DetBypass
namespace Lib

variable {d w t : ℕ} {times : List ℕ}

/-- Each time is `d` at least after the earlier ones. -/
def Spaced (d : ℕ) (times : List ℕ) : Prop := times.Pairwise fun a b => a + d ≤ b

/-- The empty list is spaced. -/
theorem Spaced.nil : Spaced d [] := List.Pairwise.nil

/-- One more time. -/
theorem Spaced.concat (h : Spaced d times) (ht : ∀ a ∈ times, a + d ≤ t) :
    Spaced d (times ++ [t]) :=
  List.pairwise_append.2 ⟨h, List.pairwise_singleton _ _, fun a ha b hb => by
    rw [List.mem_singleton.1 hb]
    exact ht a ha⟩

/-- **As many distances apart as the places**. -/
theorem Spaced.add_mul_le (h : Spaced d times) {i j : ℕ} (hij : i ≤ j) (hj : j < times.length) :
    times[i] + (j - i) * d ≤ times[j] := by
  induction j, hij using Nat.le_induction with
  | base => simp
  | succ j hij ih =>
      have hstep : times[j] + d ≤ times[j + 1] :=
        List.pairwise_iff_getElem.1 h j (j + 1) (by omega) hj (Nat.lt_succ_self j)
      have ih := ih (by omega)
      rw [Nat.succ_sub hij, Nat.succ_mul]
      omega

/-- **No more than one for each distance**, in any window. -/
theorem Spaced.length_window_le (h : Spaced d times) (hd : 0 < d) (t w : ℕ) :
    (times.filter fun a => t ≤ a ∧ a < t + w).length ≤ (w + d - 1) / d := by
  have hspaced : Spaced d (times.filter fun a => t ≤ a ∧ a < t + w) :=
    List.Pairwise.filter _ h
  have hwindow : ∀ a ∈ times.filter fun a => t ≤ a ∧ a < t + w, t ≤ a ∧ a < t + w :=
    fun a ha => of_decide_eq_true (List.mem_filter.1 ha).2
  generalize times.filter (fun a => t ≤ a ∧ a < t + w) = window at hspaced hwindow ⊢
  rcases Nat.eq_zero_or_pos window.length with hzero | hpos
  · rw [hzero]
    exact Nat.zero_le _
  · -- the last is that many distances after the first
    have hlast := hspaced.add_mul_le (Nat.zero_le (window.length - 1)) (by omega)
    have hfirst := (hwindow window[0] (List.getElem_mem _)).1
    have hend := (hwindow window[window.length - 1] (List.getElem_mem _)).2
    rw [Nat.sub_zero] at hlast
    rw [Nat.le_div_iff_mul_le hd]
    have hsucc : window.length * d = (window.length - 1) * d + d := by
      rw [← Nat.succ_mul]
      congr 1
      omega
    omega

/-! ### Durations on a clock -/

variable {origin t₀ t₁ : ℕ} {ns : UInt64}

/-- Two readings that are `ns` apart, whether or not the clock wraps in between. -/
theorem add_le_of_le_clock_sub (h : t₀ ≤ t₁) (hns : ns ≤ clock origin t₁ - clock origin t₀) :
    t₀ + ns.toNat ≤ t₁ := by
  rw [clock_sub origin h, UInt64.le_iff_toNat_le, UInt64.toNat_ofNat'] at hns
  have := Nat.mod_le (t₁ - t₀) (2 ^ 64)
  omega

/-- What is left of a duration after two readings. -/
theorem add_le_of_clock_sub_lt (h : t₀ ≤ t₁) (hns : clock origin t₁ - clock origin t₀ < ns) :
    t₀ + ns.toNat ≤ t₁ + (ns - (clock origin t₁ - clock origin t₀)).toNat := by
  rw [UInt64.toNat_sub_of_le _ _ (UInt64.le_of_lt hns)]
  rw [clock_sub origin h, UInt64.toNat_ofNat']
  have := Nat.mod_le (t₁ - t₀) (2 ^ 64)
  omega

end Lib
end DetBypass
