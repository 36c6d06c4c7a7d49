/-
# Tokens in places

Resources of a fixed stock (buffers, frames, indices) move between the places
of a program.  `tally f l b` is how often the resource `b` is in the place
`l`, a list of handles whose `f` is the resource.  Conservation is a sum of
tallies that no step changes, so each move only needs what it does to the
tally of its two places.

A place, or several concatenated, that holds resources of a finite stock `S` at
most once is no longer than `S` (`length_le_card`), and one that holds each
exactly once has its length (`length_eq_card`).
-/

import Mathlib.Algebra.BigOperators.Group.Finset.Piecewise
import Mathlib.Algebra.Order.BigOperators.Group.Finset

namespace DetBypass
namespace Lib

open Finset

variable {α β : Type*} [DecidableEq β] {f : α → β} {l l' : List α} {a : α} {b : β}

/-- How often `b` is in `l`. -/
def tally (f : α → β) (l : List α) (b : β) : ℕ :=
  l.countP fun a => f a = b

/-- Nothing in the empty list. -/
@[simp] theorem tally_nil : tally f [] b = 0 := rfl

/-- One element more. -/
@[simp] theorem tally_cons :
    tally f (a :: l) b = tally f l b + if f a = b then 1 else 0 := by
  simp [tally, List.countP_cons]

/-- Two lists add up. -/
@[simp] theorem tally_append : tally f (l ++ l') b = tally f l b + tally f l' b :=
  List.countP_append

/-- The order does not matter. -/
theorem tally_reverse : tally f l.reverse b = tally f l b :=
  List.countP_reverse

/-- A tally of images. -/
theorem tally_map {γ : Type*} (g : γ → α) (l : List γ) :
    tally f (l.map g) b = tally (f ∘ g) l b := by
  simp only [tally, List.countP_map]
  rfl

/-- A handle taken out of the middle of a place. -/
theorem tally_erase [DecidableEq α] (h : a ∈ l) :
    tally f (l.erase a) b + (if f a = b then 1 else 0) = tally f l b := by
  rw [tally, tally, (List.perm_cons_erase h).countP_eq, ← tally, ← tally, tally_cons]

/-- A place and what is left of it. -/
theorem tally_take_add_drop (n : ℕ) :
    tally f (l.take n) b + tally f (l.drop n) b = tally f l b := by
  rw [← tally_append, List.take_append_drop]

/-- It is positive where something is tallied. -/
theorem tally_pos_iff : 0 < tally f l b ↔ ∃ a ∈ l, f a = b := by
  simp [tally, List.countP_pos_iff]

/-- It is zero where nothing is. -/
theorem tally_eq_zero_iff : tally f l b = 0 ↔ ∀ a ∈ l, f a ≠ b := by
  simp [tally, List.countP_eq_zero]

/-- The resources of a place that holds none twice. -/
theorem nodup_map_of_tally_le_one (h : ∀ b, tally f l b ≤ 1) : (l.map f).Nodup := by
  rw [List.nodup_iff_count_le_one]
  intro b
  have hcount : (l.map f).count b = tally f l b := by
    rw [List.count, List.countP_map, tally]
    exact List.countP_congr fun a _ => by simp
  rw [hcount]
  exact h b

/-- The length of a place is the sum of its tallies. -/
theorem length_eq_sum_tally {S : Finset β} (h : ∀ a ∈ l, f a ∈ S) :
    l.length = ∑ b ∈ S, tally f l b := by
  induction l with
  | nil => simp
  | cons a l ih =>
      have ha : f a ∈ S := h a (List.mem_cons_self ..)
      simp only [tally_cons, Finset.sum_add_distrib, List.length_cons,
        ← ih fun a' ha' => h a' (List.mem_cons_of_mem _ ha')]
      rw [Finset.sum_ite_eq, if_pos ha]

/-- A place that holds no resource twice is no longer than the stock. -/
theorem length_le_card {S : Finset β} (h : ∀ a ∈ l, f a ∈ S)
    (hone : ∀ b ∈ S, tally f l b ≤ 1) : l.length ≤ #S := by
  rw [length_eq_sum_tally h]
  exact (Finset.sum_le_card_nsmul S _ 1 hone).trans (by simp)

/-- A place that holds every resource once has the length of the stock. -/
theorem length_eq_card {S : Finset β} (h : ∀ a ∈ l, f a ∈ S)
    (hone : ∀ b ∈ S, tally f l b = 1) : l.length = #S := by
  rw [length_eq_sum_tally h, Finset.sum_congr rfl hone, Finset.card_eq_sum_ones]

end Lib
end DetBypass
