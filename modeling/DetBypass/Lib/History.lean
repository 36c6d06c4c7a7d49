/-
# What has happened since

A program's history is the list of its events, the latest last.  `Since l x y`
says that `x` happened and no `y` has happened after it.  Statements of the shape
"what `x` did stands until `y` undoes it" and "no two `x` without a `y` in
between" are about `Since`.  `AtEach l x P` says that whenever `x` happened the
history before it had `P`.  `since_concat` and `atEach_concat` are the steps of
their inductions over a run: what the next event changes.
-/

import Mathlib.Data.List.Basic

namespace DetBypass
namespace Lib

variable {ε : Type*} {l : List ε} {x y e : ε}

/-- `x` happened, and `y` has not happened after it. -/
def Since (l : List ε) (x y : ε) : Prop :=
  ∃ l₁ l₂, l = l₁ ++ x :: l₂ ∧ y ∉ l₂

/-- Nothing has happened in an empty history. -/
theorem not_since_nil : ¬ Since [] x y := by
  rintro ⟨l₁, l₂, h, -⟩
  simp at h

/-- A split of a history at `x`: at its last event, or before it. -/
theorem concat_eq_append_cons {l₁ l₂ : List ε} (h : l ++ [e] = l₁ ++ x :: l₂) :
    (e = x ∧ l = l₁ ∧ l₂ = []) ∨ ∃ l₂', l₂ = l₂' ++ [e] ∧ l = l₁ ++ x :: l₂' := by
  rcases List.eq_nil_or_concat l₂ with rfl | ⟨l₂', e', rfl⟩
  · obtain ⟨hl, he⟩ := List.append_inj' h rfl
    exact Or.inl ⟨List.head_eq_of_cons_eq he, hl, rfl⟩
  · rw [List.concat_eq_append, ← List.cons_append, ← List.append_assoc] at h
    obtain ⟨hl, he⟩ := List.append_inj' h rfl
    obtain rfl := List.head_eq_of_cons_eq he
    exact Or.inr ⟨l₂', List.concat_eq_append, hl⟩

/-- **The next event.**  It is `x`, or `x` stood and it is not `y`. -/
theorem since_concat : Since (l ++ [e]) x y ↔ e = x ∨ Since l x y ∧ e ≠ y := by
  constructor
  · rintro ⟨l₁, l₂, h, hy⟩
    rcases concat_eq_append_cons h with ⟨rfl, -, -⟩ | ⟨l₂', rfl, hl⟩
    · exact Or.inl rfl
    · rw [List.mem_append, List.mem_singleton, not_or] at hy
      exact Or.inr ⟨⟨l₁, l₂', hl, hy.1⟩, Ne.symm hy.2⟩
  · rintro (rfl | ⟨⟨l₁, l₂, rfl, hy⟩, hne⟩)
    · exact ⟨l, [], rfl, List.not_mem_nil⟩
    · refine ⟨l₁, l₂ ++ [e], by simp, ?_⟩
      rw [List.mem_append, List.mem_singleton, not_or]
      exact ⟨hy, Ne.symm hne⟩

/-- Whenever `x` happened, the history before it had `P`. -/
def AtEach (l : List ε) (x : ε) (P : List ε → Prop) : Prop :=
  ∀ l₁ l₂, l = l₁ ++ x :: l₂ → P l₁

/-- Nor is there anything to check. -/
theorem atEach_nil {P : List ε → Prop} : AtEach [] x P := by
  intro l₁ l₂ h
  simp at h

/-- **The next event.**  If it is `x`, the history so far has `P`. -/
theorem atEach_concat {P : List ε → Prop} :
    AtEach (l ++ [e]) x P ↔ AtEach l x P ∧ (e = x → P l) := by
  constructor
  · intro h
    refine ⟨fun l₁ l₂ hl => h l₁ (l₂ ++ [e]) (by simp [hl]), ?_⟩
    rintro rfl
    exact h l [] rfl
  · rintro ⟨h, he⟩ l₁ l₂ hl
    rcases concat_eq_append_cons hl with ⟨hx, rfl, -⟩ | ⟨l₂', -, hl'⟩
    · exact he hx
    · exact h l₁ l₂' hl'

end Lib
end DetBypass
