/-
# Loops over what arrives

A loop `while (cond) { x = receive (); … }` on the inputs that arrive: each is
handled while the condition holds, and what comes after it fails is left alone
(`whileLoop`).  `upTo p l` is the part of `l` up to and including its first `p`.
A loop whose condition fails as soon as a `p` has been handled handles exactly
that part (`whileLoop_eq_foldl_upTo`).
-/

import Mathlib.Data.List.Induction

namespace DetBypass
namespace Lib

variable {α σ : Type*} {p : α → Bool} {l l' : List α} {x : α}

/-- The part of a list up to and including the first `p`. -/
def upTo (p : α → Bool) : List α → List α
  | [] => []
  | x :: l => if p x then [x] else x :: upTo p l

/-- The state of a loop after the inputs that have arrived. -/
def whileLoop (cond : σ → Bool) (body : σ → α → σ) (s : σ) (l : List α) : σ :=
  l.foldl (fun s x => if cond s then body s x else s) s

/-! ### Up to the first -/

/-- It is the beginning of the list. -/
theorem upTo_isPrefix (p : α → Bool) (l : List α) : upTo p l <+: l := by
  induction l with
  | nil => exact List.prefix_rfl
  | cons x l ih =>
      rw [upTo]
      split_ifs
      · exact ⟨l, rfl⟩
      · exact (List.prefix_cons_inj x).2 ih

/-- A part of it ends at the same place. -/
theorem upTo_of_isPrefix (h : l' <+: upTo p l) : upTo p l' = l' := by
  induction l generalizing l' with
  | nil => rw [List.prefix_nil.1 h, upTo]
  | cons x l ih =>
      rw [upTo] at h
      cases l' with
      | nil => rfl
      | cons y l' =>
          split_ifs at h with hx
          · obtain ⟨rfl, htail⟩ := List.cons_prefix_cons.1 h
            rw [List.prefix_nil.1 htail, upTo, if_pos hx]
          · obtain ⟨rfl, htail⟩ := List.cons_prefix_cons.1 h
            rw [upTo, if_neg hx, ih htail]

/-- What arrives later is after it. -/
theorem upTo_mono (h : l' <+: l) : upTo p l' <+: upTo p l := by
  induction l generalizing l' with
  | nil =>
      obtain rfl := List.prefix_nil.1 h
      exact List.prefix_rfl
  | cons x l ih =>
      cases l' with
      | nil => exact List.nil_prefix
      | cons y l' =>
          obtain ⟨rfl, htail⟩ := List.cons_prefix_cons.1 h
          rw [upTo, upTo]
          split_ifs
          · exact List.prefix_rfl
          · exact (List.prefix_cons_inj y).2 (ih htail)

/-! ### The loop -/

variable {cond : σ → Bool} {body : σ → α → σ} {s : σ}

/-- **The next input** is handled if the condition holds. -/
theorem whileLoop_concat (cond : σ → Bool) (body : σ → α → σ) (s : σ) (l : List α) (x : α) :
    whileLoop cond body s (l ++ [x]) =
      if cond (whileLoop cond body s l) then body (whileLoop cond body s l) x
      else whileLoop cond body s l := by
  rw [whileLoop, List.foldl_append, List.foldl_cons, List.foldl_nil, whileLoop]

/-- A loop whose condition fails is left. -/
theorem whileLoop_of_not (h : cond s = false) (l : List α) : whileLoop cond body s l = s := by
  induction l with
  | nil => rfl
  | cons x l ih =>
      rw [whileLoop, List.foldl_cons, h, if_neg Bool.false_ne_true]
      exact ih

/-- A round of the loop. -/
theorem whileLoop_cons (h : cond s = true) (x : α) (l : List α) :
    whileLoop cond body s (x :: l) = whileLoop cond body (body s x) l := by
  rw [whileLoop, List.foldl_cons, if_pos h, whileLoop]

/-- **What a loop handles**, if its condition says that no `p` has been handled. -/
theorem whileLoop_eq_foldl_upTo
    (h : ∀ l', l' <+: upTo p l → (cond (l'.foldl body s) = true ↔ ∀ x ∈ l', p x = false)) :
    whileLoop cond body s l = (upTo p l).foldl body s := by
  induction l generalizing s with
  | nil => rfl
  | cons x l ih =>
      have hcond : cond s = true :=
        (h [] List.nil_prefix).2 fun x hx => absurd hx List.not_mem_nil
      rw [whileLoop_cons hcond, upTo]
      rw [upTo] at h
      split_ifs at h ⊢ with hx
      · -- the first `p` has been handled
        have hstop : cond (body s x) = false := by
          refine Bool.eq_false_iff.2 fun hgo => ?_
          have hall := (h [x] List.prefix_rfl).1 hgo
          exact absurd hx (Bool.eq_false_iff.1 (hall x (List.mem_singleton_self x)))
        exact whileLoop_of_not hstop l
      · refine ih fun l' hl' => ?_
        have hstep := h (x :: l') ((List.prefix_cons_inj x).2 hl')
        rw [List.foldl_cons, List.forall_mem_cons] at hstep
        rw [hstep]
        exact and_iff_right (Bool.eq_false_iff.2 hx)

end Lib
end DetBypass
