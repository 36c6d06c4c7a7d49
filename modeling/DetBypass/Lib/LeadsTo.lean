/-
# What a run can still reach

`CanReach` says that some run goes on from a state to one with a property, all of its
steps in a guard: that nothing has happened which rules the end out.  `LeadsTo P Q` says
it of every state with `P` that guarded runs reach.

To show it, one gives a step for every state with `P` and a number that the step lowers
(`LeadsTo.of_variant`), stage by stage (`LeadsTo.trans`); the invariants of the system are
at hand, as the states are reached.  To show that an end is ruled out, one gives a property
that it has and that no step brings back (`CanReach.of_step_back`).
-/

import DetBypass.Lib.Transition
import Mathlib.Data.Nat.Notation

namespace DetBypass
namespace Lib
namespace System

variable {σ α : Type*} {S : System σ α} {g : σ → α → Prop} {P Q R : σ → Prop} {s t : σ} {a : α}

/-- Some guarded run goes on to a state with `Q`. -/
def CanReach (S : System σ α) (g : σ → α → Prop) (Q : σ → Prop) (s : σ) : Prop :=
  ∃ t, S.RunIf g s t ∧ Q t

/-- From every state with `P` that a guarded run reaches, one can be reached with `Q`. -/
def LeadsTo (S : System σ α) (g : σ → α → Prop) (P Q : σ → Prop) : Prop :=
  ∀ s, S.ReachableIf g s → P s → S.CanReach g Q s

/-- What can be reached after a step can be reached before it. -/
theorem CanReach.of_step (ha : g s a) (hstep : S.step s a = some t) (h : S.CanReach g Q t) :
    S.CanReach g Q s := by
  obtain ⟨u, hrun, hq⟩ := h
  exact ⟨u, (RunIf.tail RunIf.refl ha hstep).trans hrun, hq⟩

/-- One after the other. -/
theorem LeadsTo.trans (h : S.LeadsTo g P Q) (h' : S.LeadsTo g Q R) : S.LeadsTo g P R := by
  intro s hs hp
  obtain ⟨t, hrun, hq⟩ := h s hs hp
  obtain ⟨u, hrun', hr⟩ := h' t (RunIf.trans hs hrun) hq
  exact ⟨u, RunIf.trans hrun hrun', hr⟩

/-- What holds already is reached. -/
theorem LeadsTo.of_imp (h : ∀ s, P s → Q s) : S.LeadsTo g P Q :=
  fun s _ hp => ⟨s, RunIf.refl, h s hp⟩

/-- Two ways to one end. -/
theorem LeadsTo.or (h : S.LeadsTo g P R) (h' : S.LeadsTo g Q R) :
    S.LeadsTo g (fun s => P s ∨ Q s) R :=
  fun s hs hpq => hpq.elim (h s hs) (h' s hs)

/-- **The rule for a stage**: a step that ends it, or goes on in it with a smaller
number. -/
theorem LeadsTo.of_variant (μ : σ → ℕ) (h : ∀ s, S.ReachableIf g s → P s → Q s ∨
    ∃ a t, g s a ∧ S.step s a = some t ∧ (Q t ∨ P t ∧ μ t < μ s)) : S.LeadsTo g P Q := by
  intro s hs hp
  induction hk : μ s using Nat.strongRecOn generalizing s with
  | ind k ih =>
      rcases h s hs hp with hq | ⟨a, t, ha, hstep, hq | ⟨hp', hlt⟩⟩
      · exact ⟨s, RunIf.refl, hq⟩
      · exact CanReach.of_step ha hstep ⟨t, RunIf.refl, hq⟩
      · exact CanReach.of_step ha hstep (ih (μ t) (hk ▸ hlt) t (hs.tail ha hstep) hp' rfl)

/-- A stage of one step. -/
theorem LeadsTo.of_step (h : ∀ s, S.ReachableIf g s → P s →
    ∃ a t, g s a ∧ S.step s a = some t ∧ Q t) : S.LeadsTo g P Q :=
  LeadsTo.of_variant (fun _ => 0) fun s hs hp => by
    obtain ⟨a, t, ha, hstep, hq⟩ := h s hs hp
    exact Or.inr ⟨a, t, ha, hstep, Or.inl hq⟩

/-- **What is lost stays lost**: a property of the end that no step brings back holds as
long as the end can be reached. -/
theorem CanReach.of_step_back (h : S.CanReach g Q s) (hs : S.ReachableIf g s)
    (hend : ∀ t, S.ReachableIf g t → Q t → P t)
    (hback : ∀ {s a t}, S.ReachableIf g s → g s a → S.step s a = some t → P t → P s) : P s := by
  obtain ⟨t, hrun, hq⟩ := h
  have hall : S.ReachableIf g t ∧ (P t → P s) := by
    refine hrun.preserves (I := fun u => S.ReachableIf g u ∧ (P u → P s)) ?_ ⟨hs, id⟩
    rintro u a v ⟨hu, hkept⟩ ha hstep
    exact ⟨hu.tail ha hstep, fun hv => hkept (hback hu ha hstep hv)⟩
  exact hall.2 (hend t hall.1 hq)

end System
end Lib
end DetBypass
