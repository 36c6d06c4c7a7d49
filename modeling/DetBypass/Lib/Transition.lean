/-
# Runs of a transition system

A program whose threads interleave is a state, an initial state and a partial
step function: `step s a = some t` when the action `a` is enabled in `s` and
leads to `t`, `none` when it is not.  The choices of a scheduler, of a network
or of a clock are in the label, so one function covers every interleaving.

A *guarded* run is a run each of whose steps satisfies a condition on the state
before it.  `Invariant.holds` is the one induction over runs of the
development: what holds initially and is kept by every guarded step holds in
every state a guarded run reaches.  `execIf` runs a list of actions, which is
how a concrete run is exhibited.
-/

import Mathlib.Logic.Relation

namespace DetBypass
namespace Lib

/-- An initial state and a partial step function, `none` where the action is
not enabled. -/
structure System (σ α : Type*) where
  init : σ
  step : σ → α → Option σ

namespace System

variable {σ α : Type*} {S : System σ α} {g g' : σ → α → Prop} {s t u : σ} {a : α}

/-- One step whose state and action satisfy the guard `g`. -/
def StepIf (S : System σ α) (g : σ → α → Prop) (s t : σ) : Prop :=
  ∃ a, g s a ∧ S.step s a = some t

/-- A run from `s` to `t` all of whose steps satisfy `g`. -/
def RunIf (S : System σ α) (g : σ → α → Prop) : σ → σ → Prop :=
  Relation.ReflTransGen (S.StepIf g)

/-- A state at the end of a run from the initial state with all steps in `g`. -/
def ReachableIf (S : System σ α) (g : σ → α → Prop) (s : σ) : Prop :=
  S.RunIf g S.init s

/-- A state at the end of any run from the initial state. -/
def Reachable (S : System σ α) (s : σ) : Prop :=
  S.ReachableIf (fun _ _ => True) s

/-- The run of no step. -/
theorem RunIf.refl : S.RunIf g s s :=
  Relation.ReflTransGen.refl

/-- A run after a run. -/
theorem RunIf.trans (h : S.RunIf g s t) (h' : S.RunIf g t u) : S.RunIf g s u :=
  Relation.ReflTransGen.trans h h'

/-- A step after a run. -/
theorem RunIf.tail (h : S.RunIf g s t) (ha : g t a) (hs : S.step t a = some u) :
    S.RunIf g s u :=
  Relation.ReflTransGen.tail h ⟨a, ha, hs⟩

/-- A weaker guard has more runs. -/
theorem RunIf.mono (hg : ∀ s a, g s a → g' s a) (h : S.RunIf g s t) : S.RunIf g' s t :=
  Relation.ReflTransGen.mono (fun _ _ ⟨a, ha, hs⟩ => ⟨a, hg _ a ha, hs⟩) _ _ h

/-- The first state is reachable. -/
theorem ReachableIf.init : S.ReachableIf g S.init :=
  RunIf.refl

/-- And every state one guarded step further. -/
theorem ReachableIf.tail (h : S.ReachableIf g s) (ha : g s a) (hs : S.step s a = some t) :
    S.ReachableIf g t :=
  RunIf.tail h ha hs

/-- A guarded run is a run. -/
theorem ReachableIf.reachable (h : S.ReachableIf g s) : S.Reachable s :=
  RunIf.mono (fun _ _ _ => trivial) h

/-- The first state is reachable. -/
theorem Reachable.init : S.Reachable S.init :=
  RunIf.refl

/-- And every state one step further. -/
theorem Reachable.tail (h : S.Reachable s) (hs : S.step s a = some t) : S.Reachable t :=
  RunIf.tail h trivial hs

/-- What every guarded step keeps, a guarded run keeps. -/
theorem RunIf.preserves {I : σ → Prop} (h : S.RunIf g s t)
    (step : ∀ {s a t}, I s → g s a → S.step s a = some t → I t) (hs : I s) : I t := by
  induction h with
  | refl => exact hs
  | tail _ hlast ih =>
      obtain ⟨a, ha, hst⟩ := hlast
      exact step ih ha hst

/-- A property that holds initially and is kept by every step in `g`. -/
structure Invariant (S : System σ α) (g : σ → α → Prop) (I : σ → Prop) : Prop where
  init : I S.init
  step : ∀ {s a t}, I s → g s a → S.step s a = some t → I t

/-- **An invariant holds in every state a guarded run reaches.** -/
theorem Invariant.holds {I : σ → Prop} (hI : S.Invariant g I) (h : S.ReachableIf g s) : I s :=
  RunIf.preserves h hI.step hI.init

/-- A guarded run meets a second guard, where an invariant of it gives the one from the
other. -/
theorem Invariant.reachableIf {I : σ → Prop} (hI : S.Invariant g I)
    (hg : ∀ {s a t}, I s → g s a → S.step s a = some t → g' s a) (h : S.ReachableIf g s) :
    S.ReachableIf g' s := by
  refine (RunIf.preserves (I := fun s => S.ReachableIf g' s ∧ I s) h ?_ ⟨.init, hI.init⟩).1
  intro s a t ⟨hs, hIs⟩ ha hstep
  exact ⟨hs.tail (hg hIs ha hstep) hstep, hI.step hIs ha hstep⟩

/-- Run a list of actions, stopping at one that is not enabled or not in `g`. -/
def execIf (S : System σ α) (g : σ → α → Prop) [∀ s a, Decidable (g s a)] :
    σ → List α → Option σ
  | s, [] => some s
  | s, a :: as => if g s a then (S.step s a).bind fun t => S.execIf g t as else none

/-- Run a list of actions. -/
def exec (S : System σ α) : σ → List α → Option σ :=
  S.execIf fun _ _ => True

/-- A list of actions that executes is a guarded run. -/
theorem runIf_of_execIf [∀ s a, Decidable (g s a)] {as : List α}
    (h : S.execIf g s as = some t) : S.RunIf g s t := by
  induction as generalizing s with
  | nil =>
      simp only [execIf, Option.some.injEq] at h
      exact h ▸ RunIf.refl
  | cons a as ih =>
      simp only [execIf] at h
      split at h
      · rename_i ha
        obtain ⟨u, hu, hrest⟩ := Option.bind_eq_some_iff.1 h
        exact (RunIf.tail RunIf.refl ha hu).trans (ih hrest)
      · cases h

/-- A list of actions that executes from the initial state reaches its end. -/
theorem reachable_of_exec {as : List α} (h : S.exec S.init as = some t) : S.Reachable t :=
  runIf_of_execIf h

end System

end Lib
end DetBypass
