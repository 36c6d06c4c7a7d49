/-
# Options of a command line, as `getopt_long` reads them

The words of a command line are scanned from left to right.  A word that does
not begin with `-`, or is only `-`, is no option and is skipped; `--` ends the
options.  A word that begins with `--` is a long option, its argument after `=`
or, if it has to have one, in the next word; its name may be cut short as long
as that leaves no doubt.  Any other word is a cluster of short options, and one
that has to have an argument takes the rest of its word or else the next word.
Each option found is an event: the character the program gets and `optarg`.
What is not understood is the event `?`.

The short options stand in a string, each followed by `:` if it has an argument,
the long ones in a table; optional arguments, and the other signs that
`getopt_long` knows in the string, are left out.  An option that both describe
in the same way is read in the same way in both spellings
(`getoptLong_spell`).
-/

import Mathlib.Data.List.Basic
import Mathlib.Data.List.TakeWhile
import Mathlib.Data.Nat.Notation

namespace DetBypass
namespace Lib

/-- A word of a command line. -/
abbrev Argument := List Char

/-- `struct option`, without a `flag`. -/
structure LongOption where
  name : Argument
  hasArg : Bool
  val : Char
deriving DecidableEq

/-- What a call of `getopt_long` returns, and `optarg`. -/
structure OptEvent where
  val : Char
  optarg : Option Argument
deriving DecidableEq

variable {optstring : List Char} {longs : List LongOption} {opt : LongOption} {a w : Argument}
  {ws : List Argument} {long : Bool}

/-- Whether a character is a short option, and then whether it has an argument. -/
def shortOption (optstring : List Char) (c : Char) : Option Bool :=
  if c = ':' ∨ c = ';' then none
  else match optstring.dropWhile (· ≠ c) with
    | [] => none
    | _ :: rest => some (rest.head? = some ':')

/-- The long option of a name: the one called so, else the one whose name begins
so, if all such are alike. -/
def longOption (longs : List LongOption) (name : Argument) : Option LongOption :=
  match longs.find? (·.name = name), longs.filter (name <+: ·.name) with
  | some opt, _ => some opt
  | none, [] => none
  | none, opt :: opts =>
    if opts.all fun other => other.hasArg = opt.hasArg ∧ other.val = opt.val then some opt
    else none

/-- The events of a cluster of short options, and the option that still has to
have its argument. -/
def readShort (optstring : List Char) : List Char → List OptEvent × Option Char
  | [] => ([], none)
  | c :: rest =>
    let others := readShort optstring rest
    match shortOption optstring c, rest with
    | none, _ => (⟨'?', none⟩ :: others.1, others.2)
    | some false, _ => (⟨c, none⟩ :: others.1, others.2)
    | some true, [] => ([], some c)
    | some true, arg => ([⟨c, some arg⟩], none)

/-- The event of a long option, and the option that still has to have its
argument. -/
def readLong (longs : List LongOption) (text : List Char) : List OptEvent × Option Char :=
  match longOption longs (text.takeWhile (· ≠ '=')), text.dropWhile (· ≠ '=') with
  | none, _ => ([⟨'?', none⟩], none)
  | some opt, [] => if opt.hasArg then ([], some opt.val) else ([⟨opt.val, none⟩], none)
  | some opt, _ :: arg =>
    if opt.hasArg then ([⟨opt.val, some arg⟩], none) else ([⟨'?', none⟩], none)

/-- One word. -/
def readWord (optstring : List Char) (longs : List LongOption) :
    Argument → List OptEvent × Option Char
  | '-' :: '-' :: text => readLong longs text
  | '-' :: text => readShort optstring text
  | _ => ([], none)

/-- All the events of the words after the name of the program. -/
def getoptLong (optstring : List Char) (longs : List LongOption) : List Argument → List OptEvent
  | [] => []
  | w :: ws =>
    if w = ['-', '-'] then []
    else
      let (events, pending) := readWord optstring longs w
      match pending with
      | none => events ++ getoptLong optstring longs ws
      | some c =>
        match ws with
        | [] => events ++ [⟨'?', none⟩]
        | arg :: ws => events ++ ⟨c, some arg⟩ :: getoptLong optstring longs ws

example : getoptLong "ab:".toList [⟨"beta".toList, true, 'b'⟩]
    ["-ab".toList, "1".toList, "x".toList, "--be=2".toList, "-c".toList] =
    [⟨'a', none⟩, ⟨'b', some "1".toList⟩, ⟨'b', some "2".toList⟩, ⟨'?', none⟩] := by decide

/-! ### The two spellings of an option -/

/-- The word of an option. -/
def LongOption.spell (opt : LongOption) (long : Bool) : Argument :=
  if long then '-' :: '-' :: opt.name else ['-', opt.val]

/-- The string, or for the long spelling the table, describes the option. -/
def LongOption.Described (optstring : List Char) (longs : List LongOption) (opt : LongOption)
    (long : Bool) : Prop :=
  if long then opt.name ≠ [] ∧ '=' ∉ opt.name ∧ longOption longs opt.name = some opt
  else opt.val ≠ '-' ∧ shortOption optstring opt.val = some opt.hasArg

instance : Decidable (opt.Described optstring longs long) :=
  inferInstanceAs (Decidable (if long then _ else _))

/-- A word that only names an option leaves it waiting for its argument. -/
theorem readWord_spell (h : opt.Described optstring longs long) :
    readWord optstring longs (opt.spell long) =
      if opt.hasArg then ([], some opt.val) else ([⟨opt.val, none⟩], none) := by
  cases long with
  | true =>
      obtain ⟨-, heq, hlong⟩ : opt.name ≠ [] ∧ '=' ∉ opt.name ∧
        longOption longs opt.name = some opt := h
      have hne : ∀ c ∈ opt.name, decide (c ≠ '=') = true := fun c hc =>
        decide_eq_true fun he => heq (he ▸ hc)
      show readLong longs opt.name = _
      rw [readLong, List.takeWhile_eq_self_iff.2 hne, List.dropWhile_eq_nil_iff.2 hne, hlong]
  | false =>
      obtain ⟨hval, hshort⟩ : opt.val ≠ '-' ∧ shortOption optstring opt.val = some opt.hasArg := h
      have hread : readWord optstring longs ['-', opt.val] = readShort optstring [opt.val] := by
        unfold readWord
        split <;> simp_all
      show readWord optstring longs ['-', opt.val] = _
      rw [hread]
      unfold readShort
      rw [hshort]
      cases opt.hasArg <;> rfl

/-- An option is never spelled as the end of the options. -/
theorem spell_ne (h : opt.Described optstring longs long) : opt.spell long ≠ ['-', '-'] := by
  cases long with
  | true =>
      obtain ⟨hname, -⟩ : opt.name ≠ [] ∧ _ := h
      simpa [LongOption.spell] using hname
  | false =>
      obtain ⟨hval, -⟩ : opt.val ≠ '-' ∧ _ := h
      simpa [LongOption.spell] using hval

/-- **An option is read as itself** in each spelling that describes it. -/
theorem getoptLong_spell {arg : Option Argument} (h : opt.Described optstring longs long)
    (harg : arg.isSome = opt.hasArg) (ws : List Argument) :
    getoptLong optstring longs (opt.spell long :: (arg.toList ++ ws)) =
      ⟨opt.val, arg⟩ :: getoptLong optstring longs ws := by
  rw [getoptLong, if_neg (spell_ne h), readWord_spell h, ← harg]
  cases arg <;> rfl

/-- An option at the end of the line has no argument. -/
theorem getoptLong_spell_last (h : opt.Described optstring longs long)
    (harg : opt.hasArg = true) :
    getoptLong optstring longs [opt.spell long] = [⟨'?', none⟩] := by
  rw [getoptLong, if_neg (spell_ne h), readWord_spell h, harg]
  rfl

end Lib
end DetBypass
