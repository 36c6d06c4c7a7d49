/-
# The usage of the XDP programs against their parser

`xdp_print_usage` lists the options of a build, each in a short and a long
spelling, and says which have an argument and which are required.
`MeetsUsage` is what that promises of a command line: its options are the ones
written, the spelling makes no difference, and it is accepted exactly if the
device is given with `--remove` or with all required numbers, and the
measurement is one of the three.

The parser differs in four places (`meetsUsage_iff`): the string of short
options has `r:`, so `-r` takes the next word, or is an error at the end of the
line; `pers_measurement_to_flag` returns -1, which nobody tests; `atoi` may cut
an interval to 0; and an `ifname` that the caller has preset counts as given.
-/

import DetBypass.Xdp.Args

namespace DetBypass
namespace Xdp

open Lib

/-- The options of `xdp_print_usage`, with their arguments. -/
inductive Opt
  | remove
  | dev (ifname : Argument)
  | packets (packets : Argument)
  | interval (interval : Argument)
  | server (serverIp : Argument)
  | measurement (measurement : Argument)
deriving DecidableEq

/-- Both spellings of an option. -/
def Opt.names : Opt → LongOption
  | .remove => ⟨['r', 'e', 'm', 'o', 'v', 'e'], false, 'r'⟩
  | .dev _ => ⟨['d', 'e', 'v'], true, 'd'⟩
  | .packets _ => ⟨['p', 'a', 'c', 'k', 'e', 't', 's'], true, 'p'⟩
  | .interval _ => ⟨['i', 'n', 't', 'e', 'r', 'v', 'a', 'l'], true, 'i'⟩
  | .server _ => ⟨['s', 'e', 'r', 'v', 'e', 'r'], true, 's'⟩
  | .measurement _ => ⟨['m', 'e', 'a', 's', 'u', 'r', 'e', 'm', 'e', 'n', 't'], true, 'm'⟩

def Opt.arg : Opt → Option Argument
  | .remove => none
  | .dev a | .packets a | .interval a | .server a | .measurement a => some a

/-- The option as `getopt_long` should return it. -/
def Opt.event (opt : Opt) : OptEvent := ⟨opt.names.val, opt.arg⟩

/-- The lines of `xdp_print_usage` in a build. -/
def Opt.printed : Build → Opt → Bool
  | .server, .remove | .server, .dev _ | .server, .packets _ => true
  | .server, _ => false
  | .client, _ => true

/-- An option of the usage in one of its spellings. -/
structure Spelled (build : Build) where
  opt : Opt
  printed : opt.printed build = true
  long : Bool

namespace Spelled

variable {build : Build}

/-- The words of an option. -/
def words (s : Spelled build) : List Argument := s.opt.names.spell s.long :: s.opt.arg.toList

def toLong (s : Spelled build) : Spelled build := { s with long := true }

end Spelled

/-- The words after the name of the program. -/
def commandLine {build : Build} (l : List (Spelled build)) : List Argument :=
  l.flatMap Spelled.words

/-- The last argument given to an option. -/
def last (c : Char) (opts : List Opt) : Option Argument := lastArg c (opts.map Opt.event)

/-- The required options other than the device, with numbers that are not 0. -/
def Required (build : Build) (opts : List Opt) : Prop :=
  (∃ a, last 'p' opts = some a ∧ number a ≠ 0) ∧
    (build = .client →
      (∃ a, last 'i' opts = some a ∧ number a ≠ 0) ∧ ∃ a, .server a ∈ opts)

/-- Every measurement is one of those the usage names. -/
def Measures (opts : List Opt) : Prop :=
  ∀ a, .measurement a ∈ opts → 0 ≤ number a ∧ number a ≤ 2

/-- The command lines of `xdp_print_usage`. -/
def Usage (build : Build) (opts : List Opt) : Prop :=
  (∃ a, .dev a ∈ opts) ∧ (.remove ∈ opts ∨ Required build opts) ∧ Measures opts

/-- **The parser keeps to its usage** on a line, called with some `ifname`. -/
structure MeetsUsage (build : Build) (ifname : Option Argument) (l : List (Spelled build)) :
    Prop where
  read : options build (commandLine l) = l.map fun s => s.opt.event
  spelling : xdpParseArgs build (.start ifname) (commandLine l) =
    xdpParseArgs build (.start ifname) (commandLine (l.map Spelled.toLong))
  accepts : (xdpParseArgs build (.start ifname) (commandLine l)).1 = true ↔
    Usage build (l.map Spelled.opt)

/-- `atoi` does not make 0 of the interval. -/
def KeepsInterval (build : Build) (opts : List Opt) : Prop :=
  build = .client → ∀ a, last 'i' opts = some a → strtol a % 2 ^ 32 ≠ 0

variable {build : Build} {ifname : Option Argument} {l : List (Spelled build)}
  {s : Spelled build} {opts : List Opt} {args : Args}

/-! ### The options of a line -/

/-- The string of short options and the table agree, except on `remove`. -/
theorem described_of_mem (build : Build) (long : Bool) :
    ∀ opt ∈ longOptions build, (opt.val = 'r' → long = true) →
      opt.Described (optstring build) (longOptions build) long := by
  cases build <;> cases long <;> decide

/-- The table has the options that the usage prints, under both names. -/
theorem Opt.names_mem {opt : Opt} (h : opt.printed build = true) :
    opt.names ∈ longOptions build := by
  cases build <;> cases opt <;> first
    | exact Bool.noConfusion h
    | simp [Opt.names, longOptions]

/-- `r` is the value of `--remove` alone. -/
theorem Opt.names_val_eq_iff (opt : Opt) : opt.names.val = 'r' ↔ opt = .remove := by
  cases opt <;> simp [Opt.names]

/-- Every option is spelled as the tables say, `-r` apart. -/
theorem Spelled.described (h : s.opt = .remove → s.long = true) :
    s.opt.names.Described (optstring build) (longOptions build) s.long :=
  described_of_mem build s.long _ (Opt.names_mem s.printed) fun hval =>
    h (s.opt.names_val_eq_iff.1 hval)

/-- The options that take an argument have one. -/
theorem Opt.arg_isSome (opt : Opt) : opt.arg.isSome = opt.names.hasArg := by
  cases opt <;> rfl

/-- `getopt_long` gives the event of an option and goes on. -/
theorem options_words (h : s.opt = .remove → s.long = true) (ws : List Argument) :
    options build (s.words ++ ws) = s.opt.event :: options build ws :=
  getoptLong_spell (Spelled.described h) s.opt.arg_isSome ws

/-- `-r` takes the next word, or is an error at the end of the line. -/
theorem options_words_remove (hopt : s.opt = .remove) (hlong : s.long = false)
    (ws : List Argument) (events : List OptEvent) :
    options build (s.words ++ ws) ≠ s.opt.event :: events := by
  have hshort : LongOption.Described (optstring build) (longOptions build)
      ⟨[], true, 'r'⟩ false := by
    cases build <;> decide
  have hwords : s.words = [LongOption.spell ⟨[], true, 'r'⟩ false] := by
    rw [Spelled.words, hopt, hlong]
    rfl
  intro h
  rw [hwords, hopt] at h
  cases ws with
  | nil =>
      have hlast := getoptLong_spell_last hshort rfl
      rw [List.append_nil, options, hlast] at h
      cases h
  | cons a ws =>
      have hread := getoptLong_spell hshort (show (some a).isSome = true from rfl) ws
      rw [options] at h
      exact absurd (hread.symm.trans h) (by simp [Opt.event, Opt.arg])

/-- **A line without `-r` is read as it is written**, however it is spelled. -/
theorem options_commandLine (h : ∀ s ∈ l, s.opt = .remove → s.long = true) :
    options build (commandLine l) = l.map fun s => s.opt.event := by
  induction l with
  | nil => rfl
  | cons s l ih =>
      rw [commandLine, List.flatMap_cons, options_words (h s (List.mem_cons_self ..))]
      exact congrArg _ (ih fun s hs => h s (List.mem_cons_of_mem _ hs))

/-- With `-r` it is not. -/
theorem long_of_options_commandLine
    (h : options build (commandLine l) = l.map fun s => s.opt.event) :
    ∀ s ∈ l, s.opt = .remove → s.long = true := by
  induction l with
  | nil => exact fun s hs => absurd hs (List.not_mem_nil)
  | cons s l ih =>
      rw [commandLine, List.flatMap_cons] at h
      have hs : s.opt = .remove → s.long = true := fun hopt => by
        by_contra hlong
        exact options_words_remove hopt (Bool.not_eq_true _ ▸ hlong) _ _ h
      rw [options_words hs] at h
      intro s' hs'
      rcases List.mem_cons.1 hs' with rfl | hmem
      · exact hs
      · exact ih (List.cons.inj h).2 s' hmem

/-- The long spelling gives the same events. -/
theorem map_toLong_event (l : List (Spelled build)) :
    ((l.map Spelled.toLong).map fun s => s.opt.event) = l.map fun s => s.opt.event := by
  rw [List.map_map]
  rfl

/-! ### The result -/

/-- The `switch` knows each option of the usage. -/
theorem handle_event (hprinted : s.opt.printed build = true) (args : Args) :
    (handle build args s.opt.event).isSome = true := by
  generalize s.opt = opt at *
  cases build <;> cases opt <;> first
    | exact Bool.noConfusion hprinted
    | rfl

/-- The number of the last `-p`, as `atoll` leaves it. -/
theorem iters_ne_zero_iff {arg : Option Argument} :
    (arg.map fun a => (atoll a).toUInt64).getD 0 ≠ 0 ↔ ∃ a, arg = some a ∧ number a ≠ 0 := by
  cases arg with
  | none => simp
  | some a => simp [atoll_toUInt64_eq_zero_iff]

/-- The number of the last `-i`, as `atoi` and its sign leave it. -/
theorem interval_ne_zero_iff {arg : Option Argument} :
    (arg.map fun a => parsedInterval (atoi a)).getD 0 ≠ 0 ↔
      (∃ a, arg = some a ∧ number a ≠ 0) ∧ ∀ a, arg = some a → strtol a % 2 ^ 32 ≠ 0 := by
  cases arg with
  | none => simp
  | some a =>
      have hcut : parsedInterval (atoi a) = 0 ↔ strtol a % 2 ^ 32 = 0 :=
        atoi_toUInt64_eq_zero_iff
      have hzero : number a = 0 → strtol a % 2 ^ 32 = 0 := fun h => by
        rw [strtol_eq_zero_iff.2 h]
        rfl
      simp only [Option.map_some, Option.getD_some, ne_eq, hcut, Option.some.injEq,
        exists_eq_left', forall_eq']
      exact ⟨fun h => ⟨fun h0 => h (hzero h0), h⟩, And.right⟩

/-- `remove` among the options, as the loop finds it. -/
theorem any_remove (opts : List Opt) :
    ((opts.map Opt.event).any fun event => event.val == 'r') = true ↔ .remove ∈ opts := by
  simp [List.any_eq_true, Opt.event, Opt.names_val_eq_iff]

/-- An option with a last argument is among the options. -/
theorem last_isSome_iff {c : Char} {mk : Argument → Opt}
    (h : ∀ opt : Opt, (argOf c opt.event).isSome = true ↔ ∃ a, mk a = opt) :
    (last c opts).isSome = true ↔ ∃ a, mk a ∈ opts := by
  have hlast : (last c opts).isSome = true ↔ ∃ opt ∈ opts, (argOf c opt.event).isSome = true := by
    simp [last, lastArg, Option.isSome_iff_ne_none]
  rw [hlast]
  constructor
  · rintro ⟨opt, hopt, harg⟩
    obtain ⟨a, rfl⟩ := (h opt).1 harg
    exact ⟨a, hopt⟩
  · rintro ⟨a, ha⟩
    exact ⟨mk a, ha, (h _).2 ⟨a, rfl⟩⟩

/-- There is a last device where there is one. -/
theorem last_dev_isSome_iff : (last 'd' opts).isSome = true ↔ ∃ a, .dev a ∈ opts :=
  last_isSome_iff fun opt => by cases opt <;> simp [argOf, Opt.event, Opt.names, Opt.arg]

/-- There is a last server where there is one. -/
theorem last_server_isSome_iff : (last 's' opts).isSome = true ↔ ∃ a, .server a ∈ opts :=
  last_isSome_iff fun opt => by cases opt <;> simp [argOf, Opt.event, Opt.names, Opt.arg]

/-- What the server asks for. -/
theorem complete_server_iff : complete args .server = true ↔
    args.ifname.isSome = true ∧ (args.remove = true ∨ args.iters ≠ 0) := by
  simp [complete]

/-- What the client asks for. -/
theorem complete_client_iff : complete args .client = true ↔
    args.ifname.isSome = true ∧ (args.remove = true ∨
      args.iters ≠ 0 ∧ args.interval ≠ 0 ∧ args.serverIp.isSome = true) := by
  simp [complete, and_assoc]

/-- **What the parser accepts** once it has read the options of a usage. -/
theorem complete_iff
    (h : Parsed build (reset (.start ifname) build) (opts.map Opt.event) args) :
    complete args build = true ↔
      ((∃ a, .dev a ∈ opts) ∨ ifname.isSome = true) ∧
        (.remove ∈ opts ∨ Required build opts ∧ KeepsInterval build opts) := by
  have hremove : args.remove = true ↔ .remove ∈ opts := by
    rw [h.remove, ← any_remove]
    cases build <;> simp [reset, Args.start]
  have hifname : args.ifname.isSome = true ↔
      (∃ a, .dev a ∈ opts) ∨ ifname.isSome = true := by
    rw [h.ifname, Option.isSome_or, Bool.or_eq_true, ← last_dev_isSome_iff]
    cases build <;> rfl
  have hiters : args.iters ≠ 0 ↔ ∃ a, last 'p' opts = some a ∧ number a ≠ 0 := by
    rw [← iters_ne_zero_iff, h.iters, last]
    cases build <;> rfl
  cases build with
  | server =>
      have hrest : Required .server opts ∧ KeepsInterval .server opts ↔ args.iters ≠ 0 := by
        rw [hiters]
        simp [Required, KeepsInterval]
      rw [complete_server_iff, hrest, hremove, hifname]
  | client =>
      have hinterval : args.interval ≠ 0 ↔ (∃ a, last 'i' opts = some a ∧ number a ≠ 0) ∧
          ∀ a, last 'i' opts = some a → strtol a % 2 ^ 32 ≠ 0 := by
        rw [← interval_ne_zero_iff, h.interval rfl]
        rfl
      have hserver : args.serverIp = last 's' opts := by
        rw [h.serverIp rfl]
        exact Option.or_none
      have hrest : Required .client opts ∧ KeepsInterval .client opts ↔
          args.iters ≠ 0 ∧ args.interval ≠ 0 ∧ args.serverIp.isSome = true := by
        rw [hiters, hinterval, hserver, last_server_isSome_iff]
        constructor
        · rintro ⟨⟨hp, hclient⟩, hcut⟩
          exact ⟨hp, ⟨(hclient rfl).1, hcut rfl⟩, (hclient rfl).2⟩
        · rintro ⟨hp, ⟨hi, hcut⟩, hs⟩
          exact ⟨⟨hp, fun _ => ⟨hi, hs⟩⟩, fun _ => hcut⟩
      rw [complete_client_iff, hrest, hremove, hifname]

/-- A line without `-r` is accepted exactly if its options are complete. -/
theorem xdpParseArgs_commandLine (h : ∀ s ∈ l, s.opt = .remove → s.long = true) :
    (xdpParseArgs build (.start ifname) (commandLine l)).1 = true ↔
      ((∃ a, .dev a ∈ l.map Spelled.opt) ∨ ifname.isSome = true) ∧
        (.remove ∈ l.map Spelled.opt ∨
          Required build (l.map Spelled.opt) ∧ KeepsInterval build (l.map Spelled.opt)) := by
  have hevents : options build (commandLine l) = (l.map Spelled.opt).map Opt.event := by
    rw [options_commandLine h, List.map_map]
    rfl
  have hknown : ∀ event ∈ (l.map Spelled.opt).map Opt.event, ∀ args,
      (handle build args event).isSome = true := fun event hevent => by
    obtain ⟨opt, hopt, rfl⟩ := List.mem_map.1 hevent
    obtain ⟨s, -, rfl⟩ := List.mem_map.1 hopt
    exact handle_event s.printed
  obtain ⟨args, hloop⟩ := exists_parseLoop hknown (reset (.start ifname) build)
  rw [← complete_iff (parseLoop_parsed hloop), xdpParseArgs, hevents, hloop]
  rfl

/-- Two tests with a common disjunct, compared where one of their disjuncts holds. -/
theorem agree_iff {A D R Q K M : Prop} :
    (A ∧ (R ∨ Q ∧ K) ↔ D ∧ (R ∨ Q) ∧ M) ↔ (R ∨ Q → (A ∧ (R ∨ K) ↔ D ∧ M)) := by
  by_cases hR : R <;> by_cases hQ : Q <;> simp [hR, hQ]

/-- **Where the parser keeps to its usage.**  No `remove` may be spelled `-r`.
Where `remove` or all required numbers are given, the two agree exactly if both
accept (the device is given, every measurement is one of the three, and `atoi`
leaves an interval), or if the parser too finds no interface or no interval. -/
theorem meetsUsage_iff (build : Build) (ifname : Option Argument) (l : List (Spelled build)) :
    MeetsUsage build ifname l ↔
      (∀ s ∈ l, s.opt = .remove → s.long = true) ∧
        (.remove ∈ l.map Spelled.opt ∨ Required build (l.map Spelled.opt) →
          (((∃ a, .dev a ∈ l.map Spelled.opt) ∨ ifname.isSome = true) ∧
              (.remove ∈ l.map Spelled.opt ∨ KeepsInterval build (l.map Spelled.opt)) ↔
            (∃ a, .dev a ∈ l.map Spelled.opt) ∧ Measures (l.map Spelled.opt))) := by
  constructor
  · intro h
    have hlong := long_of_options_commandLine h.read
    have haccepts := h.accepts
    rw [xdpParseArgs_commandLine hlong, Usage, agree_iff] at haccepts
    exact ⟨hlong, haccepts⟩
  · rintro ⟨hlong, hagree⟩
    refine ⟨options_commandLine hlong, ?_, ?_⟩
    · have hall : options build (commandLine (l.map Spelled.toLong)) =
          options build (commandLine l) := by
        rw [options_commandLine hlong, options_commandLine, map_toLong_event]
        intro s hs
        obtain ⟨s', -, rfl⟩ := List.mem_map.1 hs
        exact fun _ => rfl
      rw [xdpParseArgs, xdpParseArgs, hall]
    · rw [xdpParseArgs_commandLine hlong, Usage, agree_iff]
      exact hagree

/-- A measurement that does not exist is accepted. -/
example : (xdpParseArgs .client (.start none)
    ["--remove".toList, "-d".toList, "lo".toList, "-m".toList, "7".toList]).1 = true := by decide

/-- `-r` before the device takes `-d` as its argument. -/
theorem exists_not_meetsUsage : ¬ ∀ build ifname l, MeetsUsage build ifname l := fun h =>
  absurd (h .client none [⟨.remove, rfl, false⟩, ⟨.dev ['l', 'o'], rfl, false⟩]).read (by decide)

end Xdp
end DetBypass
