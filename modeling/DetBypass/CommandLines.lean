/-
# The command lines of the socket and the RDMA programs

`nobypass_parse_args` of `no-bypass/src/args.c` and `ib_parse_args` of
`rdma/src/args.c`, in both builds of each.  The four are one loop over
`getopt_long`: an option whose case the `switch` has sets its output, any other
one ends the call with `false`, and after the loop the outputs that a program
cannot do without are tested.  A `Parser` is what they differ in, with the proof
that its string and its table of options describe the same options.

A command line is a list of options of the table, each spelled short or long.
The two results are exact: which lines are accepted, and what the outputs then
are.  The parsers test different things: `ib_parse_args` wants a device and an
index that is not negative, but its client does not ask for the interval and the
server, which its usage lists like the others (`ibParseArgs_commandLine`);
`nobypass_parse_args` does (`nobypassParseArgs_commandLine`).
-/

import DetBypass.Xdp.Usage

namespace DetBypass
namespace CommandLines

open Lib
open Xdp (argOf lastArg lastArg_cons lastArg_nil persMeasurementToFlag)

/-- The outputs of both parsers.  `nobypass_parse_args` has no `ibname` and no
`gidx`, and the servers have no `interval`, `server_ip` and `pers_flags`. -/
structure Args where
  ibname : Option Argument
  gidx : Int32
  iters : UInt64
  interval : UInt64
  serverIp : Option Argument
  persFlags : UInt32
deriving DecidableEq

/-- The outputs before the call, as the callers have them: the flags are
`PERSISTENCE_M_ALL_TIMESTAMPS` in `no-bypass` and `rc_pingpong`, 0 in
`ud_pingpong`. -/
def Args.start (persFlags : UInt32) : Args := ⟨none, 0, 0, 0, none, persFlags⟩

/-- A case of the `switch`.  An option that reads `optarg` never comes without
it. -/
def set (args : Args) (event : OptEvent) : Option Args :=
  match event.val, event.optarg with
  | 'd', some optarg => some { args with ibname := some optarg }
  | 'g', some optarg => some { args with gidx := atoi optarg }
  | 'p', some optarg => some { args with iters := (atoll optarg).toUInt64 }
  | 'i', some optarg => some { args with interval := parsedInterval (atoi optarg) }
  | 's', some optarg => some { args with serverIp := some optarg }
  | 'm', some optarg =>
    some { args with persFlags := (persMeasurementToFlag (atoi optarg)).toUInt32 }
  | _, _ => none

/-- The options that have an output. -/
def settable : List Char := ['d', 'g', 'p', 'i', 's', 'm']

/-- What the parsers differ in: the options, the cases of the `switch` that do
not return `false`, the outputs set before the loop and the test after it. -/
structure Parser where
  optstring : List Char
  longOptions : List LongOption
  cases : List Char
  reset : Args → Args
  complete : Args → Bool
  /-- String and table describe the same options. -/
  described : ∀ opt ∈ longOptions, ∀ long, opt.Described optstring longOptions long
  /-- The cases are those of the options that have an argument, all but `help`. -/
  mem_cases : ∀ opt ∈ longOptions, opt.val ∈ cases ↔ opt.hasArg = true
  cases_subset : cases ⊆ settable

/-- The `switch` on an option; `none` is `return false`. -/
def Parser.switch (parser : Parser) (args : Args) (event : OptEvent) : Option Args :=
  if event.val ∈ parser.cases then set args event else none

/-- The loop over the options: whether it gets to their end, and the outputs. -/
def Parser.readOptions (parser : Parser) : Args → List OptEvent → Bool × Args
  | args, [] => (true, args)
  | args, event :: events =>
    match parser.switch args event with
    | some args => parser.readOptions args events
    | none => (false, args)

/-- The options of a command line, without the name of the program. -/
def Parser.options (parser : Parser) (argv : List Argument) : List OptEvent :=
  getoptLong parser.optstring parser.longOptions argv

/-- The whole call: its result and the outputs. -/
def Parser.parseArgs (parser : Parser) (args : Args) (argv : List Argument) : Bool × Args :=
  let (ended, args) := parser.readOptions (parser.reset args) (parser.options argv)
  (ended && parser.complete args, args)

/-! ### The four parsers -/

def dev : LongOption := ⟨['d', 'e', 'v'], true, 'd'⟩
def gidx : LongOption := ⟨['g', 'i', 'd', 'x'], true, 'g'⟩
def packets : LongOption := ⟨['p', 'a', 'c', 'k', 'e', 't', 's'], true, 'p'⟩
def interval : LongOption := ⟨['i', 'n', 't', 'e', 'r', 'v', 'a', 'l'], true, 'i'⟩
def server : LongOption := ⟨['s', 'e', 'r', 'v', 'e', 'r'], true, 's'⟩
def help : LongOption := ⟨['h', 'e', 'l', 'p'], false, 'h'⟩
def measurement : LongOption :=
  ⟨['m', 'e', 'a', 's', 'u', 'r', 'e', 'm', 'e', 'n', 't'], true, 'm'⟩

/-- `nobypass_parse_args`: "p:h" and "p:i:s:hm:". -/
def nobypass : Build → Parser
  | .server =>
    { optstring := ['p', ':', 'h']
      longOptions := [packets, help]
      cases := ['p']
      reset := fun args => { args with iters := 0 }
      complete := fun args => !(args.iters == 0)
      described := by decide
      mem_cases := by decide
      cases_subset := by simp [settable] }
  | .client =>
    { optstring := ['p', ':', 'i', ':', 's', ':', 'h', 'm', ':']
      longOptions := [packets, interval, server, help, measurement]
      cases := ['p', 'i', 's', 'm']
      reset := fun args => { args with iters := 0, interval := 0, serverIp := none }
      complete := fun args => !(args.iters == 0 || args.interval == 0 || args.serverIp == none)
      described := by decide
      mem_cases := by decide
      cases_subset := by simp [settable] }

/-- `ib_parse_args`: "d:g:p:h" and "d:g:p:i:s:hm:".  The test is the same in both
builds. -/
def ib : Build → Parser
  | .server =>
    { optstring := ['d', ':', 'g', ':', 'p', ':', 'h']
      longOptions := [dev, gidx, packets, help]
      cases := ['d', 'g', 'p']
      reset := fun args => { args with iters := 0 }
      complete := fun args => !(args.iters == 0 || args.ibname == none || args.gidx < 0)
      described := by decide
      mem_cases := by decide
      cases_subset := by simp [settable] }
  | .client =>
    { optstring := ['d', ':', 'g', ':', 'p', ':', 'i', ':', 's', ':', 'h', 'm', ':']
      longOptions := [dev, gidx, packets, interval, server, help, measurement]
      cases := ['d', 'g', 'p', 'i', 's', 'm']
      reset := fun args => { args with iters := 0, interval := 0, serverIp := none }
      complete := fun args => !(args.iters == 0 || args.ibname == none || args.gidx < 0)
      described := by decide
      mem_cases := by decide
      cases_subset := by simp [settable] }

/-- `nobypass_parse_args`. -/
def nobypassParseArgs (build : Build) : Args → List Argument → Bool × Args :=
  (nobypass build).parseArgs

/-- `ib_parse_args`. -/
def ibParseArgs (build : Build) : Args → List Argument → Bool × Args := (ib build).parseArgs

/-- An option of the table, with the argument that it has to have, in one of its
spellings. -/
structure Written (parser : Parser) where
  opt : LongOption
  arg : Option Argument
  long : Bool
  mem : opt ∈ parser.longOptions
  arg_isSome : arg.isSome = opt.hasArg

variable {parser : Parser} {args args' : Args} {event : OptEvent} {events : List OptEvent}

/-- The option as `getopt_long` should return it. -/
def Written.toEvent (w : Written parser) : OptEvent := ⟨w.opt.val, w.arg⟩

/-- The words after the name of the program. -/
def commandLine (l : List (Written parser)) : List Argument :=
  l.flatMap fun w => w.opt.spell w.long :: w.arg.toList

/-- The outputs after the options: each has the value of its last argument. -/
def assigned (args : Args) (events : List OptEvent) : Args where
  ibname := (lastArg 'd' events).or args.ibname
  gidx := ((lastArg 'g' events).map atoi).getD args.gidx
  iters := ((lastArg 'p' events).map fun a => (atoll a).toUInt64).getD args.iters
  interval := ((lastArg 'i' events).map fun a => parsedInterval (atoi a)).getD args.interval
  serverIp := (lastArg 's' events).or args.serverIp
  persFlags :=
    ((lastArg 'm' events).map fun a => (persMeasurementToFlag (atoi a)).toUInt32).getD
      args.persFlags

/-! ### The loop -/

/-- Without options the defaults stay. -/
@[simp] theorem assigned_nil (args : Args) : assigned args [] = args := rfl

/-- One option after another. -/
theorem assigned_cons (args : Args) (event : OptEvent) (events : List OptEvent) :
    assigned args (event :: events) = assigned (assigned args [event]) events := by
  have hgetD : ∀ {α : Type} (f : Argument → α) (c : Char) (x : α),
      ((lastArg c (event :: events)).map f).getD x =
        ((lastArg c events).map f).getD (((lastArg c [event]).map f).getD x) := by
    intro α f c x
    rw [lastArg_cons, lastArg_cons c event [], lastArg_nil, Option.none_or]
    cases lastArg c events <;> rfl
  have hor : ∀ (c : Char) (x : Option Argument),
      (lastArg c (event :: events)).or x = (lastArg c events).or ((lastArg c [event]).or x) := by
    intro c x
    rw [lastArg_cons, lastArg_cons c event [], lastArg_nil, Option.none_or, Option.or_assoc]
  unfold assigned
  rw [hor, hor, hgetD, hgetD, hgetD, hgetD]

/-- A case sets its output and no other one. -/
theorem set_eq (h : event.val ∈ settable) (harg : event.optarg.isSome = true) (args : Args) :
    set args event = some (assigned args [event]) := by
  obtain ⟨val, optarg⟩ := event
  obtain ⟨a, rfl⟩ := Option.isSome_iff_exists.1 harg
  simp only [settable, List.mem_cons, List.not_mem_nil, or_false] at h
  rcases h with rfl | rfl | rfl | rfl | rfl | rfl <;> rfl

/-- An option without its argument sets nothing. -/
theorem set_eq_none (h : event.optarg = none) (args : Args) : set args event = none := by
  obtain ⟨val, optarg⟩ := event
  cases h
  unfold set
  split <;> simp_all

/-- The step: what one option sets. -/
theorem switch_eq_some_iff : parser.switch args event = some args' ↔
    (event.val ∈ parser.cases ∧ event.optarg.isSome = true) ∧ args' = assigned args [event] := by
  unfold Parser.switch
  by_cases hval : event.val ∈ parser.cases
  · rw [if_pos hval]
    by_cases harg : event.optarg.isSome = true
    · rw [set_eq (parser.cases_subset hval) harg, Option.some.injEq]
      exact ⟨fun h => ⟨⟨hval, harg⟩, h.symm⟩, fun h => h.2.symm⟩
    · rw [set_eq_none (by simpa using harg)]
      simp [harg]
  · simp [hval]

/-- **The loop gets to its end exactly if the `switch` has a case for every
option**, and each output is then the value of its last argument. -/
theorem readOptions_eq_iff : parser.readOptions args events = (true, args') ↔
    (∀ event ∈ events, event.val ∈ parser.cases ∧ event.optarg.isSome = true) ∧
      args' = assigned args events := by
  induction events generalizing args with
  | nil =>
      rw [Parser.readOptions, assigned_nil, Prod.mk.injEq]
      exact ⟨fun h => ⟨fun _ he => absurd he List.not_mem_nil, h.2.symm⟩,
        fun h => ⟨rfl, h.2.symm⟩⟩
  | cons event events ih =>
      rw [Parser.readOptions, List.forall_mem_cons, assigned_cons]
      cases hswitch : parser.switch args event with
      | some next =>
          obtain ⟨hcase, rfl⟩ := switch_eq_some_iff.1 hswitch
          rw [ih]
          simp [hcase]
      | none =>
          have hcase : ¬(event.val ∈ parser.cases ∧ event.optarg.isSome = true) := fun hcase => by
            rw [switch_eq_some_iff.2 ⟨hcase, rfl⟩] at hswitch
            cases hswitch
          simp [hcase]

/-- A call that returns true has read its line to the end and is complete. -/
theorem parseArgs_eq_iff {argv : List Argument} : parser.parseArgs args argv = (true, args') ↔
    ((∀ event ∈ parser.options argv,
        event.val ∈ parser.cases ∧ event.optarg.isSome = true) ∧
      args' = assigned (parser.reset args) (parser.options argv)) ∧
      parser.complete args' = true := by
  rw [← readOptions_eq_iff, Parser.parseArgs]
  obtain ⟨ended, out⟩ := parser.readOptions (parser.reset args) (parser.options argv)
  simp only [Prod.mk.injEq, Bool.and_eq_true]
  constructor
  · rintro ⟨⟨rfl, hcomplete⟩, rfl⟩
    exact ⟨⟨rfl, rfl⟩, hcomplete⟩
  · rintro ⟨⟨rfl, rfl⟩, hcomplete⟩
    exact ⟨⟨rfl, hcomplete⟩, rfl⟩

/-! ### The lines of the usage -/

/-- **A line is read as it is written**, however it is spelled. -/
theorem options_commandLine (l : List (Written parser)) :
    parser.options (commandLine l) = l.map Written.toEvent := by
  induction l with
  | nil => rfl
  | cons w l ih =>
      have hword := getoptLong_spell (parser.described w.opt w.mem w.long) w.arg_isSome
        (commandLine l)
      rw [Parser.options] at ih ⊢
      rw [commandLine, List.flatMap_cons, List.cons_append, List.map_cons, ← ih]
      exact hword

/-- `help` is the option that the `switch` has no case for. -/
theorem event_iff (w : Written parser) :
    w.toEvent.val ∈ parser.cases ∧ w.toEvent.optarg.isSome = true ↔ w.opt.hasArg = true := by
  rw [show w.toEvent.optarg = w.arg from rfl, w.arg_isSome]
  exact ⟨And.right, fun h => ⟨(parser.mem_cases w.opt w.mem).2 h, h⟩⟩

/-- What is accepted of the lines of any of the parsers. -/
theorem parseArgs_commandLine (l : List (Written parser)) :
    parser.parseArgs args (commandLine l) = (true, args') ↔
      ((∀ w ∈ l, w.opt.hasArg = true) ∧
        args' = assigned (parser.reset args) (l.map Written.toEvent)) ∧
        parser.complete args' = true := by
  rw [parseArgs_eq_iff, options_commandLine, List.forall_mem_map]
  simp only [event_iff]

/-- The number of the last `-p` counts as `atoll` leaves it. -/
def HasPackets (events : List OptEvent) : Prop :=
  ∃ a, lastArg 'p' events = some a ∧ number a ≠ 0

/-- The number of the last `-i` counts as `atoi` leaves it. -/
def HasInterval (events : List OptEvent) : Prop :=
  ∃ a, lastArg 'i' events = some a ∧ strtol a % 2 ^ 32 ≠ 0

/-- The test of the interval looks at the last `-i` only. -/
theorem hasInterval_iff : HasInterval events ↔
    ((lastArg 'i' events).map fun a => parsedInterval (atoi a)).getD 0 ≠ 0 := by
  have hcut : ∀ a, parsedInterval (atoi a) = 0 ↔ strtol a % 2 ^ 32 = 0 := fun _ =>
    atoi_toUInt64_eq_zero_iff
  unfold HasInterval
  cases lastArg 'i' events with
  | none => simp
  | some a => simp [hcut]

/-- The index stays as it was without `-g`, and is else what `atoi` makes of the
last one. -/
theorem gidx_nonneg_iff :
    ¬((lastArg 'g' events).map atoi).getD 0 < 0 ↔
      ∀ a, lastArg 'g' events = some a → strtol a % 2 ^ 32 < 2 ^ 31 := by
  cases lastArg 'g' events with
  | none => simp
  | some a =>
      have hneg : atoi a < 0 ↔ ¬strtol a % 2 ^ 32 < 2 ^ 31 := by
        rw [Int32.lt_iff_toInt_lt, atoi_toInt]
        split_ifs with hlow <;> simp <;> omega
      simp [hneg]

/-- Only `help` has no argument. -/
theorem forall_hasArg_iff
    (hhelp : ∀ opt ∈ parser.longOptions, opt.hasArg = false → opt = help)
    (l : List (Written parser)) :
    (∀ w ∈ l, w.opt.hasArg = true) ↔ help ∉ l.map Written.opt := by
  constructor
  · intro h hin
    obtain ⟨w, hw, hopt⟩ := List.mem_map.1 hin
    have := h w hw
    rw [hopt] at this
    cases this
  · intro h w hw
    by_contra hno
    exact h (List.mem_map.2 ⟨w, hw, hhelp w.opt w.mem (Bool.not_eq_true _ ▸ hno)⟩)

/-- The test of the packets looks at the last `-p` only. -/
theorem start_iters_ne_zero_iff (persFlags : UInt32) :
    (assigned (.start persFlags) events).iters ≠ 0 ↔ HasPackets events :=
  Xdp.iters_ne_zero_iff

/-- The test after the loop of `nobypass_parse_args`. -/
theorem nobypass_complete_iff (build : Build) (persFlags : UInt32) :
    (nobypass build).complete (assigned (.start persFlags) events) = true ↔
      HasPackets events ∧ (build = .client → HasInterval events ∧
        (lastArg 's' events).isSome = true) := by
  have hserver : (assigned (.start persFlags) events).serverIp = lastArg 's' events :=
    Option.or_none
  have hinterval : (assigned (.start persFlags) events).interval ≠ 0 ↔ HasInterval events :=
    hasInterval_iff.symm
  rw [← start_iters_ne_zero_iff persFlags, ← hinterval, ← hserver]
  cases build <;> simp [nobypass, and_assoc]

/-- The test after the loop of `ib_parse_args`. -/
theorem ib_complete_iff (build : Build) (persFlags : UInt32) :
    (ib build).complete (assigned (.start persFlags) events) = true ↔
      HasPackets events ∧ (lastArg 'd' events).isSome = true ∧
        ∀ a, lastArg 'g' events = some a → strtol a % 2 ^ 32 < 2 ^ 31 := by
  have hdev : (assigned (.start persFlags) events).ibname = lastArg 'd' events := Option.or_none
  have hgidx : ¬(assigned (.start persFlags) events).gidx < 0 ↔
      ∀ a, lastArg 'g' events = some a → strtol a % 2 ^ 32 < 2 ^ 31 := gidx_nonneg_iff
  rw [← start_iters_ne_zero_iff persFlags, ← hgidx, ← hdev]
  cases build <;> simp [ib, and_assoc]

/-- **The command lines of `no-bypass`.**  However its options are ordered,
repeated and spelled, a line is accepted exactly if it has no `help`, a number of
packets and, for the client, an interval of which `atoi` leaves something, and a
server; each output then is the value of the last argument given for it. -/
theorem nobypassParseArgs_commandLine (build : Build) (persFlags : UInt32)
    (l : List (Written (nobypass build))) :
    nobypassParseArgs build (.start persFlags) (commandLine l) = (true, args') ↔
      (help ∉ l.map Written.opt ∧ HasPackets (l.map Written.toEvent) ∧
        (build = .client → HasInterval (l.map Written.toEvent) ∧
          (lastArg 's' (l.map Written.toEvent)).isSome = true)) ∧
        args' = assigned (.start persFlags) (l.map Written.toEvent) := by
  have hreset : (nobypass build).reset (.start persFlags) = .start persFlags := by
    cases build <;> rfl
  have hhelp : ∀ opt ∈ (nobypass build).longOptions, opt.hasArg = false → opt = help := by
    cases build <;> decide
  rw [nobypassParseArgs, parseArgs_commandLine, hreset, forall_hasArg_iff hhelp]
  constructor
  · rintro ⟨⟨hno, rfl⟩, hcomplete⟩
    exact ⟨⟨hno, (nobypass_complete_iff build persFlags).1 hcomplete⟩, rfl⟩
  · rintro ⟨⟨hno, hcomplete⟩, rfl⟩
    exact ⟨⟨hno, rfl⟩, (nobypass_complete_iff build persFlags).2 hcomplete⟩

/-- **The command lines of the RDMA programs.**  A line is accepted exactly if it
has no `help`, a device, a number of packets and no index that `atoi` makes
negative: the client, too, starts without an interval and without a server. -/
theorem ibParseArgs_commandLine (build : Build) (persFlags : UInt32)
    (l : List (Written (ib build))) :
    ibParseArgs build (.start persFlags) (commandLine l) = (true, args') ↔
      (help ∉ l.map Written.opt ∧ HasPackets (l.map Written.toEvent) ∧
        (lastArg 'd' (l.map Written.toEvent)).isSome = true ∧
        ∀ a, lastArg 'g' (l.map Written.toEvent) = some a → strtol a % 2 ^ 32 < 2 ^ 31) ∧
        args' = assigned (.start persFlags) (l.map Written.toEvent) := by
  have hreset : (ib build).reset (.start persFlags) = .start persFlags := by
    cases build <;> rfl
  have hhelp : ∀ opt ∈ (ib build).longOptions, opt.hasArg = false → opt = help := by
    cases build <;> decide
  rw [ibParseArgs, parseArgs_commandLine, hreset, forall_hasArg_iff hhelp]
  constructor
  · rintro ⟨⟨hno, rfl⟩, hcomplete⟩
    exact ⟨⟨hno, (ib_complete_iff build persFlags).1 hcomplete⟩, rfl⟩
  · rintro ⟨⟨hno, hcomplete⟩, rfl⟩
    exact ⟨⟨hno, rfl⟩, (ib_complete_iff build persFlags).2 hcomplete⟩

/-- A client without an interval and without a server. -/
example : (ibParseArgs .client (.start 4) ["-d".toList, "mlx5_0".toList, "--pack=5".toList]) =
    (true, { Args.start 4 with ibname := some "mlx5_0".toList, iters := 5 }) := by decide

end CommandLines
end DetBypass
