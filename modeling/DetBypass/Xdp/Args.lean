/-
# The command line of the XDP programs

`xdp_parse_args` of `xdp/src/args.c` in both builds, over the events of
`getopt_long`.  `*iters`, `*interval` and `*remove` are set at its start; the
interface, the address of the server and the flags are as the caller left them
until an option sets them.

What an accepted line leaves in the outputs is said of the last argument of each
option (`Parsed`, `xdpParseArgs_parsed`).
-/

import DetBypass.Lib.Getopt
import DetBypass.Lib.Strtol
import DetBypass.Common.BucketIndex

namespace DetBypass
namespace Xdp

open Lib

/-- `pers_measurement_to_flag`: `PERSISTENCE_M_ALL_TIMESTAMPS`,
`PERSISTENCE_M_MIN_MAX_LATENCY`, `PERSISTENCE_M_BUCKETS`. -/
def persMeasurementToFlag (value : Int32) : Int32 :=
  if value = 0 then 4 else if value = 1 then 8 else if value = 2 then 16 else -1

/-- The outputs of `xdp_parse_args`; the server has the first three only. -/
structure Args where
  ifname : Option Argument
  remove : Bool
  iters : UInt64
  interval : UInt64
  serverIp : Option Argument
  persFlags : UInt32
deriving DecidableEq

/-- The outputs before the call, as every caller has them: `ifname` is `argv[1]`
in `pp_poll` and `NULL` in the other two. -/
def Args.start (ifname : Option Argument) : Args :=
  ⟨ifname, false, 0, 0, none, 4⟩

/-- The string of short options, "d:p:r:h" and "d:p:i:s:r:hm:". -/
def optstring : Build → List Char
  | .server => ['d', ':', 'p', ':', 'r', ':', 'h']
  | .client => ['d', ':', 'p', ':', 'i', ':', 's', ':', 'r', ':', 'h', 'm', ':']

/-- `long_options`. -/
def longOptions : Build → List LongOption
  | .server =>
    [⟨['r', 'e', 'm', 'o', 'v', 'e'], false, 'r'⟩,
      ⟨['d', 'e', 'v'], true, 'd'⟩,
      ⟨['p', 'a', 'c', 'k', 'e', 't', 's'], true, 'p'⟩,
      ⟨['h', 'e', 'l', 'p'], false, 'h'⟩]
  | .client =>
    [⟨['r', 'e', 'm', 'o', 'v', 'e'], false, 'r'⟩,
      ⟨['d', 'e', 'v'], true, 'd'⟩,
      ⟨['p', 'a', 'c', 'k', 'e', 't', 's'], true, 'p'⟩,
      ⟨['i', 'n', 't', 'e', 'r', 'v', 'a', 'l'], true, 'i'⟩,
      ⟨['s', 'e', 'r', 'v', 'e', 'r'], true, 's'⟩,
      ⟨['m', 'e', 'a', 's', 'u', 'r', 'e', 'm', 'e', 'n', 't'], true, 'm'⟩,
      ⟨['h', 'e', 'l', 'p'], false, 'h'⟩]

/-- The `switch` on an option; `none` is `return false`.  An option that reads
`optarg` never comes without it. -/
def handle (build : Build) (args : Args) (event : OptEvent) : Option Args :=
  match build, event.val, event.optarg with
  | _, 'd', some optarg => some { args with ifname := some optarg }
  | _, 'p', some optarg => some { args with iters := (atoll optarg).toUInt64 }
  | .client, 'i', some optarg => some { args with interval := parsedInterval (atoi optarg) }
  | .client, 's', some optarg => some { args with serverIp := some optarg }
  | _, 'r', _ => some { args with remove := true }
  | _, 'h', _ => none
  | .client, 'm', some optarg =>
    some { args with persFlags := (persMeasurementToFlag (atoi optarg)).toUInt32 }
  | _, _, _ => none

/-- The loop over the options: whether it gets to their end, and the outputs. -/
def parseLoop (build : Build) : Args → List OptEvent → Bool × Args
  | args, [] => (true, args)
  | args, event :: events =>
    match handle build args event with
    | some args => parseLoop build args events
    | none => (false, args)

/-- The outputs set before the loop. -/
def reset (args : Args) : Build → Args
  | .server => { args with iters := 0, remove := false }
  | .client => { args with iters := 0, interval := 0, remove := false }

/-- The test after the loop. -/
def complete (args : Args) : Build → Bool
  | .server => !(args.ifname == none || (!args.remove && args.iters == 0))
  | .client =>
    !(args.ifname == none ||
      (!args.remove && (args.iters == 0 || args.interval == 0 || args.serverIp == none)))

/-- The options of a command line, without the name of the program. -/
def options (build : Build) (argv : List Argument) : List OptEvent :=
  getoptLong (optstring build) (longOptions build) argv

/-- `xdp_parse_args`: its result and the outputs. -/
def xdpParseArgs (build : Build) (args : Args) (argv : List Argument) : Bool × Args :=
  let (ended, args) := parseLoop build (reset args build) (options build argv)
  (ended && complete args build, args)

example : xdpParseArgs .server (.start none) ["-d".toList, "eth0".toList, "--pack=5".toList] =
    (true, { Args.start (some "eth0".toList) with iters := 5 }) := by decide

example : xdpParseArgs .client (.start none) ["-d".toList, "eth0".toList, "-r".toList] =
    (false, .start (some "eth0".toList)) := by decide

/-! ### What the outputs are -/

/-- The argument an event has for an option. -/
def argOf (c : Char) (event : OptEvent) : Option Argument :=
  if event.val = c then event.optarg else none

/-- The last argument of an option. -/
def lastArg (c : Char) (events : List OptEvent) : Option Argument :=
  (events.filterMap (argOf c)).getLast?

variable {build : Build} {args args' : Args} {event : OptEvent} {events : List OptEvent}
  {argv : List Argument}

/-- Without events there is no last argument. -/
@[simp] theorem lastArg_nil (c : Char) : lastArg c [] = none := rfl

/-- An event counts as long as no later one has an argument for the option. -/
theorem lastArg_cons (c : Char) (event : OptEvent) (events : List OptEvent) :
    lastArg c (event :: events) = (lastArg c events).or (argOf c event) := by
  unfold lastArg
  rw [List.filterMap_cons]
  cases argOf c event with
  | none => rw [Option.or_none]
  | some a =>
      rw [List.getLast?_cons]
      cases (events.filterMap (argOf c)).getLast? <;> rfl

/-- The options of an accepted line, and the outputs they leave. -/
structure Parsed (build : Build) (args : Args) (events : List OptEvent) (args' : Args) :
    Prop where
  ifname : args'.ifname = (lastArg 'd' events).or args.ifname
  remove : args'.remove = (args.remove || events.any fun event => event.val == 'r')
  iters : args'.iters = ((lastArg 'p' events).map fun a => (atoll a).toUInt64).getD args.iters
  interval : build = .client → args'.interval =
    ((lastArg 'i' events).map fun a => parsedInterval (atoi a)).getD args.interval
  serverIp : build = .client → args'.serverIp = (lastArg 's' events).or args.serverIp

/-- The step: what one option sets. -/
theorem handle_parsed (h : handle build args event = some args') :
    Parsed build args [event] args' := by
  obtain ⟨val, optarg⟩ := event
  unfold handle at h
  split at h <;> cases h <;> constructor <;> simp_all [lastArg_cons, argOf]

/-- The outputs of one option after another. -/
theorem Parsed.cons {args'' : Args} (h : Parsed build args [event] args')
    (hs : Parsed build args' events args'') : Parsed build args (event :: events) args'' where
  ifname := by
    rw [hs.ifname, h.ifname, lastArg_cons, lastArg_cons, lastArg_nil, Option.none_or,
      Option.or_assoc]
  remove := by
    rw [hs.remove, h.remove, Bool.or_assoc, List.any_cons, List.any_cons, List.any_nil,
      Bool.or_false]
  iters := by
    rw [hs.iters, h.iters, lastArg_cons 'p' event events, lastArg_cons, lastArg_nil,
      Option.none_or]
    cases lastArg 'p' events <;> rfl
  interval hbuild := by
    rw [hs.interval hbuild, h.interval hbuild, lastArg_cons 'i' event events, lastArg_cons,
      lastArg_nil, Option.none_or]
    cases lastArg 'i' events <;> rfl
  serverIp hbuild := by
    rw [hs.serverIp hbuild, h.serverIp hbuild, lastArg_cons, lastArg_cons, lastArg_nil,
      Option.none_or, Option.or_assoc]

/-- **A loop that gets to its end has set what its options say.** -/
theorem parseLoop_parsed (h : parseLoop build args events = (true, args')) :
    Parsed build args events args' := by
  induction events generalizing args with
  | nil =>
      cases h
      constructor <;> simp
  | cons event events ih =>
      unfold parseLoop at h
      cases hhandle : handle build args event with
      | none =>
          rw [hhandle] at h
          cases h
      | some next =>
          rw [hhandle] at h
          exact (handle_parsed hhandle).cons (ih h)

/-- An accepted line has been read to its end, and its outputs are complete. -/
theorem xdpParseArgs_eq_true (h : xdpParseArgs build args argv = (true, args')) :
    Parsed build (reset args build) (options build argv) args' ∧ complete args' build = true := by
  unfold xdpParseArgs at h
  obtain ⟨hand, rfl⟩ := Prod.mk.inj h
  obtain ⟨hended, hcomplete⟩ := (Bool.and_eq_true ..).mp hand
  exact ⟨parseLoop_parsed (Prod.ext hended rfl), hcomplete⟩

/-- Options that the `switch` knows are all read. -/
theorem exists_parseLoop (h : ∀ event ∈ events, ∀ args, (handle build args event).isSome = true)
    (args : Args) : ∃ args', parseLoop build args events = (true, args') := by
  induction events generalizing args with
  | nil => exact ⟨args, rfl⟩
  | cons event events ih =>
      obtain ⟨next, hnext⟩ := Option.isSome_iff_exists.1 (h event (List.mem_cons_self ..) args)
      obtain ⟨args', hloop⟩ := ih (fun e he => h e (List.mem_cons_of_mem _ he)) next
      exact ⟨args', by rw [parseLoop, hnext]; exact hloop⟩

end Xdp
end DetBypass
