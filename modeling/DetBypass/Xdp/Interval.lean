/-
# The interval on its way to its two consumers

`main` of `xdp/pp_poll.c` (client) gives the parsed interval to
`persistence_init`, whose buckets keep it as `send_interval`, and to
`start_pingpong`, whose parameter is a `uint32_t`; `start_client` and
`start_sending_packets` pass it on to the sending thread.  Between the two stand
calls that depend on the host; here they succeed.

The values asked for are the ones used (`UsesRequested`) exactly below the bound
that each conversion has (`usesRequested_iff`): `2 ^ 63` packets, and an interval
of `2 ^ 31`.  The one larger interval that the conversions return is `2 ^ 64 - 1`,
which no sender can get.
-/

import DetBypass.Common.MinMax
import DetBypass.Xdp.Args

namespace DetBypass
namespace Xdp
namespace Poll

open Lib

/-- `iters` and `interval` of `struct sender_data`. -/
structure SenderData where
  iters : UInt64
  interval : UInt64
deriving DecidableEq

/-- `start_sending_packets`. -/
def startSendingPackets (iters interval : UInt64) : SenderData := ⟨iters, interval⟩

/-- `start_client`: the sender it starts. -/
def startClient (iters interval : UInt64) : SenderData := startSendingPackets iters interval

/-- `start_pingpong`. -/
def startPingpong (iters : UInt64) (interval : UInt32) : SenderData :=
  startClient iters interval.toUInt64

/-- `data->aux` of a persistence agent. -/
inductive PersistenceAux
  | none
  | minMax (aux : MinMaxLatencyData)
  | buckets (aux : BucketData)

/-- `persistence_init`: the first of the measurements whose flag is set. -/
def persistenceInit (flags : UInt32) (interval : UInt64) : PersistenceAux :=
  if flags &&& 8 ≠ 0 then .minMax persistenceInitMinMaxLatency
  else if flags &&& 16 ≠ 0 then .buckets (persistenceInitBuckets interval)
  else .none

/-- `main` after `xdp_parse_args`: the data of the agent, and the sender unless
the XDP program is only removed. -/
def run (args : Args) : PersistenceAux × Option SenderData :=
  (persistenceInit args.persFlags args.interval,
    if args.remove then none else some (startPingpong args.iters args.interval.toUInt32))

/-- **The numbers asked for are used**: `p` packets and an interval of `i`. -/
structure UsesRequested (args : Args) (p i : ℕ) : Prop where
  iters : args.iters.toNat = p
  interval : args.interval.toNat = i
  sender : ∀ data, (run args).2 = some data → data.interval.toNat = i
  histogram : ∀ aux, (run args).1 = .buckets aux → aux.sendInterval.toNat = i

variable {args args' : Args} {argv : List Argument} {packets interval : Argument} {p i : ℕ}

/-- The histogram has the interval that was parsed. -/
theorem persistenceInit_buckets {flags : UInt32} {parsed : UInt64} {aux : BucketData}
    (h : persistenceInit flags parsed = .buckets aux) : aux.sendInterval = parsed := by
  unfold persistenceInit at h
  split_ifs at h
  obtain rfl := PersistenceAux.buckets.inj h
  rfl

/-- The sender has its low half. -/
theorem startPingpong_interval (iters parsed : UInt64) :
    (startPingpong iters parsed.toUInt32).interval.toNat = parsed.toNat % 2 ^ 32 := by
  show parsed.toUInt32.toUInt64.toNat = _
  rw [UInt32.toNat_toUInt64, UInt64.toNat_toUInt32]

/-- So the two agree with the parsed interval if that has 32 bits or there is no
sender. -/
theorem usesRequested_iff_parsed : UsesRequested args p i ↔
    args.iters.toNat = p ∧ args.interval.toNat = i ∧ (args.remove = true ∨ i < 2 ^ 32) := by
  constructor
  · intro h
    refine ⟨h.iters, h.interval, ?_⟩
    by_contra hnot
    obtain ⟨hremove, hlarge⟩ := not_or.1 hnot
    have hsender := h.sender _ (if_neg hremove)
    rw [startPingpong_interval, h.interval] at hsender
    omega
  · rintro ⟨hiters, hinterval, hsmall⟩
    refine ⟨hiters, hinterval, fun data hdata => ?_, fun aux haux => ?_⟩
    · rw [run] at hdata
      split_ifs at hdata with hremove
      obtain rfl := Option.some.inj hdata
      rw [startPingpong_interval, hinterval]
      have := hsmall.resolve_left hremove
      omega
    · rw [persistenceInit_buckets haux, hinterval]

/-- The numbers that an accepted line leaves, as the conversions make them. -/
theorem xdpParseArgs_numbers (h : xdpParseArgs .client args argv = (true, args'))
    (hp : lastArg 'p' (options .client argv) = some packets)
    (hi : lastArg 'i' (options .client argv) = some interval) :
    args'.iters = (atoll packets).toUInt64 ∧ args'.interval = parsedInterval (atoi interval) ∧
      (args'.remove = true ↔ ∃ event ∈ options .client argv, event.val = 'r') := by
  obtain ⟨hparsed, -⟩ := xdpParseArgs_eq_true h
  refine ⟨?_, ?_, ?_⟩
  · rw [hparsed.iters, hp]
    rfl
  · rw [hparsed.interval rfl, hi]
    rfl
  · rw [hparsed.remove]
    simp [reset, List.any_eq_true]

/-- **The interval asked for is the one used** exactly if it is below `2 ^ 31` and
the number of packets below `2 ^ 63`, but for the interval `2 ^ 64 - 1` of a line
that starts no sender. -/
theorem usesRequested_iff (hparse : xdpParseArgs .client args argv = (true, args'))
    (hpackets : lastArg 'p' (options .client argv) = some packets)
    (hinterval : lastArg 'i' (options .client argv) = some interval)
    (hp : IsDecimal packets p) (hi : IsDecimal interval i) (hi64 : i < 2 ^ 64) :
    UsesRequested args' p i ↔ p < 2 ^ 63 ∧
      (i < 2 ^ 31 ∨ (∃ event ∈ options .client argv, event.val = 'r') ∧ i = 2 ^ 64 - 1) := by
  obtain ⟨hiters', hinterval', hremove⟩ := xdpParseArgs_numbers hparse hpackets hinterval
  rw [usesRequested_iff_parsed, hiters', hinterval', hremove,
    atoll_toUInt64_toNat_eq_iff (number_of_isDecimal hp), parsedInterval,
    atoi_toUInt64_toNat_eq_iff (number_of_isDecimal hi) hi64]
  constructor
  · rintro ⟨hp63, hlow | hmax, hr | h32⟩
    · exact ⟨hp63, Or.inl hlow⟩
    · exact ⟨hp63, Or.inl hlow⟩
    · exact ⟨hp63, Or.inr ⟨hr, hmax⟩⟩
    · omega
  · rintro ⟨hp63, hlow | ⟨hr, hmax⟩⟩
    · exact ⟨hp63, Or.inl hlow, Or.inr (by omega)⟩
    · exact ⟨hp63, Or.inr hmax, Or.inl hr⟩

/-- A line of `pp_poll`, with an interval in nanoseconds. -/
def line (interval : Argument) : List Argument :=
  ["-d".toList, "eth0".toList, "-p".toList, "10".toList, "-i".toList, interval,
    "--server".toList, "10.0.0.1".toList]

/-- What it leaves in the outputs. -/
def lineArgs (interval : UInt64) : Args :=
  ⟨some "eth0".toList, false, 10, interval, some "10.0.0.1".toList, 4⟩

/-- The condition for `-i 1000`. -/
theorem usesRequested_iff_micro :
    UsesRequested (lineArgs 1000) 10 1000 ↔ 10 < 2 ^ 63 ∧ (1000 < 2 ^ 31 ∨
      (∃ event ∈ options .client (line "1000".toList), event.val = 'r') ∧ 1000 = 2 ^ 64 - 1) :=
  usesRequested_iff
    (show xdpParseArgs .client (.start (some "-d".toList)) (line "1000".toList) =
      (true, lineArgs 1000) by decide)
    (show lastArg 'p' _ = some "10".toList by decide)
    (show lastArg 'i' _ = some "1000".toList by decide) (by decide) (by decide) (by decide)

/-- Half a range of `int` more comes out with its sign in the upper half. -/
theorem exists_not_usesRequested : ¬ ∀ (args args' : Args) (argv : List Argument)
    (packets interval : Argument) (p i : ℕ),
    xdpParseArgs .client args argv = (true, args') →
    lastArg 'p' (options .client argv) = some packets →
    lastArg 'i' (options .client argv) = some interval →
    IsDecimal packets p → IsDecimal interval i → p < 2 ^ 64 → i < 2 ^ 64 →
    UsesRequested args' p i := fun h => by
  have huses := h (.start (some "-d".toList)) (lineArgs 0xffffffff80000000)
    (line "2147483648".toList) "10".toList "2147483648".toList 10 2147483648 (by decide)
    (by decide) (by decide) (by decide) (by decide) (by decide) (by decide)
  exact absurd huses.interval (by decide)

end Poll
end Xdp
end DetBypass
