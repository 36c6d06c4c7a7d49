/-
# A measurement from start to end

The persistence agents of `common/persistence.c`: `persistence_init`, the `write` and
`close` that it puts into the agent, and what they own.  The agent keeps its data behind a
`void *`; `write` and `close` take it for what they were written for, and to take it for
something else, or to release what is not owned, is a fault (`none`).  `malloc` of the
agent itself is not checked, and is taken to succeed.

The buckets lie in a mapping of huge pages, and `munmap` is called with a length in whole
pages; where that is no whole number of huge pages the call fails, and nobody looks at it.

Whatever the flags and the payloads, `write` and `close` fit the data, the text is that of
the measurement, and everything is released once, but for that mapping, and for the data
and the agent of a file that cannot be closed (`close_of_writes`).
-/

import DetBypass.Analysis.BucketFile
import DetBypass.Common.BucketCalls
import DetBypass.Common.MinMax
import DetBypass.Lib.Resources
import DetBypass.Xdp.Args

namespace DetBypass
namespace Persistence

open Lib

/-- `agent->data->aux`. -/
inductive Aux
  | null
  | minMax (aux : MinMaxLatencyData)
  | buckets (aux : BucketData)

/-- `agent->write`. -/
inductive Writer
  | allTimestamps
  | minMaxLatency
  | buckets
deriving DecidableEq

/-- `agent->close`. -/
inductive Closer
  | plain
  | minMax
  | buckets
deriving DecidableEq

/-- An agent, and the text it has written. -/
structure Agent where
  /-- The stream is a file, not `stdout`. -/
  toFile : Bool
  text : List Char
  aux : Aux
  write : Writer
  close : Closer

/-- What an agent owns. -/
inductive Part
  | agent
  | file
  | data
  | aux
  | map
deriving DecidableEq

/-- Any of it can be released at any time. -/
def parts : Rules Part := ⟨fun _ _ => false, fun _ => false⟩

/-- The sizes of a page and of a huge page. -/
structure PageSizes where
  page : ℕ
  huge : ℕ

/-- The calls that may fail. -/
inductive Call
  | fopen
  | mallocData
  | mallocAux
  | mmap

/-- `PERSISTENCE_F_STDOUT`, `PERSISTENCE_M_MIN_MAX_LATENCY`, `PERSISTENCE_M_BUCKETS`. -/
def persistenceFStdout : UInt32 := 2
def persistenceMMinMaxLatency : UInt32 := 8
def persistenceMBuckets : UInt32 := 16

/-- `use_stdout`. -/
def useStdout (filename : Option (List Char)) (flags : UInt32) : Bool :=
  filename.isNone || flags &&& persistenceFStdout ≠ 0

/-- `persistence_init`: the agent, and what is allocated. -/
def persistenceInit (ok : Call → Bool) (filename : Option (List Char)) (flags : UInt32)
    (interval : UInt64) : Option Agent × List Part :=
  let toFile := !useStdout filename flags
  if toFile && !ok .fopen then (none, [.agent])
  else
    let held := if toFile then [.file, .agent] else [.agent]
    if !ok .mallocData then (none, held)
    else
      let held := .data :: held
      if flags &&& persistenceMMinMaxLatency ≠ 0 then
        if !ok .mallocAux then (none, held)
        else (some ⟨toFile, [], .minMax persistenceInitMinMaxLatency, .minMaxLatency, .minMax⟩,
          .aux :: held)
      else if flags &&& persistenceMBuckets ≠ 0 then
        if !ok .mallocAux then (none, held)
        else if !ok .mmap then (none, .aux :: held)
        else (some ⟨toFile, [], .buckets (persistenceInitBuckets interval), .buckets, .buckets⟩,
          .map :: .aux :: held)
      else (some ⟨toFile, [], .null, .allTimestamps, .plain⟩, held)

/-- What `persistence_write_buckets` prints on `stdout`: the id of a payload that comes after
a stored one, if a million divides it. -/
def progressLine (aux : BucketData) (payload : PingpongPayload) : List Char :=
  if validPingpongPayload aux.prevPayload = true ∧ payload.id % 1000000 = 0 then
    printDecimals [(payload.id.toNat, ['\n'])]
  else []

/-- `agent->write (agent, payload)`: the result and the agent. -/
def Agent.persistenceWrite (agent : Agent) (payload : PingpongPayload) : Option (ℤ × Agent) :=
  match agent.write, agent.aux with
  | .allTimestamps, _ =>
    let (ret, text) := persistenceWriteAllTimestamps (some agent.text) payload
    text.map fun text => (ret, { agent with text := text })
  | .minMaxLatency, .minMax aux =>
    let (ret, aux) := persistenceWriteMinMaxLatency aux payload
    some (ret, { agent with aux := .minMax aux })
  | .buckets, .buckets aux =>
    (persistenceWriteBuckets aux payload).map fun x => (x.1, { agent with
      text := agent.text ++ if agent.toFile then [] else progressLine aux payload
      aux := .buckets x.2 })
  | _, _ => none

/-- `persistence_close`: the result, the text and what is left.  The stream is gone after
`fclose`, whether or not that succeeds. -/
def Agent.persistenceClose (agent : Agent) (fclose : Bool) (held : List Part) :
    Option (ℤ × List Char × List Part) := do
  let held ← parts.releaseAll (if agent.toFile then [.file] else []) held
  if agent.toFile && !fclose then return (-1, agent.text, held)
  let held ← parts.releaseAll [.data, .agent] held
  return (0, agent.text, held)

/-- `bucket_compute_hugepage_size`: whole pages, and not whole huge pages. -/
def bucketComputeHugepageSize (pageSize : ℕ) : ℕ :=
  let requiredPages := (8 * (numBuckets + 2) * 5 + pageSize - 1) / pageSize
  requiredPages * pageSize

/-- What `munmap (aux->ptr, bucket_compute_hugepage_size ())` releases. -/
def unmapped (sizes : PageSizes) : List Part :=
  if sizes.huge ∣ bucketComputeHugepageSize sizes.page then [.map] else []

/-- `agent->close (agent)`. -/
def Agent.closeAgent (agent : Agent) (sizes : PageSizes) (fclose : Bool) (held : List Part) :
    Option (ℤ × List Char × List Part) :=
  match agent.close, agent.aux with
  | .plain, _ => agent.persistenceClose fclose held
  | .minMax, .minMax aux => do
    let text ← persistenceCloseMinMax aux
    let held ← parts.releaseAll [.aux] held
    { agent with text := agent.text ++ text }.persistenceClose fclose held
  | .buckets, .buckets aux => do
    let held ← parts.releaseAll (unmapped sizes ++ [.aux]) held
    { agent with text := agent.text ++ persistenceCloseBuckets aux }.persistenceClose fclose held
  | _, _ => none

/-- A sequence of writes. -/
def Agent.writes (agent : Agent) (ps : List PingpongPayload) : Option Agent :=
  ps.foldlM (fun agent payload => (agent.persistenceWrite payload).map Prod.snd) agent

/-- The lines of `persistence_close_min_max` after a run: the first with the least latency,
and the first with the greatest unless it is 0. -/
def extremesReport (ps : List PingpongPayload) : List Char :=
  (firstMin ps).elim [] (fun p => latencyLine p (computeLatency p)) ++
    ((firstMax ps).filter fun p => computeLatency p ≠ 0).elim []
      (fun p => latencyLine p (computeLatency p))

/-- The lines on `stdout` of a sequence of writes. -/
def progressLines (aux : BucketData) : List PingpongPayload → List Char
  | [] => []
  | payload :: ps => progressLine aux payload ++
      (persistenceWriteBuckets aux payload).elim [] fun called => progressLines called.2 ps

/-- The measurement that the flags ask for. -/
def measurement (flags : UInt32) : Writer :=
  if flags &&& persistenceMMinMaxLatency ≠ 0 then .minMaxLatency
  else if flags &&& persistenceMBuckets ≠ 0 then .buckets
  else .allTimestamps

/-- The text of a measurement: `none` where `bucket_idx` divides by zero. -/
def report (toFile : Bool) (interval : UInt64) (ps : List PingpongPayload) :
    Writer → Option (List Char)
  | .allTimestamps => some (printDecimals (ps.flatMap timestampItems))
  | .minMaxLatency => some (extremesReport ps)
  | .buckets => (writeBuckets (persistenceInitBuckets interval) ps).map fun aux =>
      (if toFile then [] else progressLines (persistenceInitBuckets interval) ps) ++
        persistenceCloseBuckets aux

/-- The mapping that a measurement leaves behind. -/
def leftMapped (sizes : PageSizes) : Writer → List Part
  | .buckets => if sizes.huge ∣ bucketComputeHugepageSize sizes.page then [] else [.map]
  | _ => []

variable {ok : Call → Bool} {filename : Option (List Char)} {flags : UInt32} {interval : UInt64}
  {agent : Agent} {held : List Part} {ps : List PingpongPayload} {sizes : PageSizes}

/-! ### The writes -/

/-- The first write and the rest. -/
theorem writes_cons (agent : Agent) (p : PingpongPayload) (ps : List PingpongPayload) :
    agent.writes (p :: ps) =
      (agent.persistenceWrite p).bind fun x => x.2.writes ps := by
  rw [Agent.writes, List.foldlM_cons]
  cases agent.persistenceWrite p <;> rfl

/-- Every payload becomes a line. -/
theorem writes_allTimestamps (toFile : Bool) (text : List Char) (close : Closer)
    (ps : List PingpongPayload) :
    (⟨toFile, text, .null, .allTimestamps, close⟩ : Agent).writes ps =
      some ⟨toFile, text ++ printDecimals (ps.flatMap timestampItems), .null, .allTimestamps,
        close⟩ := by
  induction ps generalizing text with
  | nil => simp [Agent.writes, printDecimals]
  | cons p ps ih =>
      rw [writes_cons, List.flatMap_cons, printDecimals_append, ← List.append_assoc]
      exact ih _

/-- The two extremes are kept. -/
theorem writes_minMaxLatency (toFile : Bool) (text : List Char) (aux : MinMaxLatencyData)
    (close : Closer) (ps : List PingpongPayload) :
    (⟨toFile, text, .minMax aux, .minMaxLatency, close⟩ : Agent).writes ps =
      some ⟨toFile, text, .minMax (writeMinMaxLatency aux ps), .minMaxLatency, close⟩ := by
  induction ps generalizing aux with
  | nil => rfl
  | cons p ps ih =>
      rw [writes_cons]
      exact ih _

/-- The buckets are counted, with the lines on `stdout` in between. -/
theorem writes_buckets (toFile : Bool) (text : List Char) (aux : BucketData) (close : Closer)
    (ps : List PingpongPayload) :
    (⟨toFile, text, .buckets aux, .buckets, close⟩ : Agent).writes ps =
      (writeBuckets aux ps).map fun aux' =>
        ⟨toFile, text ++ if toFile then [] else progressLines aux ps, .buckets aux', .buckets,
          close⟩ := by
  induction ps generalizing text aux with
  | nil =>
      cases toFile <;> simp [Agent.writes, writeBuckets, callWriteBuckets, progressLines]
  | cons p ps ih =>
      rw [writes_cons, writeBuckets_cons, progressLines]
      simp only [Agent.persistenceWrite]
      cases hcall : persistenceWriteBuckets aux p with
      | none => rfl
      | some x =>
          refine (ih _ x.2).trans ?_
          rw [List.append_assoc]
          cases toFile <;> rfl

/-! ### The lines on `stdout` -/

/-- After a stored payload every write of a valid one stores it, or leaves the one before. -/
theorem validPingpongPayload_of_call {aux : BucketData} {p : PingpongPayload}
    {called : ℤ × BucketData} (hcall : persistenceWriteBuckets aux p = some called)
    (hp : validPingpongPayload p = true) : validPingpongPayload called.2.prevPayload = true := by
  rcases persistenceWriteBuckets_cases aux p with
    ⟨-, he⟩ | ⟨hvalid, -, he⟩ | ⟨-, ⟨-, he⟩ | ⟨aux', he, hrecords⟩⟩
  all_goals cases he.symm.trans hcall
  · exact hp
  · exact hvalid
  · rwa [hrecords.prevPayload]

/-- **Every millionth id**: of the payloads after a stored one. -/
theorem progressLines_of_valid {aux aux' : BucketData}
    (haux : validPingpongPayload aux.prevPayload = true)
    (hps : ∀ p ∈ ps, validPingpongPayload p = true) (hwrites : writeBuckets aux ps = some aux') :
    progressLines aux ps = printDecimals
      ((ps.filter fun p => p.id % 1000000 = 0).map fun p => (p.id.toNat, ['\n'])) := by
  induction ps generalizing aux with
  | nil => rfl
  | cons p ps ih =>
      rw [writeBuckets_cons] at hwrites
      obtain ⟨called, hcall, hrest⟩ := Option.bind_eq_some_iff.1 hwrites
      have hp := hps p (List.mem_cons_self ..)
      have hlines := ih (validPingpongPayload_of_call hcall hp)
        (fun p' hp' => hps p' (List.mem_cons_of_mem _ hp')) hrest
      rw [progressLines, hcall, Option.elim_some, hlines, progressLine]
      by_cases hid : p.id % 1000000 = 0
      · rw [if_pos ⟨haux, hid⟩, ← printDecimals_append, List.filter_cons_of_pos (by simp [hid])]
        rfl
      · rw [if_neg (fun h => hid h.2), List.filter_cons_of_neg (by simp [hid])]
        rfl

/-! ### The end of a measurement -/

/-- `persistence_close_min_max` never reads a payload that was not stored. -/
theorem persistenceCloseMinMax_keptExtremes (ps : List PingpongPayload) :
    persistenceCloseMinMax (keptExtremes ps) = some (extremesReport ps) := by
  unfold persistenceCloseMinMax extremesReport keptExtremes
  have hmin (p : PingpongPayload) : computeLatency p ≠ UInt64.ofNat (2 ^ 64 - 1) :=
    UInt64.ne_of_lt (computeLatency_lt_max p)
  rcases firstMin ps with _ | p <;> rcases firstMax ps with _ | q <;>
    simp only [Option.elim_none, Option.elim_some, ne_eq, hmin, not_true_eq_false,
      not_false_eq_true, if_true, if_false, Option.map_some]
  · rfl
  · by_cases hzero : computeLatency q = 0 <;> simp [Option.filter, hzero]
  · simp [Option.filter]
  · by_cases hzero : computeLatency q = 0 <;> simp [Option.filter, hzero]

/-- What is allocated for every measurement. -/
def base (toFile : Bool) : List Part := .data :: if toFile then [.file, .agent] else [.agent]

/-- What is allocated for a measurement. -/
def allocated (toFile : Bool) : Writer → List Part
  | .allTimestamps => base toFile
  | .minMaxLatency => .aux :: base toFile
  | .buckets => .map :: .aux :: base toFile

/-- The agent of a measurement, before any write. -/
def Agent.new (toFile : Bool) (interval : UInt64) : Writer → Agent
  | .allTimestamps => ⟨toFile, [], .null, .allTimestamps, .plain⟩
  | .minMaxLatency => ⟨toFile, [], .minMax persistenceInitMinMaxLatency, .minMaxLatency, .minMax⟩
  | .buckets => ⟨toFile, [], .buckets (persistenceInitBuckets interval), .buckets, .buckets⟩

/-- The stream is as asked for, whatever is measured. -/
@[simp] theorem Agent.new_toFile (toFile : Bool) (interval : UInt64) (writer : Writer) :
    (Agent.new toFile interval writer).toFile = toFile := by
  cases writer <;> rfl

/-- **The agents of `persistence_init`**, and what is allocated for them. -/
theorem persistenceInit_some
    (h : persistenceInit ok filename flags interval = (some agent, held)) :
    agent = .new (!useStdout filename flags) interval (measurement flags) ∧
      held = allocated (!useStdout filename flags) (measurement flags) := by
  unfold persistenceInit at h
  unfold measurement
  dsimp only at h
  by_cases hminMax : flags &&& persistenceMMinMaxLatency = 0
  · rw [if_neg (not_not.2 hminMax)] at h ⊢
    by_cases hbuckets : flags &&& persistenceMBuckets = 0
    · rw [if_neg (not_not.2 hbuckets)] at h ⊢
      split_ifs at h <;> cases h <;> simp_all [Agent.new, allocated, base]
    · rw [if_pos hbuckets] at h ⊢
      split_ifs at h <;> cases h <;> simp_all [Agent.new, allocated, base]
  · rw [if_pos hminMax] at h ⊢
    split_ifs at h <;> cases h <;> simp_all [Agent.new, allocated, base]

/-- Closing the file is the last thing that can fail; the data and the agent stay then. -/
theorem persistenceClose_eq (agent : Agent) (fclose : Bool) (writer : Writer) :
    agent.persistenceClose fclose (leftMapped sizes writer ++ base agent.toFile) =
      some (if agent.toFile && !fclose then
          (-1, agent.text, leftMapped sizes writer ++ [.data, .agent])
        else (0, agent.text, leftMapped sizes writer)) := by
  have hleft : leftMapped sizes writer = [] ∨ leftMapped sizes writer = [.map] := by
    cases writer with
    | buckets => exact (ite_eq_or_eq ..)
    | _ => exact Or.inl rfl
  unfold Agent.persistenceClose base
  rcases hleft with hleft | hleft <;> rw [hleft] <;> cases agent.toFile <;> cases fclose <;> rfl

/-- The mapping goes with the data of the buckets, if `munmap` releases it. -/
theorem releaseAll_unmapped (sizes : PageSizes) (toFile : Bool) :
    parts.releaseAll (unmapped sizes ++ [.aux]) (allocated toFile .buckets) =
      some (leftMapped sizes .buckets ++ base toFile) := by
  unfold unmapped leftMapped
  split_ifs <;> cases toFile <;> rfl

/-- **From the first write to the end**, for each measurement. -/
theorem closeAgent_writes (toFile : Bool) (interval : UInt64) (writer : Writer)
    (sizes : PageSizes) (fclose : Bool) (ps : List PingpongPayload) :
    (((Agent.new toFile interval writer).writes ps).bind fun agent =>
      agent.closeAgent sizes fclose (allocated toFile writer)) =
      (report toFile interval ps writer).map fun text =>
        if toFile && !fclose then (-1, text, leftMapped sizes writer ++ [.data, .agent])
        else (0, text, leftMapped sizes writer) := by
  cases writer with
  | allTimestamps =>
      rw [Agent.new, writes_allTimestamps, report, Option.bind_some, Option.map_some,
        List.nil_append]
      exact persistenceClose_eq ⟨toFile, printDecimals (ps.flatMap timestampItems), .null, _,
        .plain⟩ fclose .allTimestamps
  | minMaxLatency =>
      have hfree : parts.releaseAll [.aux] (allocated toFile .minMaxLatency) =
          some (base toFile) := by
        cases toFile <;> rfl
      rw [Agent.new, writes_minMaxLatency, writeMinMaxLatency_init, report, Option.bind_some,
        Option.map_some]
      simp only [Agent.closeAgent, persistenceCloseMinMax_keptExtremes, hfree, List.nil_append,
        Option.bind_eq_bind, Option.bind_some]
      exact persistenceClose_eq ⟨toFile, extremesReport ps, _, .minMaxLatency, .minMax⟩ fclose
        .minMaxLatency
  | buckets =>
      rw [Agent.new, writes_buckets, report, Option.map_map]
      cases writeBuckets (persistenceInitBuckets interval) ps with
      | none => rfl
      | some aux =>
          rw [Option.map_some, Option.bind_some, Option.map_some]
          simp only [Agent.closeAgent, releaseAll_unmapped, List.nil_append, Option.bind_eq_bind,
            Option.bind_some]
          exact persistenceClose_eq ⟨toFile, _, .buckets aux, .buckets, .buckets⟩ fclose .buckets

/-- Where a huge page is larger than the buckets, nothing releases them. -/
theorem leftMapped_of_lt (hpage : 0 < sizes.page)
    (hhuge : bucketComputeHugepageSize sizes.page < sizes.huge) :
    leftMapped sizes .buckets = [.map] := by
  refine if_neg fun hdvd => ?_
  have hpages : 0 < (8 * (numBuckets + 2) * 5 + sizes.page - 1) / sizes.page :=
    Nat.div_pos (by unfold numBuckets; omega) hpage
  exact absurd (Nat.le_of_dvd (Nat.mul_pos hpages hpage) hdvd) (Nat.not_le.2 hhuge)

example : leftMapped ⟨4096, 2097152⟩ .buckets = [.map] :=
  leftMapped_of_lt (by decide) (by decide)

/-- **A measurement from start to end**: if `persistence_init` returns an agent, then after
any writes that return, `close` writes the text of the measurement and releases all that
was allocated, but for the mapping of the buckets, where `munmap` fails, and for the data
and the agent, where `fclose` does. -/
theorem close_of_writes (hinit : persistenceInit ok filename flags interval = (some agent, held))
    (sizes : PageSizes) (fclose : Bool) (ps : List PingpongPayload) :
    agent.toFile = !useStdout filename flags ∧
      ((agent.writes ps).bind fun agent => agent.closeAgent sizes fclose held) =
        (report agent.toFile interval ps (measurement flags)).map fun text =>
          if agent.toFile && !fclose then
            (-1, text, leftMapped sizes (measurement flags) ++ [.data, .agent])
          else (0, text, leftMapped sizes (measurement flags)) := by
  obtain ⟨rfl, rfl⟩ := persistenceInit_some hinit
  rw [Agent.new_toFile]
  exact ⟨rfl, closeAgent_writes ..⟩

/-- A payload all of whose time stamps are `t`. -/
def stamped (id t : UInt64) : PingpongPayload := { newPingpongPayload id with ts := fun _ => t }

/-- Three payloads in the buckets, on `stdout`: the id of the millionth is in front, and on
pages of 4096 bytes and huge pages of 2 MiB the mapping is left. -/
theorem exists_close_of_writes : ∃ agent held aux,
    persistenceInit (fun _ => true) (some ['d', 'a', 't']) 18 1000 = (some agent, held) ∧
      writeBuckets (persistenceInitBuckets 1000)
        [stamped 999999 5000, stamped 1000000 6000, stamped 1000001 6500] = some aux ∧
      aux.totPackets = 3 ∧ (aux.buckets 6).relLatency 0 = 1 ∧ (aux.buckets 11).relLatency 0 = 1 ∧
      ((agent.writes [stamped 999999 5000, stamped 1000000 6000, stamped 1000001 6500]).bind
        fun agent => agent.closeAgent ⟨4096, 2097152⟩ true held) =
        some (0, ['1', '0', '0', '0', '0', '0', '0', '\n'] ++ persistenceCloseBuckets aux,
          [.map]) := by
  obtain ⟨agent, held, hinit⟩ : ∃ agent held,
      persistenceInit (fun _ => true) (some ['d', 'a', 't']) 18 1000 = (some agent, held) :=
    ⟨_, _, rfl⟩
  obtain ⟨aux, hwrites, hcounts⟩ : ∃ aux, writeBuckets (persistenceInitBuckets 1000)
      [stamped 999999 5000, stamped 1000000 6000, stamped 1000001 6500] = some aux ∧
      aux.totPackets = 3 ∧ (aux.buckets 6).relLatency 0 = 1 ∧
        (aux.buckets 11).relLatency 0 = 1 :=
    ⟨_, rfl, by decide⟩
  have hclose := (close_of_writes hinit ⟨4096, 2097152⟩ true
    [stamped 999999 5000, stamped 1000000 6000, stamped 1000001 6500]).2
  refine ⟨agent, held, aux, hinit, hwrites, hcounts.1, hcounts.2.1, hcounts.2.2,
    hclose.trans ?_⟩
  have htoFile : agent.toFile = false := by
    obtain ⟨rfl, -⟩ := persistenceInit_some hinit
    rfl
  have hmeasurement : measurement 18 = .buckets := by decide
  have hlines : progressLines (persistenceInitBuckets 1000)
      [stamped 999999 5000, stamped 1000000 6000, stamped 1000001 6500] =
      ['1', '0', '0', '0', '0', '0', '0', '\n'] := by
    decide
  rw [htoFile, hmeasurement, report, hwrites, hlines, leftMapped_of_lt (by decide) (by decide)]
  rfl

/-- What `-m` measures: a number that names no measurement gives the extreme latencies. -/
theorem measurement_of_value (value : Int32) :
    measurement (Xdp.persMeasurementToFlag value).toUInt32 =
      if value = 0 then .allTimestamps else if value = 2 then .buckets else .minMaxLatency := by
  unfold Xdp.persMeasurementToFlag
  split_ifs with h₀ h₁ h₂
  all_goals first | rfl | exact absurd (h₁.symm.trans ‹value = 2›) (by decide)

/-- Such a number goes to `stdout`, whatever the name. -/
theorem useStdout_of_value (name : List Char) (value : Int32) :
    useStdout (some name) (Xdp.persMeasurementToFlag value).toUInt32 =
      !decide (value = 0 ∨ value = 1 ∨ value = 2) := by
  unfold Xdp.persMeasurementToFlag
  by_cases h₀ : value = 0
  · subst h₀
    rfl
  by_cases h₁ : value = 1
  · subst h₁
    rfl
  by_cases h₂ : value = 2
  · subst h₂
    rfl
  simp only [h₀, h₁, h₂, if_false, or_false, decide_false, Bool.not_false]
  rfl

/-- **What `-m` measures**, from `persistence_init` to `close`: 0 all time stamps, 2 the
buckets, and every other number the extreme latencies; a number but these and 1 on `stdout`,
although a file is named. -/
theorem close_of_value {name : List Char} (value : Int32)
    (hinit : persistenceInit ok (some name) (Xdp.persMeasurementToFlag value).toUInt32 interval =
      (some agent, held))
    (sizes : PageSizes) (fclose : Bool) (ps : List PingpongPayload) :
    (agent.toFile = true ↔ value = 0 ∨ value = 1 ∨ value = 2) ∧
      ((agent.writes ps).bind fun agent => agent.closeAgent sizes fclose held) =
        (if value = 0 then some (printDecimals (ps.flatMap timestampItems))
        else if value = 2 then
          (writeBuckets (persistenceInitBuckets interval) ps).map persistenceCloseBuckets
        else some (extremesReport ps)).map fun text =>
          let left := if value = 2 then leftMapped sizes .buckets else []
          if agent.toFile && !fclose then (-1, text, left ++ [.data, .agent])
          else (0, text, left) := by
  obtain ⟨rfl, rfl⟩ := persistenceInit_some hinit
  rw [closeAgent_writes, Agent.new_toFile, measurement_of_value, useStdout_of_value,
    Bool.not_not, decide_eq_true_iff]
  refine ⟨Iff.rfl, ?_⟩
  by_cases h₀ : value = 0
  · have h₂ : value ≠ 2 := by
      rw [h₀]
      decide
    rw [if_pos h₀, if_pos h₀, if_neg h₂]
    rfl
  by_cases h₂ : value = 2
  · have hfile : decide (value = 0 ∨ value = 1 ∨ value = 2) = true :=
      decide_eq_true (Or.inr (Or.inr h₂))
    have htext : (fun aux => (if true then [] else progressLines (persistenceInitBuckets interval)
        ps) ++ persistenceCloseBuckets aux) = persistenceCloseBuckets :=
      funext fun aux => by rw [if_pos rfl, List.nil_append]
    rw [if_neg h₀, if_neg h₀, if_pos h₂, if_pos h₂, if_pos h₂, report, hfile, htext]
  · rw [if_neg h₀, if_neg h₀, if_neg h₂, if_neg h₂, if_neg h₂, report, leftMapped]
    nofun

/-- Two payloads with `-m 3`: their lines come out on `stdout`. -/
theorem exists_close_of_value : ∃ agent held,
    persistenceInit (fun _ => true) (some ['d', 'a', 't'])
        (Xdp.persMeasurementToFlag 3).toUInt32 1000 = (some agent, held) ∧
      agent.toFile = false ∧
      ((agent.writes [latePayload 5, latePayload 7]).bind
        fun agent => agent.closeAgent ⟨4096, 2097152⟩ true held) =
        some (0, latencyLine (latePayload 5) 5 ++ latencyLine (latePayload 7) 7, []) := by
  obtain ⟨agent, held, hinit⟩ : ∃ agent held, persistenceInit (fun _ => true)
      (some ['d', 'a', 't']) (Xdp.persMeasurementToFlag 3).toUInt32 1000 = (some agent, held) :=
    ⟨_, _, rfl⟩
  obtain ⟨hfile, hclose⟩ := close_of_value 3 hinit ⟨4096, 2097152⟩ true
    [latePayload 5, latePayload 7]
  have htoFile : agent.toFile = false := Bool.eq_false_iff.2 fun h => absurd (hfile.1 h) (by decide)
  refine ⟨agent, held, hinit, htoFile, hclose.trans ?_⟩
  rw [htoFile]
  rfl

end Persistence
end DetBypass
