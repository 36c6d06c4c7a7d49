/-
# The extreme latencies

`common/persistence.c`: `persistence_init_min_max_latency`,
`persistence_write_min_max_latency`, which keeps the two rounds with the
extreme latencies, and `persistence_close_min_max`, which prints them.
`malloc` leaves `min_payload` and `max_payload` without a value until the first
store: `none`.

`min` starts above every latency and `max` at 0, which is a latency.  So after a
run `min` and its payload are exact, and `max` is, but a payload is kept with
`max` only if its latency is not 0 (`writeMinMaxLatency_init`), and the same
comparison decides whether it is printed (`reportsExtremes_iff`).
-/

import DetBypass.Common.Payload
import DetBypass.Lib.Decimal
import Mathlib.Data.List.MinMax
import Mathlib.Order.Bounds.Defs

namespace DetBypass

open Lib

variable {p : PingpongPayload} {ps : List PingpongPayload}

/-- `struct min_max_latency_data`. -/
@[ext] structure MinMaxLatencyData where
  min : UInt64
  max : UInt64
  minPayload : Option PingpongPayload
  maxPayload : Option PingpongPayload
deriving DecidableEq

/-- `persistence_init_min_max_latency`. -/
def persistenceInitMinMaxLatency : MinMaxLatencyData :=
  ⟨UInt64.ofNat (2 ^ 64 - 1), 0, none, none⟩

/-- `persistence_write_min_max_latency`: the return value and the new data. -/
def persistenceWriteMinMaxLatency (aux : MinMaxLatencyData) (payload : PingpongPayload) :
    ℤ × MinMaxLatencyData :=
  let latency := computeLatency payload
  let aux := if latency < aux.min then
    { aux with min := latency, minPayload := some payload } else aux
  let aux := if aux.max < latency then
    { aux with max := latency, maxPayload := some payload } else aux
  (0, aux)

/-- The line of a payload and its latency,
`"%llu: %llu %llu %llu %llu (LATENCY %lu ns)\n"`. -/
def latencyLine (payload : PingpongPayload) (latency : UInt64) : List Char :=
  printDecimals [(payload.id.toNat, [':', ' ']), ((payload.ts 0).toNat, [' ']),
    ((payload.ts 1).toNat, [' ']), ((payload.ts 2).toNat, [' ']),
    ((payload.ts 3).toNat, [' ', '(', 'L', 'A', 'T', 'E', 'N', 'C', 'Y', ' ']),
    (latency.toNat, [' ', 'n', 's', ')', '\n'])]

/-- What `persistence_close_min_max` writes to the file, `none` if it reads a
payload that was never stored. -/
def persistenceCloseMinMax (aux : MinMaxLatencyData) : Option (List Char) := do
  let minText ← if aux.min ≠ UInt64.ofNat (2 ^ 64 - 1) then
    aux.minPayload.map (latencyLine · aux.min) else some []
  let maxText ← if aux.max ≠ 0 then
    aux.maxPayload.map (latencyLine · aux.max) else some []
  return minText ++ maxText

/-- A sequence of payloads written. -/
def writeMinMaxLatency (aux : MinMaxLatencyData) (ps : List PingpongPayload) :
    MinMaxLatencyData :=
  ps.foldl (fun aux payload => (persistenceWriteMinMaxLatency aux payload).2) aux

/-- The last payload is written last. -/
theorem writeMinMaxLatency_concat (aux : MinMaxLatencyData) (ps : List PingpongPayload)
    (p : PingpongPayload) : writeMinMaxLatency aux (ps ++ [p]) =
      (persistenceWriteMinMaxLatency (writeMinMaxLatency aux ps) p).2 := by
  unfold writeMinMaxLatency
  rw [List.foldl_append, List.foldl_cons, List.foldl_nil]

/-! ### Where the extremes start -/

/-- Half of a word is below the first `min`. -/
theorem computeLatency_lt (p : PingpongPayload) : (computeLatency p).toNat < 2 ^ 63 := by
  have h := ((p.ts 3 - p.ts 0) - (p.ts 2 - p.ts 1)).toNat_lt
  rw [computeLatency, UInt64.toNat_div]
  show _ / 2 < _
  omega

/-- Half of a `uint64_t` is less than `UINT64_MAX`. -/
theorem computeLatency_lt_max (p : PingpongPayload) :
    computeLatency p < UInt64.ofNat (2 ^ 64 - 1) := by
  have h := computeLatency_lt p
  rw [UInt64.lt_iff_toNat_lt]
  show _ < 2 ^ 64 - 1
  omega

/-- The latencies equal to the first `max`. -/
theorem computeLatency_ne_zero_iff :
    computeLatency p ≠ 0 ↔ 2 ≤ (p.ts 3 - p.ts 0) - (p.ts 2 - p.ts 1) := by
  rw [computeLatency, ne_eq, ← UInt64.toNat_inj, UInt64.le_iff_toNat_le, UInt64.toNat_div]
  show ¬_ / 2 = 0 ↔ 2 ≤ _
  omega

/-! ### What a run keeps -/

/-- The first payload with the least latency. -/
def firstMin (ps : List PingpongPayload) : Option PingpongPayload :=
  ps.argmin fun p => (computeLatency p).toNat

/-- The first payload with the greatest latency. -/
def firstMax (ps : List PingpongPayload) : Option PingpongPayload :=
  ps.argmax fun p => (computeLatency p).toNat

/-- The data after a run: the payload with `max` is missing when its latency
is 0. -/
def keptExtremes (ps : List PingpongPayload) : MinMaxLatencyData where
  min := (firstMin ps).elim (UInt64.ofNat (2 ^ 64 - 1)) computeLatency
  max := (firstMax ps).elim 0 computeLatency
  minPayload := firstMin ps
  maxPayload := (firstMax ps).filter fun p => computeLatency p ≠ 0

/-- The first least, with one payload more: it takes a smaller latency to replace it. -/
theorem firstMin_concat (ps : List PingpongPayload) (p : PingpongPayload) :
    firstMin (ps ++ [p]) = (firstMin ps).elim (some p) fun q =>
      if computeLatency p < computeLatency q then some p else some q := by
  rw [firstMin, List.argmin_concat, ← firstMin]
  cases firstMin ps <;> rfl

/-- The first greatest, with one payload more. -/
theorem firstMax_concat (ps : List PingpongPayload) (p : PingpongPayload) :
    firstMax (ps ++ [p]) = (firstMax ps).elim (some p) fun q =>
      if computeLatency q < computeLatency p then some p else some q := by
  rw [firstMax, List.argmax_concat, ← firstMax]
  cases firstMax ps <;> rfl

/-- The two extremes are kept apart. -/
theorem persistenceWriteMinMaxLatency_snd (aux : MinMaxLatencyData) (p : PingpongPayload) :
    (persistenceWriteMinMaxLatency aux p).2 =
      ⟨if computeLatency p < aux.min then computeLatency p else aux.min,
        if aux.max < computeLatency p then computeLatency p else aux.max,
        if computeLatency p < aux.min then some p else aux.minPayload,
        if aux.max < computeLatency p then some p else aux.maxPayload⟩ := by
  unfold persistenceWriteMinMaxLatency
  by_cases hmin : computeLatency p < aux.min <;> by_cases hmax : aux.max < computeLatency p <;>
    simp only [hmin, hmax, if_true, if_false]

/-- **One payload.**  The data of a run becomes that of the longer run. -/
theorem persistenceWriteMinMaxLatency_keptExtremes (ps : List PingpongPayload)
    (p : PingpongPayload) :
    (persistenceWriteMinMaxLatency (keptExtremes ps) p).2 = keptExtremes (ps ++ [p]) := by
  have hstored := computeLatency_lt_max p
  have hpos : 0 < computeLatency p ↔ computeLatency p ≠ 0 := by
    rw [UInt64.lt_iff_toNat_lt, ne_eq, ← UInt64.toNat_inj]
    exact Nat.pos_iff_ne_zero
  rw [persistenceWriteMinMaxLatency_snd]
  unfold keptExtremes
  rw [firstMin_concat, firstMax_concat]
  refine MinMaxLatencyData.ext ?_ ?_ ?_ ?_
  · cases firstMin ps with
    | none => exact if_pos hstored
    | some q => by_cases hlt : computeLatency p < computeLatency q <;> simp [hlt]
  · cases firstMax ps with
    | none => by_cases hp : computeLatency p = 0 <;> simp [hpos, hp]
    | some q => by_cases hlt : computeLatency q < computeLatency p <;> simp [hlt]
  · cases firstMin ps with
    | none => exact if_pos hstored
    | some q => rfl
  · cases firstMax ps with
    | none => by_cases hp : computeLatency p = 0 <;> simp [Option.filter, hpos, hp]
    | some q =>
        by_cases hlt : computeLatency q < computeLatency p
        · have hp : computeLatency p ≠ 0 := hpos.1 (UInt64.lt_of_le_of_lt UInt64.zero_le hlt)
          simp [Option.filter, hlt, hp]
        · simp [hlt]

/-- **The data after a run.** -/
theorem writeMinMaxLatency_init (ps : List PingpongPayload) :
    writeMinMaxLatency persistenceInitMinMaxLatency ps = keptExtremes ps := by
  induction ps using List.reverseRecOn with
  | nil => rfl
  | append_singleton ps p ih =>
      rw [writeMinMaxLatency_concat, ih, persistenceWriteMinMaxLatency_keptExtremes]

/-! ### What is reported -/

/-- The lines of the two extremes: none without payloads. -/
def extremeLines (ps : List PingpongPayload) : List Char :=
  match firstMin ps, firstMax ps with
  | some p, some q => latencyLine p (computeLatency p) ++ latencyLine q (computeLatency q)
  | _, _ => []

/-- The data are the extremes of a sequence of payloads, and closing prints them. -/
structure ReportsExtremes (ps : List PingpongPayload) (aux : MinMaxLatencyData) : Prop where
  min : ps ≠ [] → IsLeast {latency | ∃ p ∈ ps, computeLatency p = latency} aux.min
  max : ps ≠ [] → IsGreatest {latency | ∃ p ∈ ps, computeLatency p = latency} aux.max
  minPayload : aux.minPayload = firstMin ps
  maxPayload : aux.maxPayload = firstMax ps
  text : persistenceCloseMinMax aux = some (extremeLines ps)

/-- The first least has the least latency. -/
theorem exists_firstMin (hne : ps ≠ []) : ∃ p, firstMin ps = some p ∧
    IsLeast {latency | ∃ p ∈ ps, computeLatency p = latency} (computeLatency p) := by
  have hsome : firstMin ps ≠ none := by
    rwa [firstMin, ne_eq, List.argmin_eq_none]
  obtain ⟨p, hp⟩ := Option.ne_none_iff_exists'.1 hsome
  refine ⟨p, hp, ⟨p, List.argmin_mem hp, rfl⟩, ?_⟩
  rintro _ ⟨q, hq, rfl⟩
  rw [UInt64.le_iff_toNat_le]
  exact @List.le_of_mem_argmin _ _ _ (fun p => (computeLatency p).toNat) _ _ _ hq hp

/-- The first greatest has the greatest. -/
theorem exists_firstMax (hne : ps ≠ []) : ∃ p, firstMax ps = some p ∧
    IsGreatest {latency | ∃ p ∈ ps, computeLatency p = latency} (computeLatency p) := by
  have hsome : firstMax ps ≠ none := by
    rwa [firstMax, ne_eq, List.argmax_eq_none]
  obtain ⟨p, hp⟩ := Option.ne_none_iff_exists'.1 hsome
  refine ⟨p, hp, ⟨p, List.argmax_mem hp, rfl⟩, ?_⟩
  rintro _ ⟨q, hq, rfl⟩
  rw [UInt64.le_iff_toNat_le]
  exact @List.le_of_mem_argmax _ _ _ (fun p => (computeLatency p).toNat) _ _ _ hq hp

/-- **The extremes are reported** unless there are payloads and every latency
is 0, where `max` stays as it started: the payload with it is not kept, and its
line is not printed. -/
theorem reportsExtremes_iff (ps : List PingpongPayload) :
    ReportsExtremes ps (writeMinMaxLatency persistenceInitMinMaxLatency ps) ↔
      ps = [] ∨ ∃ p ∈ ps, 2 ≤ (p.ts 3 - p.ts 0) - (p.ts 2 - p.ts 1) := by
  rw [writeMinMaxLatency_init]
  simp only [← computeLatency_ne_zero_iff]
  rcases eq_or_ne ps [] with rfl | hne
  · exact ⟨fun _ => Or.inl rfl, fun _ =>
      ⟨fun h => absurd rfl h, fun h => absurd rfl h, rfl, rfl, rfl⟩⟩
  obtain ⟨p, hp, hleast⟩ := exists_firstMin hne
  obtain ⟨q, hq, hgreatest⟩ := exists_firstMax hne
  refine ⟨fun h => Or.inr ?_, fun h => ?_⟩
  · -- The filter keeps the payload with `max` only if its latency is not 0.
    have hkept : (firstMax ps).filter (fun p => computeLatency p ≠ 0) = firstMax ps :=
      h.maxPayload
    rw [hq, Option.filter_eq_some_iff] at hkept
    exact ⟨q, List.argmax_mem hq, of_decide_eq_true hkept.2⟩
  · obtain ⟨r, hr, hlatency⟩ := h.resolve_left hne
    have hzero : computeLatency q ≠ 0 := by
      intro hzero
      have hle : computeLatency r ≤ computeLatency q := hgreatest.2 ⟨r, hr, rfl⟩
      rw [hzero, UInt64.le_zero_iff] at hle
      exact hlatency hle
    have hmin : computeLatency p ≠ UInt64.ofNat (2 ^ 64 - 1) :=
      UInt64.ne_of_lt (computeLatency_lt_max p)
    have hkept : keptExtremes ps = ⟨computeLatency p, computeLatency q, some p, some q⟩ := by
      simp [keptExtremes, hp, hq, Option.filter, hzero]
    rw [hkept]
    refine ⟨fun _ => hleast, fun _ => hgreatest, hp.symm, hq.symm, ?_⟩
    simp only [persistenceCloseMinMax, extremeLines, hp, hq, ne_eq, hzero, hmin, not_false_eq_true,
      if_true, Option.map_some]
    rfl

/-- A payload with the latency 0: one line, and no payload kept with `max`. -/
theorem exists_not_reportsExtremes :
    let p := newPingpongPayload 1
    let aux := writeMinMaxLatency persistenceInitMinMaxLatency [p]
    aux.maxPayload = none ∧ persistenceCloseMinMax aux = some (latencyLine p 0) ∧
      ¬ReportsExtremes [p] aux := by
  refine ⟨rfl, rfl, fun h => ?_⟩
  have hkept : none = some (newPingpongPayload 1) := h.maxPayload
  exact Option.some_ne_none _ hkept.symm

end DetBypass
