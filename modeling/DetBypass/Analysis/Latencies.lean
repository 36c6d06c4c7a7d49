/-
# The latencies of a timestamp file

`compute_latency` and `compute_latencies` (`analysis/large-eval/lib.py`) on the
rows of `parse_timestamps`, in `int64` arithmetic with Python's `//`, which
rounds down; `compute_latency` in `common/common.h` halves a `uint64_t`.

The two agree where the round as a whole is no shorter than its part at the
server, neither having ended before it started: then nothing is negative and
nothing wraps (`computeLatency_payloadRow`).  `latencies_of_file` joins this with
the reading of the file.
-/

import DetBypass.Common.BucketIndex
import DetBypass.Analysis.Timestamps
import Mathlib.Data.List.Forall2

namespace DetBypass

open Lib

variable {fromfile : List Char → List Int64} {p : PingpongPayload} {ps : List PingpongPayload}

/-- The five entries of a row have literal indices. -/
instance neZero_five : NeZero (5 : ℕ) := ⟨by decide⟩

/-! ### In Python -/

/-- `a // b` of two `int64`. -/
def Analysis.floorDiv (a b : Int64) : Int64 :=
  Int64.ofInt (a.toInt.fdiv b.toInt)

/-- `compute_latency` in `lib.py`. -/
def Analysis.computeLatency (ts : Fin 4 → Int64) : Int64 :=
  floorDiv ((ts 3 - ts 0) - (ts 2 - ts 1)) 2

/-- `compute_latencies`: of each row the packet id and the latency. -/
def Analysis.computeLatencies (timestamps : List (Fin 5 → Int64)) : List (Fin 2 → Int64) :=
  timestamps.map fun round => ![round (0 : Fin 5), computeLatency (Fin.tail round)]

/-! ### The rows -/

/-- The row holds the numbers of the payload. -/
def RowOf (row : Fin 5 → Int64) (p : PingpongPayload) : Prop :=
  (row 0).toInt = p.id.toNat ∧ ∀ i : Fin 4, (row i.succ).toInt = (p.ts i).toNat

/-- The row of a payload holds its id and its time stamps. -/
theorem rowOf_payloadRow (h : FitsInt64 p) : RowOf (payloadRow p) p := by
  refine ⟨?_, fun i => ?_⟩
  · exact toInt_toInt64_of_lt h.1
  · rw [payloadRow, Fin.cons_succ]
    exact toInt_toInt64_of_lt (h.2 i)

/-! ### The latencies -/

/-- The time stamps of a round in which no clock went back, and which took no
less than its part at the server. -/
structure InOrder (p : PingpongPayload) : Prop where
  client : p.ts 0 ≤ p.ts 3
  server : p.ts 1 ≤ p.ts 2
  whole : p.ts 2 - p.ts 1 ≤ p.ts 3 - p.ts 0

/-- **One round.**  What the two compute. -/
theorem computeLatency_payloadRow (hfit : FitsInt64 p) (h : InOrder p) :
    (Analysis.computeLatency (Fin.tail (payloadRow p))).toInt = (computeLatency p).toNat := by
  have hwhole : ((p.ts 3 - p.ts 0) - (p.ts 2 - p.ts 1)).toNat < 2 ^ 63 := by
    have hlt := hfit.2 3
    rw [UInt64.toNat_sub_of_le _ _ h.whole, UInt64.toNat_sub_of_le _ _ h.client]
    omega
  have hrow : Analysis.computeLatency (Fin.tail (payloadRow p)) =
      Analysis.floorDiv ((p.ts 3 - p.ts 0) - (p.ts 2 - p.ts 1)).toInt64 2 := by
    simp only [UInt64.toInt64_sub]
    rfl
  rw [hrow, Analysis.floorDiv, toInt_toInt64_of_lt hwhole, computeLatency, UInt64.toNat_div]
  generalize ((p.ts 3 - p.ts 0) - (p.ts 2 - p.ts 1)).toNat = n at hwhole
  have htwo : (2 : Int64).toInt = 2 := by decide
  have hhalf : (n : ℤ).fdiv 2 = (n / 2 : ℕ) := by
    rw [Int.fdiv_eq_ediv_of_nonneg _ (by decide)]
    rfl
  rw [htwo, hhalf]
  exact Int64.toInt_ofInt_of_le (by omega) (by omega)

/-- Where the part at the server is longer Python rounds a negative number down. -/
example : (Analysis.computeLatency ![0, 0, 1, 0]).toInt = -1 ∧
    (computeLatency ⟨1, ![0, 0, 1, 0], 0, pingpongMagic⟩).toNat = 2 ^ 63 - 1 := by
  decide

/-- **The latencies of a file.**  Its rows are those of the payloads, in order,
and so are their latencies. -/
theorem latencies_of_file (hfile : ReadsDecimals fromfile) (hfit : ∀ p ∈ ps, FitsInt64 p) :
    ∃ text rows, timestampFile ps = some text ∧ parseTimestamps fromfile text = some rows ∧
      List.Forall₂ RowOf rows ps ∧
      List.Forall₂ (fun (latency : Fin 2 → Int64) (p : PingpongPayload) =>
          (latency 0).toInt = p.id.toNat ∧
            (InOrder p → (latency 1).toInt = (computeLatency p).toNat))
        (Analysis.computeLatencies rows) ps := by
  obtain ⟨text, htext, hrows⟩ := parseTimestamps_of_file hfile hfit
  refine ⟨text, _, htext, hrows, ?_, ?_⟩
  · rw [List.forall₂_map_left_iff, List.forall₂_same]
    exact fun p hp => rowOf_payloadRow (hfit p hp)
  · rw [Analysis.computeLatencies, List.map_map, List.forall₂_map_left_iff, List.forall₂_same]
    exact fun p hp => ⟨(rowOf_payloadRow (hfit p hp)).1, computeLatency_payloadRow (hfit p hp)⟩

/-- The file of a round of 21 ns, 5 ns of them at the server. -/
theorem latencies_of_file_one :
    ∃ text rows, timestampFile [⟨1, ![100, 40, 45, 121], 0, pingpongMagic⟩] = some text ∧
      parseTimestamps (fun text => (readDecimals text).map Int64.ofNat) text = some rows ∧
      (Analysis.computeLatencies rows).map (fun latency => (latency 1).toInt) = [8] := by
  obtain ⟨text, rows, htext, hrows, -, h⟩ := @latencies_of_file _
    [⟨1, ![100, 40, 45, 121], 0, pingpongMagic⟩] readsDecimals_readDecimals
    (List.forall_mem_singleton.2 ⟨by decide, by decide⟩)
  refine ⟨text, rows, htext, hrows, ?_⟩
  generalize Analysis.computeLatencies rows = latencies at h
  cases h with
  | cons hlatency hnil =>
      cases hnil
      rw [List.map_singleton, hlatency.2 ⟨by decide, by decide, by decide⟩]
      rfl

end DetBypass
