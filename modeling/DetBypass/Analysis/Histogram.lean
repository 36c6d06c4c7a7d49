/-
# The histogram is the histogram of the timestamp file

Two agents of `common/persistence.c` see the same payloads: one folds them into
buckets as they come, carrying the previous payload, the other writes them to a
file which `analysis/large-eval/lib.py` differences later.  `writeBuckets_run`
is the fold from a state that has a previous payload: each further payload adds
one sample to each column, the difference to the payload before it, so the
counters and extremes are those of the list of differences.  The first call
only stores its payload, and Python has no difference for the first row.

`histogram_eq` puts the two together.
-/

import DetBypass.Common.BucketIndex
import DetBypass.Analysis.Timestamps
import Mathlib.Order.Bounds.Basic

namespace DetBypass

open Lib BucketData

variable {aux : BucketData} {i : Int32} {q : PingpongPayload} {ps : List PingpongPayload}
  {fromfile : List Char → List Int64} {interval : UInt64}

/-- The bucket of a relative difference at an interval. -/
def relBucket (interval : UInt64) (d : Int64) : Option ℕ :=
  (bucketIdx d (bucketRanges interval).relMin.toInt64
    (bucketRanges interval).relMax.toInt64).map UInt32.toNat

/-- The number of values of a column in bucket `k`. -/
def histogram (interval : UInt64) (k : ℕ) (values : List Int64) : ℕ :=
  values.countP fun d => relBucket interval d = some k

/-- The minimum so far and a value, or their minimum. -/
theorem isLeast_cons_min {a b m : ℕ} {ds : List ℕ} (h : IsLeast {d | d ∈ min a b :: ds} m) :
    IsLeast {d | d ∈ a :: b :: ds} m := by
  obtain ⟨hmem, hle⟩ := h
  have hmin : m ≤ min a b := hle (List.mem_cons_self ..)
  refine ⟨?_, fun d hd => ?_⟩
  · rcases List.mem_cons.1 hmem with rfl | hds
    · rcases min_choice a b with ha | hb
      · rw [ha]; exact List.mem_cons_self ..
      · rw [hb]; exact List.mem_cons_of_mem _ (List.mem_cons_self ..)
    · exact List.mem_cons_of_mem _ (List.mem_cons_of_mem _ hds)
  · rcases List.mem_cons.1 hd with rfl | hd
    · exact hmin.trans (min_le_left ..)
    · rcases List.mem_cons.1 hd with rfl | hd
      · exact hmin.trans (min_le_right ..)
      · exact hle (List.mem_cons_of_mem _ hd)

/-- The maximum so far and a value, or their maximum. -/
theorem isGreatest_cons_max {a b m : ℕ} {ds : List ℕ}
    (h : IsGreatest {d | d ∈ max a b :: ds} m) : IsGreatest {d | d ∈ a :: b :: ds} m := by
  obtain ⟨hmem, hge⟩ := h
  have hmax : max a b ≤ m := hge (List.mem_cons_self ..)
  refine ⟨?_, fun d hd => ?_⟩
  · rcases List.mem_cons.1 hmem with rfl | hds
    · rcases max_choice a b with ha | hb
      · rw [ha]; exact List.mem_cons_self ..
      · rw [hb]; exact List.mem_cons_of_mem _ (List.mem_cons_self ..)
    · exact List.mem_cons_of_mem _ (List.mem_cons_of_mem _ hds)
  · rcases List.mem_cons.1 hd with rfl | hd
    · exact (le_max_left ..).trans hmax
    · rcases List.mem_cons.1 hd with rfl | hd
      · exact (le_max_right ..).trans hmax
      · exact hge (List.mem_cons_of_mem _ hd)

/-- **The fold over the payloads after a first one.**  Each of them is counted
once and adds, to each column, the difference to the payload before it. -/
theorem writeBuckets_run (haux : aux.sendInterval = parsedInterval i) (hi : 0 ≤ i.toInt)
    (hprev : aux.prevPayload = q) (hvalid : ∀ p ∈ q :: ps, validPingpongPayload p = true)
    (hmono : ∀ col, (q :: ps).Pairwise fun p p' => p.ts col ≤ p'.ts col) :
    ∃ aux', writeBuckets aux ps = some aux' ∧
      aux'.totPackets = aux.totPackets + ps.length ∧
      ∀ col, (∀ k, (aux'.buckets k).relLatency col = (aux.buckets k).relLatency col +
          histogram (parsedInterval i) k ((tsDiffs col q ps).map UInt64.toInt64)) ∧
        IsLeast {d | d ∈ (aux.minValues.relLatency col).toNat ::
          (tsDiffs col q ps).map UInt64.toNat} (aux'.minValues.relLatency col).toNat ∧
        IsGreatest {d | d ∈ (aux.maxValues.relLatency col).toNat ::
          (tsDiffs col q ps).map UInt64.toNat} (aux'.maxValues.relLatency col).toNat := by
  induction ps generalizing aux q with
  | nil =>
      refine ⟨aux, rfl, rfl, fun col => ⟨fun k => rfl, ?_, ?_⟩⟩
      · simp [tsDiffs]
      · simp [tsDiffs]
  | cons p ps ih =>
      subst hprev
      have haccepts : aux.Accepts p := ⟨hvalid _ (List.mem_cons_self ..), fun col =>
        (List.pairwise_cons.1 (hmono col)).1 p (List.mem_cons_self ..)⟩
      choose k hk using relIdx_lt aux p
      obtain ⟨l, hl⟩ := absIdx_isSome haux hi p
      have hstep := persistenceWriteBuckets_of_accepts haccepts (fun col => (hk col).1) hl
      let next := aux.recorded p (fun col => (k col).toNat) l.toNat
      obtain ⟨aux', hrun, htot, hcols⟩ := ih
        (show next.sendInterval = parsedInterval i from haux) rfl
        (fun p' hp' => hvalid p' (List.mem_cons_of_mem _ hp'))
        fun col => (List.pairwise_cons.1 (hmono col)).2
      refine ⟨aux', ?_, ?_, fun col => ?_⟩
      · rw [writeBuckets_cons, hstep]
        exact hrun
      · simp only [htot, next, recorded, List.length_cons]
        omega
      · obtain ⟨hcount, hleast, hgreatest⟩ := hcols col
        refine ⟨fun n => ?_, ?_, ?_⟩
        · have hbucket : relBucket (parsedInterval i) (aux.tsDiff p col).toInt64 =
              some (k col).toNat := by
            have := (hk col).1
            rw [relIdx, haux] at this
            rw [relBucket, this, Option.map_some]
          rw [hcount n, tsDiffs, List.map_cons, histogram, histogram, List.countP_cons]
          have hdiff : p.ts col - aux.prevPayload.ts col = aux.tsDiff p col := rfl
          rw [hdiff, hbucket]
          simp only [next, recorded, Option.some.injEq, decide_eq_true_eq]
          omega
        · simp only [next, recorded] at hleast
          simp only [lower_toNat] at hleast
          exact isLeast_cons_min hleast
        · simp only [next, recorded] at hgreatest
          simp only [raise_toNat] at hgreatest
          exact isGreatest_cons_max hgreatest

/-- An upper bound is the least of a list only if it is in it. -/
theorem isLeast_of_cons {a m : ℕ} {ds : List ℕ} (h : IsLeast {d | d ∈ a :: ds} m) (hne : ds ≠ [])
    (ha : ∀ d ∈ ds, d ≤ a) : IsLeast {d | d ∈ ds} m := by
  obtain ⟨hmem, hle⟩ := h
  refine ⟨?_, fun d hd => hle (List.mem_cons_of_mem _ hd)⟩
  rcases List.mem_cons.1 hmem with rfl | hds
  · obtain ⟨d, hd⟩ := List.exists_mem_of_ne_nil ds hne
    have : m = d := le_antisymm (hle (List.mem_cons_of_mem _ hd)) (ha d hd)
    exact this ▸ hd
  · exact hds

/-- A lower bound is the greatest of a list only if it is in it. -/
theorem isGreatest_of_cons {a m : ℕ} {ds : List ℕ} (h : IsGreatest {d | d ∈ a :: ds} m)
    (hne : ds ≠ []) (ha : ∀ d ∈ ds, a ≤ d) : IsGreatest {d | d ∈ ds} m := by
  obtain ⟨hmem, hge⟩ := h
  refine ⟨?_, fun d hd => hge (List.mem_cons_of_mem _ hd)⟩
  rcases List.mem_cons.1 hmem with rfl | hds
  · obtain ⟨d, hd⟩ := List.exists_mem_of_ne_nil ds hne
    have : m = d := le_antisymm (ha d hd) (hge (List.mem_cons_of_mem _ hd))
    exact this ▸ hd
  · exact hds

/-- Below `2^63` the values of an `int64` column are those of the `uint64_t`
column. -/
theorem toInt_column {ds : List UInt64} (h : ∀ d ∈ ds, d.toNat < 2 ^ 63) :
    {v : ℤ | ∃ d ∈ ds.map UInt64.toInt64, d.toInt = v} =
      (fun n : ℕ => (n : ℤ)) '' {d | d ∈ ds.map UInt64.toNat} := by
  ext v
  constructor
  · rintro ⟨d, hd, rfl⟩
    obtain ⟨u, hu, rfl⟩ := List.mem_map.1 hd
    exact ⟨u.toNat, List.mem_map_of_mem hu, (toInt_toInt64_of_lt (h u hu)).symm⟩
  · rintro ⟨n, hn, rfl⟩
    obtain ⟨u, hu, rfl⟩ := List.mem_map.1 hn
    exact ⟨u.toInt64, List.mem_map_of_mem hu, toInt_toInt64_of_lt (h u hu)⟩

/-- **The histogram agrees with the timestamp file.**  For a nonempty sequence
of valid payloads that fit `int64` and whose columns do not decrease: the file
parses, no call divides by zero, `tot_packets` is the number of rows, each
column of counters is the histogram of that column of `compute_diffs`, and from
two payloads on its extremes are the column's. -/
theorem histogram_eq (hfile : ReadsDecimals fromfile) (hlt : interval.toNat < 2 ^ 31)
    (hne : ps ≠ []) (hvalid : ∀ p ∈ ps, validPingpongPayload p = true)
    (hfit : ∀ p ∈ ps, FitsInt64 p) (hmono : ∀ col, (ps.map fun p => p.ts col).Pairwise (· ≤ ·)) :
    ∃ text rows aux, timestampFile ps = some text ∧ parseTimestamps fromfile text = some rows ∧
      writeBuckets (persistenceInitBuckets interval) ps = some aux ∧
      aux.totPackets = rows.length ∧
      ∀ col, (∀ k, (aux.buckets k).relLatency col =
          histogram interval k (column (computeDiffs rows) col)) ∧
        (2 ≤ ps.length →
          IsLeast {v : ℤ | ∃ d ∈ column (computeDiffs rows) col, d.toInt = v}
            (aux.minValues.relLatency col).toNat ∧
          IsGreatest {v : ℤ | ∃ d ∈ column (computeDiffs rows) col, d.toInt = v}
            (aux.maxValues.relLatency col).toNat) := by
  obtain ⟨text, htext, hrows⟩ := parseTimestamps_of_file hfile hfit
  obtain ⟨i, rfl, hval⟩ := exists_parsedInterval hlt
  have hi : 0 ≤ i.toInt := hval ▸ Int.natCast_nonneg _
  obtain ⟨q, ps, rfl⟩ := List.exists_cons_of_ne_nil hne
  have hmono' : ∀ col, (q :: ps).Pairwise fun p p' => p.ts col ≤ p'.ts col := fun col =>
    List.pairwise_map.1 (hmono col)
  let aux₁ : BucketData := { persistenceInitBuckets (parsedInterval i) with
    totPackets := 1, prevPayload := q }
  have hfirst : persistenceWriteBuckets (persistenceInitBuckets (parsedInterval i)) q =
      some (-1, aux₁) := persistenceWriteBuckets_of_not_valid rfl
  obtain ⟨aux, hrun, htot, hcols⟩ := writeBuckets_run
    (show aux₁.sendInterval = parsedInterval i from rfl) hi rfl hvalid hmono'
  refine ⟨text, _, aux, htext, hrows, ?_, ?_, fun col => ?_⟩
  · rw [writeBuckets_cons, hfirst]
    exact hrun
  · rw [htot, List.length_map, List.length_cons, Nat.add_comm]
  · obtain ⟨hcount, hleast, hgreatest⟩ := hcols col
    rw [column_computeDiffs]
    have hdiffs := tsDiffs_lt hfit (hmono' col)
    refine ⟨fun k => ?_, fun htwo => ?_⟩
    · rw [hcount k]
      exact Nat.zero_add _
    · have hnonempty : (tsDiffs col q ps).map UInt64.toNat ≠ [] := by
        rw [ne_eq, ← List.length_eq_zero_iff, List.length_map, length_tsDiffs]
        rw [List.length_cons] at htwo
        omega
      rw [toInt_column hdiffs]
      constructor
      · refine Monotone.map_isLeast (fun a b hab => Int.ofNat_le.2 hab)
          (isLeast_of_cons hleast hnonempty fun d hd => ?_)
        obtain ⟨u, -, rfl⟩ := List.mem_map.1 hd
        have hmax : (aux₁.minValues.relLatency col).toNat = 2 ^ 64 - 1 := by rfl
        have := u.toNat_lt
        omega
      · refine Monotone.map_isGreatest (fun a b hab => Int.ofNat_le.2 hab)
          (isGreatest_of_cons hgreatest hnonempty fun d hd => ?_)
        exact Nat.zero_le d

/-- Two payloads at an interval of 1000 ns, read by a reader that reads
decimals. -/
theorem histogram_eq_two :
    let p := newPingpongPayload 1
    let p' := (newPingpongPayload 2).setTs 0 7
    ∃ text rows aux, timestampFile [p, p'] = some text ∧
      parseTimestamps (fun text => (readDecimals text).map Int64.ofNat) text = some rows ∧
      writeBuckets (persistenceInitBuckets 1000) [p, p'] = some aux ∧
      aux.totPackets = rows.length ∧
      ∀ col, (∀ k, (aux.buckets k).relLatency col =
          histogram 1000 k (column (computeDiffs rows) col)) ∧
        (2 ≤ [p, p'].length →
          IsLeast {v : ℤ | ∃ d ∈ column (computeDiffs rows) col, d.toInt = v}
            (aux.minValues.relLatency col).toNat ∧
          IsGreatest {v : ℤ | ∃ d ∈ column (computeDiffs rows) col, d.toInt = v}
            (aux.maxValues.relLatency col).toNat) := by
  intro p p'
  have hfit : ∀ r ∈ [p, p'], r.id.toNat < 2 ^ 63 ∧ ∀ i, (r.ts i).toNat < 2 ^ 63 := by decide
  exact histogram_eq readsDecimals_readDecimals (by decide) (by decide) (by decide) hfit (by decide)

end DetBypass
