/-
# What the analysis has of a bucket file

`parse_buckets` (`analysis/large-eval/lib.py`) returns the numbers of the file
it is given, the extremes as `np.array (min_packet)` and `np.array (max_packet)`.

`np.array` of Python integers is a parameter, with what its documentation says
of natural numbers below `2^64` as a hypothesis (`PromotesIntegers`): each is an
`int64` below `2^63` and a `uint64` from there on, and the type of an array that
has both is what numpy promotes the two to, float64.  So a file is read back
exactly unless minima or maxima of both kinds stand together and one of them
has more than 53 significant bits (`roundTrips_iff`); `UINT64_MAX`, where the
minima start, is such a number.
-/

import DetBypass.Lib.Double
import DetBypass.Analysis.BucketFile
import DetBypass.Common.BucketCalls

namespace DetBypass

open Lib

variable {fromfile : List Char → List Int64} {array : List ℤ → List ℤ} {aux : BucketData}
  {l : List ℕ}

/-! ### Arrays of integers -/

/-- All of an `int64`, or none. -/
def OneType (l : List ℕ) : Prop :=
  (∀ v ∈ l, v < 2 ^ 63) ∨ ∀ v ∈ l, 2 ^ 63 ≤ v

/-- What numpy documents of the numbers in an array made of natural numbers. -/
structure PromotesIntegers (array : List ℤ → List ℤ) : Prop where
  same : ∀ l : List ℕ, (∀ v ∈ l, v < 2 ^ 64) → OneType l →
    array (l.map fun v : ℕ => (v : ℤ)) = l.map fun v : ℕ => (v : ℤ)
  mixed : ∀ l : List ℕ, (∀ v ∈ l, v < 2 ^ 64) → ¬OneType l →
    array (l.map fun v : ℕ => (v : ℤ)) = l.map fun v : ℕ => (double v : ℤ)

/-- An array that does. -/
def promoteIntegers (l : List ℤ) : List ℤ :=
  if l.all (·.toNat < 2 ^ 63) || l.all (2 ^ 63 ≤ ·.toNat) then l
  else l.map fun v => (double v.toNat : ℤ)

/-- It promotes as numpy does. -/
theorem promotesIntegers_promoteIntegers : PromotesIntegers promoteIntegers := by
  have hone : ∀ l : List ℕ, ((l.map fun v : ℕ => (v : ℤ)).all (·.toNat < 2 ^ 63) ||
      (l.map fun v : ℕ => (v : ℤ)).all (2 ^ 63 ≤ ·.toNat)) = true ↔ OneType l := fun l => by
    simp only [OneType, Bool.or_eq_true, List.all_map, List.all_eq_true, Function.comp_apply,
      decide_eq_true_eq, Int.toNat_natCast]
  refine ⟨fun l _ h => ?_, fun l _ h => ?_⟩
  · rw [promoteIntegers, if_pos ((hone l).2 h)]
  · rw [promoteIntegers, if_neg (mt (hone l).1 h), List.map_map]
    rfl

/-- The integers an array keeps: all of one type, or all with 53 significant
bits. -/
def ArrayExact (l : List ℕ) : Prop :=
  OneType l ∨ ∀ v ∈ l, spacing v ∣ v

/-- An array keeps its integers exactly where their type does. -/
theorem array_eq_iff (harray : PromotesIntegers array) (hlt : ∀ v ∈ l, v < 2 ^ 64) :
    array (l.map fun v : ℕ => (v : ℤ)) = (l.map fun v : ℕ => (v : ℤ)) ↔ ArrayExact l := by
  by_cases hone : OneType l
  · exact ⟨fun _ => Or.inl hone, fun _ => harray.same l hlt hone⟩
  · rw [harray.mixed l hlt hone, List.map_inj_left, ArrayExact, or_iff_right hone]
    refine forall₂_congr fun v _ => ?_
    rw [Int.natCast_inj, double_eq_iff]

/-- The extremes are `uint64_t`. -/
theorem extremes_lt (values : Bucket UInt64) : ∀ v ∈ extremes values, v < 2 ^ 64 := by
  intro v hv
  simp only [extremes, List.mem_cons, List.not_mem_nil, or_false] at hv
  rcases hv with rfl | rfl | rfl | rfl | rfl <;> exact UInt64.toNat_lt _

/-! ### The file read back -/

/-- What was read is what was recorded. -/
structure RoundTrips (array : List ℤ → List ℤ) (aux : BucketData) (header : BucketsHeader)
    (relBuckets : List (Fin 4 → Int64)) (absBuckets : List Int64) : Prop where
  totPackets : header.totPackets = aux.totPackets
  relMin : header.relInfo.minVal = (bucketRanges aux.sendInterval).relMin.toNat
  relMax : header.relInfo.maxVal = (bucketRanges aux.sendInterval).relMax.toNat
  relNum : header.relInfo.numBuckets = numBuckets
  absMin : header.absInfo.minVal = (bucketRanges aux.sendInterval).absMin.toNat
  absMax : header.absInfo.maxVal = (bucketRanges aux.sendInterval).absMax.toNat
  absNum : header.absInfo.numBuckets = numBuckets
  minPacket : array header.minPacket = (extremes aux.minValues).map fun v : ℕ => (v : ℤ)
  maxPacket : array header.maxPacket = (extremes aux.maxValues).map fun v : ℕ => (v : ℤ)
  relLength : relBuckets.length = numBuckets + 2
  relCounts : ∀ k < numBuckets + 2, ∀ i, relBuckets[k]?.map (fun row => (row i).toInt) =
    some ((aux.buckets k).relLatency i : ℤ)
  absLength : absBuckets.length = numBuckets + 2
  absCounts : ∀ k < numBuckets + 2, absBuckets[k]?.map Int64.toInt =
    some ((aux.buckets k).absLatency : ℤ)

/-- A relative counter is in its column of the row. -/
theorem bucketRow_castSucc_toInt {bucket : Bucket ℕ} (h : bucket.Fits) (i : Fin 4) :
    (bucketRow bucket i.castSucc).toInt = bucket.relLatency i := by
  rw [bucketRow, Fin.snoc_castSucc]
  exact Int64.toInt_ofNat_of_lt (h.1 i)

/-- The absolute counter is in the last. -/
theorem bucketRow_last_toInt {bucket : Bucket ℕ} (h : bucket.Fits) :
    (bucketRow bucket (Fin.last 4)).toInt = bucket.absLatency := by
  rw [bucketRow, Fin.snoc_last]
  exact Int64.toInt_ofNat_of_lt h.2

/-- **A bucket file is read back** exactly when the arrays keep the minima and
the maxima. -/
theorem roundTrips_iff (hfile : ReadsDecimals fromfile) (harray : PromotesIntegers array)
    (hcounts : ∀ k < numBuckets + 2, (aux.buckets k).Fits) :
    (∃ header relBuckets absBuckets,
      parseBuckets fromfile (persistenceCloseBuckets aux) =
        some (header, relBuckets, absBuckets) ∧
      RoundTrips array aux header relBuckets absBuckets) ↔
      ArrayExact (extremes aux.minValues) ∧ ArrayExact (extremes aux.maxValues) := by
  have hmin := array_eq_iff harray (extremes_lt aux.minValues)
  have hmax := array_eq_iff harray (extremes_lt aux.maxValues)
  rw [parseBuckets_of_close hfile hcounts]
  constructor
  · rintro ⟨header, relBuckets, absBuckets, hparse, h⟩
    obtain ⟨rfl, -⟩ := Prod.mk.inj (Option.some.inj hparse)
    exact ⟨hmin.1 h.minPacket, hmax.1 h.maxPacket⟩
  · intro h
    refine ⟨_, _, _, rfl, ?_⟩
    constructor
    case minPacket => exact hmin.2 h.1
    case maxPacket => exact hmax.2 h.2
    case relLength => rw [List.length_map, List.length_range]
    case absLength => rw [List.length_map, List.length_range]
    case relCounts =>
      intro k hk i
      rw [List.getElem?_map, List.getElem?_range hk]
      exact congrArg some (bucketRow_castSucc_toInt (hcounts k hk) i)
    case absCounts =>
      intro k hk
      rw [List.getElem?_map, List.getElem?_range hk]
      exact congrArg some (bucketRow_last_toInt (hcounts k hk))
    all_goals rfl

/-- The counters of a run of fewer than `2 ^ 63` payloads. -/
theorem fits_of_writeBuckets {interval : UInt64} {ps : List PingpongPayload}
    (h : writeBuckets (persistenceInitBuckets interval) ps = some aux)
    (hps : ps.length < 2 ^ 63) (k : ℕ) : (aux.buckets k).Fits := by
  obtain ⟨⟨rets, aux'⟩, hcalls, rfl⟩ := Option.map_eq_some_iff.1 h
  obtain ⟨hrel, habs⟩ := callWriteBuckets_counts_le hcalls k
  exact ⟨fun col => ((hrel col).trans_eq (Nat.zero_add _)).trans_lt hps,
    (habs.trans_eq (Nat.zero_add _)).trans_lt hps⟩

/-- Three payloads at 1 us: the differences of their time stamps lie in eight buckets of the
four columns, and their latencies in two of the last. -/
theorem roundTrips_iff_three : ∃ aux header relBuckets absBuckets,
    writeBuckets (persistenceInitBuckets 1000)
        [{ newPingpongPayload 1 with ts := ![0, 10, 20, 30] },
          { newPingpongPayload 2 with ts := ![1000, 1210, 1520, 1930] },
          { newPingpongPayload 3 with ts := ![2500, 3010, 3620, 4430] }] = some aux ∧
      (∀ col, (aux.buckets (![11, 13, 16, 20] col)).relLatency col = 1 ∧
        (aux.buckets (![16, 19, 22, 26] col)).relLatency col = 1) ∧
      (aux.buckets 7).absLatency = 1 ∧ (aux.buckets 14).absLatency = 1 ∧
      parseBuckets (fun text => (readDecimals text).map Int64.ofNat)
        (persistenceCloseBuckets aux) = some (header, relBuckets, absBuckets) ∧
      RoundTrips promoteIntegers aux header relBuckets absBuckets := by
  obtain ⟨aux, hwrites, hcounts, hmin, hmax⟩ : ∃ aux, writeBuckets (persistenceInitBuckets 1000)
      [{ newPingpongPayload 1 with ts := ![0, 10, 20, 30] },
        { newPingpongPayload 2 with ts := ![1000, 1210, 1520, 1930] },
        { newPingpongPayload 3 with ts := ![2500, 3010, 3620, 4430] }] = some aux ∧
      ((∀ col, (aux.buckets (![11, 13, 16, 20] col)).relLatency col = 1 ∧
        (aux.buckets (![16, 19, 22, 26] col)).relLatency col = 1) ∧
        (aux.buckets 7).absLatency = 1 ∧ (aux.buckets 14).absLatency = 1) ∧
      (∀ v ∈ extremes aux.minValues, v < 2 ^ 63) ∧ ∀ v ∈ extremes aux.maxValues, v < 2 ^ 63 :=
    ⟨_, rfl, by decide⟩
  obtain ⟨header, relBuckets, absBuckets, hfile⟩ := (roundTrips_iff readsDecimals_readDecimals
    promotesIntegers_promoteIntegers fun k _ => fits_of_writeBuckets hwrites (by decide) k).2
    ⟨Or.inl (Or.inl hmin), Or.inl (Or.inl hmax)⟩
  exact ⟨aux, header, relBuckets, absBuckets, hwrites, hcounts.1, hcounts.2.1, hcounts.2.2, hfile⟩

/-- Two payloads at 1 us, `ts[0]` of the second `2 ^ 63 + 1` after that of the
first and the others equal: the five minima are of both types, and the first is
read as `2 ^ 63`. -/
theorem exists_not_roundTrips :
    ∃ p q aux₁ aux₂, persistenceWriteBuckets (persistenceInitBuckets 1000) p = some (-1, aux₁) ∧
      persistenceWriteBuckets aux₁ q = some (0, aux₂) ∧
      (∀ k, (aux₂.buckets k).Fits) ∧
      ¬∃ header relBuckets absBuckets,
        parseBuckets (fun text => (readDecimals text).map Int64.ofNat)
          (persistenceCloseBuckets aux₂) = some (header, relBuckets, absBuckets) ∧
        RoundTrips promoteIntegers aux₂ header relBuckets absBuckets := by
  let p := newPingpongPayload 1
  let q := (newPingpongPayload 2).setTs 0 (UInt64.ofNat (2 ^ 63 + 1))
  let aux := { persistenceInitBuckets 1000 with totPackets := 1, prevPayload := p }
  have haccepts : aux.Accepts q := ⟨rfl, by decide⟩
  have hrel : ∀ i, aux.relIdx q i = some (![0, 1, 1, 1] i) := by decide
  have habs : aux.absIdx q = some (UInt32.ofNat (numBuckets + 1)) := by decide
  have hfits : ∀ k, ((aux.recorded q (fun i => (![0, 1, 1, 1] i : UInt32).toNat)
      (UInt32.ofNat (numBuckets + 1)).toNat).buckets k).Fits := by
    intro k
    refine ⟨fun i => ?_, ?_⟩
    · show 0 + (if _ then 1 else 0) < 2 ^ 63
      split_ifs <;> decide
    · show 0 + (if _ then 1 else 0) < 2 ^ 63
      split_ifs <;> decide
  refine ⟨p, q, aux, _, persistenceWriteBuckets_of_not_valid rfl,
    persistenceWriteBuckets_of_accepts haccepts hrel habs, hfits, ?_⟩
  rw [parseBuckets_of_close readsDecimals_readDecimals fun k _ => hfits k]
  rintro ⟨header, relBuckets, absBuckets, hparse, h⟩
  obtain ⟨rfl, -⟩ := Prod.mk.inj (Option.some.inj hparse)
  have hmin := (array_eq_iff promotesIntegers_promoteIntegers (extremes_lt _)).1 h.minPacket
  rcases hmin with (hlow | hhigh) | hexact
  · exact absurd (hlow _ (List.mem_cons_self ..)) (by decide)
  · exact absurd (hhigh _ (List.mem_cons_of_mem _ (List.mem_cons_self ..))) (by decide)
  · exact absurd (hexact _ (List.mem_cons_self ..)) (by decide)

end DetBypass
