/-
# Which bucket a value falls in

`bucket_idx` (`common/persistence.c`) divides by `(max - min) / NUM_BUCKETS`,
a truncated quotient.  `bucketIdx_of_mem` is its value in integers.

The relative ranges of `bucket_ranges` are always `2 * OFFSET` wide, so every
relative difference has an index in `0 .. NUM_BUCKETS + 1` (`relIdx_lt`).  The
absolute range is `[0, interval + OFFSET]`, which `NUM_BUCKETS` divides for no
reason: with `A = interval + OFFSET` the buckets are `A / NUM_BUCKETS` wide and
what the quotient drops, `A % NUM_BUCKETS`, is at the upper end of the range,
past the last bucket.  So the index of an absolute latency stays inside exactly
when the latency is above the range, or below `(NUM_BUCKETS + 1)` widths; and
it does for every payload exactly when `A % NUM_BUCKETS < A / NUM_BUCKETS`, or
`A` is negative (`indexSafe_iff`).  At an interval of 50 ns a latency of 1 ms
falls out (`exists_not_indexSafe`).
-/

import DetBypass.Common.Buckets
import Mathlib.Tactic.Linarith

namespace DetBypass

variable {val min max : Int64}

/-! ### Signed and unsigned words -/

/-- A `uint64_t` passed as an `int64_t`. -/
theorem toInt_toInt64 (x : UInt64) : x.toInt64.toInt = (x.toNat : ℤ).bmod (2 ^ 64) := by
  change x.toBitVec.toInt = _
  rw [BitVec.toInt_eq_toNat_bmod]
  rfl

/-- A `uint64_t` below `2^63` keeps its value as an `int64_t`. -/
theorem toInt_toInt64_of_lt {x : UInt64} (h : x.toNat < 2 ^ 63) : x.toInt64.toInt = x.toNat := by
  rw [toInt_toInt64]
  exact Int.bmod_eq_of_le (by omega) (by omega)

/-- An `int64_t` that is not negative returned as a `uint32_t`. -/
theorem toUInt32_of_nonneg {x : Int64} (h : 0 ≤ x.toInt) :
    x.toUInt64.toUInt32 = UInt32.ofNat x.toInt.toNat := by
  have hx : (0 : Int64) ≤ x := Int64.le_iff_toInt_le.2 h
  apply UInt32.toNat_inj.1
  rw [UInt64.toNat_toUInt32, Int64.toNat_toUInt64_of_le hx, UInt32.toNat_ofNat',
    Int64.toNat_toInt]

/-- A difference in the range of `int64_t` does not wrap. -/
theorem toInt_sub_of_bounds {a b : Int64} (hlo : -2 ^ 63 ≤ a.toInt - b.toInt)
    (hhi : a.toInt - b.toInt < 2 ^ 63) : (a - b).toInt = a.toInt - b.toInt := by
  rw [Int64.toInt_sub]
  exact Int.bmod_eq_of_le (by omega) (by omega)

/-- Nor does such a sum. -/
theorem toInt_add_of_bounds {a b : Int64} (hlo : -2 ^ 63 ≤ a.toInt + b.toInt)
    (hhi : a.toInt + b.toInt < 2 ^ 63) : (a + b).toInt = a.toInt + b.toInt := by
  rw [Int64.toInt_add]
  exact Int.bmod_eq_of_le (by omega) (by omega)

/-- The quotient of two values that are not negative. -/
theorem toInt_div_of_nonneg {a b : Int64} (ha : 0 ≤ a.toInt) (hb : 0 ≤ b.toInt) :
    (a / b).toInt = a.toInt / b.toInt := by
  have hne : b ≠ -1 := by
    rintro rfl
    exact absurd hb (by decide)
  rw [Int64.toInt_div_of_ne_right a b hne, Int.tdiv_eq_ediv_of_nonneg ha]

/-! ### `bucket_idx` in integers -/

/-- Below the range the index is 0. -/
theorem bucketIdx_of_lt (h : val.toInt < min.toInt) : bucketIdx val min max = some 0 := by
  rw [bucketIdx, if_pos (Int64.lt_iff_toInt_lt.2 h)]

/-- Above it, it is the last. -/
theorem bucketIdx_of_gt (h : min.toInt ≤ val.toInt) (h' : max.toInt < val.toInt) :
    bucketIdx val min max = some (UInt32.ofNat (numBuckets + 1)) := by
  rw [bucketIdx, if_neg fun hlt => absurd (Int64.lt_iff_toInt_lt.1 hlt) (by omega),
    if_pos (Int64.lt_iff_toInt_lt.2 h')]

/-- **Inside the range** the index is the quotient by the truncated bucket
size, and there is none where the size is zero. -/
theorem bucketIdx_of_mem (h : min.toInt ≤ val.toInt) (h' : val.toInt ≤ max.toInt)
    (hrange : max.toInt - min.toInt < 2 ^ 62) :
    bucketIdx val min max = if (max.toInt - min.toInt) / numBuckets = 0 then none else
      some (UInt32.ofNat ((val.toInt - min.toInt) /
        ((max.toInt - min.toInt) / numBuckets) + 1).toNat) := by
  have hN : (numBuckets : ℤ) = 20000 := rfl
  have hNval : (Int64.ofNat numBuckets).toInt = numBuckets := by decide
  have hge : ¬ val < min := fun hlt => absurd (Int64.lt_iff_toInt_lt.1 hlt) (by omega)
  have hle : ¬ max < val := fun hlt => absurd (Int64.lt_iff_toInt_lt.1 hlt) (by omega)
  have hsub : (max - min).toInt = max.toInt - min.toInt :=
    toInt_sub_of_bounds (by omega) (by omega)
  have hval : (val - min).toInt = val.toInt - min.toInt :=
    toInt_sub_of_bounds (by omega) (by omega)
  have hsize : ((max - min) / Int64.ofNat numBuckets).toInt =
      (max.toInt - min.toInt) / numBuckets := by
    rw [toInt_div_of_nonneg (by omega) (by rw [hNval, hN]; decide), hsub, hNval]
  have hsize0 : 0 ≤ (max.toInt - min.toInt) / numBuckets :=
    Int.ediv_nonneg (by omega) (by omega)
  rw [bucketIdx, if_neg hge, if_neg hle]
  simp only [hge, hle, or_self, if_false]
  by_cases hzero : (max.toInt - min.toInt) / numBuckets = 0
  · have : (max - min) / Int64.ofNat numBuckets = 0 :=
      Int64.toInt_inj.1 (by rw [hsize, hzero]; rfl)
    rw [if_pos this, if_pos hzero]
  · have : (max - min) / Int64.ofNat numBuckets ≠ 0 := fun he =>
      hzero (by rw [← hsize, he]; rfl)
    have hquot : ((val - min) / ((max - min) / Int64.ofNat numBuckets)).toInt =
        (val.toInt - min.toInt) / ((max.toInt - min.toInt) / numBuckets) := by
      rw [toInt_div_of_nonneg (by omega) (by omega), hval, hsize]
    have hquot0 : 0 ≤ (val.toInt - min.toInt) / ((max.toInt - min.toInt) / numBuckets) :=
      Int.ediv_nonneg (by omega) hsize0
    have hquotle : (val.toInt - min.toInt) / ((max.toInt - min.toInt) / numBuckets) ≤
        val.toInt - min.toInt := Int.ediv_le_self _ (by omega)
    have hone : (1 : Int64).toInt = 1 := by decide
    have hidx : ((val - min) / ((max - min) / Int64.ofNat numBuckets) + 1).toInt =
        (val.toInt - min.toInt) / ((max.toInt - min.toInt) / numBuckets) + 1 := by
      rw [toInt_add_of_bounds (by omega) (by omega), hquot, hone]
    rw [if_neg this, if_neg hzero, toUInt32_of_nonneg (by omega), hidx]

/-- The bucket of a value inside the range. -/
theorem bucketIdx_inside (hlo : (numBuckets : ℤ) ≤ max.toInt - min.toInt)
    (hhi : max.toInt - min.toInt < 2 ^ 32 - 1) (h : min.toInt ≤ val.toInt)
    (h' : val.toInt ≤ max.toInt) :
    ∃ k, bucketIdx val min max = some k ∧
      (k.toNat : ℤ) = (val.toInt - min.toInt) / ((max.toInt - min.toInt) / numBuckets) + 1 := by
  have hN : (numBuckets : ℤ) = 20000 := rfl
  have hidx := bucketIdx_of_mem h h' (by omega)
  have hsize : 0 < (max.toInt - min.toInt) / (numBuckets : ℤ) := by
    rw [hN] at hlo ⊢
    omega
  rw [if_neg hsize.ne'] at hidx
  have hquot0 : 0 ≤ (val.toInt - min.toInt) / ((max.toInt - min.toInt) / numBuckets) :=
    Int.ediv_nonneg (by omega) hsize.le
  have hquot : (val.toInt - min.toInt) / ((max.toInt - min.toInt) / numBuckets) ≤
      val.toInt - min.toInt := Int.ediv_le_self _ (by omega)
  refine ⟨_, hidx, ?_⟩
  rw [UInt32.toNat_ofNat']
  omega

/-- **The division by zero**: a value inside a range that is narrower than the number of
buckets. -/
theorem bucketIdx_eq_none_iff (hrange : max.toInt - min.toInt < 2 ^ 63) :
    bucketIdx val min max = none ↔
      min.toInt ≤ val.toInt ∧ val.toInt ≤ max.toInt ∧ max.toInt - min.toInt < numBuckets := by
  have hN : (numBuckets : ℤ) = 20000 := rfl
  rcases lt_or_ge val.toInt min.toInt with hlt | hge
  · rw [bucketIdx_of_lt hlt]
    exact iff_of_false (by simp) (by omega)
  rcases lt_or_ge max.toInt val.toInt with hgt | hle
  · rw [bucketIdx_of_gt hge hgt]
    exact iff_of_false (by simp) (by omega)
  have hNval : (Int64.ofNat numBuckets).toInt = numBuckets := by decide
  have hsub : (max - min).toInt = max.toInt - min.toInt :=
    toInt_sub_of_bounds (by omega) (by omega)
  have hsize : ((max - min) / Int64.ofNat numBuckets).toInt =
      (max.toInt - min.toInt) / numBuckets := by
    rw [toInt_div_of_nonneg (by omega) (by rw [hNval, hN]; decide), hsub, hNval]
  have hzero : (max - min) / Int64.ofNat numBuckets = 0 ↔
      (max.toInt - min.toInt) / numBuckets = 0 := by
    rw [← Int64.toInt_inj, hsize]
    rfl
  rw [bucketIdx, if_neg fun h => absurd (Int64.lt_iff_toInt_lt.1 h) (by omega),
    if_neg fun h => absurd (Int64.lt_iff_toInt_lt.1 h) (by omega)]
  simp only [Int64.lt_iff_toInt_lt, not_lt.2 hge, not_lt.2 hle, or_self, if_false]
  split_ifs with h
  · exact iff_of_true rfl ⟨hge, hle, by rw [hzero, hN] at h; omega⟩
  · exact iff_of_false (by simp) fun h' => h (hzero.2 (by rw [hN] at h' ⊢; omega))

/-! ### The ranges of an interval -/

/-- The ends of the ranges. -/
theorem bucketRanges_toNat {interval : UInt64} (hlt : interval.toNat < 2 ^ 31) :
    (bucketRanges interval).relMin.toNat = interval.toNat - offset ∧
      (bucketRanges interval).relMax.toNat = interval.toNat - offset + 2 * offset ∧
      (bucketRanges interval).absMin.toNat = 0 ∧
      (bucketRanges interval).absMax.toNat = interval.toNat + offset := by
  have hO : offset = 1000000 := rfl
  have hval : (UInt64.ofNat offset).toNat = offset := rfl
  have hsum : (interval + UInt64.ofNat offset).toNat = interval.toNat + offset := by
    rw [UInt64.toNat_add, hval]
    omega
  unfold bucketRanges
  dsimp only
  refine ⟨?_, ?_, rfl, hsum⟩
  · split_ifs with h <;> rw [UInt64.lt_iff_toNat_lt, hval] at h
    · show 0 = _
      omega
    · rw [UInt64.toNat_sub_of_le _ _ (UInt64.le_iff_toNat_le.2 (by omega)), hval]
  · split_ifs with h <;> rw [UInt64.lt_iff_toNat_lt, hval] at h
    · show 2 * offset = _
      omega
    · omega

/-- The interval the argument parsers store: the `int` of `atoi`, sign-extended
to `uint64_t`. -/
def parsedInterval (i : Int32) : UInt64 := i.toInt64.toUInt64

/-- As an `int64_t` the interval is the number that was parsed. -/
theorem parsedInterval_toInt64 (i : Int32) : (parsedInterval i).toInt64 = i.toInt64 := rfl

/-- `OFFSET` is a positive `int64_t`. -/
theorem offset_toInt64 : (UInt64.ofNat offset).toInt64.toInt = offset := by decide

/-- The lower end of the absolute range. -/
theorem absMin_toInt (interval : UInt64) :
    (bucketRanges interval).absMin.toInt64.toInt = 0 := by
  change (0 : UInt64).toInt64.toInt = 0
  decide

/-- `interval + OFFSET`, the upper end of the absolute range. -/
theorem absMax_toInt (i : Int32) :
    (bucketRanges (parsedInterval i)).absMax.toInt64.toInt = i.toInt + offset := by
  have hlo := i.le_toInt
  have hhi := i.toInt_lt
  have hO : (offset : ℤ) = 1000000 := rfl
  rw [bucketRanges, UInt64.toInt64_add, parsedInterval_toInt64,
    toInt_add_of_bounds (by rw [offset_toInt64, Int32.toInt_toInt64]; omega)
      (by rw [offset_toInt64, Int32.toInt_toInt64]; omega), offset_toInt64, Int32.toInt_toInt64]

/-- **Every relative range is `2 * OFFSET` wide**, or empty where its upper end
does not fit `int64_t`. -/
theorem relRange_toInt (interval : UInt64) :
    (bucketRanges interval).relMax.toInt64.toInt =
        (bucketRanges interval).relMin.toInt64.toInt + 2 * offset ∨
      (bucketRanges interval).relMax.toInt64.toInt <
        (bucketRanges interval).relMin.toInt64.toInt := by
  have hO : (offset : ℤ) = 1000000 := rfl
  rw [bucketRanges]
  by_cases hlt : interval < UInt64.ofNat offset
  · rw [if_pos hlt, if_pos hlt]
    refine Or.inl ?_
    change (2 * UInt64.ofNat offset).toInt64.toInt = (0 : UInt64).toInt64.toInt + 2 * offset
    decide
  · rw [if_neg hlt, if_neg hlt]
    have hmax : interval + UInt64.ofNat offset =
        interval - UInt64.ofNat offset + UInt64.ofNat (2 * offset) := by
      rw [show UInt64.ofNat (2 * offset) = UInt64.ofNat offset + UInt64.ofNat offset from rfl,
        ← UInt64.add_assoc, UInt64.sub_add_cancel]
    have hwidth : (UInt64.ofNat (2 * offset)).toInt64.toInt = 2 * offset := by decide
    rw [hmax, UInt64.toInt64_add, Int64.toInt_add, hwidth]
    have hlo := (interval - UInt64.ofNat offset).toInt64.le_toInt
    have hhi := (interval - UInt64.ofNat offset).toInt64.toInt_lt
    generalize (interval - UInt64.ofNat offset).toInt64.toInt = min at hlo hhi
    rw [Int.bmod_def]
    omega

/-- An interval the parsers store is the `uint64_t` of its value. -/
theorem exists_parsedInterval {interval : UInt64} (h : interval.toNat < 2 ^ 31) :
    ∃ i, interval = parsedInterval i ∧ i.toInt = interval.toNat := by
  have hval : (Int32.ofNat interval.toNat).toInt = interval.toNat := Int32.toInt_ofNat_of_lt h
  refine ⟨Int32.ofNat interval.toNat, ?_, hval⟩
  have : interval.toInt64 = (Int32.ofNat interval.toNat).toInt64 := Int64.toInt_inj.1 (by
    rw [Int32.toInt_toInt64, hval, toInt_toInt64_of_lt (by omega)])
  rw [parsedInterval, ← this]
  rfl

/-! ### The five calls -/

namespace BucketData

variable {aux : BucketData} {payload : PingpongPayload} {i : Int32}

/-- **A relative difference has a bucket**, whatever the difference. -/
theorem relIdx_lt (aux : BucketData) (payload : PingpongPayload) (col : Fin 4) :
    ∃ k, aux.relIdx payload col = some k ∧ k.toNat < numBuckets + 2 := by
  have hN : numBuckets = 20000 := rfl
  have hO : (offset : ℤ) = 1000000 := rfl
  have hrange := relRange_toInt aux.sendInterval
  rw [relIdx]
  generalize (bucketRanges aux.sendInterval).relMin.toInt64 = min at *
  generalize (bucketRanges aux.sendInterval).relMax.toInt64 = max at *
  generalize (aux.tsDiff payload col).toInt64 = val
  rcases lt_or_ge val.toInt min.toInt with hlt | hge
  · exact ⟨0, bucketIdx_of_lt hlt, by decide⟩
  · rcases lt_or_ge max.toInt val.toInt with hgt | hle
    · exact ⟨_, bucketIdx_of_gt hge hgt, by decide⟩
    · have hmax : max.toInt = min.toInt + 2 * offset := hrange.resolve_right (by omega)
      have hsize : (max.toInt - min.toInt) / (numBuckets : ℤ) = 100 := by
        rw [show (numBuckets : ℤ) = 20000 from rfl]
        omega
      have hquot0 : 0 ≤ (val.toInt - min.toInt) / 100 := by omega
      have hquot : (val.toInt - min.toInt) / 100 ≤ 20000 := by omega
      have hidx := bucketIdx_of_mem hge hle (by omega)
      rw [hsize, if_neg (by decide)] at hidx
      refine ⟨_, hidx, ?_⟩
      rw [UInt32.toNat_ofNat']
      omega

/-- Half of a `uint64_t` is not negative as an `int64_t`. -/
theorem computeLatency_toInt (payload : PingpongPayload) :
    (computeLatency payload).toInt64.toInt = (computeLatency payload).toNat := by
  apply toInt_toInt64_of_lt
  have hlt := ((payload.ts 3 - payload.ts 0) - (payload.ts 2 - payload.ts 1)).toNat_lt
  rw [computeLatency, UInt64.toNat_div]
  exact (Nat.div_lt_iff_lt_mul (by decide)).2 (by simpa using hlt)

/-- **The call on the absolute latency divides by zero** exactly for a latency in a range
that is narrower than the number of buckets. -/
theorem absIdx_eq_none_iff : aux.absIdx payload = none ↔
    (computeLatency payload).toNat ≤ (aux.sendInterval + UInt64.ofNat offset).toNat ∧
      (aux.sendInterval + UInt64.ofNat offset).toNat < numBuckets := by
  have hN : numBuckets = 20000 := rfl
  have hval := computeLatency_toInt payload
  have hmin := absMin_toInt aux.sendInterval
  have hmax : (bucketRanges aux.sendInterval).absMax.toInt64.toInt =
      ((aux.sendInterval + UInt64.ofNat offset).toNat : ℤ).bmod (2 ^ 64) := toInt_toInt64 _
  have hlt := (aux.sendInterval + UInt64.ofNat offset).toNat_lt
  generalize (aux.sendInterval + UInt64.ofNat offset).toNat = A at *
  have hbmod : (A : ℤ).bmod (2 ^ 64) = if A < 2 ^ 63 then (A : ℤ) else A - 2 ^ 64 := by
    rw [Int.bmod_def]
    split_ifs <;> omega
  rw [hbmod] at hmax
  rw [absIdx, bucketIdx_eq_none_iff (by split_ifs at hmax <;> omega), hmin, hmax, hval]
  split_ifs <;> omega

/-- A positive interval leaves no bucket of size zero. -/
theorem absIdx_isSome (haux : aux.sendInterval = parsedInterval i) (hi : 0 ≤ i.toInt)
    (payload : PingpongPayload) : ∃ l, aux.absIdx payload = some l := by
  refine Option.ne_none_iff_exists'.1 fun hnone => ?_
  have hlt := (absIdx_eq_none_iff.1 hnone).2
  have hmax := absMax_toInt i
  rw [← haux, toInt_toInt64_of_lt (by exact hlt.trans (by decide))] at hmax
  have hN : numBuckets = 20000 := rfl
  have hO : (offset : ℤ) = 1000000 := rfl
  change ((aux.sendInterval + UInt64.ofNat offset).toNat : ℤ) = _ at hmax
  omega

/-- **The bucket of an absolute latency** is one that is written to the file
exactly when the latency is above the range, or below `NUM_BUCKETS + 1` bucket
sizes. -/
theorem absIdx_lt_iff (haux : aux.sendInterval = parsedInterval i) :
    (∃ k, aux.absIdx payload = some k ∧ k.toNat < numBuckets + 2) ↔
      i.toInt + offset < (computeLatency payload).toNat ∨
      (computeLatency payload).toNat < (numBuckets + 1) * ((i.toInt + offset) / numBuckets) := by
  have hhi := i.toInt_lt
  have hN : numBuckets = 20000 := rfl
  have hO : (offset : ℤ) = 1000000 := rfl
  have hmax := absMax_toInt i
  have hval := computeLatency_toInt payload
  have hmin := absMin_toInt (parsedInterval i)
  rw [absIdx, haux]
  generalize (bucketRanges (parsedInterval i)).absMin.toInt64 = min at *
  generalize (bucketRanges (parsedInterval i)).absMax.toInt64 = max at *
  generalize (computeLatency payload).toInt64 = val at *
  generalize (computeLatency payload).toNat = L at *
  rcases lt_or_ge max.toInt val.toInt with hgt | hle
  · exact iff_of_true ⟨_, bucketIdx_of_gt (by omega) hgt, by decide⟩ (Or.inl (by omega))
  · rw [bucketIdx_of_mem (by omega) hle (by omega), hmax, hmin, hval, sub_zero, sub_zero]
    generalize hsize : (i.toInt + (offset : ℤ)) / (numBuckets : ℤ) = size
    have hsize0 : 0 ≤ size := hsize ▸ Int.ediv_nonneg (by omega) (by omega)
    rcases hsize0.eq_or_lt with rfl | hpos
    · refine iff_of_false ?_ (by omega)
      rintro ⟨k, hk, -⟩
      simp at hk
    · have hquot0 : 0 ≤ (L : ℤ) / size := Int.ediv_nonneg (by omega) hsize0
      have hquotle : (L : ℤ) / size ≤ L := Int.ediv_le_self _ (by omega)
      rw [if_neg hpos.ne']
      have hidx : (UInt32.ofNat ((L : ℤ) / size + 1).toNat).toNat = ((L : ℤ) / size + 1).toNat := by
        rw [UInt32.toNat_ofNat']
        omega
      constructor
      · rintro ⟨k, hk, hlt⟩
        obtain rfl := Option.some.inj hk
        rw [hidx] at hlt
        exact Or.inr ((Int.ediv_lt_iff_lt_mul hpos).1 (by omega))
      · rintro (hgt | hlt)
        · omega
        · refine ⟨_, rfl, ?_⟩
          rw [hidx]
          have := (Int.ediv_lt_iff_lt_mul hpos).2 hlt
          omega

/-- Every call of `bucket_idx` for the payload divides by a bucket size other
than zero and returns the index of a bucket that is written to the file. -/
def IndexSafe (aux : BucketData) (payload : PingpongPayload) : Prop :=
  (∀ col, ∃ k, aux.relIdx payload col = some k ∧ k.toNat < numBuckets + 2) ∧
    ∃ k, aux.absIdx payload = some k ∧ k.toNat < numBuckets + 2

/-- The four relative indices are always safe: only the absolute one decides. -/
theorem indexSafe_iff_abs (haux : aux.sendInterval = parsedInterval i) :
    aux.IndexSafe payload ↔
      i.toInt + offset < (computeLatency payload).toNat ∨
      (computeLatency payload).toNat < (numBuckets + 1) * ((i.toInt + offset) / numBuckets) := by
  rw [IndexSafe, absIdx_lt_iff haux]
  exact and_iff_right (relIdx_lt aux payload)

end BucketData

/-- A payload whose last time stamp alone is set. -/
def latePayload (L : ℕ) : PingpongPayload :=
  (newPingpongPayload 1).setTs 3 (UInt64.ofNat (2 * L))

/-- Its latency is half of its last time stamp. -/
theorem computeLatency_latePayload {L : ℕ} (h : L < 2 ^ 63) :
    (computeLatency (latePayload L)).toNat = L := by
  have hts : ∀ j : Fin 4, j ≠ 3 → (latePayload L).ts j = 0 := fun j hj => by
    rw [latePayload, PingpongPayload.setTs_ts_ne hj]
    fin_cases j <;> first | exact absurd rfl hj | rfl
  have hval : (UInt64.ofNat (2 * L)).toNat = 2 * L := by
    rw [UInt64.toNat_ofNat']
    omega
  rw [computeLatency, hts 0 (by decide), hts 1 (by decide), hts 2 (by decide), latePayload,
    PingpongPayload.setTs_ts, UInt64.toNat_div]
  change (UInt64.ofNat (2 * L) - 0 - (0 - 0)).toNat / 2 = L
  simp only [UInt64.sub_zero, hval]
  omega

/-- The data after a first payload with all time stamps zero. -/
def primedBuckets (interval : UInt64) : BucketData :=
  { persistenceInitBuckets interval with totPackets := 1, prevPayload := newPingpongPayload 1 }

/-- It is accepted after the first payload. -/
theorem primedBuckets_accepts (interval : UInt64) (L : ℕ) :
    (primedBuckets interval).Accepts (latePayload L) := by
  refine ⟨rfl, fun j => UInt64.le_iff_toNat_le.2 ?_⟩
  have : (primedBuckets interval).prevPayload.ts j = 0 := by
    fin_cases j <;> rfl
  rw [this]
  exact Nat.zero_le _

/-- **Which indices are safe.**  For an interval `i` and an accepted payload all
five calls of `bucket_idx` are safe iff the absolute latency is above the range
`[0, i + OFFSET]` or below `NUM_BUCKETS + 1` bucket sizes.  They are safe for
every accepted payload iff the range is empty or what its division by
`NUM_BUCKETS` leaves is less than a bucket size. -/
theorem indexSafe_iff (i : Int32) :
    (∀ (aux : BucketData) payload, aux.sendInterval = parsedInterval i → aux.Accepts payload →
      (aux.IndexSafe payload ↔
        i.toInt + offset < (computeLatency payload).toNat ∨
        (computeLatency payload).toNat <
          (numBuckets + 1) * ((i.toInt + offset) / numBuckets))) ∧
    ((∀ (aux : BucketData) payload, aux.sendInterval = parsedInterval i → aux.Accepts payload →
        aux.IndexSafe payload) ↔
      i.toInt + offset < 0 ∨
      (i.toInt + offset) % numBuckets < (i.toInt + offset) / numBuckets) := by
  have hhi := i.toInt_lt
  have hO : (offset : ℤ) = 1000000 := rfl
  have hN : (numBuckets : ℤ) = 20000 := rfl
  rw [hN]
  refine ⟨fun aux payload haux _ => BucketData.indexSafe_iff_abs haux, fun h => ?_,
    fun h aux payload haux _ => ?_⟩
  · by_contra hc
    rw [not_or, not_lt, not_lt] at hc
    -- the first latency past the last bucket is still inside the range
    obtain ⟨L, hL⟩ : ∃ L : ℕ, (L : ℤ) = (20000 + 1) * ((i.toInt + offset) / 20000) :=
      ⟨((20000 + 1) * ((i.toInt + offset) / 20000)).toNat, by omega⟩
    have hsafe := h (primedBuckets (parsedInterval i)) (latePayload L) rfl
      (primedBuckets_accepts _ L)
    rw [BucketData.indexSafe_iff_abs rfl, computeLatency_latePayload (by omega), hN] at hsafe
    omega
  · rw [BucketData.indexSafe_iff_abs haux, hN]
    omega

/-- **An index past the last bucket, and a division by zero.**  At an interval
of 50 ns a latency of `1000050` ns is counted in bucket `20002`, one past those
written to the file; at an interval of `-990000` a latency of `0` divides by
zero. -/
theorem exists_not_indexSafe :
    (primedBuckets (parsedInterval 50)).Accepts (latePayload 1000050) ∧
      (primedBuckets (parsedInterval 50)).absIdx (latePayload 1000050) =
        some (UInt32.ofNat (numBuckets + 2)) ∧
      ¬ (primedBuckets (parsedInterval 50)).IndexSafe (latePayload 1000050) ∧
      (primedBuckets (parsedInterval (-990000))).Accepts (latePayload 0) ∧
      (primedBuckets (parsedInterval (-990000))).absIdx (latePayload 0) = none ∧
      ¬ (primedBuckets (parsedInterval (-990000))).IndexSafe (latePayload 0) := by
  have h : (primedBuckets (parsedInterval 50)).absIdx (latePayload 1000050) =
      some (UInt32.ofNat (numBuckets + 2)) := by decide
  have h' : (primedBuckets (parsedInterval (-990000))).absIdx (latePayload 0) = none := by decide
  refine ⟨primedBuckets_accepts _ _, h, fun hs => ?_, primedBuckets_accepts _ _, h', fun hs => ?_⟩
  · obtain ⟨k, hk, hlt⟩ := hs.2
    obtain rfl := Option.some.inj (h.symm.trans hk)
    exact absurd hlt (by decide)
  · obtain ⟨k, hk, -⟩ := hs.2
    cases h'.symm.trans hk

end DetBypass
