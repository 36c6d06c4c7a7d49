/-
# The outlier buckets

Bucket 0 is for the values below the range and bucket `NUM_BUCKETS + 1` for
those above it, as a comment of `common/persistence.c` has it.  `bucket_idx`
finds both first and divides what is left, the upper end included, by a width
that is truncated: `NUM_BUCKETS` widths end at the upper end or before, so from
there up to the end the index is past `NUM_BUCKETS` (`outlierExact_iff`).  Of a
relative range, whose width `NUM_BUCKETS` divides, that is the upper end alone.
-/

import DetBypass.Common.BucketIndex

namespace DetBypass

variable {val val' min max : Int64} {interval : UInt64}

/-- The index tells whether the value is below, inside or above the range. -/
def OutlierExact (val min max : Int64) : Prop :=
  ∃ k, bucketIdx val min max = some k ∧ (k.toNat = 0 ↔ val.toInt < min.toInt) ∧
    (k.toNat = numBuckets + 1 ↔ max.toInt < val.toInt) ∧
    (min.toInt ≤ val.toInt → val.toInt ≤ max.toInt → 1 ≤ k.toNat ∧ k.toNat ≤ numBuckets)

/-- The relative and the absolute range of an interval. -/
def columnRanges (interval : UInt64) : List (Int64 × Int64) :=
  [((bucketRanges interval).relMin.toInt64, (bucketRanges interval).relMax.toInt64),
    ((bucketRanges interval).absMin.toInt64, (bucketRanges interval).absMax.toInt64)]

/-- The ends of a range of an interval. -/
theorem columnRanges_bounds (hlt : interval.toNat < 2 ^ 31) {r : Int64 × Int64}
    (hr : r ∈ columnRanges interval) :
    (numBuckets : ℤ) ≤ r.2.toInt - r.1.toInt ∧ r.2.toInt - r.1.toInt < 2 ^ 32 - 1 := by
  have hO : offset = 1000000 := rfl
  have hN : numBuckets = 20000 := rfl
  obtain ⟨hrelMin, hrelMax, habsMin, habsMax⟩ := bucketRanges_toNat hlt
  rcases List.mem_pair.1 hr with rfl | rfl
  · dsimp only
    rw [toInt_toInt64_of_lt (by omega), toInt_toInt64_of_lt (by omega)]
    omega
  · dsimp only
    rw [toInt_toInt64_of_lt (by omega), toInt_toInt64_of_lt (by omega)]
    omega

/-- A range of `NUM_BUCKETS` values has a bucket size. -/
theorem bucketSize_pos (hlo : (numBuckets : ℤ) ≤ max.toInt - min.toInt) :
    0 < (max.toInt - min.toInt) / (numBuckets : ℤ) := by
  have hN : (numBuckets : ℤ) = 20000 := rfl
  rw [hN] at hlo ⊢
  omega

/-- **Which values of a range are placed exactly**: those outside, and those in
the first `NUM_BUCKETS` widths. -/
theorem outlierExact_iff_lt (hlo : (numBuckets : ℤ) ≤ max.toInt - min.toInt)
    (hhi : max.toInt - min.toInt < 2 ^ 32 - 1) :
    OutlierExact val min max ↔ max.toInt < val.toInt ∨
      val.toInt < min.toInt + numBuckets * ((max.toInt - min.toInt) / numBuckets) := by
  have hN : (numBuckets : ℤ) = 20000 := rfl
  have hsize := bucketSize_pos hlo
  have hfirst : (UInt32.toNat 0) = 0 := rfl
  have hlast : (UInt32.ofNat (numBuckets + 1)).toNat = numBuckets + 1 := rfl
  rcases lt_or_ge val.toInt min.toInt with hlt | hge
  · refine iff_of_true ⟨0, bucketIdx_of_lt hlt, ?_, ?_, fun hge => ?_⟩ (Or.inr ?_)
    · exact iff_of_true rfl hlt
    · exact iff_of_false (by rw [hfirst]; omega) (by omega)
    · omega
    · rw [hN] at hsize ⊢
      omega
  rcases lt_or_ge max.toInt val.toInt with hgt | hle
  · refine iff_of_true ⟨_, bucketIdx_of_gt hge hgt, ?_, ?_, fun _ hle => ?_⟩ (Or.inl hgt)
    · exact iff_of_false (by rw [hlast]; omega) (by omega)
    · exact iff_of_true rfl hgt
    · omega
  · obtain ⟨k, hk, hval⟩ := bucketIdx_inside hlo hhi hge hle
    have hquot : 0 ≤ (val.toInt - min.toInt) / ((max.toInt - min.toInt) / numBuckets) :=
      Int.ediv_nonneg (by omega) hsize.le
    have hplaced : k.toNat ≤ numBuckets ↔
        val.toInt < min.toInt + numBuckets * ((max.toInt - min.toInt) / numBuckets) := by
      rw [← sub_lt_iff_lt_add', ← Int.ediv_lt_iff_lt_mul hsize]
      omega
    rw [← hplaced, or_iff_right (by omega)]
    constructor
    · rintro ⟨k', hk', -, -, hinside⟩
      obtain rfl := Option.some.inj (hk.symm.trans hk')
      exact (hinside hge hle).2
    · intro hkle
      exact ⟨k, hk, iff_of_false (by omega) (by omega), iff_of_false (by omega) (by omega),
        fun _ _ => ⟨by omega, hkle⟩⟩

/-- **Inside a range** the index does not decrease. -/
theorem bucketIdx_mono (hlo : (numBuckets : ℤ) ≤ max.toInt - min.toInt)
    (hhi : max.toInt - min.toInt < 2 ^ 32 - 1) (h : min.toInt ≤ val.toInt)
    (hle : val.toInt ≤ val'.toInt) (h' : val'.toInt ≤ max.toInt) :
    ∃ k k', bucketIdx val min max = some k ∧ bucketIdx val' min max = some k' ∧
      k.toNat ≤ k'.toNat := by
  obtain ⟨k, hk, hval⟩ := bucketIdx_inside hlo hhi h (hle.trans h')
  obtain ⟨k', hk', hval'⟩ := bucketIdx_inside hlo hhi (h.trans hle) h'
  have hquot : (val.toInt - min.toInt) / ((max.toInt - min.toInt) / numBuckets) ≤
      (val'.toInt - min.toInt) / ((max.toInt - min.toInt) / numBuckets) :=
    Int.ediv_le_ediv (bucketSize_pos hlo) (by omega)
  exact ⟨k, k', hk, hk', by omega⟩

/-- **When the outlier buckets hold exactly the outliers.**  In both ranges of
every interval the index of a value is 0, `NUM_BUCKETS + 1` or between as the
value is below, above or inside, if and only if the value is above the range or
before the end of the last of `NUM_BUCKETS` widths.  Inside the range the index
does not decrease. -/
theorem outlierExact_iff (hlt : interval.toNat < 2 ^ 31) {r : Int64 × Int64}
    (hr : r ∈ columnRanges interval) :
    (∀ val, 0 ≤ val.toInt → (OutlierExact val r.1 r.2 ↔ r.2.toInt < val.toInt ∨
      val.toInt < r.1.toInt + numBuckets * ((r.2.toInt - r.1.toInt) / numBuckets))) ∧
    ∀ val val', r.1.toInt ≤ val.toInt → val.toInt ≤ val'.toInt → val'.toInt ≤ r.2.toInt →
      ∃ k k', bucketIdx val r.1 r.2 = some k ∧ bucketIdx val' r.1 r.2 = some k' ∧
        k.toNat ≤ k'.toNat := by
  obtain ⟨hlo, hhi⟩ := columnRanges_bounds hlt hr
  exact ⟨fun val _ => outlierExact_iff_lt hlo hhi, fun val val' => bucketIdx_mono hlo hhi⟩

/-- At an interval of 1 us the absolute buckets are 50 wide: 999999 is in the
last of them. -/
theorem outlierExact_iff_thousand :
    OutlierExact 999999 (bucketRanges 1000).absMin.toInt64 (bucketRanges 1000).absMax.toInt64 := by
  have hr : ((bucketRanges 1000).absMin.toInt64, (bucketRanges 1000).absMax.toInt64) ∈
      columnRanges 1000 := List.mem_pair.2 (Or.inr rfl)
  exact ((outlierExact_iff (by decide) hr).1 999999 (by decide)).2 (Or.inr (by decide))

/-- **Two values inside the range with the index of those above it**, at an
interval of 1 us: the upper end of the relative range, and 1000000 in the absolute
range up to 1001000. -/
theorem exists_not_outlierExact :
    bucketIdx 2000000 (bucketRanges 1000).relMin.toInt64 (bucketRanges 1000).relMax.toInt64 =
        some 20001 ∧
      ¬ OutlierExact 2000000 (bucketRanges 1000).relMin.toInt64
        (bucketRanges 1000).relMax.toInt64 ∧
      bucketIdx 1000000 (bucketRanges 1000).absMin.toInt64 (bucketRanges 1000).absMax.toInt64 =
        some 20001 ∧
      ¬ OutlierExact 1000000 (bucketRanges 1000).absMin.toInt64
        (bucketRanges 1000).absMax.toInt64 := by
  refine ⟨by decide, ?_, by decide, ?_⟩
  · rw [outlierExact_iff_lt (by decide) (by decide)]
    decide
  · rw [outlierExact_iff_lt (by decide) (by decide)]
    decide

end DetBypass
