/-
# The edges of the buckets

`bucket_idx` (`common/persistence.c`) fills a bucket whose width is a truncated
quotient; `parse_buckets` (`analysis/large-eval/lib.py`) ignores the width in
the file and divides the range again, exactly.  A relative range is
`2 * OFFSET` wide, which `NUM_BUCKETS` divides, and the two agree.

The width of the absolute column is computed from the lower end of the relative
columns, a slip that matters from an interval of `OFFSET` on, where that end is
not 0; below, it is the quotient that C truncates.  So the absolute column is
read with the edges it was filled with exactly when the interval is a multiple
of `NUM_BUCKETS` below `OFFSET`, or at least `OFFSET` by less than `NUM_BUCKETS`
(`edges_iff`).
-/

import DetBypass.Analysis.BucketFile
import DetBypass.Analysis.Histogram
import Mathlib.Tactic.Ring

namespace DetBypass

variable {val min max : Int64} {k : UInt32} {interval : UInt64}

/-- The value is in the range Python gives to row `k`. -/
def BucketsInfo.InRow (info : BucketsInfo) (k : ℕ) (v : ℤ) : Prop :=
  info.minVal + ((k : ℚ) - 1) * info.bucketSize ≤ v ∧ (v : ℚ) < info.minVal + k * info.bucketSize

/-- What `bucket_idx` puts in a bucket is in the range of its row. -/
def Agrees (info : BucketsInfo) (min max : UInt64) : Prop :=
  ∀ v k, bucketIdx v min.toInt64 max.toInt64 = some k → 1 ≤ k.toNat → k.toNat ≤ numBuckets →
    info.InRow k.toNat v.toInt

/-! ### The ranges in integers -/

/-- The range of a row, multiplied by `NUM_BUCKETS`. -/
theorem inRow_columnInfo {minVal maxVal low v : ℤ} {k : ℕ} :
    (columnInfo minVal maxVal low).InRow k v ↔
      ((k : ℤ) - 1) * (maxVal - low) ≤ numBuckets * (v - minVal) ∧
        numBuckets * (v - minVal) < k * (maxVal - low) := by
  have hN : (0 : ℚ) < (numBuckets : ℤ) := by norm_num [numBuckets]
  unfold BucketsInfo.InRow columnInfo
  dsimp only
  rw [← mul_div_assoc, ← mul_div_assoc, ← le_sub_iff_add_le', div_le_iff₀ hN, ← sub_lt_iff_lt_add',
    lt_div_iff₀ hN, ← Int.cast_le (R := ℚ), ← Int.cast_lt (R := ℚ)]
  push_cast
  rw [mul_comm ((v : ℚ) - minVal)]

/-- **What is put in a bucket** between the first and the last is inside the
range, in the multiples of the truncated width. -/
theorem mem_of_bucketIdx (hlo : (numBuckets : ℤ) ≤ max.toInt - min.toInt)
    (hhi : max.toInt - min.toInt < 2 ^ 32 - 1) (hk : bucketIdx val min max = some k)
    (hone : 1 ≤ k.toNat) (hlast : k.toNat ≤ numBuckets) :
    (k.toNat : ℤ) = (val.toInt - min.toInt) / ((max.toInt - min.toInt) / numBuckets) + 1 := by
  rcases lt_or_ge val.toInt min.toInt with hlt | hge
  · rw [bucketIdx_of_lt hlt] at hk
    obtain rfl := Option.some.inj hk
    exact absurd hone (by decide)
  rcases lt_or_ge max.toInt val.toInt with hgt | hle
  · rw [bucketIdx_of_gt hge hgt] at hk
    obtain rfl := Option.some.inj hk
    exact absurd hlast (by decide)
  · obtain ⟨k', hk', hval⟩ := bucketIdx_inside hlo hhi hge hle
    obtain rfl := Option.some.inj (hk.symm.trans hk')
    exact hval

/-- **A column agrees** exactly when the width Python computes is the truncated
one. -/
theorem agrees_columnInfo_iff {min max : UInt64} {low : ℤ} (hmax : max.toNat < 2 ^ 32 - 1)
    (hlo : numBuckets + min.toNat ≤ max.toNat) :
    Agrees (columnInfo min.toNat max.toNat low) min max ↔
      (max.toNat : ℤ) - low = numBuckets * (((max.toNat : ℤ) - min.toNat) / numBuckets) := by
  have hN : numBuckets = 20000 := rfl
  have hminInt := toInt_toInt64_of_lt (x := min) (by omega)
  have hmaxInt := toInt_toInt64_of_lt (x := max) (by omega)
  have hlo' : (numBuckets : ℤ) ≤ max.toInt64.toInt - min.toInt64.toInt := by omega
  have hhi' : max.toInt64.toInt - min.toInt64.toInt < 2 ^ 32 - 1 := by omega
  generalize hsize : ((max.toNat : ℤ) - min.toNat) / (numBuckets : ℤ) = size
  have hpos : 0 < size := by
    rw [hN] at hsize
    omega
  have hfits : (numBuckets : ℤ) * size ≤ max.toNat - min.toNat := by
    rw [hN] at hsize ⊢
    omega
  constructor
  · intro h
    -- the first and the last value of the last bucket
    have hlast : ∀ v : ℤ, (numBuckets - 1) * size ≤ v → v < numBuckets * size →
        (numBuckets - 1) * ((max.toNat : ℤ) - low) ≤ numBuckets * v ∧
          numBuckets * v < numBuckets * ((max.toNat : ℤ) - low) := by
      intro v hv hv'
      have hv0 : 0 ≤ v := Int.le_trans (Int.mul_nonneg (by rw [hN]; decide) hpos.le) hv
      have hval : (Int64.ofInt (min.toNat + v)).toInt = min.toNat + v :=
        Int64.toInt_ofInt_of_le (by omega) (by omega)
      obtain ⟨k, hk, hkval⟩ := @bucketIdx_inside (Int64.ofInt (min.toNat + v)) _ _ hlo'
        hhi' (by omega) (by omega)
      have hquot : v / size = numBuckets - 1 := by
        refine le_antisymm (Int.le_of_lt_add_one ?_) ((Int.le_ediv_iff_mul_le hpos).2 hv)
        rw [sub_add_cancel]
        exact (Int.ediv_lt_iff_lt_mul hpos).2 hv'
      rw [hval, hminInt, hmaxInt, hsize, add_sub_cancel_left, hquot, sub_add_cancel] at hkval
      have hrow := h _ _ hk (by omega) (by omega)
      rwa [inRow_columnInfo, hval, hkval, add_sub_cancel_left] at hrow
    have hfirst := (hlast ((numBuckets - 1) * size) le_rfl (by rw [hN]; push_cast; omega)).1
    have hend := (hlast (numBuckets * size - 1) (by rw [hN]; push_cast; omega) (by omega)).2
    rw [hN] at hfirst hend ⊢
    push_cast at hfirst hend ⊢
    omega
  · intro h v k hk hone hlast
    have hval := mem_of_bucketIdx hlo' hhi' hk hone hlast
    rw [hminInt, hmaxInt, hsize] at hval
    rw [inRow_columnInfo, h]
    have hle : ((k.toNat : ℤ) - 1) * size ≤ v.toInt - min.toNat := by
      rw [hval, add_sub_cancel_right]
      exact Int.ediv_mul_le _ hpos.ne'
    have hlt : v.toInt - min.toNat < k.toNat * size := by
      rw [hval]
      exact Int.lt_ediv_add_one_mul_self _ hpos
    have hNpos : (0 : ℤ) < numBuckets := by decide
    constructor
    · calc ((k.toNat : ℤ) - 1) * (numBuckets * size)
          = numBuckets * (((k.toNat : ℤ) - 1) * size) := by ring
        _ ≤ numBuckets * (v.toInt - min.toNat) := Int.mul_le_mul_of_nonneg_left hle hNpos.le
    · calc numBuckets * (v.toInt - min.toNat)
          < numBuckets * (k.toNat * size) := Int.mul_lt_mul_of_pos_left hlt hNpos
        _ = k.toNat * (numBuckets * size) := by ring

/-! ### The edges of an interval -/

/-- **When the analysis reads the buckets with the edges they were filled with.**
What Python knows of a column does not depend on what was counted; the relative
columns agree at every interval, the absolute column at a multiple of
`NUM_BUCKETS` below `OFFSET`, and from `OFFSET` on for the next `NUM_BUCKETS`
intervals. -/
theorem edges_iff (hlt : interval.toNat < 2 ^ 31) :
    (∀ fromfile (aux : BucketData), ReadsDecimals fromfile → aux.sendInterval = interval →
      aux.CountsFit → ∃ header relBuckets absBuckets,
        parseBuckets fromfile (persistenceCloseBuckets aux) =
          some (header, relBuckets, absBuckets) ∧
        header.relInfo = relInfo interval ∧ header.absInfo = absInfo interval) ∧
      Agrees (relInfo interval) (bucketRanges interval).relMin (bucketRanges interval).relMax ∧
      (Agrees (absInfo interval) (bucketRanges interval).absMin (bucketRanges interval).absMax ↔
        interval.toNat < offset ∧ numBuckets ∣ interval.toNat ∨
        offset ≤ interval.toNat ∧ interval.toNat < offset + numBuckets) := by
  have hO : offset = 1000000 := rfl
  have hN : numBuckets = 20000 := rfl
  obtain ⟨hrelMin, hrelMax, habsMin, habsMax⟩ := bucketRanges_toNat hlt
  refine ⟨?_, ?_, ?_⟩
  · rintro fromfile aux hfile rfl hcounts
    exact ⟨_, _, _, parseBuckets_of_close hfile fun n _ => hcounts n, rfl, rfl⟩
  · rw [relInfo, agrees_columnInfo_iff (by omega) (by omega), hrelMax, hrelMin, hN]
    omega
  · rw [absInfo, agrees_columnInfo_iff (by omega) (by omega), habsMax, habsMin, hrelMin, hN]
    omega

/-- The file of an empty run at an interval of 20 us, read by a reader that
reads decimals, and its edges. -/
theorem edges_iff_twenty :
    (∃ header relBuckets absBuckets,
      parseBuckets (fun text => (Lib.readDecimals text).map Int64.ofNat)
        (persistenceCloseBuckets (persistenceInitBuckets 20000)) =
        some (header, relBuckets, absBuckets) ∧
      header.relInfo = relInfo 20000 ∧ header.absInfo = absInfo 20000) ∧
      Agrees (absInfo 20000) (bucketRanges 20000).absMin (bucketRanges 20000).absMax := by
  have hzero : 0 < 2 ^ 63 := by decide
  obtain ⟨hparse, -, habs⟩ := edges_iff (show (20000 : UInt64).toNat < 2 ^ 31 by decide)
  exact ⟨hparse _ _ readsDecimals_readDecimals rfl fun _ => ⟨fun _ => hzero, hzero⟩,
    habs.2 (Or.inl ⟨by decide, by decide⟩)⟩

/-- **Two intervals at which the absolute column is misread.**  At 2 ms a value
of 100 is in bucket 1, 150 wide, and Python's row 1 ends at 100; at 1 us a value
of 50 is in bucket 2, from 50 on, and Python's row 2 starts at 50.05. -/
theorem exists_not_inRow :
    (bucketIdx 100 (bucketRanges 2000000).absMin.toInt64 (bucketRanges 2000000).absMax.toInt64 =
        some 1 ∧ ¬ (absInfo 2000000).InRow 1 100) ∧
      bucketIdx 50 (bucketRanges 1000).absMin.toInt64 (bucketRanges 1000).absMax.toInt64 =
        some 2 ∧ ¬ (absInfo 1000).InRow 2 50 := by
  refine ⟨⟨by decide, ?_⟩, by decide, ?_⟩ <;> rw [absInfo, inRow_columnInfo] <;> decide

end DetBypass
