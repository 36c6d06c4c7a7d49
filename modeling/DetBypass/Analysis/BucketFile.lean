/-
# The bucket file and its analysis

`persistence_close_buckets` (`common/persistence.c`) writes five lines (the
number of packets, the two ranges with the width of their buckets, the minima
and the maxima) and one line of five counters for each of the
`NUM_BUCKETS + 2` buckets.  `parse_buckets` (`analysis/large-eval/lib.py`) reads
the lines with `readline`, `split (" ")` and `int`, and the counters with
`numpy.fromfile`, which is a parameter as in `Analysis.Timestamps`.

Python's `/` is a quotient of exact rationals here, and `none` is an exception.
Of what C writes Python takes the ends of the two ranges and the number of rows,
and computes the widths itself; `parseBuckets_of_close` is what it gets.  The
minima and maxima are the lists of integers that are given to `np.array`.
-/

import DetBypass.Lib.Line
import DetBypass.Common.Buckets
import DetBypass.Analysis.Timestamps
import Mathlib.Algebra.Order.Field.Rat
import Mathlib.Tactic.NormNum

namespace DetBypass

open Lib

variable {fromfile : List Char → List Int64} {aux : BucketData} {label : List Char}
  {values : List ℕ} {text : List Char}

/-! ### Writing -/

/-- The numbers of the line of a bucket and what follows each,
`"%lu %lu %lu %lu %lu\n"`. -/
def bucketItems (bucket : Bucket ℕ) : List (ℕ × List Char) :=
  [(bucket.relLatency 0, [' ']), (bucket.relLatency 1, [' ']), (bucket.relLatency 2, [' ']),
    (bucket.relLatency 3, [' ']), (bucket.absLatency, ['\n'])]

/-- The numbers of the line of the extremes. -/
def extremes (values : Bucket UInt64) : List ℕ :=
  [(values.relLatency 0).toNat, (values.relLatency 1).toNat, (values.relLatency 2).toNat,
    (values.relLatency 3).toNat, values.absLatency.toNat]

/-- What `persistence_close_buckets` writes to the file. -/
def persistenceCloseBuckets (aux : BucketData) : List Char :=
  let ranges := bucketRanges aux.sendInterval
  let relBucketSize := (ranges.relMax - ranges.relMin) / UInt64.ofNat numBuckets
  let absBucketSize := (ranges.absMax - ranges.absMin) / UInt64.ofNat numBuckets
  printLine ['T', 'O', 'T'] [aux.totPackets] ++
    (printLine ['R', 'E', 'L']
      [ranges.relMin.toNat, ranges.relMax.toNat, relBucketSize.toNat] ++
    (printLine ['A', 'B', 'S']
      [ranges.absMin.toNat, ranges.absMax.toNat, absBucketSize.toNat] ++
    (printLine ['M', 'I', 'N'] (extremes aux.minValues) ++
    (printLine ['M', 'A', 'X'] (extremes aux.maxValues) ++
    printDecimals ((List.range (numBuckets + 2)).flatMap fun i => bucketItems (aux.buckets i))))))

/-! ### Reading -/

/-- `BucketsInfo`. -/
structure BucketsInfo where
  minVal : ℤ
  maxVal : ℤ
  numBuckets : ℤ
  bucketSize : ℚ
deriving DecidableEq

/-- `BucketsInfo.from_list`, `none` where an index is out of range. -/
def BucketsInfo.fromList : List ℤ → Option BucketsInfo
  | minVal :: maxVal :: _ => some ⟨minVal, maxVal, 0, 0⟩
  | _ => none

/-- `BucketsHeader`. -/
structure BucketsHeader where
  totPackets : ℤ
  relInfo : BucketsInfo
  absInfo : BucketsInfo
  minPacket : List ℤ
  maxPacket : List ℤ
deriving DecidableEq

/-- `a / b` in Python. -/
def divide (a b : ℤ) : Option ℚ := if b = 0 then none else some ((a : ℚ) / b)

/-- `parse_buckets` on the text of a file. -/
def parseBuckets (fromfile : List Char → List Int64) (text : List Char) :
    Option (BucketsHeader × List (Fin 4 → Int64) × List Int64) := do
  let (line, text) := readLine text
  let tot ← (line.splitOn ' ')[1]?.bind readInt
  let (line, text) := readLine text
  let relInfo ← (readInts line).bind BucketsInfo.fromList
  let (line, text) := readLine text
  let absInfo ← (readInts line).bind BucketsInfo.fromList
  let (line, text) := readLine text
  let minPacket ← readInts line
  let (line, text) := readLine text
  let maxPacket ← readInts line
  let allBuckets ← reshape5 (fromfile text)
  let relBuckets := allBuckets.map fun row i => row i.castSucc
  let numBuckets : ℤ := relBuckets.length - 2
  let bucketSize ← divide (relInfo.maxVal - relInfo.minVal) numBuckets
  let relInfo := { relInfo with numBuckets := numBuckets, bucketSize := bucketSize }
  let absBuckets := allBuckets.map fun row => row (Fin.last 4)
  let numBuckets : ℤ := absBuckets.length - 2
  let bucketSize ← divide (absInfo.maxVal - relInfo.minVal) numBuckets
  let absInfo := { absInfo with numBuckets := numBuckets, bucketSize := bucketSize }
  some (⟨tot, relInfo, absInfo, minPacket, maxPacket⟩, relBuckets, absBuckets)

/-! ### What is read of what was written -/

/-- The row of a bucket. -/
def bucketRow (bucket : Bucket ℕ) : Fin 5 → Int64 :=
  @Fin.snoc 4 (fun _ => Int64) (fun i => Int64.ofNat (bucket.relLatency i))
    (Int64.ofNat bucket.absLatency)

/-- What Python knows of a column: its ends, and a width it computes from the
upper end and `low`. -/
def columnInfo (minVal maxVal low : ℤ) : BucketsInfo :=
  ⟨minVal, maxVal, numBuckets, ((maxVal - low : ℤ) : ℚ) / (numBuckets : ℤ)⟩

/-- `rel_info`. -/
def relInfo (interval : UInt64) : BucketsInfo :=
  columnInfo (bucketRanges interval).relMin.toNat (bucketRanges interval).relMax.toNat
    (bucketRanges interval).relMin.toNat

/-- `abs_info`: its width is computed from the lower end of the relative
columns. -/
def absInfo (interval : UInt64) : BucketsInfo :=
  columnInfo (bucketRanges interval).absMin.toNat (bucketRanges interval).absMax.toNat
    (bucketRanges interval).relMin.toNat

/-- The counters of a bucket fit an `int64`. -/
def Bucket.Fits (bucket : Bucket ℕ) : Prop :=
  (∀ i, bucket.relLatency i < 2 ^ 63) ∧ bucket.absLatency < 2 ^ 63

/-- All counters fit an `int64`. -/
def BucketData.CountsFit (aux : BucketData) : Prop :=
  ∀ n, (∀ i, (aux.buckets n).relLatency i < 2 ^ 63) ∧ (aux.buckets n).absLatency < 2 ^ 63

/-- The counters are read as they were written. -/
theorem fromfile_bucketItems (hfile : ReadsDecimals fromfile) {m : ℕ}
    (hcounts : ∀ n < m, (aux.buckets n).Fits) :
    reshape5 (fromfile (printDecimals
      ((List.range m).flatMap fun i => bucketItems (aux.buckets i)))) =
      some ((List.range m).map fun i => bucketRow (aux.buckets i)) := by
  have hspace : Blank [' '] := by simp [Blank]
  have hnewline : Blank ['\n'] := by simp [Blank]
  have hrow : ∀ n, (bucketItems (aux.buckets n)).map (fun item => Int64.ofNat item.1) =
      List.ofFn (bucketRow (aux.buckets n)) := fun n => rfl
  rw [hfile, List.map_flatMap, reshape5_flatMap hrow]
  intro item hitem
  obtain ⟨n, hn, hitem⟩ := List.mem_flatMap.1 hitem
  obtain ⟨hrel, habs⟩ := hcounts n (List.mem_range.1 hn)
  simp only [bucketItems, List.mem_cons, List.not_mem_nil, or_false] at hitem
  rcases hitem with rfl | rfl | rfl | rfl | rfl
  · exact ⟨hrel 0, hspace⟩
  · exact ⟨hrel 1, hspace⟩
  · exact ⟨hrel 2, hspace⟩
  · exact ⟨hrel 3, hspace⟩
  · exact ⟨habs, hnewline⟩

/-- What `parse_buckets` computes from what it reads: five lines, and `rows` of
counters of which two are no buckets. -/
theorem parseBuckets_of_read {line₁ line₂ line₃ line₄ line₅ text₁ text₂ text₃ text₄ text₅ :
    List Char} {tot relMin relMax absMin absMax : ℤ} {rel abs minPacket maxPacket : List ℤ}
    {rows : List (Fin 5 → Int64)} (n : ℤ)
    (h₁ : readLine text = (line₁, text₁)) (h₂ : readLine text₁ = (line₂, text₂))
    (h₃ : readLine text₂ = (line₃, text₃)) (h₄ : readLine text₃ = (line₄, text₄))
    (h₅ : readLine text₄ = (line₅, text₅)) (htot : (line₁.splitOn ' ')[1]?.bind readInt = some tot)
    (hrel : readInts line₂ = some (relMin :: relMax :: rel))
    (habs : readInts line₃ = some (absMin :: absMax :: abs))
    (hmin : readInts line₄ = some minPacket) (hmax : readInts line₅ = some maxPacket)
    (hrows : reshape5 (fromfile text₅) = some rows) (hn : (rows.length : ℤ) - 2 = n) (hne : n ≠ 0) :
    parseBuckets fromfile text = some (⟨tot, ⟨relMin, relMax, n, ((relMax - relMin : ℤ) : ℚ) / n⟩,
        ⟨absMin, absMax, n, ((absMax - relMin : ℤ) : ℚ) / n⟩, minPacket, maxPacket⟩,
      rows.map fun row i => row i.castSucc, rows.map fun row => row (Fin.last 4)) := by
  have hdiv : ∀ a, divide a n = some ((a : ℚ) / n) := fun a => if_neg hne
  simp only [parseBuckets, h₁, h₂, h₃, h₄, h₅, htot, hrel, habs, hmin, hmax, hrows, hdiv,
    BucketsInfo.fromList, Option.bind_eq_bind, Option.bind_some, List.length_map, hn]

/-- **Reading a bucket file** gives the number of packets, the ends of the
ranges, the extremes and the counters, and the widths that Python computes. -/
theorem parseBuckets_of_close (hfile : ReadsDecimals fromfile)
    (hcounts : ∀ n < numBuckets + 2, (aux.buckets n).Fits) :
    parseBuckets fromfile (persistenceCloseBuckets aux) =
      some (⟨aux.totPackets, relInfo aux.sendInterval, absInfo aux.sendInterval,
          (extremes aux.minValues).map fun v : ℕ => (v : ℤ),
          (extremes aux.maxValues).map fun v : ℕ => (v : ℤ)⟩,
        (List.range (numBuckets + 2)).map fun n i => bucketRow (aux.buckets n) i.castSucc,
        (List.range (numBuckets + 2)).map fun n => bucketRow (aux.buckets n) (Fin.last 4)) := by
  have hrows := fromfile_bucketItems hfile hcounts
  unfold persistenceCloseBuckets
  refine (parseBuckets_of_read numBuckets (readLine_printLine ?_ _ _) (readLine_printLine ?_ _ _)
    (readLine_printLine ?_ _ _) (readLine_printLine ?_ _ _) (readLine_printLine ?_ _ _)
    (bind_readInt_of_readInts (readInts_printLine ?_ (List.cons_ne_nil _ _)))
    (readInts_printLine ?_ (List.cons_ne_nil _ _)) (readInts_printLine ?_ (List.cons_ne_nil _ _))
    (readInts_printLine ?_ (List.cons_ne_nil _ _)) (readInts_printLine ?_ (List.cons_ne_nil _ _))
    hrows ?length (by decide)).trans ?result
  case result =>
    rw [List.map_map, List.map_map]
    rfl
  case length =>
    rw [List.length_map, List.length_range]
    omega
  all_goals decide

end DetBypass
