/-
# The latency histogram

`common/persistence.c`: `bucket_idx`, `bucket_ranges`, `persistence_init_buckets`
and `persistence_write_buckets`.  `bucket_idx` works in `int64_t` and its index
is a `uint32_t`; the ranges and the time stamps are `uint64_t`.  A division by
zero is `none`.

The buckets are memory: an index past the ones `persistence_close_buckets`
writes increments memory past them (the mapping is a whole number of huge pages
and ends later).  The counters and `tot_packets` are natural numbers, as no run
brings a 64-bit counter to its end.

`persistenceWriteBuckets_of_accepts` is the specification of one call; the two
calls that record nothing are `persistenceWriteBuckets_of_not_valid` and
`persistenceWriteBuckets_of_lt`.
-/

import DetBypass.Common.Payload

namespace DetBypass

/-- `NUM_BUCKETS`. -/
def numBuckets : ℕ := 20000

/-- `OFFSET`. -/
def offset : ℕ := 1000000

/-- `bucket_idx`, `none` where it divides by zero. -/
def bucketIdx (val min max : Int64) : Option UInt32 :=
  if val < min then some 0
  else if max < val then some (UInt32.ofNat (numBuckets + 1))
  else
    let bucketSize := (max - min) / Int64.ofNat numBuckets
    if val < min ∨ max < val then some (-1)
    else if bucketSize = 0 then none
    else some ((val - min) / bucketSize + 1).toUInt64.toUInt32

/-- What `bucket_ranges` stores through its four pointers. -/
structure BucketRanges where
  relMin : UInt64
  relMax : UInt64
  absMin : UInt64
  absMax : UInt64

/-- `bucket_ranges`. -/
def bucketRanges (interval : UInt64) : BucketRanges where
  relMin := if interval < UInt64.ofNat offset then 0 else interval - UInt64.ofNat offset
  relMax := if interval < UInt64.ofNat offset then 2 * UInt64.ofNat offset
    else interval + UInt64.ofNat offset
  absMin := 0
  absMax := interval + UInt64.ofNat offset

/-- `struct bucket`, its counters or its extremes. -/
@[ext] structure Bucket (α : Type) where
  relLatency : Fin 4 → α
  absLatency : α
deriving DecidableEq

/-- `struct bucket_data`. -/
@[ext] structure BucketData where
  totPackets : ℕ
  sendInterval : UInt64
  minValues : Bucket UInt64
  maxValues : Bucket UInt64
  buckets : ℕ → Bucket ℕ
  prevPayload : PingpongPayload

/-- `persistence_init_buckets`: zeroed memory, `UINT64_MAX` minima. -/
def persistenceInitBuckets (interval : UInt64) : BucketData where
  totPackets := 0
  sendInterval := interval
  minValues := ⟨fun _ => UInt64.ofNat (2 ^ 64 - 1), UInt64.ofNat (2 ^ 64 - 1)⟩
  maxValues := ⟨fun _ => 0, 0⟩
  buckets := fun _ => ⟨fun _ => 0, 0⟩
  prevPayload := .zero

namespace BucketData

/-- `payload->ts[i] - aux->prev_payload.ts[i]`. -/
def tsDiff (aux : BucketData) (payload : PingpongPayload) (i : Fin 4) : UInt64 :=
  payload.ts i - aux.prevPayload.ts i

/-- The call of `bucket_idx` on the difference of column `i`. -/
def relIdx (aux : BucketData) (payload : PingpongPayload) (i : Fin 4) : Option UInt32 :=
  bucketIdx (aux.tsDiff payload i).toInt64 (bucketRanges aux.sendInterval).relMin.toInt64
    (bucketRanges aux.sendInterval).relMax.toInt64

/-- The call of `bucket_idx` on the absolute latency. -/
def absIdx (aux : BucketData) (payload : PingpongPayload) : Option UInt32 :=
  bucketIdx (computeLatency payload).toInt64 (bucketRanges aux.sendInterval).absMin.toInt64
    (bucketRanges aux.sendInterval).absMax.toInt64

/-- The payload comes after a stored one and no time stamp of it is earlier. -/
def Accepts (aux : BucketData) (payload : PingpongPayload) : Prop :=
  validPingpongPayload aux.prevPayload = true ∧ ∀ i, aux.prevPayload.ts i ≤ payload.ts i

/-- The loop body for column `i`: its extremes, its bucket. -/
def writeRel (payload : PingpongPayload) (aux : BucketData) (i : Fin 4) : Option BucketData :=
  let diff := aux.tsDiff payload i
  let low := if diff < aux.minValues.relLatency i then
    Function.update aux.minValues.relLatency i diff else aux.minValues.relLatency
  let high := if aux.maxValues.relLatency i < diff then
    Function.update aux.maxValues.relLatency i diff else aux.maxValues.relLatency
  (aux.relIdx payload i).map fun idx =>
    { aux with
      minValues := { aux.minValues with relLatency := low }
      maxValues := { aux.maxValues with relLatency := high }
      buckets := Function.update aux.buckets idx.toNat { aux.buckets idx.toNat with
        relLatency := Function.update (aux.buckets idx.toNat).relLatency i
          ((aux.buckets idx.toNat).relLatency i + 1) } }

/-- The statements after the loop: the extremes and the bucket of the absolute
latency. -/
def writeAbs (payload : PingpongPayload) (aux : BucketData) : Option BucketData :=
  let latency := computeLatency payload
  let low := if latency < aux.minValues.absLatency then latency else aux.minValues.absLatency
  let high := if aux.maxValues.absLatency < latency then latency else aux.maxValues.absLatency
  (aux.absIdx payload).map fun idx =>
    { aux with
      minValues := { aux.minValues with absLatency := low }
      maxValues := { aux.maxValues with absLatency := high }
      buckets := Function.update aux.buckets idx.toNat { aux.buckets idx.toNat with
        absLatency := (aux.buckets idx.toNat).absLatency + 1 } }

end BucketData

open BucketData in
/-- `persistence_write_buckets`: the return value and the new data, `none` where
`bucket_idx` divides by zero. -/
def persistenceWriteBuckets (aux : BucketData) (payload : PingpongPayload) :
    Option (ℤ × BucketData) :=
  let aux := { aux with totPackets := aux.totPackets + 1 }
  if validPingpongPayload aux.prevPayload = false then
    some (-1, { aux with prevPayload := payload })
  else if ∃ i, payload.ts i < aux.prevPayload.ts i then
    some (-1, aux)
  else do
    let aux ← [0, 1, 2, 3].foldlM (writeRel payload) aux
    let aux ← writeAbs payload aux
    some (0, { aux with prevPayload := payload })

namespace BucketData

variable {aux : BucketData} {payload : PingpongPayload}

/-- The minimum `low` after the value `d`. -/
def lower (low d : UInt64) : UInt64 := if d < low then d else low

/-- The maximum `high` after the value `d`. -/
def raise (high d : UInt64) : UInt64 := if high < d then d else high

/-- It is the minimum of the two. -/
theorem lower_toNat (low d : UInt64) : (lower low d).toNat = min low.toNat d.toNat := by
  rw [lower]
  split_ifs with h <;> rw [UInt64.lt_iff_toNat_lt] at h <;> omega

/-- It is the maximum of the two. -/
theorem raise_toNat (high d : UInt64) : (raise high d).toNat = max high.toNat d.toNat := by
  rw [raise]
  split_ifs with h <;> rw [UInt64.lt_iff_toNat_lt] at h <;> omega

/-- The branch that lowers the minimum of a column, without the branch. -/
theorem update_lower (low : Fin 4 → UInt64) (i : Fin 4) (d : UInt64) :
    (if d < low i then Function.update low i d else low) =
      Function.update low i (lower (low i) d) := by
  rw [lower]
  split_ifs
  · rfl
  · exact (Function.update_eq_self i low).symm

/-- The branch that raises its maximum. -/
theorem update_raise (high : Fin 4 → UInt64) (i : Fin 4) (d : UInt64) :
    (if high i < d then Function.update high i d else high) =
      Function.update high i (raise (high i) d) := by
  rw [raise]
  split_ifs
  · rfl
  · exact (Function.update_eq_self i high).symm

/-- The data after a payload whose column `i` falls in bucket `k i` and whose
absolute latency falls in bucket `l`. -/
def recorded (aux : BucketData) (payload : PingpongPayload) (k : Fin 4 → ℕ) (l : ℕ) :
    BucketData where
  totPackets := aux.totPackets + 1
  sendInterval := aux.sendInterval
  minValues := ⟨fun i => lower (aux.minValues.relLatency i) (aux.tsDiff payload i),
    lower aux.minValues.absLatency (computeLatency payload)⟩
  maxValues := ⟨fun i => raise (aux.maxValues.relLatency i) (aux.tsDiff payload i),
    raise aux.maxValues.absLatency (computeLatency payload)⟩
  buckets := fun n => ⟨fun i => (aux.buckets n).relLatency i + if k i = n then 1 else 0,
    (aux.buckets n).absLatency + if l = n then 1 else 0⟩
  prevPayload := payload

/-- The columns in `cols` of a payload recorded, the others as they were. -/
def recordedRel (aux : BucketData) (payload : PingpongPayload) (k : Fin 4 → ℕ)
    (cols : List (Fin 4)) : BucketData :=
  let low := fun i =>
    if i ∈ cols then lower (aux.minValues.relLatency i) (aux.tsDiff payload i)
    else aux.minValues.relLatency i
  let high := fun i =>
    if i ∈ cols then raise (aux.maxValues.relLatency i) (aux.tsDiff payload i)
    else aux.maxValues.relLatency i
  let counts := fun n i =>
    (aux.buckets n).relLatency i + if i ∈ cols ∧ k i = n then 1 else 0
  { aux with
    minValues := { aux.minValues with relLatency := low }
    maxValues := { aux.maxValues with relLatency := high }
    buckets := fun n => { aux.buckets n with relLatency := counts n } }

/-- Recording columns leaves the differences. -/
@[simp] theorem recordedRel_tsDiff (k : Fin 4 → ℕ) (cols : List (Fin 4)) :
    (aux.recordedRel payload k cols).tsDiff payload = aux.tsDiff payload := rfl

/-- And the indices. -/
@[simp] theorem recordedRel_relIdx (k : Fin 4 → ℕ) (cols : List (Fin 4)) :
    (aux.recordedRel payload k cols).relIdx payload = aux.relIdx payload := rfl

/-- Before the first column nothing is recorded. -/
theorem recordedRel_nil (k : Fin 4 → ℕ) : aux.recordedRel payload k [] = aux := by
  simp [recordedRel]

/-- One more column. -/
theorem writeRel_recordedRel {k : Fin 4 → UInt32} (cols : List (Fin 4)) {i : Fin 4}
    (hk : aux.relIdx payload i = some (k i)) (hi : i ∉ cols) :
    writeRel payload (aux.recordedRel payload (fun i => (k i).toNat) cols) i =
      some (aux.recordedRel payload (fun i => (k i).toNat) (cols ++ [i])) := by
  simp only [writeRel, update_lower, update_raise]
  rw [recordedRel_relIdx, hk, recordedRel_tsDiff, Option.map_some]
  refine congrArg some (BucketData.ext rfl rfl (Bucket.ext (funext fun j => ?_) rfl)
    (Bucket.ext (funext fun j => ?_) rfl) (funext fun n => ?_) rfl)
  · by_cases hj : j = i
    · subst hj
      simp [recordedRel, hi]
    · simp [recordedRel, hj]
  · by_cases hj : j = i
    · subst hj
      simp [recordedRel, hi]
    · simp [recordedRel, hj]
  · by_cases hn : n = (k i).toNat
    · subst hn
      refine Bucket.ext (funext fun j => ?_) (by simp [recordedRel])
      by_cases hj : j = i
      · subst hj
        simp [recordedRel, hi]
      · simp [recordedRel, hj]
    · refine Bucket.ext (funext fun j => ?_) (by simp [recordedRel, hn])
      by_cases hj : j = i
      · subst hj
        simp [recordedRel, hi, hn, Ne.symm hn]
      · simp [recordedRel, hj, hn]

/-- The loop over the columns. -/
theorem foldlM_writeRel {k : Fin 4 → UInt32} (hk : ∀ i, aux.relIdx payload i = some (k i)) :
    [0, 1, 2, 3].foldlM (writeRel payload) aux =
      some (aux.recordedRel payload (fun i => (k i).toNat) [0, 1, 2, 3]) := by
  have h₀ := writeRel_recordedRel [] (hk 0) (by decide)
  rw [recordedRel_nil] at h₀
  have h₁ := writeRel_recordedRel [0] (hk 1) (by decide)
  have h₂ := writeRel_recordedRel [0, 1] (hk 2) (by decide)
  have h₃ := writeRel_recordedRel [0, 1, 2] (hk 3) (by decide)
  simp only [List.foldlM_cons, List.foldlM_nil, Option.bind_eq_bind, h₀, h₁, h₂, h₃,
    Option.bind_some, List.nil_append, List.cons_append, Option.pure_def]

/-- The statements after the loop complete the record. -/
theorem writeAbs_recordedRel {k : Fin 4 → ℕ} {l : UInt32} (hl : aux.absIdx payload = some l) :
    writeAbs payload (aux.recordedRel payload k [0, 1, 2, 3]) =
      some { aux.recorded payload k l.toNat with
        totPackets := aux.totPackets, prevPayload := aux.prevPayload } := by
  have habs : (aux.recordedRel payload k [0, 1, 2, 3]).absIdx payload = some l := hl
  have hall : ∀ i : Fin 4, i ∈ [0, 1, 2, 3] := by decide
  rw [writeAbs, habs, Option.map_some]
  refine congrArg some (BucketData.ext rfl rfl (Bucket.ext (funext fun i => ?_) ?_)
    (Bucket.ext (funext fun i => ?_) ?_) (funext fun n => ?_) rfl)
  · simp [recordedRel, recorded, hall]
  · rfl
  · simp [recordedRel, recorded, hall]
  · rfl
  · by_cases hn : n = l.toNat
    · subst hn
      refine Bucket.ext (funext fun i => ?_) ?_ <;> simp [recordedRel, recorded, hall]
    · refine Bucket.ext (funext fun i => ?_) ?_ <;>
        simp [recordedRel, recorded, hall, hn, Ne.symm hn]

end BucketData

open BucketData

variable {aux : BucketData} {payload : PingpongPayload}

/-- An accepted payload passes the test of the time stamps. -/
theorem BucketData.Accepts.not_exists_lt (h : aux.Accepts payload) :
    ¬ ∃ i, payload.ts i < aux.prevPayload.ts i :=
  fun ⟨i, hi⟩ => UInt64.not_lt.2 (h.2 i) hi

/-- The first payload, or any before a valid one: it is stored and not
recorded. -/
theorem persistenceWriteBuckets_of_not_valid
    (h : validPingpongPayload aux.prevPayload = false) :
    persistenceWriteBuckets aux payload = some (-1, { aux with
      totPackets := aux.totPackets + 1, prevPayload := payload }) := by
  simp [persistenceWriteBuckets, h]

/-- A payload with a time stamp before the last one's is only counted. -/
theorem persistenceWriteBuckets_of_lt (h : validPingpongPayload aux.prevPayload = true)
    {i : Fin 4} (hi : payload.ts i < aux.prevPayload.ts i) :
    persistenceWriteBuckets aux payload =
      some (-1, { aux with totPackets := aux.totPackets + 1 }) := by
  have hex : ∃ i, payload.ts i < aux.prevPayload.ts i := ⟨i, hi⟩
  simp [persistenceWriteBuckets, h, hex]

/-- **One recorded payload.**  If the calls of `bucket_idx` return, the payload
is counted, each column goes to its bucket and its extremes, the absolute
latency to its own, and the payload becomes the previous one. -/
theorem persistenceWriteBuckets_of_accepts (h : aux.Accepts payload) {k : Fin 4 → UInt32}
    {l : UInt32} (hk : ∀ i, aux.relIdx payload i = some (k i))
    (hl : aux.absIdx payload = some l) :
    persistenceWriteBuckets aux payload =
      some (0, aux.recorded payload (fun i => (k i).toNat) l.toNat) := by
  have hlt := h.not_exists_lt
  let counted := { aux with totPackets := aux.totPackets + 1 }
  have hrel := foldlM_writeRel
    (show ∀ i, counted.relIdx payload i = some (k i) from hk)
  have habs := writeAbs_recordedRel (k := fun i => (k i).toNat)
    (show counted.absIdx payload = some l from hl)
  simp only [counted] at hrel habs
  simp only [persistenceWriteBuckets, h.1, Bool.true_eq_false, if_false, hlt,
    Option.bind_eq_bind, hrel, habs, Option.bind_some]
  rfl

/-! ### A sequence of calls -/

/-- The calls for a sequence of payloads: what they return, and the data after the last. -/
def callWriteBuckets (aux : BucketData) : List PingpongPayload → Option (List ℤ × BucketData)
  | [] => some ([], aux)
  | payload :: ps => do
    let (ret, aux) ← persistenceWriteBuckets aux payload
    let (rets, aux) ← callWriteBuckets aux ps
    some (ret :: rets, aux)

/-- The data after a sequence of calls. -/
def writeBuckets (aux : BucketData) (ps : List PingpongPayload) : Option BucketData :=
  (callWriteBuckets aux ps).map Prod.snd

/-- The first call and the rest. -/
theorem writeBuckets_cons (aux : BucketData) (payload : PingpongPayload)
    (ps : List PingpongPayload) :
    writeBuckets aux (payload :: ps) =
      (persistenceWriteBuckets aux payload).bind fun called => writeBuckets called.2 ps := by
  simp only [writeBuckets, callWriteBuckets, Option.bind_eq_bind]
  cases persistenceWriteBuckets aux payload with
  | none => rfl
  | some called =>
      rw [Option.bind_some, Option.bind_some]
      cases callWriteBuckets called.2 ps <;> rfl

end DetBypass
