/-
# What a call records

`persistence_write_buckets` (`common/persistence.c`) counts its packet first and
may then return `-1` in two places: at a previous payload without the magic
number, which it replaces, and within its first loop at a time stamp before the
previous one.  The loop only computes the differences, so nothing has been
recorded there.  Past it nothing returns `-1`, and `Records` is all that changes
(`persistenceWriteBuckets_cases`).

A relative difference always falls in one of the buckets written to the file,
so each column of them adds up to the calls that returned 0 (`callWriteBuckets_sum`).

But the last bucket index is computed after the columns and their extremes are
changed, and its division is by `(interval + OFFSET) / NUM_BUCKETS`.  A call is all
or nothing (`AllOrNothing`) exactly at the intervals that leave no zero there
(`allOrNothing_iff`); at `-990000` ns, a number the parsers take, the program stops
half way through a record (`exists_half_recorded`).
-/

import DetBypass.Common.BucketIndex
import Mathlib.Algebra.BigOperators.Group.Finset.Piecewise

namespace DetBypass

open Finset BucketData

variable {aux aux' : BucketData} {payload : PingpongPayload} {interval : UInt64}
  {ps : List PingpongPayload} {rets : List ℤ}

/-- The payload is recorded: one count in each column, every extreme includes
it, and it becomes the previous payload. -/
structure Records (aux : BucketData) (payload : PingpongPayload) (aux' : BucketData) :
    Prop where
  totPackets : aux'.totPackets = aux.totPackets + 1
  sendInterval : aux'.sendInterval = aux.sendInterval
  prevPayload : aux'.prevPayload = payload
  relMin : ∀ col, (aux'.minValues.relLatency col).toNat =
    min (aux.minValues.relLatency col).toNat (payload.ts col - aux.prevPayload.ts col).toNat
  relMax : ∀ col, (aux'.maxValues.relLatency col).toNat =
    max (aux.maxValues.relLatency col).toNat (payload.ts col - aux.prevPayload.ts col).toNat
  absMin : aux'.minValues.absLatency.toNat =
    min aux.minValues.absLatency.toNat (computeLatency payload).toNat
  absMax : aux'.maxValues.absLatency.toNat =
    max aux.maxValues.absLatency.toNat (computeLatency payload).toNat
  rel : ∀ col, ∃ k < numBuckets + 2, ∀ n, (aux'.buckets n).relLatency col =
    (aux.buckets n).relLatency col + if n = k then 1 else 0
  abs : ∃ l, ∀ n, (aux'.buckets n).absLatency =
    (aux.buckets n).absLatency + if n = l then 1 else 0

/-! ### One call -/

/-- The data that a call writes record its payload. -/
theorem records_recorded {k : Fin 4 → ℕ} (hk : ∀ col, k col < numBuckets + 2) (l : ℕ) :
    Records aux payload (aux.recorded payload k l) where
  totPackets := rfl
  sendInterval := rfl
  prevPayload := rfl
  relMin col := lower_toNat ..
  relMax col := raise_toNat ..
  absMin := lower_toNat ..
  absMax := raise_toNat ..
  rel col := ⟨k col, hk col, fun n => by simp only [recorded, eq_comm]⟩
  abs := ⟨l, fun n => by simp only [recorded, eq_comm]⟩

/-- A bucket size of zero stops the program. -/
theorem persistenceWriteBuckets_of_absIdx_none (h : aux.Accepts payload)
    (hl : aux.absIdx payload = none) : persistenceWriteBuckets aux payload = none := by
  have hlt := h.not_exists_lt
  let counted := { aux with totPackets := aux.totPackets + 1 }
  choose k hk using relIdx_lt counted payload
  have hrel := foldlM_writeRel fun col => (hk col).1
  have habs : writeAbs payload
      (counted.recordedRel payload (fun col => (k col).toNat) [0, 1, 2, 3]) = none := by
    rw [writeAbs, show (counted.recordedRel payload _ _).absIdx payload = none from hl,
      Option.map_none]
  simp only [counted] at hrel habs
  simp only [persistenceWriteBuckets, h.1, Bool.true_eq_false, if_false, hlt,
    Option.bind_eq_bind, hrel, habs, Option.bind_some, Option.bind_none]

/-- An accepted payload is recorded, if the call of `bucket_idx` on its absolute
latency returns. -/
theorem exists_records (h : aux.Accepts payload) {l : UInt32} (hl : aux.absIdx payload = some l) :
    ∃ aux', persistenceWriteBuckets aux payload = some (0, aux') ∧ Records aux payload aux' := by
  choose k hk using relIdx_lt aux payload
  exact ⟨_, persistenceWriteBuckets_of_accepts h (fun col => (hk col).1) hl,
    records_recorded (fun col => (hk col).2) l.toNat⟩

/-- **A call records all of a payload or nothing.**  It counts its packet in any
case; a first payload is only stored, one with an earlier time stamp is not even
that. -/
theorem persistenceWriteBuckets_cases (aux : BucketData) (payload : PingpongPayload) :
    validPingpongPayload aux.prevPayload = false ∧
        persistenceWriteBuckets aux payload = some (-1, { aux with
          totPackets := aux.totPackets + 1, prevPayload := payload }) ∨
      validPingpongPayload aux.prevPayload = true ∧
        (∃ col, payload.ts col < aux.prevPayload.ts col) ∧
        persistenceWriteBuckets aux payload = some (-1, { aux with
          totPackets := aux.totPackets + 1 }) ∨
      aux.Accepts payload ∧
        (aux.absIdx payload = none ∧ persistenceWriteBuckets aux payload = none ∨
          ∃ aux', persistenceWriteBuckets aux payload = some (0, aux') ∧
            Records aux payload aux') := by
  by_cases hvalid : validPingpongPayload aux.prevPayload = true
  · by_cases hlt : ∃ col, payload.ts col < aux.prevPayload.ts col
    · obtain ⟨col, hcol⟩ := hlt
      exact Or.inr (Or.inl ⟨hvalid, ⟨col, hcol⟩, persistenceWriteBuckets_of_lt hvalid hcol⟩)
    · have haccepts : aux.Accepts payload :=
        ⟨hvalid, fun col => UInt64.not_lt.1 fun hcol => hlt ⟨col, hcol⟩⟩
      refine Or.inr (Or.inr ⟨haccepts, ?_⟩)
      cases hl : aux.absIdx payload with
      | none => exact Or.inl ⟨rfl, persistenceWriteBuckets_of_absIdx_none haccepts hl⟩
      | some l => exact Or.inr (exists_records haccepts hl)
  · have hvalid := Bool.eq_false_iff.2 hvalid
    exact Or.inl ⟨hvalid, persistenceWriteBuckets_of_not_valid hvalid⟩

/-! ### A sequence of calls -/

/-- One count more. -/
theorem sum_add_one {f g : ℕ → ℕ} {k m : ℕ} (hk : k < m)
    (h : ∀ n, g n = f n + if n = k then 1 else 0) :
    ∑ n ∈ range m, g n = ∑ n ∈ range m, f n + 1 := by
  simp only [h, sum_add_distrib]
  rw [sum_ite_eq' (range m) k, if_pos (mem_range.2 hk)]

/-- No call changes the interval. -/
theorem callWriteBuckets_sendInterval (h : callWriteBuckets aux ps = some (rets, aux')) :
    aux'.sendInterval = aux.sendInterval := by
  induction ps generalizing aux rets with
  | nil =>
      cases h
      rfl
  | cons payload ps ih =>
      obtain ⟨⟨ret, aux₁⟩, hcall, h⟩ := Option.bind_eq_some_iff.1 h
      obtain ⟨⟨rets, aux₂⟩, hrun, h⟩ := Option.bind_eq_some_iff.1 h
      cases h
      rw [ih hrun]
      rcases persistenceWriteBuckets_cases aux payload with
        ⟨-, he⟩ | ⟨-, -, he⟩ | ⟨-, ⟨-, he⟩ | ⟨aux', he, hrecords⟩⟩
      all_goals cases he.symm.trans hcall
      · rfl
      · rfl
      · exact hrecords.sendInterval

/-- No counter grows by more than the calls. -/
theorem callWriteBuckets_counts_le (h : callWriteBuckets aux ps = some (rets, aux')) (k : ℕ) :
    (∀ col, (aux'.buckets k).relLatency col ≤ (aux.buckets k).relLatency col + ps.length) ∧
      (aux'.buckets k).absLatency ≤ (aux.buckets k).absLatency + ps.length := by
  induction ps generalizing aux rets with
  | nil =>
      cases h
      exact ⟨fun _ => le_rfl, le_rfl⟩
  | cons payload ps ih =>
      obtain ⟨⟨ret, aux₁⟩, hcall, h⟩ := Option.bind_eq_some_iff.1 h
      obtain ⟨⟨rets, aux₂⟩, hrun, h⟩ := Option.bind_eq_some_iff.1 h
      cases h
      -- the first call
      have hone : (∀ col, (aux₁.buckets k).relLatency col ≤ (aux.buckets k).relLatency col + 1) ∧
          (aux₁.buckets k).absLatency ≤ (aux.buckets k).absLatency + 1 := by
        rcases persistenceWriteBuckets_cases aux payload with
          ⟨-, he⟩ | ⟨-, -, he⟩ | ⟨-, ⟨-, he⟩ | ⟨aux', he, hrecords⟩⟩
        all_goals cases he.symm.trans hcall
        · exact ⟨fun _ => Nat.le_succ _, Nat.le_succ _⟩
        · exact ⟨fun _ => Nat.le_succ _, Nat.le_succ _⟩
        · refine ⟨fun col => ?_, ?_⟩
          · obtain ⟨n, -, hcount⟩ := hrecords.rel col
            rw [hcount k]
            split_ifs <;> omega
          · obtain ⟨n, hcount⟩ := hrecords.abs
            rw [hcount k]
            split_ifs <;> omega
      obtain ⟨hrel, habs⟩ := ih hrun
      rw [List.length_cons]
      refine ⟨fun col => ?_, ?_⟩
      · have hfirst := hone.1 col
        have hrest := hrel col
        omega
      · have hfirst := hone.2
        omega

/-- **The accounts of a sequence of calls.**  At an interval that leaves no bucket
size of zero every call returns; the counts of a column grow by the calls that
returned 0, and these and the calls that returned `-1` are the packets. -/
theorem callWriteBuckets_sum {i : Int32} (hi : 0 ≤ i.toInt) (ps : List PingpongPayload)
    (haux : aux.sendInterval = parsedInterval i) :
    ∃ rets aux', callWriteBuckets aux ps = some (rets, aux') ∧
      (∀ col, ∑ n ∈ range (numBuckets + 2), (aux'.buckets n).relLatency col =
        ∑ n ∈ range (numBuckets + 2), (aux.buckets n).relLatency col + rets.count 0) ∧
      aux'.totPackets = aux.totPackets + (rets.count 0 + rets.count (-1)) := by
  induction ps generalizing aux with
  | nil => exact ⟨[], aux, rfl, fun col => (Nat.add_zero _).symm, rfl⟩
  | cons payload ps ih =>
      -- what the first call does to the accounts
      obtain ⟨ret, aux₁, hcall, hinterval, hsum, htot, hret⟩ : ∃ ret aux₁,
          persistenceWriteBuckets aux payload = some (ret, aux₁) ∧
          aux₁.sendInterval = aux.sendInterval ∧
          (∀ col, ∑ n ∈ range (numBuckets + 2), (aux₁.buckets n).relLatency col =
            ∑ n ∈ range (numBuckets + 2), (aux.buckets n).relLatency col +
              if ret = 0 then 1 else 0) ∧
          aux₁.totPackets = aux.totPackets + 1 ∧ (ret = 0 ∨ ret = -1) := by
        rcases persistenceWriteBuckets_cases aux payload with
          ⟨-, hcall⟩ | ⟨-, -, hcall⟩ | ⟨-, ⟨hnone, -⟩ | ⟨aux₁, hcall, hrecords⟩⟩
        · exact ⟨-1, _, hcall, rfl, fun col => (Nat.add_zero _).symm, rfl, Or.inr rfl⟩
        · exact ⟨-1, _, hcall, rfl, fun col => (Nat.add_zero _).symm, rfl, Or.inr rfl⟩
        · obtain ⟨l, hl⟩ := absIdx_isSome haux hi payload
          cases hnone.symm.trans hl
        · refine ⟨0, aux₁, hcall, hrecords.sendInterval, fun col => ?_, hrecords.totPackets,
            Or.inl rfl⟩
          obtain ⟨k, hk, hcount⟩ := hrecords.rel col
          exact sum_add_one hk hcount
      obtain ⟨rets, aux', hrun, hsum', htot'⟩ := ih (hinterval.trans haux)
      refine ⟨ret :: rets, aux', ?_, fun col => ?_, ?_⟩
      · simp only [callWriteBuckets, hcall, hrun, Option.bind_eq_bind, Option.bind_some]
      · rw [hsum', hsum, List.count_cons]
        rcases hret with rfl | rfl
        · simp
          omega
        · simp
      · rw [htot', htot, List.count_cons, List.count_cons]
        rcases hret with rfl | rfl
        · simp
          omega
        · simp
          omega

/-- **Writing a payload is all or nothing** at an interval.  In every state that calls lead
to, a call counts its packet; if the previous payload has no magic number it returns `-1`
and only stores its payload; if a time stamp is before the previous one it returns `-1` and
changes nothing else; otherwise it returns 0 and records the payload.  At a positive
interval below `2^31` each relative column adds up to the calls that returned 0, and with
those that returned `-1` they are the packets. -/
structure AllOrNothing (interval : UInt64) : Prop where
  first : ∀ {ps rets aux}, callWriteBuckets (persistenceInitBuckets interval) ps =
    some (rets, aux) → ∀ payload, validPingpongPayload aux.prevPayload = false →
      persistenceWriteBuckets aux payload = some (-1, { aux with
        totPackets := aux.totPackets + 1, prevPayload := payload })
  earlier : ∀ {ps rets aux}, callWriteBuckets (persistenceInitBuckets interval) ps =
    some (rets, aux) → ∀ payload, validPingpongPayload aux.prevPayload = true →
      (∃ col, payload.ts col < aux.prevPayload.ts col) →
      persistenceWriteBuckets aux payload = some (-1, { aux with
        totPackets := aux.totPackets + 1 })
  recorded : ∀ {ps rets aux}, callWriteBuckets (persistenceInitBuckets interval) ps =
    some (rets, aux) → ∀ payload, validPingpongPayload aux.prevPayload = true →
      (∀ col, aux.prevPayload.ts col ≤ payload.ts col) →
      ∃ aux', persistenceWriteBuckets aux payload = some (0, aux') ∧ Records aux payload aux'
  sums : 0 < interval.toNat → interval.toNat < 2 ^ 31 →
    ∀ ps, ∃ rets aux, callWriteBuckets (persistenceInitBuckets interval) ps = some (rets, aux) ∧
      (∀ col, ∑ n ∈ range (numBuckets + 2), (aux.buckets n).relLatency col = rets.count 0) ∧
      rets.count 0 + rets.count (-1) = aux.totPackets

/-- The first payload is stored, whatever the interval. -/
theorem callWriteBuckets_first (interval : UInt64) :
    callWriteBuckets (persistenceInitBuckets interval) [newPingpongPayload 1] =
      some ([-1], primedBuckets interval) := by
  rw [callWriteBuckets, persistenceWriteBuckets_of_not_valid rfl]
  rfl

/-- The sums of a positive interval, from the first call on. -/
theorem sums_of_lt {interval : UInt64} (hlt : interval.toNat < 2 ^ 31)
    (ps : List PingpongPayload) :
    ∃ rets aux, callWriteBuckets (persistenceInitBuckets interval) ps = some (rets, aux) ∧
      (∀ col, ∑ n ∈ range (numBuckets + 2), (aux.buckets n).relLatency col = rets.count 0) ∧
      rets.count 0 + rets.count (-1) = aux.totPackets := by
  obtain ⟨i, rfl, hi⟩ := exists_parsedInterval hlt
  obtain ⟨rets, aux, hrun, hsum, htot⟩ := callWriteBuckets_sum (hi ▸ Int.natCast_nonneg _) ps
    (show (persistenceInitBuckets (parsedInterval i)).sendInterval = parsedInterval i from rfl)
  refine ⟨rets, aux, hrun, fun col => ?_, ?_⟩
  · rw [hsum col]
    simp [persistenceInitBuckets]
  · rw [htot]
    exact (Nat.zero_add _).symm

/-- **Where writing a payload is all or nothing**: at the intervals that, with `OFFSET`
added, are at least `NUM_BUCKETS` as a `uint64_t`. -/
theorem allOrNothing_iff (interval : UInt64) :
    AllOrNothing interval ↔ numBuckets ≤ (interval + UInt64.ofNat offset).toNat := by
  refine ⟨fun h => ?_, fun hle => ⟨fun _ _ => persistenceWriteBuckets_of_not_valid,
    fun _ _ hvalid ⟨_, hcol⟩ => persistenceWriteBuckets_of_lt hvalid hcol,
    fun {ps rets aux} hrun payload hvalid hts => ?_, fun _ hlt ps => sums_of_lt hlt ps⟩⟩
  · -- a first payload and one with the same time stamps: its latency is 0
    by_contra hlt
    have haccepts := primedBuckets_accepts interval 0
    obtain ⟨aux', hcall, -⟩ := h.recorded (callWriteBuckets_first interval) (latePayload 0)
      haccepts.1 haccepts.2
    have hlatency : (computeLatency (latePayload 0)).toNat = 0 :=
      computeLatency_latePayload (by decide)
    have hnone : (primedBuckets interval).absIdx (latePayload 0) = none :=
      absIdx_eq_none_iff.2 ⟨hlatency ▸ Nat.zero_le _, Nat.lt_of_not_le hlt⟩
    cases (persistenceWriteBuckets_of_absIdx_none haccepts hnone).symm.trans hcall
  · have hinterval : aux.sendInterval = interval := callWriteBuckets_sendInterval hrun
    obtain ⟨l, hl⟩ := Option.ne_none_iff_exists'.1 fun hnone =>
      absurd (absIdx_eq_none_iff.1 hnone).2 (by rw [hinterval]; exact Nat.not_lt.2 hle)
    exact exists_records ⟨hvalid, hts⟩ hl

/-- **Half a record.**  At an interval of `-990000` ns a first payload is stored, and the
second, with the same time stamps, is counted in the four columns and their minima are
lowered before the program divides by zero. -/
theorem exists_half_recorded :
    let interval := parsedInterval (-990000)
    let aux := primedBuckets interval
    let payload := latePayload 0
    callWriteBuckets (persistenceInitBuckets interval) [newPingpongPayload 1] =
        some ([-1], aux) ∧
      aux.Accepts payload ∧ persistenceWriteBuckets aux payload = none ∧
      (∃ aux', [0, 1, 2, 3].foldlM (writeRel payload) aux = some aux' ∧
        ∀ col, (aux'.buckets 19901).relLatency col = 1 ∧ aux'.minValues.relLatency col = 0) ∧
      ¬ AllOrNothing interval := by
  intro interval aux payload
  have haccepts : aux.Accepts payload := primedBuckets_accepts interval 0
  have hnone : aux.absIdx payload = none := by decide
  have hrel : ∀ col, aux.relIdx payload col = some 19901 := by decide
  have hcall := persistenceWriteBuckets_of_absIdx_none haccepts hnone
  refine ⟨callWriteBuckets_first interval, haccepts, hcall,
    ⟨_, foldlM_writeRel hrel, by decide⟩, fun h => ?_⟩
  obtain ⟨aux', hsome, -⟩ := h.recorded (callWriteBuckets_first interval) payload
    haccepts.1 haccepts.2
  cases hcall.symm.trans hsome

end DetBypass
