/-
# Clocks that are not synchronised

`ts[0]` and `ts[3]` of a payload are readings of the client's clock, `ts[1]` and
`ts[2]` of the server's, which is off by some `d`.  The agents of
`common/persistence.c` use the timestamps in differences of readings of one
clock, which `d` cancels in, and `persistence_write_buckets` also compares the
readings of one clock with each other, which `d` does not change as long as it
takes none of them past `2^64`.  So a call of an agent commutes with adding `d` to
its payload (`persistenceWriteBuckets_shift`), and the results do not depend on
the offset (`results_shift`).
-/

import DetBypass.Common.Buckets
import DetBypass.Common.MinMax

namespace DetBypass

variable {d : ℤ} {p q : PingpongPayload} {ps : List PingpongPayload} {aux : BucketData}

/-- The payload with the server's clock ahead by `d`. -/
def PingpongPayload.shift (d : ℤ) (p : PingpongPayload) : PingpongPayload :=
  { p with ts := fun i => if i = 1 ∨ i = 2 then p.ts i + UInt64.ofInt d else p.ts i }

/-- The server's clock ahead by `d` wraps neither of its readings. -/
def PingpongPayload.Fits (d : ℤ) (p : PingpongPayload) : Prop :=
  ∀ i, i = 1 ∨ i = 2 → 0 ≤ ((p.ts i).toNat : ℤ) + d ∧ ((p.ts i).toNat : ℤ) + d < 2 ^ 64

instance (d : ℤ) (p : PingpongPayload) : Decidable (p.Fits d) :=
  inferInstanceAs (Decidable (∀ i, i = 1 ∨ i = 2 →
    0 ≤ ((p.ts i).toNat : ℤ) + d ∧ ((p.ts i).toNat : ℤ) + d < 2 ^ 64))

/-! ### One payload -/

/-- The difference of two readings of one clock. -/
theorem shift_ts_sub (d : ℤ) (p q : PingpongPayload) (i : Fin 4) :
    (p.shift d).ts i - (q.shift d).ts i = p.ts i - q.ts i := by
  dsimp only [PingpongPayload.shift]
  split_ifs
  · grind
  · rfl

/-- The latency is a difference of two differences. -/
@[simp] theorem computeLatency_shift (d : ℤ) (p : PingpongPayload) :
    computeLatency (p.shift d) = computeLatency p := by
  have h₃ : (p.shift d).ts 3 = p.ts 3 := rfl
  have h₀ : (p.shift d).ts 0 = p.ts 0 := rfl
  have hserver : (p.shift d).ts 2 - (p.shift d).ts 1 = p.ts 2 - p.ts 1 := by
    show p.ts 2 + UInt64.ofInt d - (p.ts 1 + UInt64.ofInt d) = _
    grind
  rw [computeLatency, computeLatency, h₃, h₀, hserver]

/-- A reading that does not wrap. -/
theorem PingpongPayload.Fits.toNat (h : p.Fits d) (i : Fin 4) :
    (((p.shift d).ts i).toNat : ℤ) = (p.ts i).toNat + if i = 1 ∨ i = 2 then d else 0 := by
  dsimp only [PingpongPayload.shift]
  split_ifs with hi
  · have hfits := h i hi
    have hlt := (p.ts i).toNat_lt
    rw [UInt64.toNat_add, UInt64.ofInt, UInt64.toNat_ofNat']
    omega
  · omega

/-- The order of two readings of one clock. -/
theorem PingpongPayload.Fits.lt_iff (hp : p.Fits d) (hq : q.Fits d) (i : Fin 4) :
    (p.shift d).ts i < (q.shift d).ts i ↔ p.ts i < q.ts i := by
  have h₁ := hp.toNat i
  have h₂ := hq.toNat i
  rw [UInt64.lt_iff_toNat_lt, UInt64.lt_iff_toNat_lt]
  omega

/-! ### The extreme latencies -/

/-- The data with the server's clock ahead by `d`. -/
def MinMaxLatencyData.shift (d : ℤ) (aux : MinMaxLatencyData) : MinMaxLatencyData :=
  { aux with
    minPayload := aux.minPayload.map (PingpongPayload.shift d)
    maxPayload := aux.maxPayload.map (PingpongPayload.shift d) }

/-- The extremes and the payloads kept are chosen by the latency. -/
theorem persistenceWriteMinMaxLatency_shift (d : ℤ) (aux : MinMaxLatencyData)
    (p : PingpongPayload) : (persistenceWriteMinMaxLatency (aux.shift d) (p.shift d)).2 =
      (persistenceWriteMinMaxLatency aux p).2.shift d := by
  unfold persistenceWriteMinMaxLatency
  rw [computeLatency_shift]
  by_cases hmin : computeLatency p < aux.min <;>
    by_cases hmax : aux.max < computeLatency p <;>
    simp [MinMaxLatencyData.shift, hmin, hmax]

/-- A shifted server clock shifts what is kept, and nothing else. -/
theorem writeMinMaxLatency_shift (d : ℤ) (aux : MinMaxLatencyData) (ps : List PingpongPayload) :
    writeMinMaxLatency (aux.shift d) (ps.map (PingpongPayload.shift d)) =
      (writeMinMaxLatency aux ps).shift d := by
  unfold writeMinMaxLatency
  rw [List.foldl_map]
  exact List.foldl_hom (MinMaxLatencyData.shift d) fun aux p =>
    persistenceWriteMinMaxLatency_shift d aux p

/-! ### The histogram -/

namespace BucketData

/-- The data with the server's clock ahead by `d`. -/
def shift (d : ℤ) (aux : BucketData) : BucketData :=
  { aux with prevPayload := aux.prevPayload.shift d }

/-- The differences of one column are on one clock. -/
theorem tsDiff_shift (d : ℤ) (aux : BucketData) (p : PingpongPayload) (i : Fin 4) :
    (aux.shift d).tsDiff (p.shift d) i = aux.tsDiff p i :=
  shift_ts_sub d p aux.prevPayload i

/-- So the relative indices stay. -/
theorem relIdx_shift (d : ℤ) (aux : BucketData) (p : PingpongPayload) (i : Fin 4) :
    (aux.shift d).relIdx (p.shift d) i = aux.relIdx p i := by
  unfold relIdx
  rw [tsDiff_shift]
  rfl

/-- The latency takes a difference on each clock, so its index stays. -/
theorem absIdx_shift (d : ℤ) (aux : BucketData) (p : PingpongPayload) :
    (aux.shift d).absIdx (p.shift d) = aux.absIdx p := by
  unfold absIdx
  rw [computeLatency_shift]
  rfl

/-- The loop body commutes with the shift. -/
theorem writeRel_shift (d : ℤ) (aux : BucketData) (p : PingpongPayload) (i : Fin 4) :
    writeRel (p.shift d) (aux.shift d) i = (writeRel p aux i).map (shift d) := by
  unfold writeRel
  rw [relIdx_shift, tsDiff_shift, Option.map_map]
  rfl

/-- So do the statements after the loop. -/
theorem writeAbs_shift (d : ℤ) (aux : BucketData) (p : PingpongPayload) :
    writeAbs (p.shift d) (aux.shift d) = (writeAbs p aux).map (shift d) := by
  unfold writeAbs
  rw [absIdx_shift, computeLatency_shift, Option.map_map]
  rfl

/-- The loop over the columns. -/
theorem foldlM_writeRel_shift (d : ℤ) (aux : BucketData) (p : PingpongPayload)
    (cols : List (Fin 4)) :
    cols.foldlM (writeRel (p.shift d)) (aux.shift d) =
      (cols.foldlM (writeRel p) aux).map (shift d) := by
  induction cols generalizing aux with
  | nil => rfl
  | cons i cols ih =>
      rw [List.foldlM_cons, List.foldlM_cons, writeRel_shift]
      cases writeRel p aux i with
      | none => rfl
      | some aux => exact ih aux

end BucketData

open BucketData

/-- The calls of a recorded payload, whether they return or not. -/
theorem persistenceWriteBuckets_eq_bind (h : aux.Accepts p) :
    persistenceWriteBuckets aux p =
      ([0, 1, 2, 3].foldlM (writeRel p) { aux with totPackets := aux.totPackets + 1 }).bind
        fun aux => (writeAbs p aux).bind fun aux => some (0, { aux with prevPayload := p }) := by
  have hlt := h.not_exists_lt
  simp only [persistenceWriteBuckets, h.1, Bool.true_eq_false, if_false, hlt]
  rfl

/-- A payload after a valid one is refused for an earlier reading. -/
theorem exists_lt_of_not_accepts (hvalid : validPingpongPayload aux.prevPayload = true)
    (h : ¬ aux.Accepts p) : ∃ i, p.ts i < aux.prevPayload.ts i :=
  not_forall_not.1 fun hle => h ⟨hvalid, fun i => UInt64.not_lt.1 (hle i)⟩

/-- A shift that wraps no time stamp keeps their order. -/
theorem accepts_shift (hp : p.Fits d) (hprev : aux.prevPayload.Fits d) :
    (aux.shift d).Accepts (p.shift d) ↔ aux.Accepts p := by
  refine and_congr Iff.rfl (forall_congr' fun i => ?_)
  rw [← UInt64.not_lt, ← UInt64.not_lt]
  exact not_congr (hp.lt_iff hprev i)

/-- **One call** returns the same and leaves the same data, up to the previous
payload. -/
theorem persistenceWriteBuckets_shift (hp : p.Fits d)
    (hprev : validPingpongPayload aux.prevPayload = true → aux.prevPayload.Fits d) :
    persistenceWriteBuckets (aux.shift d) (p.shift d) =
      (persistenceWriteBuckets aux p).map (Prod.map id (BucketData.shift d)) := by
  by_cases hvalid : validPingpongPayload aux.prevPayload = true
  · have hvalid' : validPingpongPayload (aux.shift d).prevPayload = true := hvalid
    by_cases haccepts : aux.Accepts p
    · rw [persistenceWriteBuckets_eq_bind haccepts,
        persistenceWriteBuckets_eq_bind ((accepts_shift hp (hprev hvalid)).2 haccepts)]
      have hcols := foldlM_writeRel_shift d { aux with totPackets := aux.totPackets + 1 } p
        [0, 1, 2, 3]
      rw [show ({ aux.shift d with totPackets := (aux.shift d).totPackets + 1 } : BucketData) =
        BucketData.shift d { aux with totPackets := aux.totPackets + 1 } from rfl, hcols]
      cases [0, 1, 2, 3].foldlM (writeRel p) { aux with totPackets := aux.totPackets + 1 } with
      | none => rfl
      | some aux =>
          rw [Option.map_some, Option.bind_some, Option.bind_some, writeAbs_shift]
          cases writeAbs p aux <;> rfl
    · obtain ⟨i, hi⟩ := exists_lt_of_not_accepts hvalid haccepts
      rw [persistenceWriteBuckets_of_lt hvalid hi, persistenceWriteBuckets_of_lt hvalid'
        ((hp.lt_iff (hprev hvalid) i).2 hi)]
      rfl
  · have hvalid := Bool.eq_false_iff.2 hvalid
    have hvalid' : validPingpongPayload (aux.shift d).prevPayload = false := hvalid
    rw [persistenceWriteBuckets_of_not_valid hvalid, persistenceWriteBuckets_of_not_valid hvalid']
    rfl

/-- The previous payload is one that was written. -/
theorem prevPayload_of_write {ret : ℤ} {aux' : BucketData}
    (h : persistenceWriteBuckets aux p = some (ret, aux')) :
    aux'.prevPayload = p ∨
      validPingpongPayload aux.prevPayload = true ∧ aux'.prevPayload = aux.prevPayload := by
  by_cases hvalid : validPingpongPayload aux.prevPayload = true
  · by_cases haccepts : aux.Accepts p
    · rw [persistenceWriteBuckets_eq_bind haccepts] at h
      obtain ⟨aux₁, -, h⟩ := Option.bind_eq_some_iff.1 h
      obtain ⟨aux₂, -, h⟩ := Option.bind_eq_some_iff.1 h
      obtain ⟨-, rfl⟩ := Prod.mk.inj (Option.some.inj h)
      exact Or.inl rfl
    · obtain ⟨i, hi⟩ := exists_lt_of_not_accepts hvalid haccepts
      rw [persistenceWriteBuckets_of_lt hvalid hi] at h
      obtain ⟨-, rfl⟩ := Prod.mk.inj (Option.some.inj h)
      exact Or.inr ⟨hvalid, rfl⟩
  · rw [persistenceWriteBuckets_of_not_valid (Bool.eq_false_iff.2 hvalid)] at h
    obtain ⟨-, rfl⟩ := Prod.mk.inj (Option.some.inj h)
    exact Or.inl rfl

/-! ### Runs -/

/-- **All calls** return the same. -/
theorem callWriteBuckets_shift (hps : ∀ p ∈ ps, p.Fits d)
    (hprev : validPingpongPayload aux.prevPayload = true → aux.prevPayload.Fits d) :
    callWriteBuckets (aux.shift d) (ps.map (PingpongPayload.shift d)) =
      (callWriteBuckets aux ps).map (Prod.map id (BucketData.shift d)) := by
  induction ps generalizing aux with
  | nil => rfl
  | cons p ps ih =>
      have hp := hps p (List.mem_cons_self ..)
      have hps := fun q hq => hps q (List.mem_cons_of_mem _ hq)
      simp only [List.map_cons, callWriteBuckets, Option.bind_eq_bind]
      rw [persistenceWriteBuckets_shift hp hprev]
      cases hcall : persistenceWriteBuckets aux p with
      | none => rfl
      | some called =>
          obtain ⟨ret, aux'⟩ := called
          have hprev' : validPingpongPayload aux'.prevPayload = true → aux'.prevPayload.Fits d := by
            rcases prevPayload_of_write hcall with he | ⟨hvalid, he⟩ <;> rw [he]
            · exact fun _ => hp
            · exact fun _ => hprev hvalid
          rw [Option.map_some, Option.bind_some, Option.bind_some]
          dsimp only [Prod.map]
          rw [ih hps hprev']
          cases callWriteBuckets aux' ps <;> rfl

/-- What a run shows: what the calls returned, the count of packets, the
counters and the extremes. -/
def observed (run : List ℤ × BucketData) :
    List ℤ × ℕ × (ℕ → Bucket ℕ) × Bucket UInt64 × Bucket UInt64 :=
  (run.1, run.2.totPackets, run.2.buckets, run.2.minValues, run.2.maxValues)

/-- **The results do not depend on the offset of the server's clock.**  Whatever
it is, the extreme latencies and the ids of the payloads kept with them are the
same; if no reading wraps, so are the return values of all calls, the counters
and the extremes of the histogram. -/
theorem results_shift (ps : List PingpongPayload) (d : ℤ) (interval : UInt64) :
    (let aux := writeMinMaxLatency persistenceInitMinMaxLatency ps
      let aux' := writeMinMaxLatency persistenceInitMinMaxLatency
        (ps.map (PingpongPayload.shift d))
      aux'.min = aux.min ∧ aux'.max = aux.max ∧
        aux'.minPayload.map PingpongPayload.id = aux.minPayload.map PingpongPayload.id ∧
        aux'.maxPayload.map PingpongPayload.id = aux.maxPayload.map PingpongPayload.id) ∧
      ((∀ p ∈ ps, p.Fits d) →
        (callWriteBuckets (persistenceInitBuckets interval)
          (ps.map (PingpongPayload.shift d))).map observed =
          (callWriteBuckets (persistenceInitBuckets interval) ps).map observed) := by
  constructor
  · have hinit : persistenceInitMinMaxLatency.shift d = persistenceInitMinMaxLatency := rfl
    have hrun := writeMinMaxLatency_shift d persistenceInitMinMaxLatency ps
    rw [hinit] at hrun
    dsimp only
    rw [hrun]
    refine ⟨rfl, rfl, ?_, ?_⟩ <;> exact Option.map_map ..
  · intro hps
    -- the zeroed previous payload is not valid, so the first call does not read it
    have hfirst : ∀ q, persistenceWriteBuckets ((persistenceInitBuckets interval).shift d) q =
        persistenceWriteBuckets (persistenceInitBuckets interval) q := fun q => by
      rw [persistenceWriteBuckets_of_not_valid rfl, persistenceWriteBuckets_of_not_valid rfl]
      rfl
    have hrun : callWriteBuckets ((persistenceInitBuckets interval).shift d)
        (ps.map (PingpongPayload.shift d)) = _ := callWriteBuckets_shift hps fun hvalid =>
      Bool.noConfusion (validPingpongPayload_zero.symm.trans hvalid)
    cases ps with
    | nil => rfl
    | cons p ps =>
        have hstart : callWriteBuckets (persistenceInitBuckets interval)
            ((p :: ps).map (PingpongPayload.shift d)) =
            callWriteBuckets ((persistenceInitBuckets interval).shift d)
              ((p :: ps).map (PingpongPayload.shift d)) := by
          simp only [List.map_cons, callWriteBuckets, hfirst]
        rw [hstart, hrun, Option.map_map]
        rfl

/-- Two payloads and a server's clock 3 ns behind. -/
theorem results_shift_two :
    let ps := [((newPingpongPayload 1).setTs 1 7).setTs 2 9,
      ((newPingpongPayload 2).setTs 1 8).setTs 2 11]
    (callWriteBuckets (persistenceInitBuckets 1000)
      (ps.map (PingpongPayload.shift (-3)))).map observed =
      (callWriteBuckets (persistenceInitBuckets 1000) ps).map observed :=
  (results_shift _ (-3) 1000).2 (by decide)

end DetBypass
