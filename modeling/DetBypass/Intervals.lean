/-
# The intervals between the packets

The pace of the sending thread (`Common/Pacing.lean`) for each of the programs, and
what the histogram (`Common/Buckets.lean`) makes of it.  The first column of the
histogram counts the differences of the times at which consecutive packets were sent,
around the interval; its bucket 0 is for those that are more than `OFFSET` below.

The packets that come back are recorded in any order, but one that was sent before the
last one recorded is not.  So every difference recorded is that of a packet and a
later one, an interval at least between their iterations, and as long as no send
function is late by more than `OFFSET` that bucket stays empty
(`sendColumn_of_run`).  The RC client leaves the first time stamp 0.
-/

import DetBypass.Common.BucketCalls
import DetBypass.Common.Pacing
import DetBypass.Senders

namespace DetBypass
namespace Intervals

open Lib BucketData Pacing

/-! ### The first column -/

variable {aux aux' : BucketData} {ps : List PingpongPayload} {rets : List ℤ} {L : ℕ}

/-- If the second payload was not sent before the first, it was so long after it. -/
def Apart (L : ℕ) (q p : PingpongPayload) : Prop :=
  q.ts 0 ≤ p.ts 0 → L ≤ (p.ts 0 - q.ts 0).toNat ∧ (p.ts 0 - q.ts 0).toNat < 2 ^ 63

/-- A difference in or above the range is not in bucket 0. -/
theorem relIdx_ne_zero {payload : PingpongPayload} {k : UInt32} {col : Fin 4}
    (hinterval : aux.sendInterval.toNat < 2 ^ 31)
    (hlo : aux.sendInterval.toNat - offset ≤ (aux.tsDiff payload col).toNat)
    (hhi : (aux.tsDiff payload col).toNat < 2 ^ 63)
    (hk : aux.relIdx payload col = some k) : k.toNat ≠ 0 := by
  have hO : offset = 1000000 := rfl
  have hN : (numBuckets : ℤ) = 20000 := rfl
  obtain ⟨hmin, hmax, -⟩ := bucketRanges_toNat hinterval
  have hmin' := toInt_toInt64_of_lt (x := (bucketRanges aux.sendInterval).relMin) (by omega)
  have hmax' := toInt_toInt64_of_lt (x := (bucketRanges aux.sendInterval).relMax) (by omega)
  have hval := toInt_toInt64_of_lt hhi
  rw [relIdx] at hk
  rcases lt_or_ge (bucketRanges aux.sendInterval).relMax.toInt64.toInt
      (aux.tsDiff payload col).toInt64.toInt with hgt | hle
  · rw [bucketIdx_of_gt (by omega) hgt] at hk
    rw [← Option.some.inj hk]
    decide
  · obtain ⟨k', hk', hquot⟩ := bucketIdx_inside (by omega) (by omega)
      (show (bucketRanges aux.sendInterval).relMin.toInt64.toInt ≤ _ by omega) hle
    obtain rfl := Option.some.inj (hk'.symm.trans hk)
    have hnonneg : 0 ≤ ((aux.tsDiff payload col).toInt64.toInt -
        (bucketRanges aux.sendInterval).relMin.toInt64.toInt) /
        (((bucketRanges aux.sendInterval).relMax.toInt64.toInt -
          (bucketRanges aux.sendInterval).relMin.toInt64.toInt) / numBuckets) :=
      Int.ediv_nonneg (by omega) (Int.ediv_nonneg (by omega) (by omega))
    omega

/-- One call: bucket 0 of the first column stays as it is, and its minimum is not less
than the least difference. -/
theorem write_apart {payload : PingpongPayload} {ret : ℤ}
    (hinterval : aux.sendInterval.toNat < 2 ^ 31) (hL : aux.sendInterval.toNat - offset ≤ L)
    (hprev : validPingpongPayload aux.prevPayload = true → Apart L aux.prevPayload payload)
    (h : persistenceWriteBuckets aux payload = some (ret, aux')) :
    aux'.sendInterval = aux.sendInterval ∧
      (aux'.buckets 0).relLatency 0 = (aux.buckets 0).relLatency 0 ∧
      min (aux.minValues.relLatency 0).toNat L ≤ (aux'.minValues.relLatency 0).toNat ∧
      (aux'.prevPayload = aux.prevPayload ∨ aux'.prevPayload = payload) := by
  rcases persistenceWriteBuckets_cases aux payload with
    ⟨-, he⟩ | ⟨-, -, he⟩ | ⟨haccepts, ⟨-, he⟩ | ⟨aux₁, he, hrecords⟩⟩
  all_goals cases he.symm.trans h
  · exact ⟨rfl, rfl, Nat.min_le_left _ _, Or.inr rfl⟩
  · exact ⟨rfl, rfl, Nat.min_le_left _ _, Or.inl rfl⟩
  · obtain ⟨hlo, hhi⟩ := hprev haccepts.1 (haccepts.2 0)
    refine ⟨hrecords.sendInterval, ?_, ?_, Or.inr hrecords.prevPayload⟩
    · choose k hk using relIdx_lt aux payload
      cases hl : aux.absIdx payload with
      | none => cases he.symm.trans (persistenceWriteBuckets_of_absIdx_none haccepts hl)
      | some l =>
          have hwrite := persistenceWriteBuckets_of_accepts haccepts (fun col => (hk col).1) hl
          obtain ⟨-, rfl⟩ := Prod.mk.inj (Option.some.inj (he.symm.trans hwrite))
          have hne := relIdx_ne_zero hinterval (hL.trans hlo) hhi (hk 0).1
          simp [recorded, hne]
    · rw [hrecords.relMin]
      omega

/-- **A sequence of calls**: bucket 0 of the first column stays as it is. -/
theorem callWriteBuckets_apart (hinterval : aux.sendInterval.toNat < 2 ^ 31)
    (hL : aux.sendInterval.toNat - offset ≤ L)
    (hprev : validPingpongPayload aux.prevPayload = true → ∀ p ∈ ps, Apart L aux.prevPayload p)
    (hps : ps.Pairwise (Apart L)) (h : callWriteBuckets aux ps = some (rets, aux')) :
    (aux'.buckets 0).relLatency 0 = (aux.buckets 0).relLatency 0 ∧
      min (aux.minValues.relLatency 0).toNat L ≤ (aux'.minValues.relLatency 0).toNat := by
  induction ps generalizing aux rets with
  | nil =>
      cases h
      exact ⟨rfl, Nat.min_le_left _ _⟩
  | cons p ps ih =>
      obtain ⟨⟨ret, aux₁⟩, hcall, h⟩ := Option.bind_eq_some_iff.1 h
      obtain ⟨⟨rets, aux₂⟩, hrun, h⟩ := Option.bind_eq_some_iff.1 h
      cases h
      obtain ⟨hhead, htail⟩ := List.pairwise_cons.1 hps
      obtain ⟨hsend, hbucket, hmin, hstored⟩ := write_apart hinterval hL
        (fun hvalid => hprev hvalid p (List.mem_cons_self ..)) hcall
      obtain ⟨hbucket', hmin'⟩ := ih (hsend ▸ hinterval) (hsend ▸ hL) (fun hvalid => by
        rcases hstored with he | he <;> rw [he] at hvalid ⊢
        · exact fun q hq => hprev hvalid q (List.mem_cons_of_mem _ hq)
        · exact hhead) htail hrun
      exact ⟨hbucket'.trans hbucket, by omega⟩

/-! ### In a run -/

open Sender in
/-- The programs whose send function writes the first time stamp. -/
theorem ts_sendPacket {transport : Transport} (h : transport ≠ .rc) (id t : UInt64) :
    (transport.sendPacket.payload id t).ts 0 = t := by
  cases transport with
  | rc => exact absurd rfl h
  | ppPoll | ppPure | noBypass | ppSock | ud => rfl

variable {transport : Sender.Transport} {a : Sender.Affinity} {iters interval : UInt64}
  {outcome : ℕ → Sender.Outcome} {origin d : ℕ} {s : Pacing.State}

/-- The packets of a run, each written `d` at most after the start of its iteration. -/
theorem apart_of_reachable (htransport : transport ≠ .rc)
    (h : (threadSendPackets transport.sendPacket a iters interval outcome origin).ReachableIf
      Uninterrupted s) (hnow : origin + s.now < 2 ^ 63)
    (hlate : ∀ (k b t : ℕ), s.starts[k]? = some b → s.sends[k]? = some t → t ≤ b + d)
    {i j : ℕ} (hij : i ≠ j) {p q p' q' : PingpongPayload}
    (hp : s.thread.packets[i]? = some p) (hq : s.thread.packets[j]? = some q)
    (hp' : p'.ts 0 = p.ts 0) (hq' : q'.ts 0 = q.ts 0) : Apart (interval.toNat - d) p' q' := by
  have hlog := logged_of_reachable h
  have hspaced := (paced_of_reachable h).spaced
  have htime {k : ℕ} {p : PingpongPayload} (hp : s.thread.packets[k]? = some p) :
      ∃ b t : ℕ, s.starts[k]? = some b ∧ b ≤ t ∧ t ≤ b + d ∧ t ≤ s.now ∧
        (p.ts 0).toNat = origin + t := by
    have hk := (List.getElem?_eq_some_iff.1 hp).1
    have hsend : k < s.sends.length := by rw [hlog.packets]; exact hk
    have hstart : k < s.starts.length := Nat.lt_of_lt_of_le hsend hlog.length_le
    have hb := List.getElem?_eq_getElem hstart
    have ht := List.getElem?_eq_getElem hsend
    have hnow' := hlog.le_now _ (List.mem_append_right _ (List.getElem_mem hsend))
    obtain ⟨id, rfl⟩ := hlog.payload k _ p ht hp
    refine ⟨_, _, hb, hlog.after k _ _ hb ht, hlate k _ _ hb ht, hnow', ?_⟩
    rw [ts_sendPacket htransport, clock_toNat (by omega)]
  obtain ⟨b, t, hb, hbt, htd, htn, hpt⟩ := htime hp
  obtain ⟨b', t', hb', hbt', htd', htn', hqt⟩ := htime hq
  intro hle
  have hsub : (q'.ts 0 - p'.ts 0).toNat = t' - t := by
    rw [UInt64.toNat_sub_of_le _ _ hle, hp', hq', hpt, hqt]
    omega
  have hle : t ≤ t' := by
    rw [UInt64.le_iff_toNat_le, hp', hq', hpt, hqt] at hle
    omega
  obtain ⟨hi, hbi⟩ := List.getElem?_eq_some_iff.1 hb
  obtain ⟨hj, hbj⟩ := List.getElem?_eq_some_iff.1 hb'
  rw [hsub]
  refine ⟨?_, by omega⟩
  rcases Nat.lt_or_gt_of_ne hij with hlt | hgt
  · have := List.pairwise_iff_getElem.1 hspaced i j hi hj hlt
    rw [hbi, hbj] at this
    omega
  · -- sent the other way round, so at the same time
    have := List.pairwise_iff_getElem.1 hspaced j i hj hi hgt
    rw [hbi, hbj] at this
    omega

/-- Two packets at an interval of 5 ns, the first written 2 ns after its start. -/
theorem exists_run : ∃ s : Pacing.State,
    (threadSendPackets Sender.Transport.ppPoll.sendPacket Sender.anyCore 2 5 (fun _ => .ok)
      100).ReachableIf Uninterrupted s ∧ s.starts = [0, 5] ∧ s.sends = [2, 6] ∧ s.now = 6 ∧
      s.thread.packets.length = 2 := by
  have hexec : ((threadSendPackets Sender.PpPoll.sendPacket Sender.anyCore 2 5
      (fun _ => .ok) 100).execIf Uninterrupted (Pacing.initial Sender.anyCore)
      [.thread, .wait 2, .thread, .wait 1, .thread, .thread, .wait 1, .thread, .wait 1, .thread,
        .thread, .wait 1, .thread]).map
      (fun s => (s.starts, s.sends, s.now, s.thread.packets.length)) =
      some ([0, 5], [2, 6], 6, 2) := by
    decide +kernel
  obtain ⟨s, hs, he⟩ := Option.map_eq_some_iff.1 hexec
  simp only [Prod.mk.injEq] at he
  exact ⟨s, System.runIf_of_execIf hs, he⟩

/-- **The pace of every program**: as many iterations as calls of its send function,
those of two packets as many intervals apart as their ids, and in a window of time no
more of them than intervals, rounded up. -/
theorem pace_of_run
    (h : (threadSendPackets transport.sendPacket a iters interval outcome origin).ReachableIf
      Uninterrupted s) :
    s.starts.length = s.thread.calls.length ∧
      (∀ {i j : ℕ} (hij : i ≤ j) (hj : j < s.starts.length),
        s.starts[i] + (j - i) * interval.toNat ≤ s.starts[j]) ∧
      (0 < interval → ∀ t w, (s.starts.filter fun a => t ≤ a ∧ a < t + w).length ≤
        (w + interval.toNat - 1) / interval.toNat) := by
  have hspaced := (paced_of_reachable h).spaced
  refine ⟨(logged_of_reachable h).calls, fun hij hj => hspaced.add_mul_le hij hj,
    fun hpos t w => hspaced.length_window_le ?_ t w⟩
  exact UInt64.lt_iff_toNat_lt.1 hpos

/-- Two iterations, in a window of 9 ns. -/
theorem exists_pace : ∃ s : Pacing.State, s.thread.calls.length = 2 ∧
    (s.starts.filter fun a => 1 ≤ a ∧ a < 1 + 9).length ≤ 2 := by
  obtain ⟨s, hs, hstarts, -⟩ := exists_run
  obtain ⟨hlength, -, hwindow⟩ := pace_of_run hs
  exact ⟨s, by rw [← hlength, hstarts]; rfl, hwindow (by decide) 1 9⟩

/-- **The bucket below the range stays empty** in the column of the send times, and its
minimum is an interval less the lateness at least, whatever order the packets come back
in, if none comes back twice. -/
theorem sendColumn_of_run (htransport : transport ≠ .rc)
    (h : (threadSendPackets transport.sendPacket a iters interval outcome origin).ReachableIf
      Uninterrupted s) (hnow : origin + s.now < 2 ^ 63) (hinterval : interval.toNat < 2 ^ 31)
    (hlate : ∀ (k b t : ℕ), s.starts[k]? = some b → s.sends[k]? = some t → t ≤ b + d)
    (hd : d ≤ offset) {rounds : List (ℕ × PingpongPayload)}
    (hnodup : (rounds.map Prod.fst).Nodup)
    (hsent : ∀ r ∈ rounds, ∃ p, s.thread.packets[r.1]? = some p ∧ r.2.ts 0 = p.ts 0)
    (hcalls : callWriteBuckets (persistenceInitBuckets interval) (rounds.map Prod.snd) =
      some (rets, aux)) :
    (aux.buckets 0).relLatency 0 = 0 ∧
      interval.toNat ≤ (aux.minValues.relLatency 0).toNat + d := by
  have hapart : (rounds.map Prod.snd).Pairwise (Apart (interval.toNat - d)) := by
    rw [List.pairwise_map]
    refine (List.pairwise_map.1 hnodup).imp_of_mem fun hr hr' hne => ?_
    obtain ⟨p, hp, hpts⟩ := hsent _ hr
    obtain ⟨q, hq, hqts⟩ := hsent _ hr'
    exact apart_of_reachable htransport h hnow hlate hne hp hq hpts hqts
  have hzero : validPingpongPayload .zero = false := by decide
  obtain ⟨hbucket, hmin⟩ := callWriteBuckets_apart (L := interval.toNat - d) hinterval
    (Nat.sub_le_sub_left hd _) (fun hvalid => absurd (hzero.symm.trans hvalid) (by decide)) hapart
    hcalls
  have hmax : ((persistenceInitBuckets interval).minValues.relLatency 0).toNat = 2 ^ 64 - 1 := rfl
  exact ⟨hbucket, by omega⟩

/-- Both packets come back, the second first. -/
theorem exists_sendColumn : ∃ (p q : PingpongPayload) (rets : List ℤ) (aux : BucketData),
    callWriteBuckets (persistenceInitBuckets 5) [p, q] = some (rets, aux) ∧
      (aux.buckets 0).relLatency 0 = 0 := by
  obtain ⟨s, hs, hstarts, hsends, hnow, hlength⟩ := exists_run
  obtain ⟨p, q, hpackets⟩ := List.length_eq_two.1 hlength
  obtain ⟨rets, aux, hcalls, -⟩ := callWriteBuckets_sum (i := 5) (by decide) [q, p]
    (show (persistenceInitBuckets 5).sendInterval = parsedInterval 5 by decide)
  have hlate (k b t : ℕ) (hb : s.starts[k]? = some b) (ht : s.sends[k]? = some t) : t ≤ b + 2 := by
    rw [hstarts] at hb
    rw [hsends] at ht
    rcases k with _ | _ | k <;> simp at hb ht <;> omega
  have hback : callWriteBuckets (persistenceInitBuckets 5) ([((1 : ℕ), q), (0, p)].map Prod.snd) =
      some (rets, aux) := hcalls
  have hcolumn := sendColumn_of_run (by decide) hs (by rw [hnow]; decide) (by decide) hlate
    (by decide) (by simp) (by simp [hpackets]) hback
  exact ⟨q, p, rets, aux, hcalls, hcolumn.1⟩

end Intervals
end DetBypass
