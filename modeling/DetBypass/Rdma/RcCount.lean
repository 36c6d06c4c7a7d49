/-
# The rounds the RC pingpong counts

The loop of `rdma/rc_pingpong.c` runs until `recv_count` is `iters`, and counts
every completion that `parse_single_wc` has handled.  The sends complete into
the same queue, so `recv_count` is the number of receive completions handled
only as long as no send completion is (`recvCount_le_of_reachableIf`).  A client
with two rounds to run ends after its first two sends, without a pong
(`exists_uncounted`).
-/

import DetBypass.Rdma.RcExchange

namespace DetBypass
namespace Rdma
namespace Rc

open Lib

variable {iters : Build → UInt64} {s t : State} {h h' : Host} {build : Build} {wc : Wc}
  {rest : List Wc} {now n : UInt64} {a : HostAction}

/-- The host handles no send completion. -/
def Host.CountsReceives (h : Host) : HostAction → Prop
  | .parse _ => ∀ wc ∈ h.pc.current, wc.success = true → wc.wrId ≠ pingpongSendWrid
  | _ => True

instance (h : Host) : (a : HostAction) → Decidable (h.CountsReceives a)
  | .parse _ => inferInstanceAs (Decidable (∀ wc ∈ h.pc.current, wc.success = true →
      wc.wrId ≠ pingpongSendWrid))
  | .loop | .startPoll | .pollError | .nextPoll | .write _ | .post | .complete _ _ =>
    .isTrue trivial

/-- The condition on a step: the host of the build handles no send completion. -/
def CountsReceives (build : Build) (s : State) : Action → Prop
  | .host b a => b = build → (s.host b).CountsReceives a
  | _ => True

instance (build : Build) (s : State) : (a : Action) → Decidable (CountsReceives build s a)
  | .host b a => inferInstanceAs (Decidable (b = build → (s.host b).CountsReceives a))
  | .transmit _ | .arrive _ _ => .isTrue trivial

/-- What was counted was received, up to a failure that ends the loop. -/
structure Counted (n : UInt64) (h : Host) : Prop where
  wcs : ∀ wc ∈ h.pc.current ++ h.cq, wc.Wf
  le : h.recvCount.toNat ≤ h.handled.length
  count : h.pc ≠ .failed → h.recvCount = UInt64.ofNat h.handled.length
  done : h.pc = .done → ¬ h.recvCount < n

/-! ### One step -/

/-- A step that handles no completion. -/
theorem Counted.keep (hc : Counted n h) (hcount : h'.recvCount = h.recvCount)
    (hhandled : h'.handled = h.handled) (hwcs : ∀ wc ∈ h'.pc.current ++ h'.cq, wc.Wf)
    (hfailed : h'.pc ≠ .failed → h.pc ≠ .failed)
    (hdone : h'.pc = .done → ¬ h.recvCount < n) : Counted n h' where
  wcs := hwcs
  le := by
    rw [hcount, hhandled]
    exact hc.le
  count hpc := by
    rw [hcount, hhandled]
    exact hc.count (hfailed hpc)
  done hpc := by
    rw [hcount]
    exact hdone hpc

/-- What handling a completion does to the counts: a send is handled without
one, a receive with one. -/
theorem parseSingleWc_counts (build : Build) (now : UInt64) (h : Host) (hwf : wc.Wf) :
    (parseSingleWc build now h wc).2.cq = h.cq ∧
      (parseSingleWc build now h wc).2.recvCount = h.recvCount ∧
      (wc.wrId = pingpongSendWrid ∧
          (parseSingleWc build now h wc).2.handled.length = h.handled.length ∧
          (wc.success = true ↔ (parseSingleWc build now h wc).1 = 0) ∨
        wc.wrId = pingpongRecvWrid ∧
          (parseSingleWc build now h wc).2.handled.length = h.handled.length + 1) := by
  rcases hwf with ⟨hid, hmsg⟩ | ⟨hid, hsuccess, hmsg⟩
  · rw [parseSingleWc_send build now h hid]
    refine ⟨rfl, rfl, Or.inl ⟨hid, rfl, ?_⟩⟩
    by_cases hsuccess : wc.success = true <;> simp [parseSingleWc, hsuccess, hid]
  · obtain ⟨msg, hmsg⟩ := Option.ne_none_iff_exists'.1 hmsg
    obtain ⟨recvPosted, availableRecv, hparse⟩ :=
      parseSingleWc_recv build now h hid hsuccess hmsg
    rw [hparse]
    cases build with
    | server =>
        by_cases hsend : h.send = none <;> simp [handleRecv, ppPostSend, hsend, hid]
    | client => simp [handleRecv, hid]

/-- A number is no less than what is left of it in a `uint64_t`. -/
theorem toNat_ofNat_le (k : ℕ) : (UInt64.ofNat k).toNat ≤ k := by
  rw [UInt64.toNat_ofNat']
  exact Nat.mod_le _ _

/-- **A completion handled.**  If it is that of a receive, what was counted was
received. -/
theorem Counted.parse (hc : Counted n h) (hg : h.CountsReceives (.parse now))
    (hstep : stepHost build n h (.parse now) = some h') : Counted n h' := by
  obtain ⟨-, wc, hcurrent, hpc, hparse⟩ := stepHost_parse hstep
  have hwf : wc.Wf := hc.wcs wc (by simp [hcurrent])
  have hcq : ∀ wc' ∈ h.cq, wc'.Wf := fun wc' hwc' => hc.wcs wc' (List.mem_append_right _ hwc')
  have hle := hc.le
  obtain ⟨hqueue, hcount, hcounts⟩ := parseSingleWc_counts build now h hwf
  rcases hparse with ⟨-, rfl⟩ | ⟨hok, pc, hnone, hdone, rfl⟩
  · refine ⟨?_, ?_, fun hfailed => absurd rfl hfailed, Pc.noConfusion⟩
    · dsimp only
      rw [hqueue]
      exact hcq
    · dsimp only
      rw [hcount]
      rcases hcounts with ⟨-, hlength, -⟩ | ⟨-, hlength⟩ <;> omega
  · have hlength : (parseSingleWc build now h wc).2.handled.length = h.handled.length + 1 := by
      rcases hcounts with ⟨hid, -, hiff⟩ | ⟨-, hlength⟩
      · exact absurd hid (hg wc (by simp [hcurrent]) (hiff.2 hok))
      · exact hlength
    have heq : h.recvCount + 1 = UInt64.ofNat (h.handled.length + 1) := by
      rw [hc.count hpc, UInt64.ofNat_add]
      rfl
    refine ⟨?_, ?_, fun _ => ?_, fun he => absurd he hdone⟩
    · rw [hqueue, hnone]
      exact hcq
    · rw [hcount, heq, hlength]
      exact toNat_ofNat_le _
    · dsimp only
      rw [hcount, hlength, heq]

/-- A step of the host. -/
theorem Counted.step (hc : Counted n h) (hg : h.CountsReceives a)
    (hstep : stepHost build n h a = some h') : Counted n h' := by
  have hcq : ∀ wc' ∈ h.cq, wc'.Wf := fun wc' hwc' => hc.wcs wc' (List.mem_append_right _ hwc')
  cases hostStep_of_stepHost hstep with
  | parse hstep => exact hc.parse hg hstep
  | post | postFailed | write => exact hc.keep rfl rfl hc.wcs id hc.done
  | loop hpc =>
      have hnot : h.pc ≠ .failed := hpc ▸ Pc.noConfusion
      split_ifs with hlt
      · exact hc.keep rfl rfl hcq (fun _ => hnot) Pc.noConfusion
      · exact hc.keep rfl rfl hcq (fun _ => hnot) fun _ => hlt
  | startPoll wc rest hpc hqueue | nextPoll wc rest hpc hqueue =>
      rw [hqueue] at hcq
      exact hc.keep rfl rfl hcq (fun _ => hpc ▸ Pc.noConfusion) Pc.noConfusion
  | pollError => exact hc.keep rfl rfl hcq (fun hpc => absurd rfl hpc) Pc.noConfusion
  | endPoll hpc => exact hc.keep rfl rfl hcq (fun _ => hpc ▸ Pc.noConfusion) Pc.noConfusion
  | complete ts success hsend =>
      refine hc.keep rfl rfl (fun wc hwc => ?_) id hc.done
      rcases List.mem_append.1 hwc with hwc | hwc
      · exact hc.wcs wc (List.mem_append_left _ hwc)
      rcases List.mem_append.1 hwc with hwc | hwc
      · exact hcq wc hwc
      · rw [List.mem_singleton.1 hwc]
        exact Or.inl ⟨rfl, rfl⟩

/-- **What was counted was received**, on a host that handles no send
completion. -/
theorem counted_invariant : (rc iters).Invariant (CountsReceives build)
    fun s => Counted (iters build) (s.host build) where
  init := ⟨fun wc hwc => absurd hwc List.not_mem_nil, Nat.le_refl _, fun _ => rfl,
    Pc.noConfusion⟩
  step := by
    intro s a t hc hg hstep
    have hall : ∀ b, b = build → Counted (iters b) (s.host b) := by
      rintro _ rfl
      exact hc
    cases rcStep_of_step hstep with
    | @host b a h' hhost =>
        exact forall_update (P := fun b h => b = build → Counted (iters b) h) hall
          (fun hb => (hall b hb).step (hg hb) hhost) build rfl
    | @transmit b =>
        refine forall_update (P := fun b h => b = build → Counted (iters b) h) hall
          (fun hb => ?_) build rfl
        exact (hall b hb).keep rfl rfl (hall b hb).wcs id (hall b hb).done
    | @arrive b =>
        refine forall_update (P := fun b h => b = build → Counted (iters b) h) hall
          (fun hb => ?_) build rfl
        refine (hall b hb).keep rfl rfl (fun wc hwc => ?_) id (hall b hb).done
        rw [← List.append_assoc] at hwc
        rcases List.mem_append.1 hwc with hwc | hwc
        · exact (hall b hb).wcs wc hwc
        · rw [List.mem_singleton.1 hwc]
          exact Or.inr ⟨rfl, rfl, Option.some_ne_none _⟩

/-- The completion of a send is counted. -/
theorem Counted.overcount (hc : Counted n h) (hg : ¬ h.CountsReceives a)
    (hstep : stepHost build n h a = some h') :
    h'.recvCount = UInt64.ofNat (h'.handled.length + 1) := by
  cases a
  case parse now =>
    obtain ⟨-, wc, hcurrent, hpc, hparse⟩ := stepHost_parse hstep
    have hwf : wc.Wf := hc.wcs wc (by simp [hcurrent])
    obtain ⟨hsuccess, hid⟩ : wc.success = true ∧ wc.wrId = pingpongSendWrid := by
      simpa [Host.CountsReceives, hcurrent] using hg
    obtain ⟨-, hcount, hcounts⟩ := parseSingleWc_counts build now h hwf
    obtain ⟨-, hlength, hiff⟩ := hcounts.resolve_right fun hrecv =>
      absurd (hid.symm.trans hrecv.1) (by decide)
    rcases hparse with ⟨hfailed, -⟩ | ⟨-, pc, -, -, rfl⟩
    · exact absurd (hiff.1 hsuccess) hfailed
    · dsimp only
      rw [hcount, hlength, hc.count hpc, UInt64.ofNat_add]
      rfl
  all_goals exact absurd trivial hg

/-- **RC runs for the requested number of rounds, if no send completion is
handled.**  In every such run of a host `recv_count` is at most the number of
receive completions handled, and when the loop has ended successfully there were
`iters` of them at least.  The first send completion handled is counted too. -/
theorem recvCount_le_of_reachableIf (h : (rc iters).ReachableIf (CountsReceives build) s) :
    (s.host build).recvCount.toNat ≤ (s.host build).handled.length ∧
      ((s.host build).pc = .done → (iters build).toNat ≤ (s.host build).handled.length) ∧
      (∀ a t, step iters s a = some t → ¬ CountsReceives build s a →
        (t.host build).recvCount = UInt64.ofNat ((t.host build).handled.length + 1)) := by
  have hc : Counted (iters build) (s.host build) := counted_invariant.holds h
  refine ⟨hc.le, fun hpc => ?_, fun a t hstep hg => ?_⟩
  · exact Nat.le_trans (UInt64.le_iff_toNat_le.1 (UInt64.not_lt.1 (hc.done hpc))) hc.le
  · cases a with
    | host b a =>
        obtain ⟨rfl, hnot⟩ := Classical.not_imp.1 hg
        simp only [Rc.step] at hstep
        obtain ⟨h', hhost, rfl⟩ := Option.map_eq_some_iff.1 hstep
        dsimp only
        rw [Function.update_self]
        exact hc.overcount hnot hhost
    | transmit _ | arrive _ _ => exact absurd trivial hg

/-- A client that has handled a pong and no send completion. -/
theorem recvCount_le_of_reachableIf_one : ∃ s,
    (rc fun _ => 10).ReachableIf (CountsReceives .client) s ∧
    (s.host .client).recvCount = 1 ∧ 1 ≤ (s.host .client).handled.length := by
  have hrun : ((rc fun _ => 10).execIf (CountsReceives .client) (rc fun _ => 10).init oneRound).map
      (fun s => (s.host .client).recvCount) = some 1 := by
    decide +kernel
  obtain ⟨s, hs, hcount⟩ := Option.map_eq_some_iff.1 hrun
  have hreach : (rc fun _ => 10).ReachableIf (CountsReceives .client) s :=
    System.runIf_of_execIf hs
  have hle := (recvCount_le_of_reachableIf hreach).1
  rw [hcount] at hle
  exact ⟨s, hreach, hcount, hle⟩

/-- Two sends of the client complete before a pong arrives. -/
def twoSends : List Action :=
  [.host .client (.write 5), .host .client .post, .transmit .client,
    .host .client (.complete 70 true), .host .client .loop, .host .client .startPoll,
    .host .client (.parse 9), .host .client (.write 11), .host .client .post, .transmit .client,
    .host .client (.complete 71 true), .host .client .nextPoll, .host .client (.parse 13),
    .host .client .loop]

/-- **The client ends without a pong**: it has counted its two sends. -/
theorem exists_uncounted : ∃ s, (rc fun _ => 2).Reachable s ∧
    (s.host .client).pc = .done ∧ (s.host .client).recvCount = 2 ∧
    (s.host .client).handled = [] := by
  have hrun : ((rc fun _ => 2).exec (rc fun _ => 2).init twoSends).map
      (fun s => ((s.host .client).pc, (s.host .client).recvCount, (s.host .client).handled)) =
      some (.done, 2, []) := by
    decide +kernel
  obtain ⟨s, hs, he⟩ := Option.map_eq_some_iff.1 hrun
  obtain ⟨hpc, he⟩ := Prod.mk.inj he
  obtain ⟨hcount, hhandled⟩ := Prod.mk.inj he
  exact ⟨s, System.reachable_of_exec hs, hpc, hcount, hhandled⟩

end Rc
end Rdma
end DetBypass
