/-
# The receive credit of the RC pingpong

`available_recv` of `rdma/rc_pingpong.c` is decremented for every receive
completion that `parse_single_wc` handles, and at one receive left the others
are posted again.  It is the number of receives whose completion has not been
handled (`Credit.available`), so one receive is outstanding when the refill asks
for `RECEIVE_DEPTH - 1`, and all of them are posted (`Credit.recv`).

A host has one send outstanding, until its completion is polled: with the
receives it never fills more than the `RECEIVE_DEPTH + 1` places asked for the
completion queue.  The sending thread of the client can post between the poll of
the completion of a send and its handling; `OneSend` is the condition that a
post fails then too.
-/

import DetBypass.Rdma.RcExchange

namespace DetBypass
namespace Rdma
namespace Rc

open Lib

variable {iters : Build → UInt64} {s t : State} {h h' : Host} {build : Build} {wc : Wc}
  {rest : List Wc} {now n : UInt64} {a : HostAction}

/-- The receives posted whose completion has not been handled. -/
def Host.awaitingRecv (h : Host) : ℕ :=
  h.outstandingRecv + tally Wc.wrId h.pc.current pingpongRecvWrid

/-- The sends posted whose completion has not been polled. -/
def Host.outstandingSend (h : Host) : ℕ :=
  (if h.send = some .posted ∨ h.send = some .transmitted then 1 else 0) +
    tally Wc.wrId h.cq pingpongSendWrid

/-- The sends posted whose completion has not been handled. -/
def Host.awaitingSend (h : Host) : ℕ :=
  h.outstandingSend + tally Wc.wrId h.pc.current pingpongSendWrid

/-- The condition on a step: a post of the sending thread fails while the
completion of a send of the host has not been handled. -/
def OneSend (build : Build) (s : State) : Action → Prop
  | .host b .post => b = build → (s.host b).send = none → (s.host b).awaitingSend = 0
  | _ => True

instance (build : Build) (s : State) : (a : Action) → Decidable (OneSend build s a)
  | .host b .post => inferInstanceAs (Decidable (b = build →
      (s.host b).send = none → (s.host b).awaitingSend = 0))
  | .host _ .loop | .host _ .startPoll | .host _ .pollError | .host _ .nextPoll
  | .host _ (.parse _) | .host _ (.write _) | .host _ (.complete _ _)
  | .transmit _ | .arrive _ _ => .isTrue trivial

/-- The credit is the number of receives awaiting their completion, and between
two and `RECEIVE_DEPTH`. -/
structure Credit (h : Host) : Prop where
  wcs : ∀ wc ∈ h.pc.current ++ h.cq, wc.Wf
  available : h.availableRecv = h.awaitingRecv
  low : 2 ≤ h.awaitingRecv
  high : h.awaitingRecv ≤ receiveDepth
  sent : tally Wc.wrId h.cq pingpongSendWrid = if h.send = some .completed then 1 else 0

/-- A receive leaves `recv_posted` for the completion queue, and the queue for
the completion at hand. -/
theorem Host.awaitingRecv_eq (h : Host) :
    h.awaitingRecv = h.recvPosted + tally Wc.wrId (h.pc.current ++ h.cq) pingpongRecvWrid := by
  unfold Host.awaitingRecv Host.outstandingRecv
  rw [tally_append, tally, tally]
  omega

/-- One completion is handled at a time. -/
theorem Pc.current_of_mem {pc : Pc} (hwc : wc ∈ pc.current) : pc.current = [wc] := by
  unfold Pc.current at hwc ⊢
  split at hwc
  · rw [List.mem_singleton.1 hwc]
  · rw [List.mem_singleton.1 hwc]
  · cases hwc

/-- One send is outstanding at most. -/
theorem Credit.outstandingSend_eq (hc : Credit h) :
    h.outstandingSend = if h.send = none then 0 else 1 := by
  unfold Host.outstandingSend
  rw [hc.sent]
  rcases h.send with _ | _ | _ | _ <;> rfl

/-! ### Handling a completion -/

/-- What a host posts for a receive completion, but for receives. -/
theorem handleRecv_frame (build : Build) (now : UInt64) (h : Host) (wc : Wc) :
    (handleRecv build now h wc).outstandingRecv = h.outstandingRecv ∧
      (handleRecv build now h wc).recvPosted = h.recvPosted ∧
      (handleRecv build now h wc).cq = h.cq ∧
      (handleRecv build now h wc).availableRecv = h.availableRecv ∧
      ((handleRecv build now h wc).send = h.send ∨
        h.send = none ∧ (handleRecv build now h wc).send = some .posted) := by
  cases build with
  | server =>
      by_cases hsend : h.send = none
      · simp [handleRecv, ppPostSend, hsend, Host.outstandingRecv]
      · simp [handleRecv, ppPostSend, hsend, Host.outstandingRecv]
  | client => exact ⟨rfl, rfl, rfl, rfl, Or.inl rfl⟩

/-- Receives posted are outstanding. -/
theorem outstandingRecv_add (h : Host) (k : ℕ) (availableRecv : ℤ) :
    Host.outstandingRecv { h with
      recvPosted := h.recvPosted + k, availableRecv := availableRecv } =
      h.outstandingRecv + k :=
  Nat.add_right_comm ..

/-- With one receive outstanding there is room for all the others. -/
theorem ppPostRecv_of_one (hone : h.outstandingRecv = 1) :
    ppPostRecv h (receiveDepth - 1) =
      ((499 : ℤ), { h with recvPosted := h.recvPosted + 499 }) := by
  have hn : min ((receiveDepth : ℤ) - 1).toNat (receiveDepth - h.outstandingRecv) = 499 := by
    rw [hone]
    rfl
  simp only [ppPostRecv, hn]
  rfl

/-- The credit at a receive completion counts that receive. -/
theorem Credit.available_eq (hc : Credit h) (hcurrent : h.pc.current = [wc])
    (hid : wc.wrId = pingpongRecvWrid) :
    h.availableRecv = h.outstandingRecv + 1 ∧ 1 ≤ h.outstandingRecv ∧
      h.outstandingRecv + 1 ≤ receiveDepth := by
  have hawaiting : h.awaitingRecv = h.outstandingRecv + 1 := by
    rw [Host.awaitingRecv, hcurrent]
    simp [hid]
  have hlow := hc.low
  have hhigh := hc.high
  rw [hawaiting] at hlow hhigh
  refine ⟨?_, Nat.le_of_succ_le_succ hlow, hhigh⟩
  rw [hc.available, hawaiting]
  rfl

/-- **A receive completion handled.**  It succeeds; at one receive left, all the
receives that the refill asks for are posted. -/
theorem Credit.recv (hc : Credit h) (hcurrent : h.pc.current = [wc])
    (hid : wc.wrId = pingpongRecvWrid) (hsuccess : wc.success = true) (build : Build)
    (now : UInt64) :
    (parseSingleWc build now h wc).1 = 0 ∧
      (parseSingleWc build now h wc).2.cq = h.cq ∧
      ((parseSingleWc build now h wc).2.send = h.send ∨
        h.send = none ∧ (parseSingleWc build now h wc).2.send = some .posted) ∧
      (parseSingleWc build now h wc).2.availableRecv =
        (parseSingleWc build now h wc).2.outstandingRecv ∧
      2 ≤ (parseSingleWc build now h wc).2.outstandingRecv ∧
      (parseSingleWc build now h wc).2.outstandingRecv ≤ receiveDepth ∧
      (h.availableRecv - 1 ≤ 1 → ((parseSingleWc build now h wc).2.recvPosted : ℤ) =
        h.recvPosted + (receiveDepth - (h.availableRecv - 1))) := by
  have hne : ¬ pingpongRecvWrid = pingpongSendWrid := by decide
  have hdepth : receiveDepth = 500 := rfl
  obtain ⟨havailable, hlow, hhigh⟩ := hc.available_eq hcurrent hid
  obtain ⟨houtstanding, hposted, hcq, hcredit, hsend⟩ := handleRecv_frame build now { h with
    clock := now, handled := h.handled ++ wc.msg.toList.map fun msg => ⟨msg, wc.ts, now⟩ } wc
  simp only [parseSingleWc, hsuccess, Bool.true_eq_false, if_false, hid, hne, if_true]
  generalize handleRecv build now { h with
    clock := now, handled := h.handled ++ wc.msg.toList.map fun msg => ⟨msg, wc.ts, now⟩ } wc =
      g at houtstanding hposted hcq hcredit hsend
  change g.outstandingRecv = h.outstandingRecv at houtstanding
  dsimp only at hposted hcq hcredit hsend
  rw [hcredit]
  split
  · have hone : h.outstandingRecv = 1 := by omega
    have havail : h.availableRecv - 1 = 1 := by omega
    have hafter := outstandingRecv_add g 499 (1 + 499)
    rw [houtstanding, hone] at hafter
    rw [havail, ppPostRecv_of_one (houtstanding.trans hone)]
    refine ⟨rfl, hcq, hsend, ?_, ?_, ?_, fun _ => ?_⟩
    · exact congrArg Nat.cast hafter.symm
    · exact hafter ▸ by decide
    · exact hafter ▸ Nat.le_refl _
    · dsimp only
      rw [hposted]
      omega
  · have hafter := outstandingRecv_add g 0 (h.availableRecv - 1)
    rw [houtstanding, Nat.add_zero, Nat.add_zero] at hafter
    refine ⟨rfl, hcq, hsend, ?_, ?_, ?_, fun hle => absurd hle ‹_›⟩
    all_goals
      dsimp only
      rw [hafter]
      omega

/-! ### One step -/

/-- A step that leaves the receives as they are. -/
theorem Credit.keep (hc : Credit h) (havailable : h'.availableRecv = h.availableRecv)
    (hawaiting : h'.awaitingRecv = h.awaitingRecv)
    (hwcs : ∀ wc ∈ h'.pc.current ++ h'.cq, wc.Wf)
    (hsent : tally Wc.wrId h'.cq pingpongSendWrid = if h'.send = some .completed then 1 else 0) :
    Credit h' where
  wcs := hwcs
  available := by rw [havailable, hawaiting, hc.available]
  low := hawaiting ▸ hc.low
  high := hawaiting ▸ hc.high
  sent := hsent

/-- A step that changes where the main thread stands, and no completion. -/
theorem Credit.setPc (hc : Credit h) {pc : Pc} (hpc : pc.current = h.pc.current) :
    Credit { h with pc := pc } := by
  refine hc.keep rfl ?_ ?_ hc.sent
  · rw [Host.awaitingRecv, hpc]
    rfl
  · rw [hpc]
    exact hc.wcs

/-- The completion that a poll makes current. -/
theorem Credit.poll (hc : Credit h) (hcq : h.cq = wc :: rest) (hnone : h.pc.current = [])
    {pc : Pc} (hpc : pc.current = [wc]) : Credit { pollWc h wc rest with pc := pc } := by
  have hwcs := hc.wcs
  have hsent := hc.sent
  rw [hnone, hcq] at hwcs
  rw [hcq, tally_cons] at hsent
  refine hc.keep rfl ?_ ?_ ?_
  · rw [Host.awaitingRecv_eq, Host.awaitingRecv_eq, hpc, hnone, hcq]
    rfl
  · rw [hpc]
    exact hwcs
  · by_cases hid : wc.wrId = pingpongSendWrid
    · -- the completed send was the only one
      simp only [pollWc, hid, if_true, reduceCtorEq, if_false] at hsent ⊢
      split at hsent <;> omega
    · simp only [pollWc, hid, if_false, Nat.add_zero] at hsent ⊢
      exact hsent

/-- A completion is handled. -/
theorem Credit.parse (hc : Credit h) (hstep : stepHost build n h (.parse now) = some h') :
    Credit h' := by
  obtain ⟨-, wc, hcurrent, -, hparse⟩ := stepHost_parse hstep
  have hcq : ∀ wc' ∈ h.cq, wc'.Wf := fun wc' hwc' => hc.wcs wc' (List.mem_append_right _ hwc')
  rcases hc.wcs wc (by simp [hcurrent]) with ⟨hid, -⟩ | ⟨hid, hsuccess, -⟩
  · -- the completion of a send
    have hawaiting : h.awaitingRecv = h.outstandingRecv := by
      rw [Host.awaitingRecv, hcurrent]
      simp [hid, pingpongSendWrid, pingpongRecvWrid]
    rw [parseSingleWc_send build now h hid] at hparse
    rcases hparse with ⟨-, rfl⟩ | ⟨-, pc, hnone, -, rfl⟩
    · exact hc.keep rfl hawaiting.symm hcq hc.sent
    · refine hc.keep rfl ?_ ?_ hc.sent
      · rw [hawaiting, Host.awaitingRecv, hnone]
        rfl
      · rw [hnone]
        exact hcq
  · obtain ⟨hok, hqueue, hsend, havailable, hlow, hhigh, -⟩ :=
      hc.recv hcurrent hid hsuccess build now
    obtain ⟨-, pc, hnone, -, rfl⟩ := hparse.resolve_left fun hfailed => hfailed.1 hok
    have hawaiting (recvCount : UInt64) : Host.awaitingRecv
        { (parseSingleWc build now h wc).2 with recvCount := recvCount, pc := pc } =
          (parseSingleWc build now h wc).2.outstandingRecv := by
      rw [Host.awaitingRecv, hnone]
      rfl
    refine ⟨?_, ?_, ?_, ?_, ?_⟩
    · rw [hqueue, hnone]
      exact hcq
    · rw [hawaiting, havailable]
    · rw [hawaiting]
      exact hlow
    · rw [hawaiting]
      exact hhigh
    · have hsent := hc.sent
      dsimp only
      rw [hqueue, hsent]
      rcases hsend with he | ⟨hnone, he⟩
      · rw [he]
      · rw [he, hnone]
        rfl

/-- A step of the host. -/
theorem Credit.step (hc : Credit h) (hstep : stepHost build n h a = some h') : Credit h' := by
  cases hostStep_of_stepHost hstep with
  | parse hstep => exact hc.parse hstep
  | loop hpc =>
      refine hc.setPc ?_
      rw [hpc]
      split <;> rfl
  | startPoll wc rest hpc hcq | nextPoll wc rest hpc hcq =>
      exact hc.poll hcq (by rw [hpc]; rfl) rfl
  | pollError hpc => exact hc.setPc (Pc.current_of_poll hpc).symm
  | endPoll hpc => exact hc.setPc (by rw [hpc]; rfl)
  | write | postFailed => exact hc.keep rfl rfl hc.wcs hc.sent
  | post id t hid hsend =>
      refine hc.keep rfl rfl hc.wcs ?_
      have hsent := hc.sent
      rw [hsend] at hsent
      exact hsent
  | complete ts success hsend =>
      refine hc.keep rfl ?_ (fun wc hwc => ?_) ?_
      · simp [Host.awaitingRecv_eq, pingpongSendWrid, pingpongRecvWrid]
      · rw [← List.append_assoc] at hwc
        rcases List.mem_append.1 hwc with hwc | hwc
        · exact hc.wcs wc hwc
        · rw [List.mem_singleton.1 hwc]
          exact Or.inl ⟨rfl, rfl⟩
      · have hsent := hc.sent
        rw [hsend] at hsent
        simp [hsent]

/-- A message that the connection takes from the host. -/
theorem Credit.transmit (hc : Credit h) (hsend : h.send = some .posted)
    (transmitted : List PingpongPayload) :
    Credit { h with send := some .transmitted, transmitted := transmitted } := by
  refine hc.keep rfl rfl hc.wcs ?_
  have hsent := hc.sent
  rw [hsend] at hsent
  exact hsent

/-- A message arrives at one of the receives. -/
theorem Credit.arrive (hc : Credit h) (hposted : 0 < h.recvPosted) (msg : PingpongPayload)
    (received : List PingpongPayload) (ts : UInt64) :
    Credit { h with
      recvBuf := msg, recvPosted := h.recvPosted - 1, received := received
      cq := h.cq ++ [⟨pingpongRecvWrid, true, ts, some msg⟩] } := by
  refine hc.keep rfl ?_ (fun wc hwc => ?_) ?_
  · simp only [Host.awaitingRecv_eq, ← List.append_assoc, tally_append, tally_cons, tally_nil,
      if_true]
    omega
  · rw [← List.append_assoc] at hwc
    rcases List.mem_append.1 hwc with hwc | hwc
    · exact hc.wcs wc hwc
    · rw [List.mem_singleton.1 hwc]
      exact Or.inr ⟨rfl, rfl, Option.some_ne_none _⟩
  · rw [tally_append, hc.sent]
    rfl

/-- **The credit of a host** is right in every state. -/
theorem credit_invariant : (rc iters).Invariant (fun _ _ => True)
    fun s => ∀ build, Credit (s.host build) where
  init build := ⟨fun wc hwc => absurd hwc List.not_mem_nil, rfl,
    show 2 ≤ receiveDepth by decide, Nat.le_refl _, rfl⟩
  step := by
    intro s a t hc _ hstep
    cases rcStep_of_step hstep with
    | @host b a h' hhost => exact forall_update (P := fun _ h => Credit h) hc ((hc b).step hhost)
    | @transmit b hsend =>
        exact forall_update (P := fun _ h => Credit h) hc ((hc b).transmit hsend _)
    | @arrive b ts msg rest hinbox hposted =>
        exact forall_update (P := fun _ h => Credit h) hc ((hc b).arrive hposted msg _ ts)

/-! ### The sends -/

/-- The sends awaiting their completion, with one outstanding at most. -/
theorem Credit.awaitingSend_eq (hc : Credit h) :
    h.awaitingSend = (if h.send = none then 0 else 1) +
      tally Wc.wrId h.pc.current pingpongSendWrid := by
  rw [Host.awaitingSend, hc.outstandingSend_eq]

/-- A step of the host, when a post fails while a send awaits its completion. -/
theorem Credit.awaitingSend_step (hc : Credit h) (hle : h.awaitingSend ≤ 1)
    (hpost : a = .post → h.send = none → h.awaitingSend = 0)
    (hstep : stepHost build n h a = some h') : h'.awaitingSend ≤ 1 := by
  have hc' := hc.step hstep
  rw [hc'.awaitingSend_eq]
  rw [hc.awaitingSend_eq] at hle hpost
  cases hostStep_of_stepHost hstep with
  | parse hstep =>
      -- nothing is current afterwards
      obtain ⟨-, wc, -, -, ⟨-, rfl⟩ | ⟨-, pc, hnone, -, rfl⟩⟩ := stepHost_parse hstep
      · dsimp only [Pc.current, tally_nil]
        split <;> omega
      · dsimp only
        rw [hnone, tally_nil]
        split <;> omega
  | loop hpc =>
      rw [hpc] at hle
      dsimp only
      split_ifs at hle ⊢ <;> simp [Pc.current]
  | startPoll wc rest hpc hcq | nextPoll wc rest hpc hcq =>
      rw [hpc] at hle
      dsimp only [pollWc, Pc.current]
      by_cases hid : wc.wrId = pingpongSendWrid
      · simp [hid]
      · simpa [hid, Pc.current] using hle
  | pollError hpc =>
      rcases hpc with hpc | hpc <;> rw [hpc] at hle <;> exact hle
  | endPoll hpc =>
      rw [hpc] at hle
      exact hle
  | write | postFailed => exact hle
  | post id t hid hsend =>
      rw [(Nat.add_eq_zero_iff.1 (hpost rfl hsend)).2]
      exact Nat.le_refl 1
  | complete ts success hsend =>
      rw [hsend] at hle
      exact hle

/-- **One send of a host awaits its completion at most**, when a post fails
meanwhile. -/
theorem awaitingSend_invariant : (rc iters).Invariant (OneSend build)
    fun s => (∀ b, Credit (s.host b)) ∧ (s.host build).awaitingSend ≤ 1 where
  init := ⟨credit_invariant.init, Nat.zero_le 1⟩
  step := by
    intro s a t ⟨hc, hle⟩ hg hstep
    refine ⟨credit_invariant.step hc trivial hstep, ?_⟩
    have hall : ∀ b, b = build → (s.host b).awaitingSend ≤ 1 := by
      rintro _ rfl
      exact hle
    cases rcStep_of_step hstep with
    | @host b a h' hhost =>
        refine forall_update (P := fun b h => b = build → h.awaitingSend ≤ 1) hall
          (fun hb => (hc b).awaitingSend_step (hall b hb) ?_ hhost) build rfl
        rintro rfl
        exact hg hb
    | @transmit b hsend =>
        refine forall_update (P := fun b h => b = build → h.awaitingSend ≤ 1) hall
          (fun hb => ?_) build rfl
        have hle := hall b hb
        rw [((hc b).transmit hsend _).awaitingSend_eq]
        rw [(hc b).awaitingSend_eq, hsend] at hle
        exact hle
    | @arrive b ts msg rest hinbox hposted =>
        refine forall_update (P := fun b h => b = build → h.awaitingSend ≤ 1) hall
          (fun hb => ?_) build rfl
        have hle := hall b hb
        rw [((hc b).arrive hposted msg _ ts).awaitingSend_eq]
        rw [(hc b).awaitingSend_eq] at hle
        exact hle

/-- **The receive credit.**  In every state of every run `available_recv` is the
number of receives whose completion has not been handled, between two and
`RECEIVE_DEPTH`.  A completion at hand fails only if its status does; handling
that of a receive keeps the credit in these bounds, and when one receive is left
every receive that the refill asks for is posted.  The receives awaiting their
completion and the send outstanding fit in a completion queue of
`RECEIVE_DEPTH + 1`, and so do all sends awaiting theirs, when a post fails while
there is one. -/
theorem availableRecv_of_reachable (h : (rc iters).Reachable s) (build : Build) :
    (s.host build).availableRecv = (s.host build).awaitingRecv ∧
      2 ≤ (s.host build).availableRecv ∧ (s.host build).availableRecv ≤ receiveDepth ∧
      (∀ wc ∈ (s.host build).pc.current, ∀ now r, parseSingleWc build now (s.host build) wc = r →
        (r.1 ≠ 0 → wc.success = false) ∧
        (wc.wrId = pingpongRecvWrid →
          r.2.availableRecv = r.2.outstandingRecv ∧
          2 ≤ r.2.availableRecv ∧ r.2.availableRecv ≤ receiveDepth ∧
          ((s.host build).availableRecv - 1 ≤ 1 → (r.2.recvPosted : ℤ) =
            (s.host build).recvPosted +
              (receiveDepth - ((s.host build).availableRecv - 1))))) ∧
      (s.host build).awaitingRecv + (s.host build).outstandingSend ≤ receiveDepth + 1 ∧
      ((rc iters).ReachableIf (OneSend build) s →
        (s.host build).awaitingRecv + (s.host build).awaitingSend ≤ receiveDepth + 1) := by
  have hc : Credit (s.host build) := credit_invariant.holds h build
  refine ⟨hc.available, ?_, ?_, ?_, ?_, fun hone => ?_⟩
  · rw [hc.available]
    exact Int.ofNat_le.2 hc.low
  · rw [hc.available]
    exact Int.ofNat_le.2 hc.high
  · rintro wc hwc now _ rfl
    have hcurrent : (s.host build).pc.current = [wc] := Pc.current_of_mem hwc
    rcases hc.wcs wc (List.mem_append_left _ hwc) with ⟨hid, -⟩ | ⟨hid, hsuccess, -⟩
    · refine ⟨fun hfailed => ?_, fun hrecv => absurd (hid.symm.trans hrecv) (by decide)⟩
      by_contra hsuccess
      simp [parseSingleWc, hsuccess, hid] at hfailed
    · obtain ⟨hok, -, -, havailable, hlow, hhigh, hrefill⟩ :=
        hc.recv hcurrent hid hsuccess build now
      refine ⟨fun hfailed => absurd hok hfailed, fun _ => ⟨havailable, ?_, ?_, hrefill⟩⟩
      · rw [havailable]
        exact Int.ofNat_le.2 hlow
      · rw [havailable]
        exact Int.ofNat_le.2 hhigh
  · refine Nat.add_le_add hc.high ?_
    rw [hc.outstandingSend_eq]
    split <;> omega
  · exact Nat.add_le_add hc.high (awaitingSend_invariant.holds hone).2

/-- The main thread of the client has polled the completion of its first send. -/
def sendPolled : List Action :=
  [.host .client (.write 5), .host .client .post, .transmit .client,
    .host .client (.complete 70 true), .host .client .loop, .host .client .startPoll]

/-- A client that is about to handle the completion of its first send. -/
theorem availableRecv_of_reachable_sent : ∃ s,
    (rc fun _ => 10).ReachableIf (OneSend .client) s ∧
    (s.host .client).availableRecv = 500 ∧ (s.host .client).awaitingSend = 1 ∧
    (s.host .client).awaitingRecv + (s.host .client).awaitingSend ≤ 501 := by
  have hrun : ((rc fun _ => 10).execIf (OneSend .client) (rc fun _ => 10).init sendPolled).map
      (fun s => ((s.host .client).availableRecv, (s.host .client).awaitingSend)) =
      some (500, 1) := by
    decide +kernel
  obtain ⟨s, hs, he⟩ := Option.map_eq_some_iff.1 hrun
  obtain ⟨havailable, hsend⟩ := Prod.mk.inj he
  have hreach : (rc fun _ => 10).ReachableIf (OneSend .client) s := System.runIf_of_execIf hs
  exact ⟨s, hreach, havailable, hsend,
    (availableRecv_of_reachable hreach.reachable .client).2.2.2.2.2 hreach⟩

end Rc
end Rdma
end DetBypass
