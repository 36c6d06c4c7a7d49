/-
# What an RC run records

The loop of `rdma/rc_pingpong.c` counts the completions of sends with those of
receives, so a ping and its pong count for two (`Balance.count`).  The server
posts a pong only for a ping that it has handled, and a host posts a send only
after the completion of the one before has been polled.  A client that has ended
therefore has recorded half of the rounds that were asked for, and one more, at
most; what is missing of them are sends.  A server that has ended has handled
half of its pings at least (`halfRecorded_of_reachable`).

No order of the completions is assumed, no post has to succeed, and the messages
in the shared buffers may be overwritten.
-/

import DetBypass.Rdma.RcCredit

namespace DetBypass
namespace Rdma
namespace Rc

open Lib

variable {iters : Build → UInt64} {s t : State} {h h' : Host} {build : Build} {wc : Wc}
  {rest : List Wc} {now n : UInt64} {a : HostAction} {k : ℕ}

/-- How many completions may have been counted where the main thread stands, of
`n` that it waits for. -/
def Pc.Counts (n k : ℕ) : Pc → Prop
  | .loop => k ≤ n + 1
  | .startPoll | .first _ => k < n
  | .nextPoll | .second _ => k ≤ n
  | .done => n ≤ k ∧ k ≤ n + 1
  | .failed => True

/-- What a host has posted, received and handled, and what it has counted. -/
structure Balance (build : Build) (n : UInt64) (h : Host) : Prop where
  credit : Credit h
  sent : h.posted.length = h.transmitted.length + h.toRead.length
  received : h.received.length =
    h.handled.length + tally Wc.wrId (h.pc.current ++ h.cq) pingpongRecvWrid
  count : h.pc ≠ .failed → ∃ k, h.recvCount = UInt64.ofNat k ∧
    k + h.awaitingSend = h.handled.length + h.posted.length ∧
    (n.toNat + 1 < 2 ^ 64 → h.pc.Counts n.toNat k)
  records : build = .client → h.written.length = h.handled.length
  replies : build = .server → h.posted.length ≤ h.handled.length ∧ h.senderPc = .writing 1

/-! ### One step of a host -/

/-- A step of the main thread that handles no completion. -/
theorem Balance.move (hb : Balance build n h) (hcredit : Credit h')
    (hposted : h'.posted = h.posted) (htransmitted : h'.transmitted = h.transmitted)
    (htoRead : h'.toRead.length = h.toRead.length) (hreceived : h'.received = h.received)
    (hhandled : h'.handled = h.handled) (hwritten : h'.written = h.written)
    (hsender : build = .server → h'.senderPc = h.senderPc)
    (hcount : h'.recvCount = h.recvCount)
    (hcurrent : tally Wc.wrId (h'.pc.current ++ h'.cq) pingpongRecvWrid =
      tally Wc.wrId (h.pc.current ++ h.cq) pingpongRecvWrid)
    (hawaiting : h'.awaitingSend = h.awaitingSend)
    (hfailed : h'.pc ≠ .failed → h.pc ≠ .failed)
    (hcounts : ∀ k, n.toNat + 1 < 2 ^ 64 → h.recvCount = UInt64.ofNat k →
      h.pc.Counts n.toNat k → h'.pc.Counts n.toNat k) : Balance build n h' where
  credit := hcredit
  sent := by rw [hposted, htransmitted, htoRead, hb.sent]
  received := by rw [hreceived, hhandled, hcurrent, hb.received]
  count hpc := by
    obtain ⟨k, hk, hsum, hlimit⟩ := hb.count (hfailed hpc)
    refine ⟨k, hcount.trans hk, ?_, fun hn => hcounts k hn hk (hlimit hn)⟩
    rw [hawaiting, hsum, hhandled, hposted]
  records hbuild := by rw [hwritten, hhandled, hb.records hbuild]
  replies hbuild := by
    rw [hposted, hhandled, hsender hbuild]
    exact hb.replies hbuild

/-- A poll takes a completion from the queue; a send is outstanding no longer. -/
theorem Balance.poll (hb : Balance build n h) (hcq : h.cq = wc :: rest)
    (hnone : h.pc.current = []) (hfailed : h.pc ≠ .failed) {pc : Pc} (hpc : pc.current = [wc])
    (hcounts : ∀ k, h.pc.Counts n.toNat k → pc.Counts n.toNat k) :
    Balance build n { pollWc h wc rest with pc := pc } := by
  have hcredit := hb.credit.poll hcq hnone hpc
  have hsent := hb.credit.sent
  rw [hcq, tally_cons] at hsent
  refine hb.move hcredit rfl rfl ?_ rfl rfl rfl (fun _ => rfl) rfl ?_ ?_ (fun _ => hfailed)
    fun k _ _ => hcounts k
  · -- a send that has completed had been read
    by_cases hid : wc.wrId = pingpongSendWrid
    · have hsend : h.send = some .completed := by
        by_contra hsend
        rw [if_neg hsend, if_pos hid] at hsent
        omega
      simp [pollWc, Host.toRead, hid, hsend]
    · simp [pollWc, Host.toRead, hid]
  · rw [hpc, hnone, hcq]
    rfl
  · rw [hcredit.awaitingSend_eq, hb.credit.awaitingSend_eq, hpc, hnone, tally_nil, tally_cons,
      tally_nil]
    by_cases hid : wc.wrId = pingpongSendWrid
    · have hsend : h.send ≠ none := by
        intro hsend
        rw [hsend, if_pos hid, if_neg (by decide)] at hsent
        omega
      simp [pollWc, hid, hsend]
    · simp [pollWc, hid]

/-- What handling a completion adds: `recvs` messages handled, and `posts` sends. -/
structure Handles (build : Build) (recvs posts : ℕ) (h h' : Host) : Prop where
  handled : h'.handled.length = h.handled.length + recvs
  posted : h'.posted.length = h.posted.length + posts
  send : posts = 0 ∧ h'.send = h.send ∨ posts = 1 ∧ h.send = none ∧ h'.send = some .posted
  transmitted : h'.transmitted = h.transmitted
  received : h'.received = h.received
  recvCount : h'.recvCount = h.recvCount
  senderPc : h'.senderPc = h.senderPc
  cq : h'.cq = h.cq
  client : build = .client → posts = 0 ∧ h'.written.length = h.written.length + recvs
  posts_le : posts ≤ recvs

/-- A message is handled for a receive, and for that a send may be posted. -/
theorem handles_of_wf (build : Build) (now : UInt64) (h : Host) (hwf : wc.Wf) :
    ∃ recvs posts, Handles build recvs posts h (parseSingleWc build now h wc).2 ∧
      tally Wc.wrId [wc] pingpongRecvWrid = recvs ∧
      tally Wc.wrId [wc] pingpongSendWrid + recvs = 1 := by
  rcases hwf with ⟨hid, -⟩ | ⟨hid, hsuccess, hmsg⟩
  · rw [parseSingleWc_send build now h hid]
    refine ⟨0, 0, ⟨rfl, rfl, Or.inl ⟨rfl, rfl⟩, rfl, rfl, rfl, rfl, rfl, fun _ => ⟨rfl, rfl⟩,
      Nat.le_refl 0⟩, ?_⟩
    simp [hid, pingpongSendWrid, pingpongRecvWrid]
  · have htally : tally Wc.wrId [wc] pingpongRecvWrid = 1 ∧
        tally Wc.wrId [wc] pingpongSendWrid + 1 = 1 := by
      simp [hid, pingpongSendWrid, pingpongRecvWrid]
    obtain ⟨msg, hmsg⟩ := Option.ne_none_iff_exists'.1 hmsg
    obtain ⟨recvPosted, availableRecv, hparse⟩ := parseSingleWc_recv build now h hid hsuccess hmsg
    rw [hparse]
    cases build with
    | client => exact ⟨1, 0, ⟨by simp [handleRecv], rfl, Or.inl ⟨rfl, rfl⟩, rfl, rfl, rfl, rfl,
        rfl, fun _ => ⟨rfl, by simp [handleRecv]⟩, Nat.zero_le 1⟩, htally⟩
    | server =>
        by_cases hsend : h.send = none
        · simp only [handleRecv, ppPostSend, hsend, if_true]
          exact ⟨1, 1, ⟨by simp, by simp, Or.inr ⟨rfl, hsend, rfl⟩, rfl, rfl, rfl, rfl, rfl,
            Build.noConfusion, Nat.le_refl 1⟩, htally⟩
        · simp only [handleRecv, ppPostSend, hsend, if_false]
          exact ⟨1, 0, ⟨by simp, rfl, Or.inl ⟨rfl, rfl⟩, rfl, rfl, rfl, rfl, rfl,
            Build.noConfusion, Nat.zero_le 1⟩, htally⟩

/-- There is one message to read at most, that of a posted send. -/
theorem Host.toRead_length (h : Host) :
    h.toRead.length = if h.send = some .posted then 1 else 0 := by
  unfold Host.toRead
  split <;> rfl

/-- Each send that handling posts is to be read. -/
theorem Handles.toRead {recvs posts : ℕ} (hh : Handles build recvs posts h h') :
    h'.toRead.length = h.toRead.length + posts := by
  rw [Host.toRead_length, Host.toRead_length]
  rcases hh.send with ⟨rfl, hsend⟩ | ⟨rfl, hnone, hsend⟩
  · rw [hsend, Nat.add_zero]
  · rw [hsend, hnone]
    rfl

/-- And outstanding. -/
theorem Handles.outstanding {recvs posts : ℕ} (hh : Handles build recvs posts h h') :
    (if h'.send = none then 0 else 1) = (if h.send = none then 0 else 1) + posts := by
  rcases hh.send with ⟨rfl, hsend⟩ | ⟨rfl, hnone, hsend⟩
  · rw [hsend, Nat.add_zero]
  · rw [hsend, hnone]
    rfl

/-- Where the main thread goes when it has handled a completion. -/
theorem stepHost_parse_pc (hstep : stepHost build n h (.parse now) = some h') :
    (∃ wc ∈ h.pc.current, (parseSingleWc build now h wc).1 ≠ 0) ∧ h'.pc = .failed ∨
      (∃ wc, h.pc = .first wc) ∧ h'.pc = .nextPoll ∨
      (∃ wc, h.pc = .second wc) ∧ h'.pc = .loop := by
  simp only [stepHost] at hstep
  split at hstep
  case isFalse => cases hstep
  split at hstep <;> cases hstep
  all_goals
    rename_i wc hpc
    by_cases hfailed : (parseSingleWc build now h wc).1 ≠ 0
    · exact Or.inl ⟨⟨wc, by simp [hpc, Pc.current], hfailed⟩, by rw [if_pos hfailed]⟩
    rw [if_neg hfailed]
  · exact Or.inr (Or.inl ⟨⟨wc, hpc⟩, rfl⟩)
  · exact Or.inr (Or.inr ⟨⟨wc, hpc⟩, rfl⟩)

/-- The count that a handled completion leads to. -/
theorem counts_of_parse (hstep : stepHost build n h (.parse now) = some h')
    (hpc : h'.pc ≠ .failed) {m : ℕ} (hcounts : h.pc.Counts m k) : h'.pc.Counts m (k + 1) := by
  rcases stepHost_parse_pc hstep with ⟨-, hfailed⟩ | ⟨⟨wc, hfirst⟩, he⟩ | ⟨⟨wc, hsecond⟩, he⟩
  · exact absurd hfailed hpc
  · rw [hfirst] at hcounts
    rw [he]
    exact hcounts
  · rw [hsecond] at hcounts
    rw [he]
    exact Nat.succ_le_succ hcounts

/-- **A completion handled** is counted, unless it is that of a send that failed. -/
theorem Balance.parse (hb : Balance build n h)
    (hstep : stepHost build n h (.parse now) = some h') : Balance build n h' := by
  have hcredit := hb.credit.parse hstep
  have hcounts := fun k => counts_of_parse (k := k) (m := n.toNat) hstep
  obtain ⟨-, wc, hcurrent, hpc, hparse⟩ := stepHost_parse hstep
  obtain ⟨recvs, posts, hhandles, hrecv, hsend⟩ :=
    handles_of_wf build now h (hb.credit.wcs wc (by simp [hcurrent]))
  generalize parseSingleWc build now h wc = r at hparse hhandles
  have hreceived := hb.received
  rw [hcurrent, tally_append, hrecv] at hreceived
  -- but for the count, a host that has handled a completion is where it was
  have hkeep : ∀ pc recvCount, pc.current = [] → ∀ h', h' = { r.2 with
      recvCount := recvCount, pc := pc } → Credit h' → (pc ≠ .failed → ∃ k,
        recvCount = UInt64.ofNat k ∧ k + h'.awaitingSend = h'.handled.length + h'.posted.length ∧
        (n.toNat + 1 < 2 ^ 64 → pc.Counts n.toNat k)) → Balance build n h' := by
    rintro pc recvCount hnone _ rfl hcredit hcount
    refine ⟨hcredit, ?_, ?_, hcount, fun hbuild => ?_, fun hbuild => ?_⟩
    · calc r.2.posted.length = h.transmitted.length + (h.toRead.length + posts) := by
            rw [hhandles.posted, hb.sent, Nat.add_assoc]
        _ = r.2.transmitted.length + r.2.toRead.length := by
            rw [hhandles.transmitted, hhandles.toRead]
    · dsimp only
      rw [hnone, List.nil_append, hhandles.received, hhandles.handled, hhandles.cq]
      omega
    · have hwritten := (hhandles.client hbuild).2
      have hrecords := hb.records hbuild
      dsimp only
      rw [hwritten, hrecords, hhandles.handled]
    · obtain ⟨hle, hsender⟩ := hb.replies hbuild
      refine ⟨?_, hhandles.senderPc.trans hsender⟩
      dsimp only
      rw [hhandles.posted, hhandles.handled]
      exact Nat.add_le_add hle hhandles.posts_le
  rcases hparse with ⟨-, rfl⟩ | ⟨-, pc, hnone, -, rfl⟩
  · exact hkeep .failed r.2.recvCount rfl _ rfl hcredit fun hfailed => absurd rfl hfailed
  · refine hkeep pc _ hnone _ rfl hcredit fun hfailed => ?_
    obtain ⟨k, hk, hsum, hlimit⟩ := hb.count hpc
    refine ⟨k + 1, ?_, ?_, fun hn => hcounts k hfailed (hlimit hn)⟩
    · rw [hhandles.recvCount, hk, UInt64.ofNat_add]
      rfl
    · have hposted := hhandles.posted
      have hhandled := hhandles.handled
      have houtstanding := hhandles.outstanding
      rw [hb.credit.awaitingSend_eq, hcurrent] at hsum
      rw [hcredit.awaitingSend_eq]
      dsimp only
      rw [hnone, tally_nil, houtstanding, hposted, hhandled]
      omega

/-- The condition of the loop. -/
theorem counts_of_loop (hn : n.toNat + 1 < 2 ^ 64) {recvCount : UInt64}
    (hk : recvCount = UInt64.ofNat k) (hle : k ≤ n.toNat + 1) :
    (if recvCount < n then Pc.startPoll else .done).Counts n.toNat k := by
  have hcount : recvCount.toNat = k := by
    rw [hk, UInt64.toNat_ofNat', Nat.mod_eq_of_lt (by omega)]
  split
  · rename_i hlt
    exact hcount ▸ UInt64.lt_iff_toNat_lt.1 hlt
  · rename_i hlt
    exact ⟨hcount ▸ UInt64.le_iff_toNat_le.1 (UInt64.not_lt.1 hlt), hle⟩

/-- A send posted by the sending thread. -/
theorem Balance.post (hb : Balance .client n h) (hcredit : Credit h') {id t : UInt64}
    (hsend : h.send = none) (he : h' = { h with
      send := some .posted, posted := h.posted ++ [h.sendBuf], sends := h.sends ++ [(id, t)]
      senderPc := .writing (id + 1) }) : Balance .client n h' := by
  have hsum : h'.awaitingSend = h.awaitingSend + 1 := by
    rw [hcredit.awaitingSend_eq, hb.credit.awaitingSend_eq, he, hsend, if_pos rfl, Nat.zero_add]
    exact Nat.add_comm 1 _
  subst he
  refine ⟨hcredit, ?_, hb.received, fun hpc => ?_, hb.records, Build.noConfusion⟩
  · simp [hb.sent, Host.toRead, hsend]
  · obtain ⟨k, hk, hcount, hlimit⟩ := hb.count hpc
    refine ⟨k, hk, ?_, hlimit⟩
    rw [hsum, ← Nat.add_assoc, hcount]
    simp [Nat.add_assoc]

/-- **A step of a host.** -/
theorem Balance.step (hb : Balance build n h) (hstep : stepHost build n h a = some h') :
    Balance build n h' := by
  have hcredit := hb.credit.step hstep
  have hsum := hb.credit.awaitingSend_eq
  cases hostStep_of_stepHost hstep with
  | parse hstep => exact hb.parse hstep
  | loop hpc =>
      have hcurrent : (if h.recvCount < n then Pc.startPoll else .done).current = h.pc.current := by
        rw [hpc]
        split <;> rfl
      refine hb.move hcredit rfl rfl rfl rfl rfl rfl (fun _ => rfl) rfl ?_ ?_ ?_ ?_
      · rw [hcurrent]
      · rw [hcredit.awaitingSend_eq, hsum, hcurrent]
      · exact fun _ => hpc ▸ Pc.noConfusion
      · intro k hn hk hcounts
        rw [hpc] at hcounts
        exact counts_of_loop hn hk hcounts
  | startPoll wc rest hpc hcq =>
      refine hb.poll hcq (by rw [hpc]; rfl) (hpc ▸ Pc.noConfusion) rfl fun k hcounts => ?_
      rw [hpc] at hcounts
      exact hcounts
  | nextPoll wc rest hpc hcq =>
      refine hb.poll hcq (by rw [hpc]; rfl) (hpc ▸ Pc.noConfusion) rfl fun k hcounts => ?_
      rw [hpc] at hcounts
      exact hcounts
  | pollError hpc =>
      have hcurrent := Pc.current_of_poll hpc
      refine hb.move hcredit rfl rfl rfl rfl rfl rfl (fun _ => rfl) rfl ?_ ?_
        (fun hfailed => absurd rfl hfailed) fun _ _ _ _ => trivial
      · rw [hcurrent]
        rfl
      · rw [hcredit.awaitingSend_eq, hsum, hcurrent]
        rfl
  | endPoll hpc hcq =>
      refine hb.move hcredit rfl rfl rfl rfl rfl rfl (fun _ => rfl) rfl ?_ ?_
        (fun _ => hpc ▸ Pc.noConfusion) fun k _ _ hcounts => ?_
      · rw [hpc]
        rfl
      · rw [hcredit.awaitingSend_eq, hsum, hpc]
        rfl
      · rw [hpc] at hcounts
        exact Nat.le_succ_of_le hcounts
  | write id t hid hbuild =>
      refine hb.move hcredit rfl rfl ?_ rfl rfl rfl (fun hserver => ?_) rfl rfl rfl
        (fun hpc => hpc) fun _ _ _ hcounts => hcounts
      · by_cases hposted : h.send = some .posted <;> simp [Host.toRead, hposted]
      · exact Build.noConfusion (hbuild.symm.trans hserver)
  | post id t hid hsend =>
      cases build with
      | client => exact hb.post hcredit hsend rfl
      | server => exact SenderPc.noConfusion (hid.symm.trans (hb.replies rfl).2)
  | postFailed id t hid hsend =>
      refine hb.move hcredit rfl rfl rfl rfl rfl rfl (fun hserver => ?_) rfl rfl rfl
        (fun hpc => hpc) fun _ _ _ hcounts => hcounts
      exact SenderPc.noConfusion (hid.symm.trans (hb.replies hserver).2)
  | complete ts success hsend =>
      refine hb.move hcredit rfl rfl ?_ rfl rfl rfl (fun _ => rfl) rfl ?_ ?_ (fun hpc => hpc)
        fun _ _ _ hcounts => hcounts
      · simp [Host.toRead, hsend]
      · simp [pingpongSendWrid, pingpongRecvWrid]
      · rw [hcredit.awaitingSend_eq, hsum, hsend]
        rfl

/-! ### Runs -/

/-- A message that the connection takes from the host. -/
theorem Balance.transmit (hb : Balance build n h) (hsend : h.send = some .posted) :
    Balance build n { h with
      send := some .transmitted, transmitted := h.transmitted ++ [h.sendBuf] } := by
  have hcredit := hb.credit.transmit hsend (h.transmitted ++ [h.sendBuf])
  refine ⟨hcredit, ?_, hb.received, fun hpc => ?_, hb.records, hb.replies⟩
  · simp [hb.sent, Host.toRead, hsend]
  · obtain ⟨k, hk, hcount, hlimit⟩ := hb.count hpc
    refine ⟨k, hk, ?_, hlimit⟩
    rw [hb.credit.awaitingSend_eq, hsend] at hcount
    rw [hcredit.awaitingSend_eq]
    exact hcount

/-- A message arrives at one of the receives. -/
theorem Balance.arrive (hb : Balance build n h) (hposted : 0 < h.recvPosted)
    (msg : PingpongPayload) (ts : UInt64) :
    Balance build n { h with
      recvBuf := msg, recvPosted := h.recvPosted - 1, received := h.received ++ [msg]
      cq := h.cq ++ [⟨pingpongRecvWrid, true, ts, some msg⟩] } := by
  have hcredit := hb.credit.arrive hposted msg (h.received ++ [msg]) ts
  refine ⟨hcredit, hb.sent, ?_, fun hpc => ?_, hb.records, hb.replies⟩
  · have hreceived := hb.received
    simp only [tally_append] at hreceived
    simp [hreceived, Nat.add_assoc]
  · obtain ⟨k, hk, hcount, hlimit⟩ := hb.count hpc
    refine ⟨k, hk, ?_, hlimit⟩
    rw [hb.credit.awaitingSend_eq] at hcount
    rw [hcredit.awaitingSend_eq]
    exact hcount

/-- Both hosts, and the messages on the way. -/
structure Balanced (iters : Build → UInt64) (s : State) : Prop where
  hosts : ∀ build, Balance build (iters build) (s.host build)
  net : ∀ build, (s.host (peer build)).transmitted.length =
    (s.host build).received.length + (s.inbox build).length

/-- The accounts of a host before its loop. -/
theorem balance_initialHost (build : Build) (n : UInt64) : Balance build n initialHost where
  credit := (credit_invariant.init : ∀ build, Credit ((rc fun _ => n).init.host build)) build
  sent := rfl
  received := rfl
  count _ := ⟨0, rfl, rfl, fun _ => Nat.zero_le _⟩
  records _ := rfl
  replies _ := ⟨Nat.le_refl 0, rfl⟩

/-- A host touches nothing of the connection. -/
theorem Balance.step_net (hb : Balance build n h) (hstep : stepHost build n h a = some h') :
    h'.transmitted = h.transmitted ∧ h'.received = h.received := by
  cases hostStep_of_stepHost hstep with
  | @parse now _ hstep =>
      obtain ⟨-, wc, hcurrent, -, hparse⟩ := stepHost_parse hstep
      obtain ⟨recvs, posts, hhandles, -, -⟩ :=
        handles_of_wf build now h (hb.credit.wcs wc (by simp [hcurrent]))
      rcases hparse with ⟨-, rfl⟩ | ⟨-, pc, -, -, rfl⟩
      · exact ⟨hhandles.transmitted, hhandles.received⟩
      · exact ⟨hhandles.transmitted, hhandles.received⟩
  | loop | startPoll | nextPoll | pollError | endPoll | write | post | postFailed | complete =>
      exact ⟨rfl, rfl⟩

/-- **The balance of both hosts** is right in every state. -/
theorem balanced_invariant : (rc iters).Invariant (fun _ _ => True) (Balanced iters) where
  init := ⟨fun build => balance_initialHost build (iters build), fun _ => rfl⟩
  step := by
    intro s a t hb _ hstep
    cases rcStep_of_step hstep with
    | @host build a h hhost =>
        refine ⟨forall_update (P := fun build h => Balance build (iters build) h) hb.hosts
          ((hb.hosts build).step hhost), fun other => ?_⟩
        have hsame : ∀ b, (Function.update s.host build h b).transmitted = (s.host b).transmitted ∧
            (Function.update s.host build h b).received = (s.host b).received :=
          forall_update (P := fun b h => h.transmitted = (s.host b).transmitted ∧
            h.received = (s.host b).received) (fun _ => ⟨rfl, rfl⟩)
            ((hb.hosts build).step_net hhost)
        rw [(hsame _).1, (hsame _).2]
        exact hb.net other
    | @transmit build hsend =>
        refine ⟨forall_update (P := fun build h => Balance build (iters build) h) hb.hosts
          ((hb.hosts build).transmit hsend), fun other => ?_⟩
        have hnet := hb.net other
        cases build <;> cases other <;> simp_all [peer, Nat.add_assoc]
    | @arrive build ts msg rest hinbox hposted =>
        refine ⟨forall_update (P := fun build h => Balance build (iters build) h) hb.hosts
          ((hb.hosts build).arrive hposted msg ts), fun other => ?_⟩
        have hnet := hb.net other
        cases build <;> cases other <;> simp_all [peer, Nat.add_assoc, Nat.add_comm]

/-- What a host has handled was transmitted by the other. -/
theorem Balanced.handled_le (hb : Balanced iters s) (build : Build) :
    (s.host build).handled.length ≤ (s.host (peer build)).transmitted.length := by
  have hreceived := (hb.hosts build).received
  have hnet := hb.net build
  omega

/-- **The pongs that a client has handled**: there are no more than the pings it has
transmitted. -/
theorem Balanced.pongs_le (hb : Balanced iters s) :
    (s.host .client).handled.length ≤ (s.host .client).transmitted.length := by
  have hpong := hb.handled_le .client
  have hping := hb.handled_le .server
  have hsent := (hb.hosts .server).sent
  have hreplies := ((hb.hosts .server).replies rfl).1
  change _ ≤ (s.host .server).transmitted.length at hpong
  change _ ≤ (s.host .client).transmitted.length at hping
  omega

/-- What a host that has ended has counted: its messages and its sends, but for one
that is outstanding. -/
theorem Balance.done (hb : Balance build n h) (hn : n.toNat + 1 < 2 ^ 64) (hpc : h.pc = .done) :
    ∃ k, n.toNat ≤ k ∧ k ≤ n.toNat + 1 ∧
      k + (if h.send = none then 0 else 1) = h.handled.length + h.posted.length := by
  obtain ⟨k, -, hsum, hcounts⟩ := hb.count (hpc ▸ Pc.noConfusion)
  have hlimit := hcounts hn
  rw [hpc] at hlimit
  rw [hb.credit.awaitingSend_eq, hpc] at hsum
  exact ⟨k, hlimit.1, hlimit.2, hsum⟩

/-- **What is recorded.**  A client that has ended has given half of the rounds asked for
to `persistence->write`, and one more, at most; together with the pings it posted they
are all it counted.  A server that has ended has handled at least half of the pings. -/
theorem halfRecorded_of_reachable (hn : ∀ build, (iters build).toNat + 1 < 2 ^ 64)
    (h : (rc iters).Reachable s) :
    ((s.host .client).pc = .done →
      (s.host .client).written.length ≤ (iters .client).toNat / 2 + 1 ∧
      (iters .client).toNat ≤ (s.host .client).written.length + (s.host .client).posted.length) ∧
    ((s.host .server).pc = .done →
      (iters .server).toNat ≤ 2 * (s.host .server).handled.length) := by
  have hb : Balanced iters s := balanced_invariant.holds h
  refine ⟨fun hpc => ?_, fun hpc => ?_⟩
  · obtain ⟨k, hlow, hhigh, hsum⟩ := (hb.hosts .client).done (hn .client) hpc
    have hrecords := (hb.hosts .client).records rfl
    have hpongs := hb.pongs_le
    have hsent := (hb.hosts .client).sent
    split at hsum <;> omega
  · obtain ⟨k, hlow, -, hsum⟩ := (hb.hosts .server).done (hn .server) hpc
    have hreplies := ((hb.hosts .server).replies rfl).1
    omega

/-- The client asks for two rounds and the server for three, and the sends of the client
complete late. -/
def lateSends : List Action :=
  [.host .client (.write 5), .host .client .post, .transmit .client, .arrive .server 30,
    .host .server .loop, .host .server .startPoll, .host .server (.parse 31), .transmit .server,
    .host .server (.complete 32 true), .host .server .nextPoll, .host .server (.parse 33),
    .host .client (.complete 6 true), .host .client .loop, .host .client .startPoll,
    .host .client (.parse 7), .host .client .nextPoll, .arrive .client 8,
    .host .client (.write 9), .host .client .post, .transmit .client, .arrive .server 34,
    .host .server .loop, .host .server .startPoll, .host .server (.parse 35), .transmit .server,
    .host .server .nextPoll, .host .server .loop,
    .host .client .loop, .host .client .startPoll, .host .client (.parse 10), .arrive .client 11,
    .host .client .nextPoll, .host .client (.parse 12), .host .client .loop]

/-- The bound of the client is met: it records two rounds of two. -/
theorem exists_halfRecorded : ∃ s,
    (rc fun build => if build = .client then 2 else 3).Reachable s ∧
    (s.host .client).pc = .done ∧ (s.host .server).pc = .done ∧
    (s.host .client).written.length = 2 ∧ (s.host .client).written.length ≤ 2 / 2 + 1 ∧
    3 ≤ 2 * (s.host .server).handled.length := by
  have hrun : ((rc fun build => if build = .client then 2 else 3).exec
      (rc fun _ => 2).init lateSends).map (fun s =>
        ((s.host .client).pc, (s.host .server).pc, (s.host .client).written.length)) =
      some (.done, .done, 2) := by
    decide +kernel
  obtain ⟨s, hs, he⟩ := Option.map_eq_some_iff.1 hrun
  obtain ⟨hclient, he⟩ := Prod.mk.inj he
  obtain ⟨hserver, hwritten⟩ := Prod.mk.inj he
  have hreach := System.reachable_of_exec (S := rc fun build => if build = .client then 2 else 3) hs
  have hall := halfRecorded_of_reachable (by rintro (_ | _) <;> decide) hreach
  exact ⟨s, hreach, hclient, hserver, hwritten, (hall.1 hclient).1, hall.2 hserver⟩

end Rc
end Rdma
end DetBypass
