/-
# Whether the RC pingpong ends

The loops of `rdma/rc_pingpong.c` wait for a number of completions, whichever they are.
The completions of its sends alone are enough for the client, if it posts a ping for
every id.  When it has ended, the pings that it has transmitted and the pongs that it has
handled are as many completions for the server, which can end by itself then.  So as long
as no work request fails and every ping is posted, both hosts can end
(`bothEnd_of_reliable`).

A ping that is not posted is not tried again, and `thread_send_packets` goes on.  The
client can make up for it with pongs, of which there are no more than pings: when the
sending thread is through and has posted less than half of them, the loop never ends
(`neverEnds_of_posted`).
-/

import DetBypass.Lib.LeadsTo
import DetBypass.Rdma.RcRecords

namespace DetBypass
namespace Rdma
namespace Rc

open Lib

variable {iters : Build → UInt64} {s t : State} {h h' : Host} {build : Build} {wc : Wc}
  {rest : List Wc} {now n id : UInt64} {a : HostAction} {k : ℕ}

/-- No call and no work request fails, and the sending thread finds the send queue
empty. -/
def HostReliable (h : Host) : HostAction → Prop
  | .pollError => False
  | .complete _ success => success = true
  | .post => h.send = none
  | _ => True

/-- The condition on a step. -/
def Reliable (s : State) : Action → Prop
  | .host build a => HostReliable (s.host build) a
  | _ => True

instance (h : Host) : (a : HostAction) → Decidable (HostReliable h a)
  | .pollError => .isFalse fun hfalse => hfalse
  | .complete _ success => inferInstanceAs (Decidable (success = true))
  | .post => inferInstanceAs (Decidable (h.send = none))
  | .loop | .startPoll | .nextPoll | .parse _ | .write _ => .isTrue trivial

instance (s : State) : (a : Action) → Decidable (Reliable s a)
  | .host build a => inferInstanceAs (Decidable (HostReliable (s.host build) a))
  | .transmit _ | .arrive _ _ => .isTrue trivial

/-- The loop of a host has ended at its condition. -/
def Ended (build : Build) (s : State) : Prop := (s.host build).pc = .done

/-- A host to which nothing has happened that ends the program, and whose sending thread
has posted every ping so far. -/
structure Steady (build : Build) (n : UInt64) (h : Host) : Prop where
  balance : Balance build n h
  running : h.pc ≠ .failed
  success : ∀ wc ∈ h.pc.current ++ h.cq, wc.success = true
  next : build = .client → h.senderPc.id = UInt64.ofNat (h.posted.length + 1)
  posting : ∀ id t, h.senderPc = .posting id t → id ≤ n

/-! ### What is kept -/

/-- A completion of a steady host is handled. -/
theorem Steady.parse_eq_zero (hs : Steady build n h) (hcurrent : h.pc.current = [wc])
    (now : UInt64) : (parseSingleWc build now h wc).1 = 0 := by
  have hmem : wc ∈ h.pc.current ++ h.cq := by simp [hcurrent]
  rcases hs.balance.credit.wcs wc hmem with ⟨hid, -⟩ | ⟨hid, hsuccess, -⟩
  · simp [parseSingleWc, hs.success wc hmem, hid]
  · exact (hs.balance.credit.recv hcurrent hid hsuccess build now).1

/-- A step that posts nothing. -/
theorem Steady.keep (hs : Steady build n h) (hbalance : Balance build n h')
    (hrunning : h'.pc ≠ .failed)
    (hsuccess : ∀ wc ∈ h'.pc.current ++ h'.cq, wc ∈ h.pc.current ++ h.cq ∨ wc.success = true)
    (hsender : h'.senderPc = h.senderPc)
    (hposted : build = .client → h'.posted.length = h.posted.length) : Steady build n h' where
  balance := hbalance
  running := hrunning
  success wc hwc := (hsuccess wc hwc).elim (hs.success wc) id
  next hbuild := by rw [hsender, hposted hbuild, hs.next hbuild]
  posting id t he := hs.posting id t (hsender ▸ he)

/-- **A host stays steady** in a step in which nothing fails. -/
theorem Steady.step (hs : Steady build n h) (ha : HostReliable h a)
    (hstep : stepHost build n h a = some h') : Steady build n h' := by
  have hbalance := hs.balance.step hstep
  cases hostStep_of_stepHost hstep with
  | @parse now _ hstep =>
      obtain ⟨-, wc, hcurrent, -, hparse⟩ := stepHost_parse hstep
      obtain ⟨pc, hnone, -, rfl⟩ := (hparse.resolve_left fun hfailed =>
        hfailed.1 (hs.parse_eq_zero hcurrent now)).2
      obtain ⟨recvs, posts, hhandles, -, -⟩ :=
        handles_of_wf build now h (hs.balance.credit.wcs wc (by simp [hcurrent]))
      refine hs.keep hbalance ?_ (fun wc' hwc' => Or.inl ?_) hhandles.senderPc fun hbuild => ?_
      · rcases stepHost_parse_pc hstep with ⟨⟨wc', hwc', hfailed⟩, -⟩ | ⟨-, he⟩ | ⟨-, he⟩
        · exact absurd (hs.parse_eq_zero (Pc.current_of_mem hwc') now) hfailed
        · exact he ▸ Pc.noConfusion
        · exact he ▸ Pc.noConfusion
      · rw [hnone, List.nil_append] at hwc'
        exact List.mem_append_right _ (hhandles.cq ▸ hwc')
      · have hposted := hhandles.posted
        rw [(hhandles.client hbuild).1] at hposted
        exact hposted
  | loop hpc =>
      have hpcs : (if h.recvCount < n then Pc.startPoll else .done) ≠ .failed ∧
          (if h.recvCount < n then Pc.startPoll else .done).current = [] := by
        split
        · exact ⟨Pc.noConfusion, rfl⟩
        · exact ⟨Pc.noConfusion, rfl⟩
      refine hs.keep hbalance hpcs.1 (fun wc hwc => Or.inl ?_) rfl fun _ => rfl
      rw [hpcs.2] at hwc
      exact List.mem_append_right _ hwc
  | startPoll wc rest hpc hcq | nextPoll wc rest hpc hcq =>
      refine hs.keep hbalance Pc.noConfusion (fun wc' hwc' => Or.inl ?_) rfl fun _ => rfl
      rw [hpc, hcq]
      exact hwc'
  | pollError => exact ha.elim
  | endPoll hpc hcq =>
      refine hs.keep hbalance Pc.noConfusion (fun wc hwc => Or.inl ?_) rfl fun _ => rfl
      exact List.mem_append_right _ hwc
  | write id t hid hbuild hle hclock =>
      refine ⟨hbalance, hs.running, hs.success, fun hbuild => ?_, fun id' t' he => ?_⟩
      · have hnext := hs.next hbuild
        rw [hid] at hnext
        exact hnext
      · obtain ⟨rfl, -⟩ := SenderPc.posting.inj he
        exact hle
  | post id t hid hsend =>
      refine ⟨hbalance, hs.running, hs.success, fun hbuild => ?_, fun _ _ he =>
        SenderPc.noConfusion he⟩
      have hnext := hs.next hbuild
      rw [hid] at hnext
      dsimp only [SenderPc.id] at hnext ⊢
      rw [hnext, List.length_append]
      exact (UInt64.ofNat_add (h.posted.length + 1) 1).symm
  | postFailed id t hid hsend => exact absurd ha hsend
  | complete ts success hsend =>
      refine hs.keep hbalance hs.running (fun wc hwc => ?_) rfl fun _ => rfl
      rw [← List.append_assoc] at hwc
      rcases List.mem_append.1 hwc with hwc | hwc
      · exact Or.inl hwc
      · rw [List.mem_singleton.1 hwc]
        exact Or.inr ha

/-- The connection takes the send. -/
theorem Steady.transmit (hs : Steady build n h) (hsend : h.send = some .posted) :
    Steady build n { h with
      send := some .transmitted, transmitted := h.transmitted ++ [h.sendBuf] } :=
  hs.keep (hs.balance.transmit hsend) hs.running (fun _ => Or.inl) rfl fun _ => rfl

/-- A message arrives at a posted receive. -/
theorem Steady.arrive (hs : Steady build n h) (hposted : 0 < h.recvPosted)
    (msg : PingpongPayload) (ts : UInt64) :
    Steady build n { h with
      recvBuf := msg, recvPosted := h.recvPosted - 1, received := h.received ++ [msg]
      cq := h.cq ++ [⟨pingpongRecvWrid, true, ts, some msg⟩] } := by
  refine hs.keep (hs.balance.arrive hposted msg ts) hs.running (fun wc hwc => ?_) rfl fun _ => rfl
  rw [← List.append_assoc] at hwc
  rcases List.mem_append.1 hwc with hwc | hwc
  · exact Or.inl hwc
  · rw [List.mem_singleton.1 hwc]
    exact Or.inr rfl

/-- Both hosts stay steady. -/
theorem steady_invariant : (rc iters).Invariant Reliable
    fun s => ∀ build, Steady build (iters build) (s.host build) where
  init build := ⟨balance_initialHost build (iters build), Pc.noConfusion,
    fun _ hwc => absurd hwc List.not_mem_nil, fun _ => rfl, fun _ _ he => SenderPc.noConfusion he⟩
  step := by
    intro s a t hs ha hstep
    cases rcStep_of_step hstep with
    | @host b a h' hhost =>
        exact forall_update (P := fun b h => Steady b (iters b) h) hs ((hs b).step ha hhost)
    | @transmit b hsend =>
        exact forall_update (P := fun b h => Steady b (iters b) h) hs ((hs b).transmit hsend)
    | @arrive b ts msg rest hinbox hposted =>
        exact forall_update (P := fun b h => Steady b (iters b) h) hs ((hs b).arrive hposted msg ts)

/-! ### What is left to do -/

/-- What is left to do about a completion at hand: a receive may post a send. -/
def Wc.work (wc : Wc) : ℕ := if wc.wrId = pingpongRecvWrid then 9 else 3

def Pc.work : Pc → ℕ
  | .loop => 1
  | .nextPoll => 2
  | .first wc | .second wc => wc.work
  | .startPoll | .done | .failed => 0

def Send.work : Option Send → ℕ
  | some .posted => 6
  | some .transmitted => 5
  | some .completed | none => 0

/-- The pings that the sending thread has before it. -/
def SenderPc.work (n : UInt64) : SenderPc → ℕ
  | .writing id => 8 * (n.toNat + 1 - id.toNat)
  | .posting id _ => 8 * (n.toNat - id.toNat) + 7

/-- The completions in the queue. -/
def queueWork (cq : List Wc) : ℕ := (cq.map fun wc => wc.work + 1).sum

/-- What is left for a host to do, of the messages that have arrived and the sends. -/
def Host.work (n : UInt64) (h : Host) : ℕ :=
  h.pc.work + queueWork h.cq + Send.work h.send + h.senderPc.work n

/-- An empty queue is no work. -/
@[simp] theorem queueWork_nil : queueWork [] = 0 := rfl

/-- The first completion and the rest. -/
@[simp] theorem queueWork_cons : queueWork (wc :: rest) = wc.work + 1 + queueWork rest :=
  List.sum_cons

/-- Queues add up. -/
@[simp] theorem queueWork_append (cq cq' : List Wc) :
    queueWork (cq ++ cq') = queueWork cq + queueWork cq' := by
  simp [queueWork]

/-- A send that is through is the least work. -/
theorem Send.work_none_le (send : Option Send) : Send.work none ≤ Send.work send :=
  Nat.zero_le _

/-- A poll. -/
theorem work_poll (n : UInt64) (hcq : h.cq = wc :: rest) {pc : Pc} (hpc : pc.work = wc.work) :
    Host.work n { pollWc h wc rest with pc := pc } + h.pc.work < h.work n := by
  have hsend : Send.work (pollWc h wc rest).send ≤ Send.work h.send := by
    unfold pollWc
    split
    · exact Send.work_none_le h.send
    · exact Nat.le_refl _
  calc Host.work n { pollWc h wc rest with pc := pc } + h.pc.work
      = wc.work + queueWork rest + Send.work (pollWc h wc rest).send + h.senderPc.work n +
          h.pc.work := by rw [Host.work, hpc]; rfl
    _ < h.pc.work + (wc.work + 1 + queueWork rest) + Send.work h.send + h.senderPc.work n := by
      omega
    _ = h.work n := by rw [Host.work, hcq, queueWork_cons]

/-- A receive completion may post a send. -/
theorem Wc.work_eq (wc : Wc) : wc.work = 3 + 6 * tally Wc.wrId [wc] pingpongRecvWrid := by
  unfold Wc.work
  by_cases hid : wc.wrId = pingpongRecvWrid <;> simp [hid]

/-- The work that handling posts is paid for by the receives. -/
theorem Handles.work {recvs posts : ℕ} (hh : Handles build recvs posts h h') :
    Send.work h'.send ≤ Send.work h.send + 6 * recvs := by
  have hle := hh.posts_le
  rcases hh.send with ⟨-, hsend⟩ | ⟨rfl, hnone, hsend⟩
  · rw [hsend]
    omega
  · rw [hsend, hnone]
    change 6 ≤ 0 + 6 * recvs
    omega

/-- A completion at hand can be handled. -/
theorem Steady.exists_parse (hs : Steady build n h) (hcurrent : h.pc.current = [wc]) :
    ∃ h', stepHost build n h (.parse h.clock) = some h' ∧ h'.work n < h.work n := by
  obtain ⟨h', hstep⟩ : ∃ h', stepHost build n h (.parse h.clock) = some h' := by
    cases hpc : h.pc <;> simp_all [stepHost, Pc.current]
  refine ⟨h', hstep, ?_⟩
  have hle : h'.pc.work ≤ 2 ∧ h.pc.work = wc.work := by
    rcases stepHost_parse_pc hstep with ⟨⟨wc', hwc', hfailed⟩, -⟩ | ⟨⟨wc', hpc⟩, he⟩ |
      ⟨⟨wc', hpc⟩, he⟩
    · exact absurd (hs.parse_eq_zero (Pc.current_of_mem hwc') _) hfailed
    · rw [hpc] at hcurrent ⊢
      obtain rfl := List.singleton_injective hcurrent
      exact ⟨he ▸ Nat.le_refl 2, rfl⟩
    · rw [hpc] at hcurrent ⊢
      obtain rfl := List.singleton_injective hcurrent
      exact ⟨he ▸ Nat.le_succ 1, rfl⟩
  obtain ⟨-, wc', hcurrent', -, hparse⟩ := stepHost_parse hstep
  obtain rfl := List.singleton_injective (hcurrent.symm.trans hcurrent')
  obtain ⟨pc, -, -, rfl⟩ := (hparse.resolve_left fun hfailed =>
    hfailed.1 (hs.parse_eq_zero hcurrent h.clock)).2
  obtain ⟨recvs, posts, hhandles, hrecv, -⟩ :=
    handles_of_wf build h.clock h (hs.balance.credit.wcs wc (by simp [hcurrent]))
  have hsend := hhandles.work
  have hwork := wc.work_eq
  rw [hrecv] at hwork
  unfold Host.work
  dsimp only at hle ⊢
  rw [hhandles.cq, hhandles.senderPc]
  omega

/-- A host that waits for a completion, with no send that could bring one. -/
structure Host.Idle (h : Host) : Prop where
  pc : h.pc = .startPoll
  cq : h.cq = []
  send : h.send = none

/-- A host that has not ended goes on, unless it is idle or the connection has a send to
take. -/
theorem Steady.progress (hs : Steady build n h) (hpc : h.pc ≠ .done) :
    (∃ a h', HostReliable h a ∧ stepHost build n h a = some h' ∧ h'.work n < h.work n) ∨
      h.send = some .posted ∨ h.Idle := by
  have hwork (pc : Pc) (hlt : pc.work < h.pc.work) : Host.work n { h with pc := pc } < h.work n :=
    Nat.add_lt_add_right (Nat.add_lt_add_right (Nat.add_lt_add_right hlt _) _) _
  cases hcurrent : h.pc with
  | done => exact absurd hcurrent hpc
  | failed => exact absurd hcurrent hs.running
  | first wc | second wc =>
      obtain ⟨h', hstep, hlt⟩ := hs.exists_parse (show h.pc.current = [wc] by rw [hcurrent]; rfl)
      exact Or.inl ⟨.parse h.clock, h', trivial, hstep, hlt⟩
  | loop =>
      refine Or.inl ⟨.loop, _, trivial, if_pos hcurrent, hwork _ ?_⟩
      rw [hcurrent]
      split <;> exact Nat.zero_lt_one
  | nextPoll =>
      cases hcq : h.cq with
      | nil =>
          refine Or.inl ⟨.nextPoll, { h with pc := .loop }, trivial, ?_, hwork _ ?_⟩
          · simp only [stepHost, hcurrent, hcq]
          · rw [hcurrent]
            exact Nat.lt_succ_self 1
      | cons wc rest =>
          refine Or.inl ⟨.nextPoll, { pollWc h wc rest with pc := .second wc }, trivial, ?_, ?_⟩
          · simp only [stepHost, hcurrent, hcq]
          · exact Nat.lt_of_le_of_lt (Nat.le_add_right ..) (work_poll n hcq rfl)
  | startPoll =>
      cases hcq : h.cq with
      | cons wc rest =>
          refine Or.inl ⟨.startPoll, { pollWc h wc rest with pc := .first wc }, trivial, ?_, ?_⟩
          · simp only [stepHost, hcurrent, hcq]
          · exact Nat.lt_of_le_of_lt (Nat.le_add_right ..) (work_poll n hcq rfl)
      | nil =>
          -- what becomes of the send
          rcases hsend : h.send with _ | _ | _ | _
          · exact Or.inr (Or.inr ⟨hcurrent, hcq, hsend⟩)
          · exact Or.inr (Or.inl rfl)
          · refine Or.inl ⟨.complete 0 true, { h with
              send := some .completed, cq := h.cq ++ [⟨pingpongSendWrid, true, 0, none⟩] },
              rfl, if_pos hsend, ?_⟩
            unfold Host.work
            rw [hsend, queueWork_append]
            show h.pc.work + (queueWork h.cq + 4) + 0 + h.senderPc.work n <
              h.pc.work + queueWork h.cq + 5 + h.senderPc.work n
            omega
          · have hsent := hs.balance.credit.sent
            rw [hcq, hsend] at hsent
            exact absurd hsent (by decide)

/-- What an idle host has counted. -/
theorem Balance.idle (hb : Balance build n h) (hn : n.toNat + 1 < 2 ^ 64) (hidle : h.Idle) :
    h.handled.length + h.posted.length < n.toNat ∧ h.received.length = h.handled.length := by
  obtain ⟨k, -, hsum, hcounts⟩ := hb.count (hidle.pc ▸ Pc.noConfusion)
  have hlt := hcounts hn
  have hreceived := hb.received
  rw [hidle.pc] at hlt
  rw [hb.credit.awaitingSend_eq, hidle.pc, hidle.send] at hsum
  rw [hidle.pc, hidle.cq] at hreceived
  exact ⟨hsum ▸ hlt, hreceived⟩

/-- **An idle client has a ping to send.**  With all of them posted it would have
ended. -/
theorem Steady.exists_ping (hs : Steady .client n h) (hn : n.toNat + 1 < 2 ^ 64)
    (hidle : h.Idle) :
    ∃ a h', HostReliable h a ∧ stepHost .client n h a = some h' ∧ h'.work n < h.work n := by
  have hnext := hs.next rfl
  have hlt := (hs.balance.idle hn hidle).1
  cases hsender : h.senderPc with
  | posting id t =>
      have hle := UInt64.le_iff_toNat_le.1 (hs.posting id t hsender)
      have hsucc : (id + 1).toNat = id.toNat + 1 := by
        rw [UInt64.toNat_add, UInt64.toNat_one, Nat.mod_eq_of_lt (by omega)]
      refine ⟨.post, { h with
        send := some .posted, posted := h.posted ++ [h.sendBuf], sends := h.sends ++ [(id, t)]
        senderPc := .writing (id + 1) }, hidle.send, ?_, ?_⟩
      · simp only [stepHost, hsender, ppPostSend_of_none hidle.send, if_true]
      · unfold Host.work
        rw [hidle.send, hsender]
        show h.pc.work + queueWork h.cq + 6 + 8 * (n.toNat + 1 - (id + 1).toNat) <
          h.pc.work + queueWork h.cq + 0 + (8 * (n.toNat - id.toNat) + 7)
        omega
  | writing id =>
      rw [hsender] at hnext
      have hid : id.toNat = h.posted.length + 1 := by
        rw [show id = UInt64.ofNat (h.posted.length + 1) from hnext, UInt64.toNat_ofNat',
          Nat.mod_eq_of_lt (by omega)]
      refine ⟨.write h.clock, { h with
        sendBuf := ping id h.clock, clock := h.clock, senderPc := .posting id h.clock }, trivial,
        ?_, ?_⟩
      · have hle : id ≤ n := UInt64.le_iff_toNat_le.2 (by omega)
        simp only [stepHost, hsender, hle, UInt64.le_refl, and_self, if_true]
      · unfold Host.work
        rw [hsender]
        show h.pc.work + queueWork h.cq + Send.work h.send + (8 * (n.toNat - id.toNat) + 7) <
          h.pc.work + queueWork h.cq + Send.work h.send + 8 * (n.toNat + 1 - id.toNat)
        omega

/-! ### Runs -/

/-- A step of a host is a step of the system. -/
theorem step_of_stepHost
    (hstep : stepHost build (iters build) (s.host build) a = some h') :
    (rc iters).step s (.host build a) =
      some { s with host := Function.update s.host build h' } := by
  simp only [rc, Rc.step, hstep, Option.map_some]

/-- What a host does by itself, and the connection for it: the other host stays as it
is. -/
theorem exists_move (hs : Steady build (iters build) (s.host build))
    (hpc : ¬ Ended build s) :
    (∃ a t, Reliable s a ∧ (rc iters).step s a = some t ∧
      (t.host build).work (iters build) < (s.host build).work (iters build) ∧
      t.host (peer build) = s.host (peer build) ∧ t.inbox build = s.inbox build) ∨
      (s.host build).Idle := by
  have hpeer : peer build ≠ build := by cases build <;> decide
  rcases hs.progress hpc with ⟨a, h', ha, hstep, hlt⟩ | hsend | hidle
  · refine Or.inl ⟨.host build a, _, ha, step_of_stepHost hstep, ?_, ?_, rfl⟩
    · dsimp only
      rwa [Function.update_self]
    · exact Function.update_of_ne hpeer ..
  · refine Or.inl ⟨.transmit build, _, trivial, if_pos hsend, ?_, ?_, ?_⟩
    · dsimp only
      rw [Function.update_self]
      unfold Host.work
      rw [hsend]
      exact Nat.add_lt_add_right (Nat.lt_succ_self _) _
    · exact Function.update_of_ne hpeer ..
    · exact Function.update_of_ne (Ne.symm hpeer) ..
  · exact Or.inr hidle

/-- **The client ends by its own sends.** -/
theorem client_leadsTo (hn : (iters .client).toNat + 1 < 2 ^ 64) :
    (rc iters).LeadsTo Reliable (fun _ => True) (Ended .client) :=
  System.LeadsTo.of_variant (fun s => (s.host .client).work (iters .client)) fun s hs _ => by
    have hsteady := steady_invariant.holds hs .client
    by_cases hpc : Ended .client s
    · exact Or.inl hpc
    refine Or.inr ?_
    rcases exists_move hsteady hpc with ⟨a, t, ha, hstep, hlt, -, -⟩ | hidle
    · exact ⟨a, t, ha, hstep, Or.inr ⟨trivial, hlt⟩⟩
    · obtain ⟨a, h', ha, hstep, hlt⟩ := hsteady.exists_ping hn hidle
      refine ⟨.host .client a, _, ha, step_of_stepHost hstep, Or.inr ⟨trivial, ?_⟩⟩
      dsimp only
      rwa [Function.update_self]

/-- **An idle server has a ping to receive**, when the client has ended: those on the way
and the sends are enough for it. -/
theorem Balanced.exists_ping (hb : Balanced iters s) (hn : (iters .client).toNat + 1 < 2 ^ 64)
    (hle : iters .server ≤ iters .client) (hclient : Ended .client s)
    (hidle : (s.host .server).Idle) :
    0 < (s.host .server).recvPosted ∧ ∃ msg rest, s.inbox .server = msg :: rest := by
  have hle := UInt64.le_iff_toNat_le.1 hle
  refine ⟨?_, ?_⟩
  · -- nothing has arrived, so all the receives are posted
    have hlow := (hb.hosts .server).credit.low
    rw [Host.awaitingRecv_eq, hidle.pc, hidle.cq] at hlow
    exact Nat.lt_of_lt_of_le Nat.zero_lt_two hlow
  · obtain ⟨k, hlow, -, hsum⟩ := (hb.hosts .client).done hn hclient
    obtain ⟨hlt, hreceived⟩ := (hb.hosts .server).idle (by omega) hidle
    have hpings := hb.net .server
    have hpongs := hb.handled_le .client
    have hsent := (hb.hosts .client).sent
    have hsent' := (hb.hosts .server).sent
    change (s.host .client).transmitted.length = _ at hpings
    change _ ≤ (s.host .server).transmitted.length at hpongs
    rw [Host.toRead_length] at hsent
    have htoRead : (if (s.host .client).send = some .posted then 1 else 0) ≤
        if (s.host .client).send = none then 0 else 1 := by
      rcases (s.host .client).send with _ | _ | _ | _ <;> decide
    refine List.exists_cons_of_length_pos ?_
    omega

/-- **The server ends when the client has ended.** -/
theorem server_leadsTo (hn : (iters .client).toNat + 1 < 2 ^ 64)
    (hle : iters .server ≤ iters .client) :
    (rc iters).LeadsTo Reliable (Ended .client)
      fun s => Ended .client s ∧ Ended .server s :=
  System.LeadsTo.of_variant
    (fun s => (s.host .server).work (iters .server) + 11 * (s.inbox .server).length)
    fun s hs hclient => by
      have hsteady := steady_invariant.holds hs .server
      by_cases hpc : Ended .server s
      · exact Or.inl ⟨hclient, hpc⟩
      refine Or.inr ?_
      rcases exists_move hsteady hpc with ⟨a, t, ha, hstep, hlt, hpeer, hinbox⟩ | hidle
      · refine ⟨a, t, ha, hstep, Or.inr ⟨?_, ?_⟩⟩
        · rw [Ended, show t.host .client = s.host .client from hpeer]
          exact hclient
        · rw [hinbox]
          exact Nat.add_lt_add_right hlt _
      · obtain ⟨hposted, msg, rest, hinbox⟩ :=
          (balanced_invariant.holds hs.reachable).exists_ping hn hle hclient hidle
        refine ⟨.arrive .server 0, {
          host := Function.update s.host .server { s.host .server with
            recvBuf := msg, recvPosted := (s.host .server).recvPosted - 1
            received := (s.host .server).received ++ [msg]
            cq := (s.host .server).cq ++ [⟨pingpongRecvWrid, true, 0, some msg⟩] }
          inbox := Function.update s.inbox .server rest }, trivial, ?_, Or.inr ⟨?_, ?_⟩⟩
        · simp only [rc, Rc.step, hinbox, hposted, if_true]
        · have hpeer : Build.client ≠ .server := by decide
          unfold Ended
          dsimp only
          rw [Function.update_of_ne hpeer]
          exact hclient
        · dsimp only
          rw [Function.update_self, Function.update_self, hinbox]
          unfold Host.work
          rw [queueWork_append]
          show (s.host .server).pc.work + (queueWork (s.host .server).cq + 10) +
              Send.work (s.host .server).send + (s.host .server).senderPc.work (iters .server) +
                11 * rest.length <
            (s.host .server).pc.work + queueWork (s.host .server).cq +
              Send.work (s.host .server).send + (s.host .server).senderPc.work (iters .server) +
                11 * (rest.length + 1)
          omega

/-- **Both hosts can end.**  From every state of a run in which no work request fails and
every ping is posted, the client and the server can go on to the end of their loops, when
the server waits for no more completions than the client. -/
theorem bothEnd_of_reliable (hn : (iters .client).toNat + 1 < 2 ^ 64)
    (hle : iters .server ≤ iters .client) (h : (rc iters).ReachableIf Reliable s) :
    (rc iters).CanReach Reliable (fun s => Ended .client s ∧ Ended .server s) s :=
  (client_leadsTo hn).trans (server_leadsTo hn hle) s h trivial

/-- A client whose second ping waits for the connection, while the server has not
received the first. -/
theorem exists_bothEnd : ∃ s, (s.host .client).posted.length = 2 ∧
    (s.inbox .server).length = 1 ∧
    (rc fun _ => 5).CanReach Reliable (fun s => Ended .client s ∧ Ended .server s) s := by
  have hrun : ((rc fun _ => 5).execIf Reliable (rc fun _ => 5).init
      [.host .client (.write 5), .host .client .post, .transmit .client,
        .host .client (.complete 6 true), .host .client .loop, .host .client .startPoll,
        .host .client (.parse 7), .host .client (.write 8), .host .client .post]).map
      (fun s => ((s.host .client).posted.length, (s.inbox .server).length)) = some (2, 1) := by
    decide +kernel
  obtain ⟨s, hs, he⟩ := Option.map_eq_some_iff.1 hrun
  obtain ⟨hposted, hinbox⟩ := Prod.mk.inj he
  exact ⟨s, hposted, hinbox, bothEnd_of_reliable (by decide) (UInt64.le_refl 5)
    (System.runIf_of_execIf hs)⟩

/-! ### Pings that are not posted -/

/-- The sending thread has no id before it, and has posted `p` pings. -/
def Host.Through (id : UInt64) (p : ℕ) (h : Host) : Prop :=
  h.senderPc = .writing id ∧ h.posted.length = p

/-- It posts nothing more. -/
theorem Balance.through_step {p : ℕ} (hb : Balance .client n h) (hthrough : h.Through id p)
    (hid : n < id) (hstep : stepHost .client n h a = some h') : h'.Through id p := by
  obtain ⟨hsender, hlength⟩ := hthrough
  cases hostStep_of_stepHost hstep with
  | @parse now _ hstep =>
      obtain ⟨-, wc, hcurrent, -, hparse⟩ := stepHost_parse hstep
      obtain ⟨recvs, posts, hhandles, -, -⟩ :=
        handles_of_wf .client now h (hb.credit.wcs wc (by simp [hcurrent]))
      have hposted := hhandles.posted
      rw [(hhandles.client rfl).1, hlength] at hposted
      rcases hparse with ⟨-, rfl⟩ | ⟨-, pc, -, -, rfl⟩
      · exact ⟨hhandles.senderPc.trans hsender, hposted⟩
      · exact ⟨hhandles.senderPc.trans hsender, hposted⟩
  | write id' t hwriting hbuild hle =>
      obtain rfl := SenderPc.writing.inj (hwriting.symm.trans hsender)
      exact absurd hid (UInt64.not_lt.2 hle)
  | post id' t hposting | postFailed id' t hposting =>
      exact SenderPc.noConfusion (hposting.symm.trans hsender)
  | loop | startPoll | nextPoll | pollError | endPoll | complete => exact ⟨hsender, hlength⟩

/-- The sending thread stays through. -/
theorem through_of_step {p : ℕ} (hb : Balanced iters s) (hid : iters .client < id)
    (hthrough : (s.host .client).Through id p) {a : Action}
    (hstep : (rc iters).step s a = some t) : (t.host .client).Through id p := by
  have hall : ∀ b, b = .client → (s.host b).Through id p := by
    rintro _ rfl
    exact hthrough
  cases rcStep_of_step hstep with
  | @host b a h' hhost =>
      refine forall_update (P := fun b h => b = .client → h.Through id p) hall ?_ .client rfl
      rintro rfl
      exact (hb.hosts .client).through_step hthrough hid hhost
  | @transmit b | @arrive b =>
      refine forall_update (P := fun b h => b = .client → h.Through id p) hall ?_ .client rfl
      exact hall b

/-- **A client that missed too many posts never ends.**  When the sending thread is
through and has posted less than half of the pings, no run goes on to the end of the
loop. -/
theorem neverEnds_of_posted (hn : (iters .client).toNat + 1 < 2 ^ 64)
    (h : (rc iters).Reachable s) (hsender : (s.host .client).senderPc = .writing id)
    (hid : iters .client < id)
    (hposted : 2 * (s.host .client).posted.length < (iters .client).toNat) :
    ¬ (rc iters).CanReach (fun _ _ => True) (Ended .client) s := by
  rintro ⟨t, hrun, hdone⟩
  obtain ⟨hb, -, hsame⟩ : Balanced iters t ∧
      (t.host .client).Through id (s.host .client).posted.length :=
    hrun.preserves (I := fun t => Balanced iters t ∧
        (t.host .client).Through id (s.host .client).posted.length)
      (fun ⟨hb, hthrough⟩ _ hstep => ⟨balanced_invariant.step hb trivial hstep,
        through_of_step hb hid hthrough hstep⟩)
      ⟨balanced_invariant.holds h, hsender, rfl⟩
  obtain ⟨k, hlow, -, hsum⟩ := (hb.hosts .client).done hn hdone
  have hpongs := hb.pongs_le
  have hsent := (hb.hosts .client).sent
  omega

/-- The second and the third of three pings find the first outstanding. -/
theorem exists_neverEnds : ∃ s, (rc fun _ => 3).Reachable s ∧
    (s.host .client).posted.length = 1 ∧
    ¬ (rc fun _ => 3).CanReach (fun _ _ => True) (Ended .client) s := by
  have hrun : ((rc fun _ => 3).exec (rc fun _ => 3).init
      [.host .client (.write 5), .host .client .post, .host .client (.write 6),
        .host .client .post, .host .client (.write 7), .host .client .post]).map
      (fun s => ((s.host .client).senderPc, (s.host .client).posted.length)) =
      some (.writing 4, 1) := by
    decide +kernel
  obtain ⟨s, hs, he⟩ := Option.map_eq_some_iff.1 hrun
  obtain ⟨hsender, hposted⟩ := Prod.mk.inj he
  have hreach := System.reachable_of_exec hs
  refine ⟨s, hreach, hposted, neverEnds_of_posted (by decide) hreach hsender (by decide) ?_⟩
  rw [hposted]
  decide

end Rc
end Rdma
end DetBypass
