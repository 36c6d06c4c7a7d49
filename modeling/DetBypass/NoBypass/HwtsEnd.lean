/-
# Whether the timestamps are printed

The hosts of `no-bypass/hwts.cpp` go in turn: `receive` waits until a packet comes in,
and neither sends a packet again.  At the end each waits until it has a timestamp for
every packet it has sent.

While no call fails and every packet that comes in is stamped, a packet that is
sent is received, on the way, in the socket, or missing (`lossless_iff`).  Unless one is
missing, never both hosts wait (`InTurn.not_both_wait`), and they can go on until both
have printed their rows; once one is missing they cannot (`bothPrint_iff`).
-/

import DetBypass.Lib.LeadsTo
import DetBypass.NoBypass.HwtsRounds

namespace DetBypass
namespace Hwts

open Lib
open Exchange (peer)

variable {packets : ℕ} {b : Build} {h h' : Host} {s t : Hosts} {pc : Pc} {act : Action}

/-- Both hosts have printed their rows. -/
def Printed (s : Hosts) : Prop := ∀ b, (s b).pc = .done

/-- Every packet sent to a host is received, on the way or in the socket. -/
def Lossless (s : Hosts) : Prop := ∀ b,
  (s (peer b)).sent = (s b).recvTs.recvTsCnt + (s b).coming.length + (s b).queue.length

/-- The network loses nothing. -/
def Delivered (s : Hosts) (act : Action) : Prop :=
  Stamped s act ∧ ∀ b k, act ≠ .lose b k

/-- Nobody has thrown an exception. -/
def Running (s : Hosts) : Prop := ∀ b, (s b).pc ≠ .thrown

/-! ### What is missing -/

/-- A host is ahead of the other by one packet at most. -/
theorem InTurn.sent_le (h : InTurn packets s) (b : Build) :
    (s (peer b)).sent ≤ (s b).recvTs.recvTsCnt + 1 := by
  have hclient := (h.host .client).counts_le
  have hserver := (h.host .server).counts_le
  have hpongs := h.le .client
  have hpings := h.le .server
  simp only [peer] at hpongs hpings
  cases b <;> simp only [peer] <;> omega

/-- **Nothing is lost unless a packet is missing.** -/
theorem InTurn.lossless_iff (h : InTurn packets s) : Lossless s ↔ ∀ b, ¬ Missing s b := by
  refine forall_congr' fun b => ?_
  have hle := h.le b
  have hsent := h.sent_le b
  unfold Missing
  rcases h.channel b with hnil | ⟨hone, hnext⟩
  · obtain ⟨hcoming, hqueue⟩ := List.append_eq_nil_iff.1 hnil
    rw [List.map_eq_nil_iff] at hqueue
    simp only [hcoming, hqueue, List.length_nil, true_and]
    omega
  · have hlength := congrArg List.length hone
    simp only [List.length_append, List.length_map, List.length_singleton] at hlength
    constructor
    · rintro - ⟨hcoming, hqueue, -⟩
      rw [hcoming, hqueue] at hlength
      exact absurd hlength (by decide)
    · omega

/-- A step that sends nothing to the host and leaves what it has received. -/
theorem Lossless.update (hl : Lossless s) (hsent : h'.sent = (s b).sent)
    (hcounts : h'.recvTs.recvTsCnt + h'.coming.length + h'.queue.length =
      (s b).recvTs.recvTsCnt + (s b).coming.length + (s b).queue.length) :
    Lossless (Function.update s b h') := by
  intro b'
  have hlossless := hl b'
  rcases eq_or_eq_peer b b' with rfl | rfl
  · rw [Function.update_self, Function.update_of_ne (peer_ne b'), hcounts]
    exact hlossless
  · rw [peer_peer] at hlossless ⊢
    rw [Function.update_self, Function.update_of_ne (peer_ne b), hsent]
    exact hlossless

/-- A packet that is sent is on the way. -/
theorem Lossless.sent (hl : Lossless s) : Lossless (Function.update (Function.update s b
    { s b with
      pc := pc
      sent := (s b).sent + 1
      pending := (s b).pending ++ [(s b).sent] }) (peer b)
    { s (peer b) with coming := (s (peer b)).coming ++ [(s b).sent] }) := by
  intro b'
  have hlossless := hl b'
  rcases eq_or_eq_peer b b' with rfl | rfl
  · rw [Function.update_self, Function.update_of_ne (peer_ne b').symm, Function.update_self]
    exact hlossless
  · rw [peer_peer] at hlossless ⊢
    rw [Function.update_self, Function.update_of_ne (peer_ne b).symm, Function.update_self]
    simp only [List.length_append, List.length_singleton]
    omega

/-- **Only a loss loses a packet.** -/
theorem Lossless.step (hl : Lossless s) (h : InTurn packets s) (hpackets : packets ≤ 2 ^ 31)
    (hact : Delivered s act) (hstep : Hwts.step packets s act = some t) : Lossless t := by
  obtain ⟨hact, hkept⟩ := hact
  cases h.stampedStep hpackets hact hstep with
  | send hpc => exact hl.sent
  | poll _ _ hsame =>
      obtain ⟨hsent, hrecv, hcoming, hqueue⟩ := hsame
      exact hl.update hsent (by rw [hrecv, hcoming, hqueue])
  | @receive b _ _ _ _ _ hpc hqueue hmsgs =>
      have hcnt := ((h.host b).receive hpc hqueue hmsgs).2
      refine hl.update rfl ?_
      simp only [hcnt, hqueue, List.length_cons]
      omega
  | print | leave => exact hl.update rfl rfl
  | arrive _ hk =>
      obtain ⟨hlt, -⟩ := List.getElem?_eq_some_iff.1 hk
      refine hl.update rfl ?_
      simp only [List.length_eraseIdx, hlt, if_true, List.length_append, List.length_singleton]
      omega
  | @lose b k _ => exact absurd rfl (hkept b k)

/-! ### No exception -/

/-- A host that has not stopped is put in. -/
theorem Running.update (hr : Running s) (hpc : h'.pc ≠ .thrown) :
    Running (Function.update s b h') :=
  (Function.forall_update_iff s fun _ h => h.pc ≠ .thrown).2 ⟨hpc, fun b' _ => hr b'⟩

/-- **No host stops** in a step in which no call fails. -/
theorem Running.step (hr : Running s) (h : InTurn packets s) (hpackets : packets ≤ 2 ^ 31)
    (hact : Stamped s act) (hstep : Hwts.step packets s act = some t) : Running t := by
  cases h.stampedStep hpackets hact hstep with
  | @send b _ i _ => exact (hr.update (next_ne_thrown packets b i .send)).update (hr (peer b))
  | poll _ hpc _ => exact hr.update hpc
  | @receive b _ i _ _ _ _ _ _ => exact hr.update (next_ne_thrown packets b i .receive)
  | print => exact hr.update Pc.noConfusion
  | @leave b _ _ _ _ _ | @arrive b _ _ _ _ _ | @lose b _ _ => exact hr.update (hr b)

/-! ### What is left to do -/

/-- The calls of the iteration from this one on. -/
def Call.left : Build → Call → ℕ
  | .client, .send | .server, .receive => 3
  | .client, .poll | .server, .poll => 2
  | .client, .receive | .server, .send => 1

/-- What the loops have before them: a call may send a packet. -/
def Pc.work (packets : ℕ) (b : Build) : Pc → ℕ
  | .at i call => 15 * (packets - 1 - i) + 5 * call.left b + 1
  | .drain => 1
  | .done | .thrown => 0

/-- What is left for a host, with the packets and the timestamps on their way to it. -/
def Host.work (packets : ℕ) (b : Build) (h : Host) : ℕ :=
  h.pc.work packets b + 2 * h.pending.length + h.errqueue.length + 2 * h.coming.length +
    h.queue.length

def work (packets : ℕ) (s : Hosts) : ℕ :=
  (s .client).work packets .client + (s .server).work packets .server

/-- The next call leaves less to do. -/
theorem work_next (packets : ℕ) (b : Build) (i : ℕ) (call : Call) :
    (next packets b i call).work packets b + 5 ≤ (Pc.at i call).work packets b := by
  have htop (first : Call) (hfirst : first.left b = 3) :
      (top packets (i + 1) first).work packets b + 5 ≤ 15 * (packets - 1 - i) + 5 * 1 + 1 := by
    unfold top
    split_ifs with hlt
    · simp only [Pc.work, hfirst]
      omega
    · simp [Pc.work]
  cases b <;> cases call <;> first | exact htop _ rfl | simp [next, Pc.work, Call.left]

/-- A host does something by itself. -/
theorem work_update (hlt : h'.work packets b < (s b).work packets b) :
    work packets (Function.update s b h') < work packets s := by
  unfold work
  cases b with
  | client =>
      rw [Function.update_self, Function.update_of_ne (by decide)]
      exact Nat.add_lt_add_right hlt _
  | server =>
      rw [Function.update_self, Function.update_of_ne (by decide)]
      exact Nat.add_lt_add_left hlt _

/-- A host does something that concerns both. -/
theorem work_update_both {h₁ h₂ : Host}
    (hlt : h₁.work packets b + h₂.work packets (peer b) <
      (s b).work packets b + (s (peer b)).work packets (peer b)) :
    work packets (Function.update (Function.update s b h₁) (peer b) h₂) < work packets s := by
  unfold work
  cases b with
  | client =>
      rw [peer, Function.update_self, Function.update_of_ne (by decide), Function.update_self]
      exact hlt
  | server =>
      rw [peer, Function.update_self, Function.update_of_ne (by decide), Function.update_self]
      simp only [peer] at hlt
      omega

/-- The messages of a timestamp. -/
def stampMsgs (id : ℕ) (ts : UInt64) : List Cmsg :=
  [⟨solSocket, soTimestamping, ts, 0, 0⟩,
    ⟨solIp, ipRecverr, 0, soEeOriginTimestamping, UInt32.ofNat id⟩]

/-- The messages of the example carry the one stamp. -/
theorem isStamp_stampMsgs (id : ℕ) (ts : UInt64) : IsStamp (stampMsgs id ts) id ts :=
  Or.inl rfl

/-- The stamp of a packet that came in is extracted. -/
theorem recvStamps_map (stamp : Option UInt64) :
    recvStamps (stamp.toList.map fun ts => ⟨solSocket, soTimestamping, ts, 0, 0⟩) =
      stamp.toList := by
  cases stamp <;> rfl

/-- A poll is possible, and takes the first timestamp of the error queue. -/
theorem Host.Ok.exists_extract (hok : h.Ok packets b) (hpackets : packets ≤ 2 ^ 31) (pc : Pc) :
    ∃ msgs h', (h.errqueue = [] → NoPair (msgs.filterMap Cmsg.event)) ∧
      h.extract msgs pc = some h' ∧
      ∃ sendTs, h' = { h with sendTs := sendTs, errqueue := h.errqueue.tail, pc := pc } := by
  cases hqueue : h.errqueue with
  | nil =>
      have hclean : NoPair (([] : List Cmsg).filterMap Cmsg.event) := by
        intro pre id post he
        simp at he
      refine ⟨[], { h with pc := pc }, fun _ => hclean, ?_, h.sendTs, ?_⟩
      · simp only [Host.extract, hqueue, extractSendTimestamps_of_noPair hclean]
      · rw [List.tail_nil, ← hqueue]
  | cons p rest =>
      obtain ⟨id, ts⟩ := p
      obtain ⟨hts, hid⟩ := hok.stamp_head hpackets hqueue
      obtain ⟨sendTs, hok', -⟩ :=
        extractSendTimestamps_of_isStamp (isStamp_stampMsgs id ts) hts hid h.sendTs
      refine ⟨stampMsgs id ts, { h with sendTs := sendTs, errqueue := rest, pc := pc },
        fun hnil => absurd hnil (List.cons_ne_nil _ _), ?_, sendTs, rfl⟩
      simp only [Host.extract, hqueue, isStamp_stampMsgs, if_true, hok']

/-- A host waits for a packet, and none is there. -/
def Waits (s : Hosts) (b : Build) : Prop :=
  (∃ i, (s b).pc = .at i .receive) ∧ (s b).coming = [] ∧ (s b).queue = []

/-- **Never both wait**: if a host waits and nothing is lost, the other has still to
send. -/
theorem InTurn.not_both_wait (h : InTurn packets s) (hl : Lossless s) (hwaits : Waits s b) :
    (s (peer b)).pc ≠ .done ∧ ¬ Waits s (peer b) := by
  obtain ⟨⟨i, hpc⟩, hcoming, hqueue⟩ := hwaits
  have hi := (h.host b).lt i .receive hpc
  have hnext := hl b
  have hback := hl (peer b)
  rw [hcoming, hqueue] at hnext
  rw [peer_peer] at hback
  obtain ⟨hsent, hrecv⟩ := Prod.mk.inj ((h.host b).counts.trans (Prod.mk.eta).symm)
  obtain ⟨hsent', hrecv'⟩ := Prod.mk.inj ((h.host (peer b)).counts.trans (Prod.mk.eta).symm)
  rw [hpc] at hsent hrecv
  constructor
  · intro hdone
    rw [hdone] at hsent' hrecv'
    cases b <;> simp [counts, peer] at * <;> omega
  · rintro ⟨⟨j, hpc'⟩, hcoming', hqueue'⟩
    rw [hpc'] at hsent' hrecv'
    rw [hcoming', hqueue'] at hback
    cases b <;> simp [counts, peer] at * <;> omega

/-- **A host that does not wait goes on**, and has less to do then. -/
theorem InTurn.exists_move (h : InTurn packets s) (hpackets : packets ≤ 2 ^ 31)
    (hr : Running s) (hdone : (s b).pc ≠ .done) (hwaits : ¬ Waits s b) :
    ∃ act, Delivered s act ∧ ∃ t, Hwts.step packets s act = some t ∧
      work packets t < work packets s := by
  have hok := h.host b
  cases hpc : (s b).pc with
  | done => exact absurd hpc hdone
  | thrown => exact absurd hpc (hr b)
  | «at» i call =>
      have hnext := work_next packets b i call
      cases call with
      | send =>
          refine ⟨.send b 0, ⟨le_refl (0 : ℤ), fun _ _ => Action.noConfusion⟩, ?_⟩
          simp only [Hwts.step, hpc, lt_irrefl, if_false, Option.some.injEq, exists_eq_left']
          refine work_update_both ?_
          simp only [Host.work, hpc, List.length_append, List.length_singleton]
          omega
      | poll =>
          obtain ⟨msgs, h', hclean, hextract, sendTs, he⟩ :=
            hok.exists_extract hpackets (next packets b i .poll)
          refine ⟨.poll b msgs, ⟨hclean, fun _ _ => Action.noConfusion⟩, Function.update s b h',
            ?_, work_update ?_⟩
          · simp only [Hwts.step, hpc, hextract, Option.map_some]
          · rw [he]
            simp only [Host.work, hpc, List.length_tail]
            omega
      | receive =>
          cases hqueue : (s b).queue with
          | cons p rest =>
              obtain ⟨id, stamp⟩ := p
              refine ⟨.receive b (stamp.toList.map fun ts => ⟨solSocket, soTimestamping, ts, 0, 0⟩),
                ⟨trivial, fun _ _ => Action.noConfusion⟩, ?_⟩
              simp only [Hwts.step, hpc, hqueue, recvStamps_map, if_true, Option.some.injEq,
                exists_eq_left']
              refine work_update ?_
              simp only [Host.work, hpc, hqueue, List.length_cons]
              omega
          | nil =>
              cases hcoming : (s b).coming with
              | nil => exact absurd ⟨⟨i, hpc⟩, hcoming, hqueue⟩ hwaits
              | cons id rest =>
                  refine ⟨.arrive b 0 (some 0), ⟨rfl, fun _ _ => Action.noConfusion⟩, ?_⟩
                  simp only [Hwts.step, hcoming, List.getElem?_cons_zero, Option.some.injEq,
                    exists_eq_left']
                  refine work_update ?_
                  simp only [Host.work, hcoming, List.eraseIdx_cons_zero, List.length_append,
                    List.length_cons, List.length_nil]
                  omega
  | drain =>
      by_cases hcnt : packets ≤ (s b).sendTs.sendTsCnt
      · refine ⟨.print b, ⟨trivial, fun _ _ => Action.noConfusion⟩, _, if_pos ⟨hpc, hcnt⟩,
          work_update ?_⟩
        simp only [Host.work, hpc, Pc.work]
        omega
      cases hqueue : (s b).errqueue with
      | cons p rest =>
          obtain ⟨msgs, h', hclean, hextract, sendTs, he⟩ := hok.exists_extract hpackets .drain
          refine ⟨.poll b msgs, ⟨hclean, fun _ _ => Action.noConfusion⟩, Function.update s b h',
            ?_, work_update ?_⟩
          · simp only [Hwts.step, hpc, Nat.lt_of_not_le hcnt, if_true, hextract, Option.map_some]
          · rw [he]
            simp only [Host.work, hpc, hqueue, List.tail_cons, List.length_cons]
            omega
      | nil =>
          -- a packet has still to leave
          have hpending : (s b).pending ≠ [] := by
            intro hnil
            have hdrop := hok.errqueue
            have hlength := hok.perm.length_eq
            have hsent := (Prod.mk.inj (hok.counts.trans (Prod.mk.eta).symm)).1
            rw [hqueue, eq_comm, List.drop_eq_nil_iff] at hdrop
            rw [hnil, List.append_nil, List.length_map, List.length_range] at hlength
            rw [hpc] at hsent
            cases b <;> simp only [counts] at hsent <;> omega
          obtain ⟨id, rest, hpending⟩ := List.exists_cons_of_ne_nil hpending
          refine ⟨.leave b 0 0, ⟨show (0 : UInt64) ≠ -1 by decide,
            fun _ _ => Action.noConfusion⟩, ?_⟩
          simp only [Hwts.step, hpending, List.getElem?_cons_zero, Option.some.injEq,
            exists_eq_left']
          refine work_update ?_
          simp only [Host.work, hpending, List.eraseIdx_cons_zero, List.length_append,
            List.length_cons, List.length_nil]
          omega

/-! ### Both hosts print -/

/-- No host throws. -/
theorem running_of_reachable (hpackets : packets ≤ 2 ^ 31)
    (h : (startProgram packets).ReachableIf Stamped s) : Running s := by
  have hall : InTurn packets s ∧ Running s := by
    refine System.Invariant.holds (I := fun s => InTurn packets s ∧ Running s)
      ⟨⟨inTurn_of_reachable hpackets System.ReachableIf.init,
        fun b => top_ne_thrown packets 0 (.first b)⟩, ?_⟩ h
    rintro s act t ⟨hturn, hr⟩ hact hstep
    exact ⟨hturn.step hpackets hact hstep, hr.step hturn hpackets hact hstep⟩
  exact hall.2

/-- **Nothing stands in the way**: while nothing is lost, the hosts can go on to their
rows. -/
theorem printed_of_lossless (hpackets : packets ≤ 2 ^ 31) :
    (startProgram packets).LeadsTo Stamped Lossless Printed := by
  refine System.LeadsTo.of_variant (work packets) fun s hs hl => ?_
  have hturn := inTurn_of_reachable hpackets hs
  have hr := running_of_reachable hpackets hs
  by_cases hprinted : Printed s
  · exact Or.inl hprinted
  obtain ⟨b, hdone, hwaits⟩ : ∃ b, (s b).pc ≠ .done ∧ ¬ Waits s b := by
    obtain ⟨b, hdone⟩ := not_forall.1 hprinted
    by_cases hwaits : Waits s b
    · exact ⟨peer b, hturn.not_both_wait hl hwaits⟩
    · exact ⟨b, hdone, hwaits⟩
  obtain ⟨act, hact, t, hstep, hlt⟩ := hturn.exists_move hpackets hr hdone hwaits
  exact Or.inr ⟨act, t, hact.1, hstep, Or.inr ⟨hl.step hturn hpackets hact hstep, hlt⟩⟩

/-- Where both have printed, no packet is missing. -/
theorem InTurn.not_missing (h : InTurn packets s) (hprinted : Printed s) (b : Build) :
    ¬ Missing s b := by
  rintro ⟨-, -, hsent⟩
  have hpeer := ((h.host (peer b)).counts_of_done (hprinted (peer b))).1
  have hself := ((h.host b).counts_of_done (hprinted b)).2
  omega

/-- **When both hosts can print.**  While no call fails, every packet that comes in is
stamped and no pair is found in the buffer of an empty queue, the hosts can go on to
their rows, if and only if no packet is missing. -/
theorem bothPrint_iff (hpackets : packets ≤ 2 ^ 31)
    (h : (startProgram packets).ReachableIf Stamped s) :
    (startProgram packets).CanReach Stamped Printed s ↔ ∀ b, ¬ Missing s b := by
  constructor
  · intro hcan
    refine hcan.of_step_back h (fun t ht => (inTurn_of_reachable hpackets ht).not_missing) ?_
    intro s act t hs hact hstep hnone b hmissing
    exact hnone b (hmissing.step (inTurn_of_reachable hpackets hs) hpackets hact hstep)
  · intro hnone
    exact printed_of_lossless hpackets s h
      ((inTurn_of_reachable hpackets h).lossless_iff.2 hnone)

/-- The first of two packets, before and after it is lost. -/
theorem exists_bothPrint : ∃ s t, step 2 s (.lose .server 0) = some t ∧
    (startProgram 2).CanReach Stamped Printed s ∧
    ¬ (startProgram 2).CanReach Stamped Printed t := by
  have hexec : ((startProgram 2).execIf Zeroed (start 2) [.send .client 1024]).bind (fun s =>
      (step 2 s (.lose .server 0)).map fun t => (((s .server).coming, (s .server).sent,
        (s .client).recvTs.recvTsCnt), ((t .server).coming, (t .server).queue.length,
        (t .client).sent, (t .server).recvTs.recvTsCnt))) = some (([0], 0, 0), [], 0, 1, 0) := by
    decide +kernel
  obtain ⟨s, hs, he⟩ := Option.bind_eq_some_iff.1 hexec
  obtain ⟨t, ht, he⟩ := Option.map_eq_some_iff.1 he
  simp only [Prod.mk.injEq, List.length_eq_zero_iff] at he
  obtain ⟨⟨hcoming, hsent, hrecv⟩, hcoming', hqueue', hsent', hrecv'⟩ := he
  have hreach := System.RunIf.mono (fun _ _ => Zeroed.stamped) (System.runIf_of_execIf hs)
  refine ⟨s, t, ht, (bothPrint_iff (by decide) hreach).2 fun b hmissing => ?_, fun hcan => ?_⟩
  · obtain ⟨hnil, -, hahead⟩ := hmissing
    cases b with
    | client =>
        rw [peer, hsent, hrecv] at hahead
        exact absurd hahead (by decide)
    | server => exact absurd (hcoming.symm.trans hnil) (List.cons_ne_nil _ _)
  · have hlose : Stamped s (.lose .server 0) := trivial
    have hlost := System.ReachableIf.tail hreach hlose ht
    refine (bothPrint_iff (by decide) hlost).1 hcan .server ⟨hcoming', hqueue', ?_⟩
    rw [peer, hsent', hrecv']

end Hwts
end DetBypass
