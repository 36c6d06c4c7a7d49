/-
# The rows of `hwts`

`no-bypass/hwts.cpp`, client and server: the loops over the packets, the wait for the
transmit timestamps after them, and the rows that are printed.  The two hosts go in
turn: the client waits for an answer before it sends again, the server for the next
packet.  The network may lose packets and takes any time; the network card of a host
stamps a packet when it comes in, and one that has left at any later time.

A packet is the number of those its host had sent before, which is the id the kernel
gives it (`SOF_TIMESTAMPING_OPT_ID`).  A packet with a receive timestamp brings one
control message of type `SCM_TIMESTAMPING`, a transmit timestamp one pair of messages
on the error queue, in either order (`Hwts.lean`); on an empty queue the control buffer
is whatever it was.  `left` and `arrived` are history: the timestamps of the network
card.  A call that fails is reported on `stderr`, and its loop goes on.

If no call fails, no packet comes in without a timestamp and no pair is found in the
buffer of an empty queue, what a host prints are the times at which its packets left
and the packets of the other arrived, one row for each (`rows_of_done`).  There is no
timeout: once a packet is lost the client never prints (`not_done_of_lost`).  But a
`recvmsg` that fails counts as an iteration, and leaves a row without its time
(`exists_row_without_time`).
-/

import DetBypass.Common.Exchange
import DetBypass.NoBypass.HwtsPolls

namespace DetBypass
namespace Hwts

open Lib
open Exchange (peer)

/-- `recv_ts` and `recv_ts_cnt`. -/
structure RecvTs where
  recvTs : ℕ → UInt64
  recvTsCnt : ℕ

/-- `extract_recv_timestamp`, with `SCM_TIMESTAMPING` equal to `SO_TIMESTAMPING`. -/
def extractRecvTimestamp (s : RecvTs) (msgs : List Cmsg) : RecvTs :=
  msgs.foldl (fun s cmsg =>
    if cmsg.level = solSocket ∧ cmsg.type = soTimestamping then
      ⟨Function.update s.recvTs s.recvTsCnt cmsg.val, s.recvTsCnt + 1⟩
    else s) s

/-- The calls in the body of a loop. -/
inductive Call
  | send
  | poll
  | receive
deriving DecidableEq

/-- Where a host stands: at a call of the iteration `i`, in the loop after the last
iteration, after the rows, or stopped by an exception. -/
inductive Pc
  | at (i : ℕ) (call : Call)
  | drain
  | done
  | thrown
deriving DecidableEq

/-- A host: the program, its socket and its network card. -/
structure Host where
  pc : Pc
  sendTs : SendTs
  recvTs : RecvTs
  rows : List (UInt64 × UInt64)
  /-- The packets sent, the next one's id. -/
  sent : ℕ
  /-- Those that are to be stamped. -/
  pending : List ℕ
  /-- The error queue. -/
  errqueue : List (ℕ × UInt64)
  /-- The packets on the way to the host. -/
  coming : List ℕ
  /-- Those that wait in the socket. -/
  queue : List (ℕ × Option UInt64)
  left : List (ℕ × UInt64)
  arrived : List (ℕ × Option UInt64)

/-- The two hosts. -/
abbrev Hosts := Build → Host

/-- One scheduler choice: a call of a host with its result or the control messages it
finds, the rows, or an event of a network card or of the network.  Of a failed `recvmsg`
of `receive` it says what was in the buffer if `errno` is `EAGAIN`. -/
inductive Action
  | send (b : Build) (res : ℤ)
  | poll (b : Build) (msgs : List Cmsg)
  | receive (b : Build) (msgs : List Cmsg)
  | pollFails (b : Build)
  | receiveFails (b : Build) (again : Option (List Cmsg))
  | print (b : Build)
  | leave (b : Build) (k : ℕ) (ts : UInt64)
  | arrive (b : Build) (k : ℕ) (ts : Option UInt64)
  | lose (b : Build) (k : ℕ)

/-- The condition of the loop. -/
def top (packets i : ℕ) (first : Call) : Pc := if i < packets then .at i first else .drain

/-- The first call of the body. -/
def Call.first : Build → Call
  | .client => .send
  | .server => .receive

/-- Where a host goes after a call, `client_loop` or `server_loop`. -/
def next (packets : ℕ) : Build → ℕ → Call → Pc
  | .client, i, .send => .at i .poll
  | .client, i, .poll => .at i .receive
  | .client, i, .receive => top packets (i + 1) .send
  | .server, i, .receive => .at i .poll
  | .server, i, .poll => .at i .send
  | .server, i, .send => top packets (i + 1) .receive

/-- The messages of a transmit timestamp. -/
def IsStamp (msgs : List Cmsg) (id : ℕ) (ts : UInt64) : Prop :=
  msgs.filterMap Cmsg.event = [.timestamp ts, .packetId (UInt32.ofNat id)] ∨
    msgs.filterMap Cmsg.event = [.packetId (UInt32.ofNat id), .timestamp ts]

instance (msgs : List Cmsg) (id : ℕ) (ts : UInt64) : Decidable (IsStamp msgs id ts) :=
  inferInstanceAs (Decidable (_ ∨ _))

/-- The receive timestamps among the messages of a packet. -/
def recvStamps (msgs : List Cmsg) : List UInt64 :=
  (msgs.filter fun cmsg => cmsg.level = solSocket ∧ cmsg.type = soTimestamping).map Cmsg.val

/-- `extract_send_timestamps (int, sockaddr_in *)` at the head of the error queue, or on
what the buffer holds if it is empty; the host goes to `pc`. -/
def Host.extract (h : Host) (msgs : List Cmsg) (pc : Pc) : Option Host :=
  let go (errqueue : List (ℕ × UInt64)) : Host :=
    match extractSendTimestamps msgs h.sendTs with
    | .ok sendTs => { h with sendTs := sendTs, errqueue := errqueue, pc := pc }
    | .error _ => { h with errqueue := errqueue, pc := .thrown }
  match h.errqueue with
  | [] => some (go [])
  | (id, ts) :: rest => if IsStamp msgs id ts then some (go rest) else none

/-- One step. -/
def step (packets : ℕ) (s : Hosts) : Action → Option Hosts
  | .send b res =>
    match (s b).pc with
    | .at i .send =>
      let pc := next packets b i .send
      if res < 0 then some (Function.update s b { s b with pc := pc })
      else
        let s' := Function.update s b
          { s b with pc := pc, sent := (s b).sent + 1, pending := (s b).pending ++ [(s b).sent] }
        some (Function.update s' (peer b)
          { s (peer b) with coming := (s (peer b)).coming ++ [(s b).sent] })
    | _ => none
  | .poll b msgs =>
    match (s b).pc with
    | .at i .poll => ((s b).extract msgs (next packets b i .poll)).map (Function.update s b)
    | .drain =>
      if (s b).sendTs.sendTsCnt < packets then
        ((s b).extract msgs .drain).map (Function.update s b)
      else none
    | _ => none
  | .receive b msgs =>
    match (s b).pc, (s b).queue with
    | .at i .receive, (_, ts) :: rest =>
      if recvStamps msgs = ts.toList then
        some (Function.update s b
          { s b with
            pc := next packets b i .receive
            recvTs := extractRecvTimestamp (s b).recvTs msgs
            queue := rest })
      else none
    | _, _ => none
  | .pollFails b =>
    match (s b).pc with
    | .at i .poll => some (Function.update s b { s b with pc := next packets b i .poll })
    | .drain => if (s b).sendTs.sendTsCnt < packets then some s else none
    | _ => none
  | .receiveFails b again =>
    match (s b).pc with
    | .at i .receive =>
      some (Function.update s b
        { s b with
          pc := next packets b i .receive
          recvTs := again.elim (s b).recvTs (extractRecvTimestamp (s b).recvTs) })
    | _ => none
  | .print b =>
    if (s b).pc = .drain ∧ packets ≤ (s b).sendTs.sendTsCnt then
      some (Function.update s b
        { s b with
          pc := .done
          rows := (List.range packets).map fun i =>
            ((s b).sendTs.sendTs i, (s b).recvTs.recvTs i) })
    else none
  | .leave b k ts =>
    match (s b).pending[k]? with
    | some id => some (Function.update s b
        { s b with
          pending := (s b).pending.eraseIdx k
          errqueue := (s b).errqueue ++ [(id, ts)]
          left := (s b).left ++ [(id, ts)] })
    | none => none
  | .arrive b k ts =>
    match (s b).coming[k]? with
    | some id => some (Function.update s b
        { s b with
          coming := (s b).coming.eraseIdx k
          queue := (s b).queue ++ [(id, ts)]
          arrived := (s b).arrived ++ [(id, ts)] })
    | none => none
  | .lose b k =>
    if k < (s b).coming.length then
      some (Function.update s b { s b with coming := (s b).coming.eraseIdx k })
    else none

/-- The hosts before their loops, the vectors assigned zeros. -/
def start (packets : ℕ) : Hosts := fun b =>
  ⟨top packets 0 (.first b), ⟨fun _ => 0, 0⟩, ⟨fun _ => 0, 0⟩, [], 0, [], [], [], [], [], []⟩

/-- The runs of the two programs. -/
def startProgram (packets : ℕ) : System Hosts Action := ⟨start packets, step packets⟩

/-- No call fails, the buffer of an empty error queue holds no pair, and every packet
that comes in is stamped. -/
def Stamped (s : Hosts) : Action → Prop
  | .send _ res => 0 ≤ res
  | .pollFails _ | .receiveFails .. => False
  | .poll b msgs => (s b).errqueue = [] → NoPair (msgs.filterMap Cmsg.event)
  | .leave _ _ ts => ts ≠ -1
  | .arrive _ _ ts => ts.isSome
  | _ => True

variable {packets i id : ℕ} {b : Build} {h h' : Host} {s t : Hosts} {msgs : List Cmsg} {ts : UInt64}
  {pc : Pc}

/-! ### What is extracted -/

/-- The values are stored one after the other. -/
theorem extractRecvTimestamp_eq (s : RecvTs) (msgs : List Cmsg) :
    extractRecvTimestamp s msgs = (recvStamps msgs).foldl
      (fun s val => ⟨Function.update s.recvTs s.recvTsCnt val, s.recvTsCnt + 1⟩) s := by
  unfold extractRecvTimestamp recvStamps
  rw [List.foldl_map, List.foldl_filter]
  simp only [decide_eq_true_eq]

/-- Messages without a pair change nothing. -/
theorem extractSendTimestamps_of_noPair (hmsgs : NoPair (msgs.filterMap Cmsg.event))
    (s : SendTs) : extractSendTimestamps msgs s = .ok s := by
  rw [extractSendTimestamps, extractLoop_eq, extractEvents_eq_iff, and_iff_right fun _ => rfl]
  intro pre id post he
  obtain ⟨hpost, hval⟩ := hmsgs pre id post he
  refine ⟨hpost, ?_⟩
  cases hlast : (pre.filterMap Event.val?).getLast? with
  | none => rfl
  | some val => exact hval val hlast

/-- **A transmit timestamp is filed under its id.** -/
theorem extractSendTimestamps_of_isStamp (hmsgs : IsStamp msgs id ts) (hts : ts ≠ -1)
    (hid : id < 2 ^ 31) (s : SendTs) :
    ∃ s', extractSendTimestamps msgs s = .ok s' ∧ s'.sendTs = Function.update s.sendTs id ts ∧
      s'.sendTsCnt = s.sendTsCnt + 1 := by
  have hne : UInt32.ofNat id ≠ -1 := fun he => by
    have := congrArg UInt32.toNat he
    rw [UInt32.toNat_ofNat', show (-1 : UInt32).toNat = 2 ^ 32 - 1 from rfl] at this
    omega
  have hval : (UInt32.ofNat id).toNat = id := by
    rw [UInt32.toNat_ofNat']
    omega
  refine ⟨s.file (UInt32.ofNat id) ts, ?_, by rw [SendTs.file, hval], rfl⟩
  rw [extractSendTimestamps, extractLoop_eq]
  rcases hmsgs with he | he
  · rw [he]
    simp [extractEvents, hts]
  · rw [he]
    simp [extractEvents, hne]

/-! ### The turns of a host -/

/-- How many packets a host has sent and received, by where it stands. -/
def counts (packets : ℕ) : Build → Pc → ℕ × ℕ
  | .client, .at i .send | .server, .at i .receive => (i, i)
  | .client, .at i .poll | .client, .at i .receive => (i + 1, i)
  | .server, .at i .poll | .server, .at i .send => (i, i + 1)
  | _, .drain | _, .done | _, .thrown => (packets, packets)

/-- What holds of a host by itself. -/
structure Host.Ok (packets : ℕ) (b : Build) (h : Host) : Prop where
  counts : (h.sent, h.recvTs.recvTsCnt) = counts packets b h.pc
  lt : ∀ i call, h.pc = .at i call → i < packets
  -- every packet sent is stamped once or is to be stamped
  perm : (h.left.map Prod.fst ++ h.pending).Perm (List.range h.sent)
  stamp : ∀ p ∈ h.left, p.2 ≠ -1
  -- the error queue holds the timestamps that are not yet filed
  errqueue : h.errqueue = h.left.drop h.sendTs.sendTsCnt
  cnt_le : h.sendTs.sendTsCnt ≤ h.left.length
  filed : ∀ p ∈ h.left.take h.sendTs.sendTsCnt, h.sendTs.sendTs p.1 = p.2
  -- the socket holds the packets that are not yet received
  queue : h.queue = h.arrived.drop h.recvTs.recvTsCnt
  recvCnt_le : h.recvTs.recvTsCnt ≤ h.arrived.length
  ids : h.arrived.map Prod.fst = List.range h.arrived.length
  stamped : ∀ p ∈ h.arrived, p.2.isSome
  received : ∀ j p, j < h.recvTs.recvTsCnt → h.arrived[j]? = some p →
    p.2 = some (h.recvTs.recvTs j)
  rows : h.pc = .done → packets ≤ h.sendTs.sendTsCnt ∧ h.rows = (List.range packets).map fun i =>
    (h.sendTs.sendTs i, h.recvTs.recvTs i)

/-- The packets on the way to a host that has received `recv_ts_cnt`: none, or the next
one, and its sender has sent no other. -/
def Channel (h : Host) (sent : ℕ) : Prop :=
  h.coming ++ h.queue.map Prod.fst = [] ∨
    h.coming ++ h.queue.map Prod.fst = [h.recvTs.recvTsCnt] ∧ sent = h.recvTs.recvTsCnt + 1

/-- What holds of the two hosts. -/
structure InTurn (packets : ℕ) (s : Hosts) : Prop where
  host : ∀ b, (s b).Ok packets b
  channel : ∀ b, Channel (s b) (s (peer b)).sent
  le : ∀ b, (s b).recvTs.recvTsCnt ≤ (s (peer b)).sent

/-- The peer is the other host. -/
theorem peer_ne (b : Build) : peer b ≠ b := by
  cases b <;> decide

/-- Its peer is the first. -/
@[simp] theorem peer_peer (b : Build) : peer (peer b) = b := by
  cases b <;> rfl

/-- There is no third host. -/
theorem eq_or_eq_peer (b b' : Build) : b' = b ∨ b' = peer b := by
  cases b <;> cases b' <;> decide

/-- The client is a packet ahead of its answers at most, the server never ahead of the
packets it has received. -/
theorem Host.Ok.counts_le (hok : h.Ok packets b) :
    match b with
    | .client => h.recvTs.recvTsCnt ≤ h.sent ∧ h.sent ≤ h.recvTs.recvTsCnt + 1
    | .server => h.sent ≤ h.recvTs.recvTsCnt ∧ h.recvTs.recvTsCnt ≤ h.sent + 1 := by
  obtain ⟨hsent, hrecv⟩ := Prod.mk.inj (hok.counts.trans (Prod.mk.eta).symm)
  rw [hsent, hrecv]
  cases b <;> rcases hpc : h.pc with ⟨i, _ | _ | _⟩ | _ | _ | _ <;> simp [Hwts.counts]

/-- The calls of an iteration go on to the next. -/
theorem counts_next (packets : ℕ) (b : Build) {i : ℕ} (hi : i < packets) (call : Call) :
    counts packets b (next packets b i call) =
      match call with
      | .send => ((counts packets b (.at i .send)).1 + 1, (counts packets b (.at i .send)).2)
      | .poll => counts packets b (.at i .poll)
      | .receive =>
        ((counts packets b (.at i .receive)).1, (counts packets b (.at i .receive)).2 + 1) := by
  have htop (first : Call) (hfirst : first = .first b) :
      counts packets b (top packets (i + 1) first) = (i + 1, i + 1) := by
    subst hfirst
    unfold top
    split_ifs with hlt
    · cases b <;> rfl
    · obtain rfl : packets = i + 1 := by omega
      cases b <;> rfl
  cases b <;> cases call <;> first | rfl | exact htop _ rfl

/-- A call is not the last thing a host does. -/
theorem next_ne_done (packets : ℕ) (b : Build) (i : ℕ) (call : Call) :
    next packets b i call ≠ .done := by
  have htop (first : Call) : top packets (i + 1) first ≠ .done := by
    unfold top
    split_ifs <;> simp
  cases b <;> cases call <;> first | exact htop _ | simp [next]

/-- The top of the loop stops no host. -/
theorem top_ne_thrown (packets i : ℕ) (first : Call) : top packets i first ≠ .thrown := by
  unfold top
  split_ifs <;> exact Pc.noConfusion

/-- Nor does a call that returns. -/
theorem next_ne_thrown (packets : ℕ) (b : Build) (i : ℕ) (call : Call) :
    next packets b i call ≠ .thrown := by
  cases b <;> cases call <;> first | exact top_ne_thrown _ _ _ | exact Pc.noConfusion

/-- The next call is for one of the packets. -/
theorem lt_of_next {j : ℕ} {call call' : Call} (hi : i < packets)
    (h : next packets b i call = .at j call') : j < packets := by
  have htop {first : Call} (h : top packets (i + 1) first = .at j call') : j < packets := by
    unfold top at h
    split_ifs at h with hlt
    obtain ⟨rfl, -⟩ := Pc.at.inj h
    exact hlt
  cases b <;> cases call <;> simp only [next, Pc.at.injEq] at h
  all_goals first | exact h.1 ▸ hi | exact htop h

/-! ### One step of a host -/

/-- The ids of the timestamps are those of packets sent, each once. -/
theorem Host.Ok.nodup (hok : h.Ok packets b) :
    (h.left.map Prod.fst).Nodup ∧ ∀ p ∈ h.left, p.1 < h.sent := by
  have hnodup := (hok.perm.nodup_iff.2 (List.nodup_range)).of_append_left
  refine ⟨hnodup, fun p hp => List.mem_range.1 (hok.perm.subset ?_)⟩
  exact List.mem_append_left _ (List.mem_map_of_mem hp)

/-- No host sends more than its packets. -/
theorem Host.Ok.sent_le (hok : h.Ok packets b) : h.sent ≤ packets := by
  obtain ⟨hsent, -⟩ := Prod.mk.inj (hok.counts.trans (Prod.mk.eta).symm)
  rw [hsent]
  have hlt := hok.lt
  cases b <;> rcases hpc : h.pc with ⟨i, _ | _ | _⟩ | _ | _ | _ <;>
    simp only [Hwts.counts, le_refl] <;> have := hlt i _ hpc <;> omega

/-- The head of the error queue can be filed. -/
theorem Host.Ok.stamp_head (hok : h.Ok packets b) (hpackets : packets ≤ 2 ^ 31)
    {rest : List (ℕ × UInt64)} (hqueue : h.errqueue = (id, ts) :: rest) :
    ts ≠ -1 ∧ id < 2 ^ 31 := by
  have hmem : (id, ts) ∈ h.left := by
    refine List.mem_of_mem_drop (i := h.sendTs.sendTsCnt) ?_
    rw [← hok.errqueue, hqueue]
    exact List.mem_cons_self
  have hid : id < h.sent := hok.nodup.2 _ hmem
  have hsent := hok.sent_le
  exact ⟨hok.stamp _ hmem, by omega⟩

/-- A host that has printed has sent and received all packets. -/
theorem Host.Ok.counts_of_done (hok : h.Ok packets b) (hdone : h.pc = .done) :
    h.sent = packets ∧ h.recvTs.recvTsCnt = packets := by
  have hcounts := hok.counts
  rw [hdone] at hcounts
  cases b <;> exact Prod.mk.inj hcounts

/-- The host goes on to a place with the same counts. -/
theorem Host.Ok.goOn (hok : h.Ok packets b)
    (hcounts : Hwts.counts packets b pc = Hwts.counts packets b h.pc)
    (hlt : ∀ i call, pc = .at i call → i < packets) (hdone : pc ≠ .done) :
    Host.Ok packets b { h with pc := pc } where
  counts := hok.counts.trans hcounts.symm
  lt := hlt
  perm := hok.perm
  stamp := hok.stamp
  errqueue := hok.errqueue
  cnt_le := hok.cnt_le
  filed := hok.filed
  queue := hok.queue
  recvCnt_le := hok.recvCnt_le
  ids := hok.ids
  stamped := hok.stamped
  received := hok.received
  rows hpc := absurd hpc hdone

/-- **A poll**, of a timestamp or of an empty queue. -/
theorem Host.Ok.extract (hok : h.Ok packets b) (hpackets : packets ≤ 2 ^ 31)
    (hcounts : Hwts.counts packets b pc = Hwts.counts packets b h.pc)
    (hlt : ∀ i call, pc = .at i call → i < packets) (hdone : pc ≠ .done)
    (hclean : h.errqueue = [] → NoPair (msgs.filterMap Cmsg.event))
    (hextract : h.extract msgs pc = some h') :
    h'.Ok packets b ∧ h'.pc = pc ∧ h'.sent = h.sent ∧ h'.recvTs = h.recvTs ∧
      h'.coming = h.coming ∧ h'.queue = h.queue := by
  unfold Host.extract at hextract
  cases hqueue : h.errqueue with
  | nil =>
      simp only [hqueue, extractSendTimestamps_of_noPair (hclean hqueue)] at hextract
      obtain rfl := Option.some.inj hextract
      refine ⟨?_, rfl, rfl, rfl, rfl, rfl⟩
      rw [← hqueue]
      exact hok.goOn hcounts hlt hdone
  | cons p rest =>
      obtain ⟨id, ts⟩ := p
      simp only [hqueue] at hextract
      split_ifs at hextract with hstamp
      have hdrop := hok.errqueue
      rw [hqueue] at hdrop
      have hcnt : h.sendTs.sendTsCnt < h.left.length := by
        by_contra hge
        rw [List.drop_eq_nil_of_le (Nat.le_of_not_lt hge)] at hdrop
        cases hdrop
      rw [List.drop_eq_getElem_cons hcnt] at hdrop
      obtain ⟨hhead, htail⟩ := List.cons.inj hdrop
      have hnodup := hok.nodup.1
      obtain ⟨hts, hid⟩ := hok.stamp_head hpackets hqueue
      obtain ⟨sendTs, hok', hfile, hcnt'⟩ :=
        extractSendTimestamps_of_isStamp hstamp hts hid h.sendTs
      simp only [hok'] at hextract
      obtain rfl := Option.some.inj hextract
      refine ⟨⟨hok.counts.trans hcounts.symm, hlt, hok.perm, hok.stamp, ?_, ?_, ?_, hok.queue,
        hok.recvCnt_le, hok.ids, hok.stamped, hok.received, fun hpc => absurd hpc hdone⟩,
        rfl, rfl, rfl, rfl, rfl⟩
      · rw [hcnt']
        exact htail
      · rw [hcnt']
        exact hcnt
      · intro p hp
        rw [hcnt', List.take_succ_eq_append_getElem hcnt, List.mem_append, List.mem_singleton,
          ← hhead] at hp
        show sendTs.sendTs p.1 = p.2
        rw [hfile]
        rcases hp with hp | rfl
        · -- no other timestamp has this id
          have hne : p.1 ≠ id := by
            obtain ⟨k, hk, rfl⟩ := List.mem_take_iff_getElem.1 hp
            have hk' : k < h.sendTs.sendTsCnt := by omega
            have hpair := List.pairwise_iff_getElem.1 (List.pairwise_map.1 hnodup) k
              h.sendTs.sendTsCnt (by omega) hcnt hk'
            rwa [← hhead] at hpair
          rw [Function.update_of_ne hne]
          exact hok.filed p hp
        · exact Function.update_self ..

/-- **A packet is received** with its timestamp. -/
theorem Host.Ok.receive (hok : h.Ok packets b) (hpc : h.pc = .at i .receive)
    {stamp : Option UInt64} {rest : List (ℕ × Option UInt64)}
    (hqueue : h.queue = (id, stamp) :: rest) (hmsgs : recvStamps msgs = stamp.toList) :
    Host.Ok packets b
        { h with
          pc := next packets b i .receive
          recvTs := extractRecvTimestamp h.recvTs msgs
          queue := rest } ∧
      (extractRecvTimestamp h.recvTs msgs).recvTsCnt = h.recvTs.recvTsCnt + 1 := by
  have hdrop := hok.queue
  rw [hqueue] at hdrop
  have hcnt : h.recvTs.recvTsCnt < h.arrived.length := by
    by_contra hge
    rw [List.drop_eq_nil_of_le (Nat.le_of_not_lt hge)] at hdrop
    cases hdrop
  rw [List.drop_eq_getElem_cons hcnt] at hdrop
  obtain ⟨hhead, htail⟩ := List.cons.inj hdrop
  obtain ⟨v, rfl⟩ := Option.isSome_iff_exists.1
    (hok.stamped (id, stamp) (hhead ▸ List.getElem_mem hcnt))
  have hextract : extractRecvTimestamp h.recvTs msgs =
      ⟨Function.update h.recvTs.recvTs h.recvTs.recvTsCnt v, h.recvTs.recvTsCnt + 1⟩ := by
    rw [extractRecvTimestamp_eq, hmsgs]
    rfl
  obtain ⟨hsent, hrecv⟩ := Prod.mk.inj (hok.counts.trans (Prod.mk.eta).symm)
  have hi := hok.lt i .receive hpc
  have hcounts := counts_next packets b hi .receive
  rw [hpc] at hsent hrecv
  rw [hextract]
  refine ⟨⟨?_, fun j call hj => lt_of_next hi hj, hok.perm, hok.stamp, hok.errqueue, hok.cnt_le,
    hok.filed, htail, hcnt, hok.ids, hok.stamped, fun j p hj hp => ?_,
    fun hdone => absurd hdone (next_ne_done packets b i .receive)⟩, rfl⟩
  · rw [hcounts, hsent, hrecv]
  · have hj : j < h.recvTs.recvTsCnt + 1 := hj
    rcases Nat.lt_succ_iff_lt_or_eq.1 hj with hlt | rfl
    · show p.2 = some (Function.update h.recvTs.recvTs h.recvTs.recvTsCnt v j)
      rw [Function.update_of_ne (Nat.ne_of_lt hlt)]
      exact hok.received j p hlt hp
    · rw [List.getElem?_eq_getElem hcnt, ← hhead] at hp
      rw [← Option.some.inj hp]
      show some v = some (Function.update h.recvTs.recvTs h.recvTs.recvTsCnt v h.recvTs.recvTsCnt)
      rw [Function.update_self]

/-- The rows are printed. -/
theorem Host.Ok.print (hok : h.Ok packets b) (hpc : h.pc = .drain)
    (hcnt : packets ≤ h.sendTs.sendTsCnt) : Host.Ok packets b
      { h with
        pc := .done
        rows := (List.range packets).map fun i => (h.sendTs.sendTs i, h.recvTs.recvTs i) } where
  counts := by
    rw [hok.counts, hpc]
    cases b <;> rfl
  lt i call hi := by cases hi
  perm := hok.perm
  stamp := hok.stamp
  errqueue := hok.errqueue
  cnt_le := hok.cnt_le
  filed := hok.filed
  queue := hok.queue
  recvCnt_le := hok.recvCnt_le
  ids := hok.ids
  stamped := hok.stamped
  received := hok.received
  rows _ := ⟨hcnt, rfl⟩

/-- **A packet that has left is stamped.** -/
theorem Host.Ok.leave (hok : h.Ok packets b) (hts : ts ≠ -1) {k : ℕ}
    (hk : h.pending[k]? = some id) : Host.Ok packets b
      { h with
        pending := h.pending.eraseIdx k
        errqueue := h.errqueue ++ [(id, ts)]
        left := h.left ++ [(id, ts)] } where
  counts := hok.counts
  lt := hok.lt
  perm := by
    obtain ⟨hlt, hid⟩ := List.getElem?_eq_some_iff.1 hk
    have herase : (id :: h.pending.eraseIdx k).Perm h.pending := by
      rw [← hid]
      exact List.getElem_cons_eraseIdx_perm hlt
    simp only [List.map_append, List.map_singleton, List.append_assoc, List.singleton_append]
    exact (herase.append_left _).trans hok.perm
  stamp p hp := by
    rcases List.mem_append.1 hp with hp | hp
    · exact hok.stamp p hp
    · rwa [List.mem_singleton.1 hp]
  errqueue := by
    show h.errqueue ++ [(id, ts)] = (h.left ++ [(id, ts)]).drop h.sendTs.sendTsCnt
    rw [List.drop_append_of_le_length hok.cnt_le, hok.errqueue]
  cnt_le := by
    show h.sendTs.sendTsCnt ≤ (h.left ++ [(id, ts)]).length
    rw [List.length_append]
    exact Nat.le_add_right_of_le hok.cnt_le
  filed p hp := by
    refine hok.filed p ?_
    rwa [List.take_append_of_le_length hok.cnt_le] at hp
  queue := hok.queue
  recvCnt_le := hok.recvCnt_le
  ids := hok.ids
  stamped := hok.stamped
  received := hok.received
  rows := hok.rows

/-- **A packet that arrives is stamped.** -/
theorem Host.Ok.arrive (hok : h.Ok packets b) {stamp : Option UInt64} (hstamp : stamp.isSome)
    {k : ℕ} (hid : id = h.arrived.length) : Host.Ok packets b
      { h with
        coming := h.coming.eraseIdx k
        queue := h.queue ++ [(id, stamp)]
        arrived := h.arrived ++ [(id, stamp)] } where
  counts := hok.counts
  lt := hok.lt
  perm := hok.perm
  stamp := hok.stamp
  errqueue := hok.errqueue
  cnt_le := hok.cnt_le
  filed := hok.filed
  queue := by
    show h.queue ++ [(id, stamp)] = (h.arrived ++ [(id, stamp)]).drop h.recvTs.recvTsCnt
    rw [List.drop_append_of_le_length hok.recvCnt_le, hok.queue]
  recvCnt_le := by
    show h.recvTs.recvTsCnt ≤ (h.arrived ++ [(id, stamp)]).length
    rw [List.length_append]
    exact Nat.le_add_right_of_le hok.recvCnt_le
  ids := by
    show (h.arrived ++ [(id, stamp)]).map Prod.fst = List.range (h.arrived ++ [(id, stamp)]).length
    rw [List.map_append, hok.ids, List.length_append, List.length_singleton, List.range_succ, hid]
    rfl
  stamped p hp := by
    rcases List.mem_append.1 hp with hp | hp
    · exact hok.stamped p hp
    · rwa [List.mem_singleton.1 hp]
  received j p hj hp := by
    have hlt : j < h.arrived.length := Nat.lt_of_lt_of_le hj hok.recvCnt_le
    refine hok.received j p hj ?_
    rwa [List.getElem?_append_left hlt] at hp
  rows := hok.rows

/-- What is on the way to a host is none of its own. -/
theorem Host.Ok.setComing (hok : h.Ok packets b) (coming : List ℕ) :
    Host.Ok packets b { h with coming := coming } :=
  ⟨hok.counts, hok.lt, hok.perm, hok.stamp, hok.errqueue, hok.cnt_le, hok.filed, hok.queue,
    hok.recvCnt_le, hok.ids, hok.stamped, hok.received, hok.rows⟩

/-- **A packet is sent.** -/
theorem Host.Ok.send (hok : h.Ok packets b) (hpc : h.pc = .at i .send) : Host.Ok packets b
    { h with
      pc := next packets b i .send
      sent := h.sent + 1
      pending := h.pending ++ [h.sent] } := by
  obtain ⟨hsent, hrecv⟩ := Prod.mk.inj (hok.counts.trans (Prod.mk.eta).symm)
  have hi := hok.lt i .send hpc
  have hcounts := counts_next packets b hi .send
  rw [hpc] at hsent hrecv
  refine ⟨?_, fun j call hj => lt_of_next hi hj, ?_, hok.stamp, hok.errqueue, hok.cnt_le,
    hok.filed, hok.queue, hok.recvCnt_le, hok.ids, hok.stamped, hok.received,
    fun hdone => absurd hdone (next_ne_done packets b i .send)⟩
  · rw [hcounts]
    exact Prod.ext (congrArg (· + 1) hsent) hrecv
  · rw [List.range_succ, ← List.append_assoc]
    exact hok.perm.append_right _

/-! ### One step of both -/

/-- What a step does to hosts that go in turn, if all that comes in is stamped. -/
inductive StampedStep (packets : ℕ) (s : Hosts) : Action → Hosts → Prop
  | send {b : Build} {res : ℤ} {i : ℕ} (hpc : (s b).pc = .at i .send) :
      StampedStep packets s (.send b res) (Function.update (Function.update s b
        { s b with
          pc := next packets b i .send
          sent := (s b).sent + 1
          pending := (s b).pending ++ [(s b).sent] }) (peer b)
        { s (peer b) with coming := (s (peer b)).coming ++ [(s b).sent] })
  -- the loop or the wait after it, without an exception
  | poll {b : Build} {msgs : List Cmsg} {h' : Host} (hok : h'.Ok packets b)
      (hpc : h'.pc ≠ .thrown)
      (hsame : h'.sent = (s b).sent ∧ h'.recvTs = (s b).recvTs ∧ h'.coming = (s b).coming ∧
        h'.queue = (s b).queue) :
      StampedStep packets s (.poll b msgs) (Function.update s b h')
  | receive {b : Build} {msgs : List Cmsg} {i id : ℕ} {stamp : Option UInt64}
      {rest : List (ℕ × Option UInt64)} (hpc : (s b).pc = .at i .receive)
      (hqueue : (s b).queue = (id, stamp) :: rest) (hmsgs : recvStamps msgs = stamp.toList) :
      StampedStep packets s (.receive b msgs) (Function.update s b
        { s b with
          pc := next packets b i .receive
          recvTs := extractRecvTimestamp (s b).recvTs msgs
          queue := rest })
  | print {b : Build} (hpc : (s b).pc = .drain) (hcnt : packets ≤ (s b).sendTs.sendTsCnt) :
      StampedStep packets s (.print b) (Function.update s b
        { s b with
          pc := .done
          rows := (List.range packets).map fun i =>
            ((s b).sendTs.sendTs i, (s b).recvTs.recvTs i) })
  | leave {b : Build} {k id : ℕ} {ts : UInt64} (hts : ts ≠ -1)
      (hk : (s b).pending[k]? = some id) :
      StampedStep packets s (.leave b k ts) (Function.update s b
        { s b with
          pending := (s b).pending.eraseIdx k
          errqueue := (s b).errqueue ++ [(id, ts)]
          left := (s b).left ++ [(id, ts)] })
  | arrive {b : Build} {k id : ℕ} {ts : Option UInt64} (hts : ts.isSome)
      (hk : (s b).coming[k]? = some id) :
      StampedStep packets s (.arrive b k ts) (Function.update s b
        { s b with
          coming := (s b).coming.eraseIdx k
          queue := (s b).queue ++ [(id, ts)]
          arrived := (s b).arrived ++ [(id, ts)] })
  | lose {b : Build} {k : ℕ} (hk : k < (s b).coming.length) :
      StampedStep packets s (.lose b k)
        (Function.update s b { s b with coming := (s b).coming.eraseIdx k })

/-- **A step** of such a run is one of these. -/
theorem InTurn.stampedStep (h : InTurn packets s) (hpackets : packets ≤ 2 ^ 31) {act : Action}
    (hact : Stamped s act) (hstep : Hwts.step packets s act = some t) :
    StampedStep packets s act t := by
  cases act with
  | send b res =>
      simp only [Hwts.step] at hstep
      split at hstep
      case h_2 => cases hstep
      rename_i i hpc
      rw [if_neg (not_lt.2 (show 0 ≤ res from hact))] at hstep
      obtain rfl := Option.some.inj hstep
      exact .send hpc
  | poll b msgs =>
      simp only [Hwts.step] at hstep
      split at hstep
      case h_1 i hpc =>
        obtain ⟨h', hextract, rfl⟩ := Option.map_eq_some_iff.1 hstep
        have hi := (h.host b).lt i .poll hpc
        obtain ⟨hok, hpc', hsame⟩ := (h.host b).extract hpackets
          (by rw [hpc]; exact counts_next packets b hi .poll)
          (fun j call hj => lt_of_next hi hj) (next_ne_done packets b i .poll) hact hextract
        exact .poll hok (by rw [hpc']; exact next_ne_thrown packets b i .poll) hsame
      case h_2 hpc =>
        split_ifs at hstep
        obtain ⟨h', hextract, rfl⟩ := Option.map_eq_some_iff.1 hstep
        obtain ⟨hok, hpc', hsame⟩ := (h.host b).extract hpackets
          (by rw [hpc]) (fun j call hj => by cases hj) (by simp) hact hextract
        exact .poll hok (by rw [hpc']; exact Pc.noConfusion) hsame
      case h_3 => cases hstep
  | receive b msgs =>
      simp only [Hwts.step] at hstep
      split at hstep
      case h_2 => cases hstep
      rename_i i id stamp rest hpc hqueue
      split_ifs at hstep with hmsgs
      obtain rfl := Option.some.inj hstep
      exact .receive hpc hqueue hmsgs
  | pollFails | receiveFails => exact hact.elim
  | print b =>
      simp only [Hwts.step] at hstep
      split_ifs at hstep with hready
      obtain rfl := Option.some.inj hstep
      exact .print hready.1 hready.2
  | leave b k ts =>
      simp only [Hwts.step] at hstep
      split at hstep
      case h_2 => cases hstep
      rename_i id hk
      obtain rfl := Option.some.inj hstep
      exact .leave hact hk
  | arrive b k ts =>
      simp only [Hwts.step] at hstep
      split at hstep
      case h_2 => cases hstep
      rename_i id hk
      obtain rfl := Option.some.inj hstep
      exact .arrive hact hk
  | lose b k =>
      simp only [Hwts.step] at hstep
      split_ifs at hstep with hk
      obtain rfl := Option.some.inj hstep
      exact .lose hk

/-- A host changes that has sent no more. -/
theorem InTurn.update (h : InTurn packets s) {h' : Host} (hok : h'.Ok packets b)
    (hchannel : Channel h' (s (peer b)).sent) (hle : h'.recvTs.recvTsCnt ≤ (s (peer b)).sent)
    (hsent : h'.sent = (s b).sent) : InTurn packets (Function.update s b h') := by
  have hpeer : Function.update s b h' (peer b) = s (peer b) :=
    Function.update_of_ne (peer_ne b) h' s
  have hself : Function.update s b h' b = h' := Function.update_self b h' s
  refine ⟨fun b' => ?_, fun b' => ?_, fun b' => ?_⟩
  · rcases eq_or_eq_peer b b' with rfl | rfl
    · rwa [hself]
    · rw [hpeer]
      exact h.host _
  · rcases eq_or_eq_peer b b' with rfl | rfl
    · rwa [hself, hpeer]
    · rw [hpeer, peer_peer, hself, hsent]
      have := h.channel (peer b)
      rwa [peer_peer] at this
  · rcases eq_or_eq_peer b b' with rfl | rfl
    · rwa [hself, hpeer]
    · rw [hpeer, peer_peer, hself, hsent]
      have := h.le (peer b)
      rwa [peer_peer] at this

/-- **A send is to a peer that waits for it**: the two have exchanged the packets
before, and nothing is on the way. -/
theorem InTurn.send (h : InTurn packets s) (hpc : (s b).pc = .at i .send) :
    (s (peer b)).recvTs.recvTsCnt = (s b).sent ∧
      (s (peer b)).coming = [] ∧ (s (peer b)).queue = [] := by
  obtain ⟨hsent, hrecv⟩ := Prod.mk.inj ((h.host b).counts.trans (Prod.mk.eta).symm)
  rw [hpc] at hsent hrecv
  have hown := h.le b
  have hother := h.le (peer b)
  rw [peer_peer] at hother
  have hcounts := (h.host (peer b)).counts_le
  have hcnt : (s (peer b)).recvTs.recvTsCnt = (s b).sent := by
    cases b <;> simp only [counts, peer] at * <;> omega
  refine ⟨hcnt, ?_⟩
  have hchannel := h.channel (peer b)
  rw [peer_peer] at hchannel
  rcases hchannel with hnil | ⟨-, hone⟩
  · simpa using hnil
  · omega

/-- **A packet is sent**, to a host that waits for it. -/
theorem InTurn.sent (h : InTurn packets s) (hpc : (s b).pc = .at i .send) :
    InTurn packets (Function.update (Function.update s b
      { s b with
        pc := next packets b i .send
        sent := (s b).sent + 1
        pending := (s b).pending ++ [(s b).sent] }) (peer b)
      { s (peer b) with coming := (s (peer b)).coming ++ [(s b).sent] }) := by
  obtain ⟨hcnt, hcoming, hqueue⟩ := h.send hpc
  have hself (h₁ h₂ : Host) :
      Function.update (Function.update s b h₁) (peer b) h₂ b = h₁ := by
    rw [Function.update_of_ne (peer_ne b).symm, Function.update_self]
  have hle := h.le (peer b)
  rw [peer_peer] at hle
  refine ⟨fun b' => ?_, fun b' => ?_, fun b' => ?_⟩
  · rcases eq_or_eq_peer b b' with rfl | rfl
    · rw [hself]
      exact (h.host _).send hpc
    · rw [Function.update_self]
      exact (h.host _).setComing _
  · rcases eq_or_eq_peer b b' with rfl | rfl
    · rw [hself, Function.update_self]
      exact h.channel _
    · rw [peer_peer, hself, Function.update_self]
      refine Or.inr ⟨?_, congrArg (· + 1) hcnt.symm⟩
      simp [hcoming, hqueue, hcnt]
  · rcases eq_or_eq_peer b b' with rfl | rfl
    · rw [hself, Function.update_self]
      exact h.le _
    · rw [peer_peer, hself, Function.update_self]
      exact Nat.le_succ_of_le hle

/-- A packet on the way is the only one. -/
theorem Channel.of_coming {n k : ℕ} (h : Channel h' n) (hk : h'.coming[k]? = some id) :
    h'.coming.eraseIdx k = [] ∧ h'.queue = [] ∧ id = h'.recvTs.recvTsCnt ∧
      n = h'.recvTs.recvTsCnt + 1 := by
  have hlt := (List.getElem?_eq_some_iff.1 hk).1
  rcases h with hnil | ⟨hone, hn⟩
  · simp only [List.append_eq_nil_iff] at hnil
    rw [hnil.1] at hlt
    exact absurd hlt (Nat.not_lt_zero k)
  · have hlength := congrArg List.length hone
    simp only [List.length_append, List.length_map, List.length_singleton] at hlength
    have hqueue : h'.queue = [] := List.length_eq_zero_iff.1 (by omega)
    rw [hqueue, List.map_nil, List.append_nil] at hone
    rw [hone] at hk hlt ⊢
    obtain rfl : k = 0 := by simpa using hlt
    exact ⟨rfl, hqueue, (Option.some.inj hk).symm, hn⟩

/-- **A step keeps the turns.** -/
theorem InTurn.step (h : InTurn packets s) (hpackets : packets ≤ 2 ^ 31) {act : Action}
    (hact : Stamped s act) (hstep : Hwts.step packets s act = some t) : InTurn packets t := by
  cases h.stampedStep hpackets hact hstep with
  | send hpc => exact h.sent hpc
  | @poll b _ _ hok _ hsame =>
      obtain ⟨hsent, hrecv, hcoming, hqueue⟩ := hsame
      have hchannel := h.channel b
      have hle := h.le b
      exact h.update hok (by rwa [Channel, hcoming, hqueue, hrecv]) (by rwa [hrecv]) hsent
  | @receive b msgs i id stamp rest hpc hqueue hmsgs =>
      obtain ⟨hok, hcnt⟩ := (h.host b).receive hpc hqueue hmsgs
      rcases h.channel b with hnil | ⟨hone, hsent⟩
      · simp [hqueue] at hnil
      · have hempty : (s b).coming = [] ∧ rest = [] := by
          have hlength := congrArg List.length hone
          simp only [hqueue, List.length_append, List.length_map, List.length_cons,
            List.length_nil] at hlength
          exact ⟨List.length_eq_zero_iff.1 (by omega), List.length_eq_zero_iff.1 (by omega)⟩
        refine h.update hok (Or.inl ?_) ?_ rfl
        · simp [hempty.1, hempty.2]
        · show (extractRecvTimestamp (s b).recvTs msgs).recvTsCnt ≤ _
          omega
  | @print b hpc hcnt =>
      exact h.update ((h.host b).print hpc hcnt) (h.channel b) (h.le b) rfl
  | @leave b _ _ _ hts hk =>
      exact h.update ((h.host b).leave hts hk) (h.channel b) (h.le b) rfl
  | @arrive b _ _ _ hts hk =>
      obtain ⟨hcoming, hqueue, rfl, hsent⟩ := (h.channel b).of_coming hk
      have hlength : (s b).recvTs.recvTsCnt = (s b).arrived.length := by
        have hdrop := (h.host b).queue
        rw [hqueue] at hdrop
        exact Nat.le_antisymm (h.host b).recvCnt_le (List.drop_eq_nil_iff.1 hdrop.symm)
      refine h.update ((h.host b).arrive hts hlength) (Or.inr ⟨?_, hsent⟩) (h.le b) rfl
      simp [hcoming, hqueue]
  | @lose b _ hk =>
      obtain ⟨hcoming, hqueue, -⟩ := (h.channel b).of_coming (List.getElem?_eq_getElem hk)
      refine h.update ((h.host b).setComing _) (Or.inl ?_) (h.le b) rfl
      simp [hcoming, hqueue]

/-- **The hosts go in turn**, in every run in which every packet that comes in is
stamped. -/
theorem inTurn_of_reachable (hpackets : packets ≤ 2 ^ 31)
    (h : (startProgram packets).ReachableIf Stamped s) : InTurn packets s := by
  refine System.Invariant.holds ⟨⟨fun b => ?_, fun b => Or.inl rfl, fun b => Nat.le_refl _⟩,
    fun h hact hstep => h.step hpackets hact hstep⟩ h
  have hcounts : counts packets b (top packets 0 (.first b)) = (0, 0) := by
    unfold top
    split_ifs with hlt
    · cases b <;> rfl
    · obtain rfl : packets = 0 := by omega
      cases b <;> rfl
  refine ⟨hcounts.symm, fun i call hi => ?_, .refl _, fun p hp => absurd hp List.not_mem_nil, rfl,
    Nat.le_refl _, fun p hp => absurd hp List.not_mem_nil, rfl, Nat.le_refl _, rfl,
    fun p hp => absurd hp List.not_mem_nil, fun j p hj => absurd hj (Nat.not_lt_zero j),
    fun hdone => ?_⟩
  · have hi : top packets 0 (.first b) = .at i call := hi
    unfold top at hi
    split_ifs at hi with hlt
    obtain ⟨rfl, -⟩ := Pc.at.inj hi
    exact hlt
  · have hdone : top packets 0 (.first b) = .done := hdone
    unfold top at hdone
    split_ifs at hdone

/-- **The rows of a host**, if no call fails: one for each packet, the time at which it left
and the time at which that of the other host came in. -/
theorem rows_of_done (hpackets : packets ≤ 2 ^ 31)
    (h : (startProgram packets).ReachableIf Stamped s) (hdone : (s b).pc = .done) :
    (s b).rows.length = packets ∧ ∀ i < packets, ∃ tx rx, (s b).rows[i]? = some (tx, rx) ∧
      (i, tx) ∈ (s b).left ∧ (i, some rx) ∈ (s b).arrived := by
  have hok := (inTurn_of_reachable hpackets h).host b
  obtain ⟨hcnt, hrows⟩ := hok.rows hdone
  obtain ⟨hsent, hrecv⟩ := hok.counts_of_done hdone
  have hlength := hok.perm.length_eq
  rw [List.length_append, List.length_map, List.length_range, hsent] at hlength
  have hcnt_le := hok.cnt_le
  have hleft : (s b).left.length = packets := by omega
  have hpending : (s b).pending = [] := List.length_eq_zero_iff.1 (by omega)
  refine ⟨by rw [hrows, List.length_map, List.length_range], fun i hi => ?_⟩
  refine ⟨(s b).sendTs.sendTs i, (s b).recvTs.recvTs i, ?_, ?_, ?_⟩
  · rw [hrows, List.getElem?_map, List.getElem?_range hi]
    rfl
  · have hmem : i ∈ (s b).left.map Prod.fst := by
      have hperm := hok.perm
      rw [hpending, List.append_nil, hsent] at hperm
      exact hperm.symm.subset (List.mem_range.2 hi)
    obtain ⟨p, hp, rfl⟩ := List.mem_map.1 hmem
    have hfiled := hok.filed p (by
      rwa [List.take_of_length_le (by omega)])
    rw [hfiled]
    exact hp
  · have hlt : i < (s b).arrived.length := by
      have := hok.recvCnt_le
      omega
    have hget := List.getElem?_eq_getElem hlt
    have hid : ((s b).arrived[i]).1 = i := by
      have hids := congrArg (fun l => l[i]?) hok.ids
      simp only [List.getElem?_map, hget, List.getElem?_range hlt, Option.map_some] at hids
      exact Option.some.inj hids
    have hval := hok.received i _ (by omega) hget
    have hpair : (s b).arrived[i] = (i, some ((s b).recvTs.recvTs i)) := Prod.ext hid hval
    rw [← hpair]
    exact List.getElem_mem hlt

/-- The same, the buffer of an empty error queue being zeroed. -/
def Zeroed (s : Hosts) : Action → Prop
  | .send _ res => 0 ≤ res
  | .pollFails _ | .receiveFails .. => False
  | .poll b msgs => (s b).errqueue = [] → msgs = []
  | .leave _ _ ts => ts ≠ -1
  | .arrive _ _ ts => ts.isSome
  | _ => True

instance (s : Hosts) : DecidablePred (Zeroed s) := fun act =>
  match act with
  | .send _ res => inferInstanceAs (Decidable (0 ≤ res))
  | .pollFails _ | .receiveFails .. => inferInstanceAs (Decidable False)
  | .poll b msgs => inferInstanceAs (Decidable ((s b).errqueue = [] → msgs = []))
  | .leave _ _ ts => inferInstanceAs (Decidable (ts ≠ -1))
  | .arrive _ _ ts => inferInstanceAs (Decidable (ts.isSome = true))
  | .receive _ _ | .print _ | .lose _ _ => inferInstanceAs (Decidable True)

/-- An empty buffer has no pair in it. -/
theorem Zeroed.stamped {act : Action} (h : Zeroed s act) : Stamped s act := by
  cases act with
  | poll b msgs =>
      intro hnil
      rw [h hnil]
      intro pre id post he
      simp at he
  | send | leave | arrive => exact h
  | pollFails | receiveFails => exact h.elim
  | receive | print | lose => trivial

/-- The packet of the client leaves at 3 ns, its answer comes in at 9 ns. -/
theorem exists_rows : ∃ s : Hosts, (s .client).rows = [(3, 9)] ∧
    (0, 3) ∈ (s .client).left ∧ (0, some 9) ∈ (s .client).arrived := by
  have hexec : ((startProgram 1).execIf Zeroed (start 1)
      [.send .client 1024, .poll .client [], .arrive .server 0 (some 5),
        .receive .server [⟨solSocket, soTimestamping, 5, 0, 0⟩], .poll .server [],
        .send .server 1024, .arrive .client 0 (some 9), .leave .client 0 3,
        .receive .client [⟨solSocket, soTimestamping, 9, 0, 0⟩],
        .poll .client [⟨solSocket, soTimestamping, 3, 0, 0⟩,
          ⟨solIp, ipRecverr, 0, soEeOriginTimestamping, 0⟩], .print .client]).map
      (fun s => ((s .client).pc, (s .client).rows)) = some (.done, [(3, 9)]) := by
    decide +kernel
  obtain ⟨s, hs, he⟩ := Option.map_eq_some_iff.1 hexec
  obtain ⟨hdone, hrows⟩ := Prod.mk.inj he
  obtain ⟨-, hall⟩ := rows_of_done (by decide)
    (System.RunIf.mono (fun _ _ => Zeroed.stamped) (System.runIf_of_execIf hs)) hdone
  obtain ⟨tx, rx, hrow, hleft, harrived⟩ := hall 0 (by decide)
  rw [hrows] at hrow
  cases hrow
  exact ⟨s, hrows, hleft, harrived⟩

/-- **A row without its time.**  The `recvmsg` of the client fails, and the client prints
a zero for the answer although none has come in. -/
theorem exists_row_without_time : ∃ s : Hosts, (startProgram 1).Reachable s ∧
    (s .client).pc = .done ∧ (s .client).rows = [(3, 0)] ∧ (s .client).arrived = [] := by
  have hexec : ((startProgram 1).exec (start 1)
      [.send .client 1024, .poll .client [], .receiveFails .client none, .leave .client 0 3,
        .poll .client [⟨solSocket, soTimestamping, 3, 0, 0⟩,
          ⟨solIp, ipRecverr, 0, soEeOriginTimestamping, 0⟩], .print .client]).map
      (fun s => ((s .client).pc, (s .client).rows, (s .client).arrived)) =
      some (.done, [(3, 0)], []) := by
    decide +kernel
  obtain ⟨s, hs, he⟩ := Option.map_eq_some_iff.1 hexec
  obtain ⟨hdone, he⟩ := Prod.mk.inj he
  obtain ⟨hrows, harrived⟩ := Prod.mk.inj he
  exact ⟨s, System.reachable_of_exec hs, hdone, hrows, harrived⟩

/-! ### A packet that is lost -/

/-- A packet was sent to a host that has not received it, and it is not on the way. -/
def Missing (s : Hosts) (b : Build) : Prop :=
  (s b).coming = [] ∧ (s b).queue = [] ∧ (s (peer b)).sent = (s b).recvTs.recvTsCnt + 1

/-- **No step brings it back**: its sender waits for an answer, or has sent all. -/
theorem Missing.step (h : Missing s b) (hturn : InTurn packets s) (hpackets : packets ≤ 2 ^ 31)
    {act : Action} (hact : Stamped s act) (hstep : Hwts.step packets s act = some t) :
    Missing t b := by
  obtain ⟨hcoming, hqueue, hsent⟩ := h
  have hupdate (b' : Build) (h' : Host) (hc : h'.coming = (s b').coming)
      (hq : h'.queue = (s b').queue) (hn : h'.sent = (s b').sent)
      (hr : h'.recvTs = (s b').recvTs) : Missing (Function.update s b' h') b := by
    have hsame (b'' : Build) : (Function.update s b' h' b'').coming = (s b'').coming ∧
        (Function.update s b' h' b'').queue = (s b'').queue ∧
        (Function.update s b' h' b'').sent = (s b'').sent ∧
        (Function.update s b' h' b'').recvTs = (s b'').recvTs := by
      by_cases hb : b'' = b'
      · subst hb
        rw [Function.update_self]
        exact ⟨hc, hq, hn, hr⟩
      · rw [Function.update_of_ne hb]
        exact ⟨rfl, rfl, rfl, rfl⟩
    obtain ⟨hc, hq, -, hr⟩ := hsame b
    exact ⟨hc.trans hcoming, hq.trans hqueue, by rw [(hsame (peer b)).2.2.1, hr, hsent]⟩
  -- what the other host receives is no matter
  have hpeer (b' : Build) (h' : Host) (hb : b' ≠ b) (hn : h'.sent = (s b').sent) :
      Missing (Function.update s b' h') b := by
    obtain rfl := (eq_or_eq_peer b b').resolve_left hb
    refine ⟨?_, ?_, ?_⟩
    · rw [Function.update_of_ne (peer_ne b).symm]; exact hcoming
    · rw [Function.update_of_ne (peer_ne b).symm]; exact hqueue
    · rw [Function.update_of_ne (peer_ne b).symm, Function.update_self, hn, hsent]
  cases hturn.stampedStep hpackets hact hstep with
  | @send b' _ _ hpc =>
      -- the sender is not the one whose packet is missing
      have hb : b' = b := by
        by_contra hne
        obtain rfl := (eq_or_eq_peer b b').resolve_left hne
        have hcnt := (hturn.send hpc).1
        rw [peer_peer] at hcnt
        omega
      subst hb
      have hself : ∀ h₁ h₂ : Host,
          Function.update (Function.update s b' h₁) (peer b') h₂ b' = h₁ := fun h₁ h₂ => by
        rw [Function.update_of_ne (peer_ne b').symm, Function.update_self]
      refine ⟨?_, ?_, ?_⟩
      · rw [hself]; exact hcoming
      · rw [hself]; exact hqueue
      · rw [hself, Function.update_self]; exact hsent
  | poll _ _ hsame =>
      obtain ⟨hn, hr, hc, hq⟩ := hsame
      exact hupdate _ _ hc hq hn hr
  | receive _ hqueue' _ =>
      refine hpeer _ _ ?_ rfl
      rintro rfl
      rw [hqueue] at hqueue'
      cases hqueue'
  | print | leave => exact hupdate _ _ rfl rfl rfl rfl
  | arrive _ hk =>
      refine hpeer _ _ ?_ rfl
      rintro rfl
      rw [hcoming] at hk
      cases hk
  | lose hk =>
      refine hpeer _ _ ?_ rfl
      rintro rfl
      rw [hcoming] at hk
      exact absurd hk (Nat.not_lt_zero _)

/-- **No rows without all packets**: once one is lost, the client never prints, and
neither does the server if the packet was for it. -/
theorem not_done_of_lost {k : ℕ} {u : Hosts} (hpackets : packets ≤ 2 ^ 31)
    (hs : (startProgram packets).ReachableIf Stamped s)
    (hlose : step packets s (.lose b k) = some t)
    (hrun : (startProgram packets).RunIf Stamped t u) :
    (u .client).pc ≠ .done ∧ (b = .server → (u .server).pc ≠ .done) := by
  have hturn := inTurn_of_reachable hpackets hs
  have hact : Stamped s (.lose b k) := trivial
  have hturn' : InTurn packets t := hturn.step hpackets hact hlose
  have hmissing : Missing t b := by
    simp only [Hwts.step] at hlose
    split_ifs at hlose with hk
    obtain rfl := Option.some.inj hlose
    obtain ⟨hcoming, hqueue, -, hsent⟩ :=
      (hturn.channel b).of_coming (List.getElem?_eq_getElem hk)
    refine ⟨?_, ?_, ?_⟩
    · rw [Function.update_self]; exact hcoming
    · rw [Function.update_self]; exact hqueue
    · rw [Function.update_of_ne (peer_ne b), Function.update_self]; exact hsent
  obtain ⟨hu, -, -, hsent⟩ : InTurn packets u ∧ Missing u b :=
    System.RunIf.preserves (I := fun u => InTurn packets u ∧ Missing u b) hrun
      (fun h hact hstep => ⟨h.1.step hpackets hact hstep, h.2.step h.1 hpackets hact hstep⟩)
      ⟨hturn', hmissing⟩
  have hle := (hu.host (peer b)).sent_le
  -- a host at its rows has received all the packets, and the missing one is not among them
  have hrecv (b' : Build) (hdone : (u b').pc = .done) : (u b').recvTs.recvTsCnt = packets :=
    ((hu.host b').counts_of_done hdone).2
  constructor
  · intro hdone
    have hall := hrecv .client hdone
    cases b with
    | client => omega
    | server =>
        have hanswers := hu.le .client
        have hcounts := (hu.host .server).counts_le
        simp only [peer] at *
        omega
  · rintro rfl hdone
    have hall := hrecv .server hdone
    omega

/-- The first packet of the client is lost, before the client waits for its answer. -/
theorem exists_lost : ∃ s t u : Hosts, step 1 s (.lose .server 0) = some t ∧
    step 1 t (.poll .client []) = some u ∧ (u .client).pc ≠ .done ∧ (u .server).pc ≠ .done := by
  have hexec : (((startProgram 1).execIf Zeroed (start 1) [.send .client 1024]).bind fun s =>
      (step 1 s (.lose .server 0)).bind fun t => step 1 t (.poll .client [])).isSome := by
    decide +kernel
  obtain ⟨u, hu⟩ := Option.isSome_iff_exists.1 hexec
  obtain ⟨s, hs, hu⟩ := Option.bind_eq_some_iff.1 hu
  obtain ⟨t, ht, hu⟩ := Option.bind_eq_some_iff.1 hu
  have hpoll : Zeroed t (.poll .client []) := fun _ => rfl
  obtain ⟨hclient, hserver⟩ := not_done_of_lost (by decide)
    (System.RunIf.mono (fun _ _ => Zeroed.stamped) (System.runIf_of_execIf hs)) ht
    (System.RunIf.tail System.RunIf.refl hpoll.stamped hu)
  exact ⟨s, t, u, ht, hu, hclient, hserver rfl⟩

end Hwts
end DetBypass
