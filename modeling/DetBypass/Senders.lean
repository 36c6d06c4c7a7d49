/-
# The six send functions

What the clients plug into `start_sending_packets`.  Over `sendto` and over the
tx ring of AF_XDP a failure is -1 in the end, and stops the sending thread.  The
verbs report a failure by a positive `errno`; the RC client makes it 1, the UD
client returns it as it is, though the comment at `pp_post_send` says -1, and
`thread_send_packets` tests for a negative result.  So these two go on after a
failed post: the next invocation of the RC client posts the next packet, that of
the UD client waits for a completion which does not come.
-/

import DetBypass.Common.Sender
import DetBypass.Xdp.Xsk
import DetBypass.Rdma.Rc
import DetBypass.Rdma.Ud

namespace DetBypass
namespace Sender

open Lib

/-! ### The operations -/

/-- `PACKET_SIZE`. -/
def packetSize : ℤ := 1024

/-- `sendto`, which sends the whole packet or returns -1. -/
def sendto : Outcome → ℤ
  | .ok => packetSize
  | .failed _ _ => -1

/-- `xsk_ring_prod__reserve` of one descriptor: how many are reserved. -/
def xskRingProdReserve : Outcome → ℤ
  | .ok => 1
  | .failed _ _ => 0

/-- `ibv_wr_complete` and `ibv_post_send`: 0, or `errno`. -/
def ibvPost : Outcome → ℤ
  | .ok => 0
  | .failed errno _ => errno

/-! ### The functions over them -/

/-- `send_pingpong_packet`. -/
def sendPingpongPacket (o : Outcome) : ℤ := sendto o

/-- `send_packet` of `xdp/pp_poll.c`. -/
def PpPoll.sendPacket : SendPacket where
  waits := false
  payload packetId t := (newPingpongPayload packetId).setTs 0 t
  ret o := sendPingpongPacket o
  ret_ok := by decide

/-- `send_packet` of `xdp/pp_pure.c`. -/
def PpPure.sendPacket : SendPacket where
  waits := false
  payload id t := (newPingpongPayload id).setTs 0 t
  ret o := if sendto o < 0 then -1 else 0
  ret_ok := by decide

/-- `send_single_packet` of `no-bypass/main.c`. -/
def NoBypass.sendSinglePacket : SendPacket where
  waits := false
  payload packetIdx t := (newPingpongPayload packetIdx).setTs 0 t
  ret o := sendto o
  ret_ok := by decide

/-- The result of `xsk_send_packet`. -/
def PpSock.xskSendPacket (o : Outcome) : ℤ := if xskRingProdReserve o ≠ 1 then -1 else 0

/-- `client_send_pp_packet` of `xdp/pp_sock.c`. -/
def PpSock.clientSendPpPacket : SendPacket where
  waits := false
  payload packetId t := (newPingpongPayload packetId).setTs 0 t
  ret o := if PpSock.xskSendPacket o ≠ 0 then -1 else 0
  ret_ok := by decide

/-- The result of `pp_post_send` of `rdma/rc_pingpong.c`. -/
def Rc.ppPostSend (o : Outcome) : ℤ := if ibvPost o ≠ 0 then 1 else 0

/-- `pp_send_single_packet` of `rdma/rc_pingpong.c`. -/
def Rc.ppSendSinglePacket : SendPacket where
  waits := false
  payload packetId t := (newPingpongPayload packetId).setTs 1 t
  ret o := Rc.ppPostSend o
  ret_ok := by decide

/-- The result of `pp_post_send` of `rdma/ud_pingpong.c`. -/
def Ud.ppPostSend (o : Outcome) : ℤ := ibvPost o

/-- `pp_send_single_packet` of `rdma/ud_pingpong.c`. -/
def Ud.ppSendSinglePacket : SendPacket where
  waits := true
  payload packetId t := (newPingpongPayload packetId).setTs 0 t
  ret o := Ud.ppPostSend o
  ret_ok := by decide

/-! ### In the programs -/

/-- The result of `xsk_send_packet` in the model of the sockets, where the
reservation fails if the ring is full. -/
theorem xskSendPacket_fst {s : Xdp.Xsk.State} {source : Xdp.Xsk.TxSource} {len : UInt32}
    {complete : Bool} {o : Outcome} (ho : o = .ok ↔ s.tx.length < Xdp.Xsk.ringSize) :
    (Xdp.Xsk.xskSendPacket s source len complete).1 = PpSock.xskSendPacket o := by
  unfold Xdp.Xsk.xskSendPacket
  by_cases hfull : Xdp.Xsk.ringSize ≤ s.tx.length
  · rw [if_pos hfull]
    cases o with
    | ok => exact absurd (ho.1 rfl) (Nat.not_lt.2 hfull)
    | failed => rfl
  · rw [if_neg hfull, ho.2 (Nat.lt_of_not_le hfull)]
    rfl

/-- The result of `pp_post_send` in the model of the RC hosts, where a post fails
if a send is outstanding. -/
theorem ppPostSend_fst {h : Rdma.Rc.Host} {o : Outcome} (ho : o = .ok ↔ h.send = none) :
    (Rdma.Rc.ppPostSend h).1 = Rc.ppPostSend o := by
  unfold Rdma.Rc.ppPostSend
  split_ifs with hnone
  · rw [ho.2 hnone]
    rfl
  · cases o with
    | ok => exact absurd (ho.1 rfl) hnone
    | failed errno hpos => exact (if_pos hpos.ne').symm

/-- The sending thread of the model of the UD client, after its post. -/
theorem stepSender_posting {iters id t : UInt64} {s s' : Rdma.Ud.State} {o : Outcome}
    (hpc : s.senderPc = .posting id)
    (hstep : Rdma.Ud.stepSender iters t (ibvPost o) s = some s') :
    s'.senderPc = if Ud.ppSendSinglePacket.ret o < 0 then .stopped else .waiting (id + 1) := by
  unfold Rdma.Ud.stepSender at hstep
  rw [hpc] at hstep
  cases hstep
  rfl

/-! ### The law of each -/

/-- The programs with a sending thread. -/
inductive Transport
  | ppPoll
  | ppPure
  | noBypass
  | ppSock
  | rc
  | ud
deriving DecidableEq

/-- The argument `send_packet` of `start_sending_packets`. -/
def Transport.sendPacket : Transport → SendPacket
  | .ppPoll => PpPoll.sendPacket
  | .ppPure => PpPure.sendPacket
  | .noBypass => NoBypass.sendSinglePacket
  | .ppSock => PpSock.clientSendPpPacket
  | .rc => Rc.ppSendSinglePacket
  | .ud => Ud.ppSendSinglePacket

/-- The operation is a verbs post. -/
def Transport.Verbs (transport : Transport) : Prop := transport = .rc ∨ transport = .ud

/-- A failure of `sendto` or of the reservation stops the thread. -/
theorem Transport.signals {transport : Transport} (h : ¬ transport.Verbs) :
    transport.sendPacket.Signals := by
  intro o hfailed
  cases o with
  | ok => exact absurd rfl hfailed
  | failed errno hpos =>
      cases transport with
      | ppPoll | ppPure | noBypass | ppSock => exact (by decide : (-1 : ℤ) < 0)
      | rc => exact absurd (Or.inl rfl) h
      | ud => exact absurd (Or.inr rfl) h

/-- A failed post does not. -/
theorem Transport.hides {transport : Transport} (h : transport.Verbs) :
    transport.sendPacket.Hides := by
  intro o
  unfold SendPacket.Halts
  rcases h with rfl | rfl
  · show ¬ Rc.ppPostSend o < 0
    unfold Rc.ppPostSend
    split_ifs <;> decide
  · cases o with
    | ok => decide
    | failed errno hpos => exact not_lt.2 hpos.le

/-- **The sending thread of each program**, for every number of iterations and
every pattern of failures.  It obeys the law exactly if it gets to its loop and
`iters` is not the last `uint64_t`, unless there is nothing to send or an
operation fails, and over the verbs, where a failed post is not noticed, only if
no post before the last one fails and `iters` is not the last `uint64_t`. -/
theorem sender_lawful_iff (transport : Transport) (a : Affinity) (iters : UInt64)
    (outcome : ℕ → Outcome) :
    Lawful transport.sendPacket a iters outcome ↔
      (iters = 0 ∨ (∃ k < iters.toNat, outcome k ≠ .ok) ∨
        a.Reaches ∧ iters.toNat + 1 < 2 ^ 64) ∧
      (transport.Verbs → a.Reaches →
        iters.toNat + 1 < 2 ^ 64 ∧ ∀ k, k + 1 < iters.toNat → outcome k = .ok) := by
  by_cases h : transport.Verbs
  · rw [(Transport.hides h).lawful_iff]
    exact and_congr_right fun _ => ⟨fun hok _ => hok, fun hok => hok h⟩
  · rw [(Transport.signals h).lawful_iff]
    exact ⟨fun hstarts => ⟨hstarts, fun hverbs => absurd hverbs h⟩, And.left⟩

/-- The first post fails with `ENOMEM`. -/
def firstFails (k : ℕ) : Outcome := if k = 0 then .failed 12 (by decide) else .ok

/-- The thread may run on every core. -/
def anyCore : Affinity := ⟨0, fun _ => true, 1024, 0⟩

/-- A thread that goes on after its first failure. -/
theorem not_lawful {f : SendPacket} {s : State}
    (hs : (thread f anyCore 10 firstFails).Reachable s) (hpackets : s.packets.length = 1)
    (hcalls : s.calls = [1, 2]) : ¬ Lawful f anyCore 10 firstFails := by
  intro h
  have hle := h.last hs 0 (by omega) (by decide)
  rw [hcalls] at hle
  exact absurd hle (by decide)

/-- **Over the verbs the thread goes on after a failed post**: the first post
returns 12, and the send function is invoked again with the id 2. -/
theorem exists_unlawful :
    ((∃ s, (thread Rc.ppSendSinglePacket anyCore 10 firstFails).Reachable s ∧
        s.packets.length = 1 ∧ s.calls = [1, 2]) ∧
      ¬ Lawful Rc.ppSendSinglePacket anyCore 10 firstFails) ∧
    (∃ s, (thread Ud.ppSendSinglePacket anyCore 10 firstFails).Reachable s ∧
        s.packets.length = 1 ∧ s.calls = [1, 2]) ∧
      ¬ Lawful Ud.ppSendSinglePacket anyCore 10 firstFails := by
  have hrc : ((thread Rc.ppSendSinglePacket anyCore 10 firstFails).exec (initial anyCore)
      [.thread 5, .thread 5, .thread 5]).map (fun s => (s.packets.length, s.calls)) =
      some (1, [1, 2]) := by
    decide +kernel
  have hud : ((thread Ud.ppSendSinglePacket anyCore 10 firstFails).exec (initial anyCore)
      [.thread 5, .thread 5, .thread 5]).map (fun s => (s.packets.length, s.calls)) =
      some (1, [1, 2]) := by
    decide +kernel
  obtain ⟨s, hs, he⟩ := Option.map_eq_some_iff.1 hrc
  obtain ⟨t, ht, he'⟩ := Option.map_eq_some_iff.1 hud
  obtain ⟨hpackets, hcalls⟩ := Prod.mk.inj he
  obtain ⟨hpackets', hcalls'⟩ := Prod.mk.inj he'
  have hs' := System.reachable_of_exec hs
  have ht' := System.reachable_of_exec ht
  exact ⟨⟨⟨s, hs', hpackets, hcalls⟩, not_lawful hs' hpackets hcalls⟩,
    ⟨t, ht', hpackets', hcalls'⟩, not_lawful ht' hpackets' hcalls'⟩

end Sender
end DetBypass
