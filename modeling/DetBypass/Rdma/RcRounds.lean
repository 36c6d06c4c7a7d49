/-
# The rounds of the RC pingpong

While no message in a shared buffer is overwritten and every post finds the send
queue empty, the `k`-th payload the client of `rdma/rc_pingpong.c` writes is its
`k`-th ping, echoed by the server (`rounds_of_reachableIf`).  Neither is ensured
by the code: when a second ping arrives before the server has handled the first,
the first completion is answered with the second ping, the reply to the second
finds a send outstanding and is dropped without notice, and round 1 is lost
(`exists_lost_round`).
-/

import DetBypass.Rdma.RcExchange

namespace DetBypass
namespace Rdma
namespace Rc

open Lib

variable {room : Prop} {iters : Build → UInt64} {s : State} {build : Build}

/-- The `k`-th message handled is the `k`-th posted. -/
theorem Joint.getElem?_posted (hj : Joint room s) {k : ℕ} {r : Receipt}
    (hk : (s.host build).handled[k]? = some r) :
    (s.host (peer build)).posted[k]? = some r.msg := by
  obtain ⟨hlt, -⟩ := List.getElem?_eq_some_iff.1 hk
  rw [hj.posted_eq build, List.getElem?_append_left (by rwa [List.length_map]),
    List.getElem?_map, hk]
  rfl

/-- With room for every reply, the server echoes every ping it handles. -/
theorem Joint.echoes (hj : Joint True s) : (s.host .server).posted =
    (s.host .server).handled.map fun r => echo r.msg r.ts r.now := by
  have hserver : ServerRole True (s.host .server) := hj.roles .server
  obtain ⟨replied, -, hall, hposted⟩ := hserver.echoes
  rw [hposted, hall trivial]

/-- **A round.**  The `k`-th payload the client writes is its `k`-th ping, echoed
by the server. -/
theorem Joint.round (hj : Joint True s) {k : ℕ} {p : PingpongPayload}
    (hp : (s.host .client).written[k]? = some p) :
    ∃ t ts now now', (s.host .client).sends[k]? = some (UInt64.ofNat (k + 1), t) ∧
      p = record (echo (ping (UInt64.ofNat (k + 1)) t) ts now) now' := by
  have hclient : ClientRole True (s.host .client) := hj.roles .client
  rw [hclient.records, List.getElem?_map] at hp
  obtain ⟨c, hc, rfl⟩ := Option.map_eq_some_iff.1 hp
  have hpong := hj.getElem?_posted hc
  rw [peer, hj.echoes, List.getElem?_map] at hpong
  obtain ⟨r, hr, hecho⟩ := Option.map_eq_some_iff.1 hpong
  have hping := hj.getElem?_posted hr
  rw [peer, hclient.pings, List.getElem?_map] at hping
  obtain ⟨⟨id, t⟩, he, hmsg⟩ := Option.map_eq_some_iff.1 hping
  obtain rfl := hclient.ids trivial k (id, t) he
  exact ⟨t, r.ts, r.now, c.now, he, by rw [← hecho, ← hmsg]⟩

/-- **Every round exactly once.**  In every run in which no message in a shared
buffer is overwritten and every post finds the send queue empty, each ping the
server handles has one pong, with its id and `ts[0]`; each pong the client
handles is written once, with its own content; the messages handled at one end
are the messages posted at the other, in order; and the payloads written are
those of the rounds 1, 2, …, each once. -/
theorem rounds_of_reachableIf (h : (rc iters).ReachableIf (NotOverwritten True) s) :
    ((s.host .server).transmitted ++ (s.host .server).toRead).map (fun p => (p.id, p.ts 0)) =
        (s.host .server).handled.map (fun r => (r.msg.id, r.msg.ts 0)) ∧
      (s.host .client).written = (s.host .client).handled.map (fun r => record r.msg r.now) ∧
      (∀ build, (s.host build).handled.map Receipt.msg <+: (s.host (peer build)).posted) ∧
      ∀ k p, (s.host .client).written[k]? = some p → ∃ t ts now now',
        (s.host .client).sends[k]? = some (UInt64.ofNat (k + 1), t) ∧
          p = record (echo (ping (UInt64.ofNat (k + 1)) t) ts now) now' := by
  have hj : Joint True s := joint_invariant.holds h
  have hclient : ClientRole True (s.host .client) := hj.roles .client
  refine ⟨?_, hclient.records, fun build => ?_, fun k p hp => hj.round hp⟩
  · rw [← (hj.hosts .server).reads, hj.echoes, List.map_map]
    rfl
  · rw [hj.posted_eq build]
    exact List.prefix_append _ _

/-- A run of one round. -/
theorem rounds_of_reachableIf_one : ∃ s, (rc fun _ => 10).ReachableIf (NotOverwritten True) s ∧
    (s.host .client).written.length = 1 ∧
    (s.host .client).written = (s.host .client).handled.map (fun r => record r.msg r.now) := by
  obtain ⟨s, p, hs, hp, -⟩ := exists_oneRound
  exact ⟨s, hs, by rw [hp]; rfl, (rounds_of_reachableIf hs).2.1⟩

/-- Two pings arrive before the server handles the first. -/
def lateServer : List Action :=
  [.host .client (.write 5), .host .client .post, .transmit .client, .arrive .server 70,
    .host .client (.complete 71 true), .host .client .loop, .host .client .startPoll,
    .host .client (.parse 6), .host .client .nextPoll,
    .host .client (.write 7), .host .client .post, .transmit .client, .arrive .server 72,
    .host .server .loop, .host .server .startPoll, .host .server (.parse 9), .transmit .server,
    .arrive .client 80, .host .server (.complete 81 true), .host .server .nextPoll,
    .host .server (.parse 12), .host .client .loop, .host .client .startPoll,
    .host .client (.parse 20)]

/-- **A round is lost.**  The server handles the pings 1 and 2 and sends one
pong, with the id 2; the client, which sent both, writes round 2 only. -/
theorem exists_lost_round : ∃ s, (rc fun _ => 10).Reachable s ∧
    (s.host .server).handled.map (fun r => r.msg.id) = [1, 2] ∧
    ((s.host .server).transmitted ++ (s.host .server).toRead).map (fun p => p.id) = [2] ∧
    (s.host .client).written.map (fun p => p.id) = [2] := by
  have hrun : ((rc fun _ => 10).exec (rc fun _ => 10).init lateServer).map
      (fun s => ((s.host .server).handled.map (fun r => r.msg.id),
        ((s.host .server).transmitted ++ (s.host .server).toRead).map (fun p => p.id),
        (s.host .client).written.map fun p => p.id)) = some ([1, 2], [2], [2]) := by
    decide +kernel
  obtain ⟨s, hs, he⟩ := Option.map_eq_some_iff.1 hrun
  obtain ⟨hhandled, he⟩ := Prod.mk.inj he
  obtain ⟨hpongs, hwritten⟩ := Prod.mk.inj he
  exact ⟨s, System.reachable_of_exec hs, hhandled, hpongs, hwritten⟩

end Rc
end Rdma
end DetBypass
