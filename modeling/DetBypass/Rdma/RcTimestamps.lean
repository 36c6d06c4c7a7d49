/-
# The time stamps of the RC records

What the payloads written by the client of `rdma/rc_pingpong.c` have in their
four time stamps, in runs in which no message in a shared buffer is overwritten.
`ts[2]` is a reading of the server's clock and `ts[3]` a later reading of the
client's.  But the client stores the reading taken at the send in `ts[1]`, where
the server overwrites it, so `ts[0]` is zero; and the server fills `ts[1]` with
the completion timestamp of the HCA, which is not a reading of `get_time_ns`.  So
a round is usable exactly when the clock read zero at the send and the HCA
timestamp happens to be a reading of the server (`usable_iff_of_reachableIf`).
-/

import DetBypass.Rdma.RcExchange

namespace DetBypass
namespace Rdma
namespace Rc

open Lib

variable {room : Prop} {iters : Build → UInt64} {s t : State} {h h' : Host} {build : Build}
  {n : UInt64} {a : HostAction}

/-- The readings of `get_time_ns` of the server. -/
def serverReadings (s : State) : List UInt64 := (s.host .server).handled.map Receipt.now

/-- The readings of `get_time_ns` of the client when it handles a pong. -/
def clientReadings (s : State) : List UInt64 := (s.host .client).handled.map Receipt.now

/-- A usable round for a packet sent at `sent`: the four time stamps are those of
the send, of the server's two readings and of a later reading of the client, and
`compute_latency` is half of the round trip without the time at the server. -/
structure Usable (sent : UInt64) (server client : List UInt64) (p : PingpongPayload) : Prop where
  ts0 : p.ts 0 = sent
  ts1 : p.ts 1 ∈ server
  ts2 : p.ts 2 ∈ server
  order : p.ts 1 ≤ p.ts 2
  ts3 : p.ts 3 ∈ client
  later : sent ≤ p.ts 3
  latency : computeLatency p = ((p.ts 3 - sent) - (p.ts 2 - p.ts 1)) / 2

/-- A pong that was handled after the ping it echoes was sent. -/
def Answers (s : State) (c : Receipt) : Prop :=
  ∃ r ∈ (s.host .server).handled, ∃ e ∈ (s.host .client).sends,
    c.msg = echo r.msg r.ts r.now ∧ r.msg = ping e.1 e.2 ∧ e.2 ≤ c.now

/-- What a step of a host adds to its history. -/
theorem Local.step_history (hl : Local h) (hstep : stepHost build n h a = some h') :
    h.sends <+: h'.sends ∧ (h'.handled = h.handled ∨ ∃ r, h'.handled = h.handled ++ [r] ∧
      h.clock ≤ r.now ∧ h.unhandled = [r.msg]) := by
  cases hostStep_of_stepHost hstep with
  | @parse now _ hstep =>
      obtain ⟨hclock, pc, recvCount, recvPosted, availableRecv, hpc, ⟨hcq, rfl⟩ |
        ⟨ts, hunhandled, hcq, hrecv, rfl⟩⟩ := hl.parse_cases hstep
      · exact ⟨List.prefix_rfl, Or.inl rfl⟩
      · obtain ⟨-, -, hsends, hhandled⟩ := afterRecv_history build now ts h
        exact ⟨hsends ▸ List.prefix_rfl, Or.inr ⟨_, hhandled, hclock, hunhandled⟩⟩
  | post => exact ⟨List.prefix_append _ _, Or.inl rfl⟩
  | _ => exact ⟨List.prefix_rfl, Or.inl rfl⟩

/-- An answer stays one as the histories grow. -/
theorem Answers.mono {c : Receipt} (hc : Answers s c)
    (hhandled : (s.host .server).handled ⊆ (t.host .server).handled)
    (hsends : (s.host .client).sends ⊆ (t.host .client).sends) : Answers t c := by
  obtain ⟨r, hr, e, he, hecho, hping, hle⟩ := hc
  exact ⟨r, hhandled hr, e, hsends he, hecho, hping, hle⟩

/-- **The pongs handled answer pings sent before.** -/
theorem answers_invariant : (rc iters).Invariant (NotOverwritten room)
    fun s => Joint room s ∧ ∀ c ∈ (s.host .client).handled, Answers s c where
  init := ⟨joint_invariant.init, fun c hc => absurd hc List.not_mem_nil⟩
  step := by
    rintro s a t ⟨hj, hanswers⟩ hg hstep
    refine ⟨joint_invariant.step hj hg hstep, ?_⟩
    cases rcStep_of_step hstep with
    | @host build a h hh =>
        obtain ⟨hsends, hhandled⟩ := (hj.hosts build).step_history hh
        cases build with
        | server =>
            have hsub : (s.host .server).handled ⊆ h.handled := by
              rcases hhandled with he | ⟨r, he, -⟩ <;> rw [he]
              · exact List.Subset.refl _
              · exact List.subset_append_left _ _
            exact fun c hc => (hanswers c hc).mono hsub (List.Subset.refl _)
        | client =>
            intro c hc
            have hmem : c ∈ h.handled := hc
            rcases hhandled with he | ⟨r, he, hclock, hunhandled⟩
            · exact (hanswers c (he ▸ hmem)).mono (List.Subset.refl _) hsends.subset
            rw [he] at hmem
            rcases List.mem_append.1 hmem with hmem | hmem
            · exact (hanswers c hmem).mono (List.Subset.refl _) hsends.subset
            -- the pong that is handled now
            obtain rfl := List.mem_singleton.1 hmem
            have hclient : ClientRole room (s.host .client) := hj.roles .client
            have hreceived : c.msg ∈ (s.host .client).received := by
              rw [(hj.hosts .client).receipts, hunhandled]
              exact List.mem_append_right _ (List.mem_singleton_self _)
            obtain ⟨r, hr, e, hsend, hecho, hping⟩ := hj.origin hreceived
            exact ⟨r, hr, e, hsends.subset hsend, hecho, hping,
              UInt64.le_trans (hclient.clock e hsend) hclock⟩
    | @transmit build => cases build <;> exact hanswers
    | @arrive build => cases build <;> exact hanswers

/-- **The time stamps of the records.**  In every run in which no message in a
shared buffer is overwritten, each payload written is of a packet sent under its
id at a reading `t`; its `ts[2]` is a reading of the server and its `ts[3]` a
later one of the client; and the round is usable if and only if `t` is zero and
the completion timestamp of the HCA for the ping is a reading of `get_time_ns` of
the server, not after the one the server takes for `ts[2]`. -/
theorem usable_iff_of_reachableIf (h : (rc iters).ReachableIf (NotOverwritten False) s)
    {p : PingpongPayload} (hp : p ∈ (s.host .client).written) :
    ∃ t, ∃ r ∈ (s.host .server).handled, (p.id, t) ∈ (s.host .client).sends ∧
      r.msg = ping p.id t ∧ p.ts 2 ∈ serverReadings s ∧ p.ts 3 ∈ clientReadings s ∧ t ≤ p.ts 3 ∧
      (Usable t (serverReadings s) (clientReadings s) p ↔
        t = 0 ∧ r.ts ∈ serverReadings s ∧ r.ts ≤ r.now) := by
  obtain ⟨hj, hanswers⟩ := answers_invariant.holds h
  have hclient : ClientRole False (s.host .client) := hj.roles .client
  rw [hclient.records] at hp
  obtain ⟨c, hc, rfl⟩ := List.mem_map.1 hp
  obtain ⟨r, hr, ⟨id, t⟩, he, hecho, hping, hle⟩ := hanswers c hc
  rw [hecho, hping]
  have hts2 : r.now ∈ serverReadings s := List.mem_map_of_mem hr
  have hts3 : c.now ∈ clientReadings s := List.mem_map_of_mem hc
  refine ⟨t, r, hr, he, hping, hts2, hts3, hle, fun hu => ?_, fun ⟨hzero, hts1, horder⟩ => ?_⟩
  · exact ⟨hu.ts0.symm, hu.ts1, hu.order⟩
  · exact ⟨hzero.symm, hts1, hts2, horder, hts3, hle, by subst hzero; rfl⟩

/-- The record of a run of one round. -/
theorem usable_iff_of_reachableIf_one : ∃ s p,
    (rc fun _ => 10).ReachableIf (NotOverwritten False) s ∧ (s.host .client).written = [p] ∧
    p.ts 2 ∈ serverReadings s ∧ p.ts 3 ∈ clientReadings s := by
  obtain ⟨s, p, hs, hp, -⟩ := exists_oneRound
  obtain ⟨t, r, -, -, -, hts2, hts3, -⟩ :=
    usable_iff_of_reachableIf hs (hp ▸ List.mem_singleton_self p)
  exact ⟨s, p, hs, hp, hts2, hts3⟩

/-- **A record that is not usable**: the packet was sent at the reading 5, and
its record has a `ts[0]` of zero. -/
theorem exists_not_usable : ∃ s p, (rc fun _ => 10).ReachableIf (NotOverwritten False) s ∧
    (s.host .client).written = [p] ∧ (s.host .client).sends = [(p.id, 5)] ∧
    ¬ Usable 5 (serverReadings s) (clientReadings s) p := by
  obtain ⟨s, p, hs, hp, -, hts0, hsends⟩ := exists_oneRound
  exact ⟨s, p, hs, hp, hsends, fun hu => absurd (hts0.symm.trans hu.ts0) (by decide)⟩

end Rc
end Rdma
end DetBypass
