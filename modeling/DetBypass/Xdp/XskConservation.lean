/-
# Frame conservation

The server of `xdp/pp_sock.c` keeps the frame of a packet it replies to, also
when `xsk_send_packet` finds no entry of the tx ring free and queues nothing;
the frame is then in no place.  In a run in which every reply finds an entry
free each frame stays in exactly one place (`conserved_of_reachableIf`); a batch
of two with one entry left loses a frame (`exists_not_conserved`).
-/

import DetBypass.Xdp.XskOverload

namespace DetBypass
namespace Xdp
namespace Xsk

open Lib

variable {build : Build} {iters : UInt64} {s t : State} {a : Action}

/-- The condition on a step: a packet that `process_packet` replies to finds an
entry of the tx ring free. -/
def TxEntryFree (build : Build) (s : State) : Action → Prop
  | .receiver _ _ => ∀ rcvd i desc, s.rxPc = .processing rcvd i → i < rcvd →
      s.rx[i]? = some desc → Replies build s desc → s.tx.length < ringSize
  | _ => True

/-- `complete_tx` loses no frame. -/
theorem Owned.completeTx_lost (h : Owned s) : (completeTx s).lost = s.lost := by
  rw [h.completeTx_eq]
  split <;> rfl

/-- A packet of the sending thread loses none. -/
theorem xskSendPacket_lost (packet : Packet) (len : UInt32) :
    (xskSendPacket s (.buffer packet) len true).2.lost = s.lost := by
  rcases xskSendPacket_buffer s packet len with ⟨-, he⟩ | ⟨-, he⟩
  · rw [he]
  · rw [he]

/-- A step that finds an entry free for its reply loses nothing. -/
theorem Owned.step_lost (h : Owned s) (hg : TxEntryFree build s a)
    (hstep : step build iters s a = some t) : t.lost = s.lost := by
  cases steps_of_step hstep with
  | refill => rw [stockFill_eq]
  | @packet t₁ t₂ rcvd i _ hpc hi hstep =>
      obtain ⟨desc, umem, exit, written, hdesc, -,
          ⟨-, rfl⟩ | ⟨-, -, rfl⟩ | ⟨hreply, hfull, -⟩⟩ := h.processing_cases hpc hi hstep
      · rfl
      · rfl
      · exact absurd hfull (Nat.not_le.2 (hg rcvd i desc hpc hi hdesc hreply))
  | release t₁ t₂ rcvd i hpc hi => rw [(h.release hpc hi).completeTx_lost]
  | send packet len => exact xskSendPacket_lost packet len
  | complete hpc => exact h.sent.completeTx_lost
  | _ => rfl

/-- **Nothing is lost** while a tx entry is free. -/
theorem lost_invariant : (socket build iters).Invariant (TxEntryFree build)
    fun s => Owned s ∧ s.lost = [] where
  init := ⟨owned_xskConfigureSocket, by
    change xskConfigureSocket.lost = []
    rw [xskConfigureSocket, stockFill_eq]
    rfl⟩
  step := fun ⟨h, hlost⟩ hg hstep =>
    ⟨owned_invariant.step h trivial hstep, (h.step_lost hg hstep).trans hlost⟩

/-- **Frame conservation.**  In every run of the client or of the server in
which each packet to be replied to finds an entry of the tx ring free, every
frame is in exactly one place in every state, and the assertion of
`xsk_free_umem_frame` has not failed. -/
theorem conserved_of_reachableIf (h : (socket build iters).ReachableIf (TxEntryFree build) s) :
    Conserved s ∧ s.aborted = false := by
  obtain ⟨howned, hlost⟩ := lost_invariant.holds h
  exact ⟨(conserved_iff h.reachable).2 hlost, howned.running⟩

/-- A run of the server that answers a ping. -/
theorem conserved_of_reachableIf_one :
    ∃ s, (socket .server 2).ReachableIf (TxEntryFree .server) s ∧ s.tx.length = 1 ∧
      Conserved s ∧ s.aborted = false := by
  have hg : ∀ s a, Calm s → TxEntryFree .server s a := by
    rintro s (_ | _ | _ | _ | _ | _ | _ | _ | _) hcalm <;>
      first | trivial | exact fun _ _ _ _ _ _ _ => hcalm.tx
  obtain ⟨s, hs, hready⟩ := exists_rounds hg (show (1 : UInt64) < 2 by decide)
    (show 1 < ringSize by decide)
  exact ⟨s, hs, hready.tx, conserved_of_reachableIf hs⟩

/-- **A frame is lost.**  The server reaches a state between two batches in
which some frame is in no place. -/
theorem exists_not_conserved : ∃ s, (socket .server 2).Reachable s ∧ s.rxPc = .polling ∧
    ∃ f < numFrames, tally frameOf s.places f = 0 := by
  obtain ⟨s, hs, hpc, hlost, -⟩ := exists_overload (show (1 : UInt64) < 2 by decide)
  have howned := owned_of_reachable hs
  obtain ⟨addr, ha⟩ := List.exists_mem_of_ne_nil _ hlost
  have hreal := howned.real addr (mem_trusted.2 (by tauto))
  have hpos := tally_pos_iff (f := frameOf).2 ⟨addr, ha, rfl⟩
  have := howned.once _ hreal
  exact ⟨s, hs, hpc, frameOf addr, hreal, by omega⟩

end Xsk
end Xdp
end DetBypass
