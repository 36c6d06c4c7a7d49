/-
# What the AF_XDP programs have sent and not collected

`outstanding_tx` (`xdp/pp_sock.c`) is incremented by `xsk_send_packet`, for each
descriptor it submits, and decreased by `complete_tx`, which returns early while
it is 0 and never subtracts more than its value.  A step is worth the
descriptors it adds to the tx ring and the entries it takes off the completion
ring (`txMoved`): only the program does either.

A descriptor that is in the tx ring, with the kernel or in the completion ring
is one of those counted; one with an address outside the UMEM the kernel drops,
and it stays counted.  So the completion ring never holds more than the counter
(`Accounted`), and each call of `complete_tx` empties it, gives its frames back
and subtracts what it held, until the counter wraps
(`outstandingTx_of_reachableIf`).

It is a `uint32_t`.  As long as the sending thread finds frames it is at most
`NUM_FRAMES`, and in the server always (`outstandingTx_le_of_reachableIf`).  A
client that has no frame left goes on submitting the sentinel, which never
completes: the packet that finds `2^32 - 1` makes it 0, and `complete_tx`
returns over a completion (`exists_stranded`).
-/

import DetBypass.Lib.Ledger
import DetBypass.Xdp.XskAddresses
import Mathlib.Algebra.Group.Prod

namespace DetBypass
namespace Xdp
namespace Xsk

open Lib

variable {build : Build} {iters : UInt64} {s t u : State} {a : Action} {m : ℕ × ℕ}

/-- The descriptors a step submits and the completions it collects. -/
def txMoved (s t : State) : ℕ × ℕ :=
  (t.tx.length - s.tx.length, s.comp.length - t.comp.length)

/-- The condition on a step: a packet of the sending thread that finds an entry
free does not find the counter at its end. -/
def NoWrap (s : State) : Action → Prop
  | .send _ _ => s.tx.length < ringSize → s.outstandingTx ≠ UInt32.ofNat (2 ^ 32 - 1)
  | _ => True

/-- A step calls `complete_tx` in the state `u`: the release of a batch, and the
sending thread after its packet. -/
inductive CallsCompleteTx (s : State) : Action → State → Prop
  | release (t₁ t₂ : UInt64) (rcvd i : ℕ) (hpc : s.rxPc = .processing rcvd i) (hi : ¬ i < rcvd) :
      CallsCompleteTx s (.receiver t₁ t₂) { s with rx := s.rx.drop rcvd, rxPc := .polling }
  | complete (hpc : s.txPc = .completing) : CallsCompleteTx s .complete { s with txPc := .idle }

/-- The counter, the rings and the kernel's part of them are those of the state
before the step. -/
theorem CallsCompleteTx.kept (h : CallsCompleteTx s a u) :
    u.tx = s.tx ∧ u.kernelTx = s.kernelTx ∧ u.comp = s.comp ∧
      u.outstandingTx = s.outstandingTx := by
  cases h <;> exact ⟨rfl, rfl, rfl, rfl⟩

/-- A call of `complete_tx` finds every frame in its place. -/
theorem CallsCompleteTx.owned (h : CallsCompleteTx s a u) (howned : Owned s) : Owned u := by
  cases h with
  | release t₁ t₂ rcvd i hpc hi => exact howned.release hpc hi
  | complete hpc => exact howned.sent

/-- A call is the last part of its step. -/
theorem CallsCompleteTx.step (h : CallsCompleteTx s a u) (hrun : s.aborted = false) :
    (socket build iters).step s a = some (completeTx u) := by
  cases h with
  | release t₁ t₂ rcvd i hpc hi =>
      show step build iters s (.receiver t₁ t₂) = _
      simp only [Xsk.step, hrun, Bool.false_eq_true, if_false, stepReceiver, hpc, hi]
  | complete hpc =>
      show step build iters s .complete = _
      rw [Xsk.step, if_pos ⟨hpc, hrun⟩]

/-- What is subtracted is what was collected, if it is not more than the counter. -/
theorem collected_toNat {n : ℕ} (hn : n ≤ u.outstandingTx.toNat) : (u.collected n).toNat = n := by
  have hlt := u.outstandingTx.toNat_lt
  have hval : (UInt32.ofNat n).toNat = n := Nat.mod_eq_of_lt (by omega)
  rw [State.collected]
  split_ifs with h
  · exact hval
  · rw [UInt32.lt_iff_toNat_lt, hval] at h
    omega

/-- **`complete_tx` as it is called** empties the completion ring, puts its frames
on the stack, and subtracts what it held. -/
theorem Owned.completeTx_counts (h : Owned u) (hring : u.comp.length ≤ ringSize)
    (hclamp : u.comp.length ≤ u.outstandingTx.toNat) :
    (completeTx u).tx = u.tx ∧ (completeTx u).kernelTx = u.kernelTx ∧ (completeTx u).comp = [] ∧
      (completeTx u).umemFrames = u.comp.reverse ++ u.umemFrames ∧
      (completeTx u).outstandingTx.toNat + u.comp.length = u.outstandingTx.toNat := by
  rw [h.completeTx_eq]
  split
  · rename_i hzero
    rw [hzero] at hclamp
    have hcomp : u.comp = [] := List.eq_nil_of_length_eq_zero (Nat.le_zero.1 hclamp)
    exact ⟨rfl, rfl, hcomp, by simp [hcomp], by simp [hcomp]⟩
  · have hcollected := collected_toNat hclamp
    refine ⟨rfl, rfl, ?_, ?_, ?_⟩
    · simp only [List.take_of_length_le hring, List.drop_length]
    · simp only [List.take_of_length_le hring]
    · simp only [List.take_of_length_le hring]
      rw [UInt32.toNat_sub_of_le _ _ (UInt32.le_iff_toNat_le.2 (by omega)), hcollected]
      omega

/-! ### One step -/

/-- A step submits a descriptor: a reply, or a packet of the sending thread. -/
def Submits (build : Build) (s : State) : Action → Prop
  | .receiver _ _ => build = .server
  | .send _ _ => s.tx.length < ringSize
  | _ => False

/-- What a step does to the descriptors between `xsk_send_packet` and
`complete_tx`. -/
inductive TxStep (s t : State) : Prop
  | submit (k : ℕ) (htx : t.tx.length = s.tx.length + k)
      (hkernel : t.kernelTx.length = s.kernelTx.length) (hcomp : t.comp.length = s.comp.length)
      (hout : t.outstandingTx.toNat = s.outstandingTx.toNat + k)
  | collect (htx : t.tx.length = s.tx.length) (hkernel : t.kernelTx.length = s.kernelTx.length)
      (hcomp : t.comp.length = 0)
      (hout : t.outstandingTx.toNat + s.comp.length = s.outstandingTx.toNat)
  | transmit (desc : Desc) (htx : s.tx = desc :: t.tx) (hkernel : t.kernelTx.length =
      s.kernelTx.length + if frameOf desc.addr < numFrames then 1 else 0)
      (hcomp : t.comp.length = s.comp.length)
      (hout : t.outstandingTx.toNat = s.outstandingTx.toNat)
  | complete (htx : t.tx.length = s.tx.length) (hkernel : t.kernelTx.length + 1 = s.kernelTx.length)
      (hcomp : t.comp.length = s.comp.length + 1) (hroom : s.comp.length < ringSize)
      (hout : t.outstandingTx.toNat = s.outstandingTx.toNat)

/-- A call of `complete_tx`. -/
theorem CallsCompleteTx.txStep (h : CallsCompleteTx s a u) (howned : Owned s)
    (hring : s.comp.length ≤ ringSize) (hclamp : s.comp.length ≤ s.outstandingTx.toNat) :
    TxStep s (completeTx u) := by
  obtain ⟨htx, hkernel, hcomp, hout⟩ := h.kept
  obtain ⟨htx', hkernel', hcomp', -, hout'⟩ := (h.owned howned).completeTx_counts
    (hcomp ▸ hring) (by rwa [hcomp, hout])
  refine .collect (by rw [htx', htx]) (by rw [hkernel', hkernel])
    (by rw [hcomp', List.length_nil]) ?_
  rw [← hout, ← hout', hcomp]

/-- One more descriptor, short of the end of the counter. -/
theorem succ_toNat {n : UInt32} (hn : n.toNat + 1 < 2 ^ 32) : (n + 1).toNat = n.toNat + 1 := by
  rw [UInt32.toNat_add]
  exact Nat.mod_eq_of_lt hn

/-- **One step**, if it does not wrap the counter. -/
theorem txStep_of_step (howned : Owned s) (hring : s.comp.length ≤ ringSize)
    (hclamp : s.comp.length ≤ s.outstandingTx.toNat)
    (hfits : Submits build s a → s.outstandingTx.toNat + 1 < 2 ^ 32)
    (hstep : (socket build iters).step s a = some t) : TxStep s t := by
  cases steps_of_step hstep with
  | poll | interrupt | kernelFill | kernelReceive => exact .submit 0 rfl rfl rfl rfl
  | refill t₁ t₂ rcvd hpc =>
      rw [stockFill_eq]
      exact .submit 0 rfl rfl rfl rfl
  | packet hpc hi hstep =>
      obtain ⟨desc, umem, exit, written, -, -, hcases⟩ := howned.processing_cases hpc hi hstep
      rcases hcases with ⟨-, rfl⟩ | ⟨hreply, -, rfl⟩ | ⟨-, -, rfl⟩
      · exact .submit 0 rfl rfl rfl rfl
      · exact .submit 1 (by simp) rfl rfl (succ_toNat (hfits hreply.1))
      · exact .submit 0 rfl rfl rfl rfl
  | release t₁ t₂ rcvd i hpc hi =>
      exact (CallsCompleteTx.release t₁ t₂ rcvd i hpc hi).txStep howned hring hclamp
  | send packet len =>
      rcases xskSendPacket_buffer s packet len with ⟨-, he⟩ | ⟨hroom, he⟩
      · rw [he]
        exact .submit 0 rfl rfl rfl rfl
      · rw [he]
        exact .submit 1 (by simp) rfl rfl (succ_toNat (hfits hroom))
  | complete hpc => exact (CallsCompleteTx.complete hpc).txStep howned hring hclamp
  | kernelTransmit desc tx htx =>
      refine .transmit desc htx ?_ rfl rfl
      dsimp only
      split
      · rw [List.length_append, List.length_singleton]
      · rfl
  | kernelComplete addr haddr hroom =>
      have hpos := List.length_pos_of_mem haddr
      refine .complete rfl ?_ (List.length_append ..) hroom rfl
      rw [List.length_erase_of_mem haddr]
      omega

/-! ### While the sending thread finds frames -/

/-- The condition on a step: a packet of the sending thread that finds an entry
free finds a frame. -/
def FrameFound (build : Build) (s : State) : Action → Prop
  | .send _ _ => build = .client → s.tx.length < ringSize → s.umemFrames ≠ []
  | _ => True

/-- With only frames submitted, the counter is what is on its way. -/
structure Counted (s : State) : Prop extends Owned s where
  tx : ∀ desc ∈ s.tx, frameOf desc.addr < numFrames
  outstanding : s.outstandingTx.toNat = s.tx.length + s.kernelTx.length + s.comp.length
  ring : s.comp.length ≤ ringSize

/-- Each of them is another frame. -/
theorem Counted.le (h : Counted s) : s.outstandingTx.toNat ≤ numFrames := by
  have hlen := h.length_le (l := s.tx.map Desc.addr ++ (s.kernelTx ++ s.comp))
    (fun addr ha => by
      simp only [List.mem_append, List.mem_map] at ha
      rcases ha with ⟨desc, hdesc, rfl⟩ | ha | ha
      · exact h.tx desc hdesc
      · exact h.real addr (mem_trusted.2 (by tauto))
      · exact h.real addr (mem_trusted.2 (by tauto)))
    (fun f _ => by
      rw [tally_places, tally_append, tally_append]
      omega)
  rw [h.outstanding]
  simp only [List.length_append, List.length_map] at hlen
  omega

/-- The descriptors of a step that submits frames only. -/
theorem Counted.step_tx (h : Counted s) (hg : FrameFound build s a)
    (hstep : (socket build iters).step s a = some t) :
    ∀ desc ∈ t.tx, frameOf desc.addr < numFrames := by
  cases steps_of_step hstep with
  | poll | interrupt | kernelFill | kernelReceive | kernelComplete => exact h.tx
  | refill t₁ t₂ rcvd hpc =>
      rw [stockFill_eq]
      exact h.tx
  | packet hpc hi hstep =>
      obtain ⟨desc, umem, exit, written, hdesc, -, hcases⟩ := h.processing_cases hpc hi hstep
      rcases hcases with ⟨-, rfl⟩ | ⟨-, -, rfl⟩ | ⟨-, -, rfl⟩
      · exact h.tx
      · have hreal : frameOf desc.addr < numFrames := h.real _ (mem_trusted.2
          (Or.inr (Or.inr (Or.inl (unprocessed_eq_cons hpc hdesc ▸ List.mem_cons_self ..)))))
        intro d hd
        rcases List.mem_append.1 hd with hd | hd
        · exact h.tx d hd
        · rwa [List.mem_singleton.1 hd]
      · exact h.tx
  | release t₁ t₂ rcvd i hpc hi =>
      rw [(h.release hpc hi).completeTx_eq]
      split <;> exact h.tx
  | complete hpc =>
      rw [h.sent.completeTx_eq]
      split <;> exact h.tx
  | send packet len hbuild =>
      rcases xskSendPacket_buffer s packet len with ⟨-, he⟩ | ⟨hroom, he⟩
      · rw [he]
        exact h.tx
      · obtain ⟨frame, frames, hframes⟩ := List.exists_cons_of_ne_nil (hg hbuild hroom)
        rw [he]
        intro d hd
        rcases List.mem_append.1 hd with hd | hd
        · exact h.tx d hd
        · rw [List.mem_singleton.1 hd, hframes]
          exact h.real frame (mem_trusted.2 (Or.inl (hframes ▸ List.mem_cons_self ..)))
  | kernelTransmit desc tx htx => exact fun d hd => h.tx d (htx ▸ List.mem_cons_of_mem _ hd)

/-- The counter has room for a descriptor. -/
theorem Counted.fits (h : Counted s) : s.outstandingTx.toNat + 1 < 2 ^ 32 := by
  have hle := h.le
  have hN : numFrames = 4096 := rfl
  omega

/-- **The count is kept** by each step that submits frames only. -/
theorem Counted.step (h : Counted s) (hg : FrameFound build s a)
    (hstep : (socket build iters).step s a = some t) : Counted t := by
  have howned := owned_invariant.step h.toOwned trivial hstep
  have htxs := h.step_tx hg hstep
  have hout := h.outstanding
  have hring := h.ring
  cases txStep_of_step h.toOwned hring (by omega) (fun _ => h.fits) hstep with
  | submit | collect | complete => refine ⟨howned, htxs, ?_, ?_⟩ <;> omega
  | transmit desc htx hkernel hcomp hout' =>
      rw [if_pos (h.tx desc (htx ▸ List.mem_cons_self ..))] at hkernel
      rw [htx, List.length_cons] at hout
      refine ⟨howned, htxs, ?_, ?_⟩ <;> omega

/-- Nothing has been submitted. -/
theorem xskConfigureSocket_outstandingTx : xskConfigureSocket.outstandingTx = 0 := by
  rw [xskConfigureSocket, stockFill_eq]
  rfl

/-- The counter before the first packet. -/
theorem counted_xskConfigureSocket : Counted xskConfigureSocket := by
  have hready := ready_xskConfigureSocket
  refine ⟨owned_xskConfigureSocket, ?_, ?_, ?_⟩
  · rw [List.eq_nil_of_length_eq_zero hready.tx]
    exact fun _ hd => absurd hd List.not_mem_nil
  · rw [xskConfigureSocket_outstandingTx, hready.tx, hready.kernelTx, hready.comp]
    rfl
  · rw [hready.comp]
    exact Nat.zero_le _

/-- **The counter is right** in every state of such a run. -/
theorem counted_invariant : (socket build iters).Invariant (FrameFound build) Counted :=
  ⟨counted_xskConfigureSocket, Counted.step⟩

/-- **The counter stays small** in runs in which the packets of the sending thread
find frames, and in every run of the server, which has none. -/
theorem outstandingTx_le_of_reachableIf
    (h : (socket build iters).ReachableIf (FrameFound build) s) :
    s.outstandingTx.toNat ≤ numFrames :=
  (counted_invariant.holds h).le

/-- Such runs do not wrap it. -/
theorem reachableIf_noWrap (h : (socket build iters).ReachableIf (FrameFound build) s) :
    (socket build iters).ReachableIf NoWrap s := by
  refine counted_invariant.reachableIf (fun {s a t} hcounted _ _ => ?_) h
  cases a with
  | send packet len =>
      intro _ hmax
      have hfits := hcounted.fits
      rw [hmax] at hfits
      exact absurd hfits (by decide)
  | _ => trivial

/-! ### Runs that do not wrap -/

/-- What has been submitted and not collected is counted, and covers the rings
and the kernel. -/
structure Accounted (build : Build) (s : State) (m : ℕ × ℕ) : Prop extends Owned s where
  outstanding : s.outstandingTx.toNat + m.2 = m.1
  inFlight : s.tx.length + s.kernelTx.length + s.comp.length ≤ s.outstandingTx.toNat
  ring : s.comp.length ≤ ringSize
  server : build = .server → Counted s

/-- A step that does not wrap has room for its descriptor. -/
theorem Accounted.fits (h : Accounted build s m) (hg : NoWrap s a) (hsubmits : Submits build s a) :
    s.outstandingTx.toNat + 1 < 2 ^ 32 := by
  cases a with
  | receiver t₁ t₂ => exact (h.server hsubmits).fits
  | send packet len =>
      have hlt := s.outstandingTx.toNat_lt
      have hne : s.outstandingTx.toNat ≠ 2 ^ 32 - 1 := fun he =>
        hg hsubmits (UInt32.toNat_inj.1 he)
      omega
  | _ => exact hsubmits.elim

/-- **The account is kept.** -/
theorem Accounted.step (h : Accounted build s m) (hg : NoWrap s a)
    (hstep : (socket build iters).step s a = some t) :
    Accounted build t (m + txMoved s t) := by
  have howned := owned_invariant.step h.toOwned trivial hstep
  have hserver : build = .server → Counted t := fun hbuild =>
    (h.server hbuild).step (by cases a <;> first | trivial | simp [FrameFound, hbuild]) hstep
  have hsum := h.outstanding
  have hflight := h.inFlight
  have hring := h.ring
  have hsubmitted : (m + txMoved s t).1 = m.1 + (t.tx.length - s.tx.length) := rfl
  have hcollected : (m + txMoved s t).2 = m.2 + (s.comp.length - t.comp.length) := rfl
  cases txStep_of_step h.toOwned hring (by omega) (h.fits hg) hstep with
  | submit | collect | complete => refine ⟨howned, ?_, ?_, ?_, hserver⟩ <;> omega
  | transmit desc htx hkernel hcomp hout =>
      rw [htx, List.length_cons] at hflight hsubmitted
      split at hkernel <;> refine ⟨howned, ?_, ?_, ?_, hserver⟩ <;> omega

/-- After `n` packets that the kernel has taken and not completed. -/
structure Sent (s : State) (n : ℕ) : Prop where
  owned : Owned s
  pc : s.rxPc = .polling
  idle : s.txPc = .idle
  tx : s.tx = []
  comp : s.comp = []
  outstanding : s.outstandingTx = UInt32.ofNat n
  frame : s.umemFrames ≠ [] ∨ s.kernelTx ≠ []

/-- The sending thread has queued a packet, with the counter at `n`. -/
def State.queued (s : State) (n : ℕ) : State :=
  { s with
    umem := Function.update s.umem (frameOf (s.umemFrames.headD invalidUmemFrame)) ping
    umemFrames := s.umemFrames.drop 1
    tx := [⟨s.umemFrames.headD invalidUmemFrame, minPacketLen⟩]
    outstandingTx := UInt32.ofNat n
    txPc := .completing
    stored := s.stored ++ [s.umemFrames.headD invalidUmemFrame] }

variable (iters) in
/-- The packet of a client between two batches. -/
theorem Sent.send {n : ℕ} (h : Sent s n) :
    (socket .client iters).step s (.send ping minPacketLen) = some (s.queued (n + 1)) := by
  have hguard : Build.client = .client ∧ s.rxPc.locked = false ∧ s.txPc = .idle ∧
      s.aborted = false := ⟨rfl, by rw [h.pc]; rfl, h.idle, h.owned.running⟩
  show step .client iters s (.send ping minPacketLen) = _
  rw [Xsk.step, if_pos hguard]
  rcases xskSendPacket_buffer s ping minPacketLen with ⟨hfull, -⟩ | ⟨-, he⟩
  · rw [h.tx] at hfull
    exact absurd hfull (by decide)
  · rw [he, h.tx, h.outstanding, List.nil_append, State.queued, UInt32.ofNat_add]
    rfl

end Xsk
end Xdp
end DetBypass
