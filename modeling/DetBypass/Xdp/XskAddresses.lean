/-
# The addresses given to the kernel

`handle_receive_packets` and `xsk_send_packet` store what `xsk_alloc_umem_frame`
returns without a look at it.  With every frame in one place (`Owned`) and only
frames in the fill and tx rings the stack holds what is not in the fill ring and
not in use, so the refill finds enough frames exactly while at most
`NUM_FRAMES / 2` are in use, and the sending thread finds one exactly while some
frame is neither in use nor in the fill ring (`FramesLeft`).  In runs that keep
to it every address stored is a frame (`frameOf_lt_of_reachableIf`).  A run keeps
to it while the addresses that the kernel has taken off the fill ring and the
descriptors submitted are fewer than a ring has entries (`framesLeft_of_given`).
Replies
that the kernel has not sent yet and a batch just received can exceed it, and the
refill then stores the sentinel (`exists_invalid_stored`).
-/

import DetBypass.Lib.Ledger
import DetBypass.Xdp.XskOverload

namespace DetBypass
namespace Xdp
namespace Xsk

open Lib

variable {build : Build} {iters : UInt64} {s t : State} {a : Action}

/-- The condition on a step: the refill finds at most half of the frames in use,
a packet sent some frame neither in use nor in the fill ring. -/
def FramesLeft (s : State) : Action → Prop
  | .receiver _ _ => ∀ rcvd, s.rxPc = .peeked rcvd → s.inUse ≤ ringSize
  | .send _ _ => s.tx.length < ringSize → s.fill.length + s.inUse < numFrames
  | _ => True

/-- The fill and tx rings hold frames only, and so did every address stored. -/
structure Framed (s : State) : Prop extends Owned s where
  fill : ∀ addr ∈ s.fill, frameOf addr < numFrames
  tx : ∀ desc ∈ s.tx, frameOf desc.addr < numFrames
  stored : ∀ addr ∈ s.stored, frameOf addr < numFrames

/-- **The frames are counted**: what is on the stack, in the fill ring and in
use. -/
theorem Framed.length_eq (h : Framed s) :
    s.umemFrames.length + s.fill.length + s.inUse = numFrames := by
  have hlen := length_eq_card (f := frameOf) (l := s.places ++ s.lost)
    (S := Finset.range numFrames)
    (fun addr ha => Finset.mem_range.2 (by
      simp only [State.places, List.mem_append, List.mem_map] at ha
      have htrusted : ∀ addr, addr ∈ s.umemFrames ∨ addr ∈ s.kernelRx ∨ addr ∈ s.unprocessed ∨
          addr ∈ s.kernelTx ∨ addr ∈ s.comp ∨ addr ∈ s.lost → frameOf addr < numFrames :=
        fun addr ha => h.real addr (mem_trusted.2 ha)
      rcases ha with (ha | ha | ha | ha | ⟨desc, hdesc, rfl⟩ | ha | ha) | ha
      · exact htrusted addr (by tauto)
      · exact h.fill addr ha
      · exact htrusted addr (by tauto)
      · exact htrusted addr (by tauto)
      · exact h.tx desc hdesc
      · exact htrusted addr (by tauto)
      · exact htrusted addr (by tauto)
      · exact htrusted addr (by tauto)))
    (fun f hf => by
      rw [tally_append]
      exact h.once f (Finset.mem_range.1 hf))
  rw [Finset.card_range] at hlen
  rw [← hlen]
  simp only [State.places, State.inUse, List.length_append, List.length_map]
  omega

/-- The refill finds a frame for every free entry of the fill ring. -/
theorem Framed.stock_le (h : Framed s) (huse : s.inUse ≤ ringSize) :
    ringSize - s.fill.length ≤ s.umemFrames.length := by
  have hlen := h.length_eq
  have hN : numFrames = ringSize + ringSize := rfl
  omega

/-- The sending thread finds a frame. -/
theorem Framed.exists_frame (h : Framed s) (huse : s.fill.length + s.inUse < numFrames) :
    frameOf (s.umemFrames.headD invalidUmemFrame) < numFrames := by
  have hlen := h.length_eq
  obtain ⟨frame, frames, hframes⟩ := List.exists_cons_of_length_pos (l := s.umemFrames) (by omega)
  rw [hframes]
  exact h.real frame (mem_trusted.2 (Or.inl (hframes ▸ List.mem_cons_self ..)))

/-- A step that stores no address. -/
theorem Framed.keep (h : Framed s) (howned : Owned t) (hfill : ∀ addr ∈ t.fill, addr ∈ s.fill)
    (htx : ∀ desc ∈ t.tx, desc ∈ s.tx) (hstored : t.stored = s.stored) : Framed t where
  toOwned := howned
  fill addr ha := h.fill addr (hfill addr ha)
  tx desc hd := h.tx desc (htx desc hd)
  stored addr ha := h.stored addr (hstored ▸ ha)

/-- A step that hands a real frame to the tx ring. -/
theorem Framed.push (h : Framed s) (howned : Owned t) (desc : Desc)
    (hreal : frameOf desc.addr < numFrames) (hfill : t.fill = s.fill)
    (htx : t.tx = s.tx ++ [desc]) (hstored : t.stored = s.stored ++ [desc.addr]) : Framed t where
  toOwned := howned
  fill := hfill ▸ h.fill
  tx d hd := by
    rcases List.mem_append.1 (htx ▸ hd) with hd | hd
    · exact h.tx d hd
    · rwa [List.mem_singleton.1 hd]
  stored addr ha := by
    rcases List.mem_append.1 (hstored ▸ ha) with ha | ha
    · exact h.stored addr ha
    · rwa [List.mem_singleton.1 ha]

/-- `complete_tx` stores no address. -/
theorem Framed.complete (h : Framed s) : Framed (completeTx s) := by
  refine h.keep h.toOwned.complete ?_ ?_ ?_ <;> rw [h.completeTx_eq] <;> split
  all_goals first | exact fun _ ha => ha | rfl

/-- The refill of the fill ring. -/
theorem Framed.stock (h : Framed s) {n : ℕ} (hn : n ≤ s.umemFrames.length) :
    Framed (stockFill n s) := by
  have hframes : ∀ addr ∈ s.umemFrames.take n, frameOf addr < numFrames := fun addr ha =>
    h.real addr (mem_trusted.2 (Or.inl (List.mem_of_mem_take ha)))
  have howned := h.toOwned.stock n
  rw [stockFill_eq, Nat.sub_eq_zero_of_le hn, List.replicate_zero, List.append_nil] at howned ⊢
  exact ⟨howned, fun addr ha => (List.mem_append.1 ha).elim (h.fill addr) (hframes addr), h.tx,
    fun addr ha => (List.mem_append.1 ha).elim (h.stored addr) (hframes addr)⟩

/-- A packet of the batch. -/
theorem Framed.processing (h : Framed s) {rcvd i : ℕ} {t₁ t₂ : UInt64}
    (hpc : s.rxPc = .processing rcvd i) (hi : i < rcvd)
    (hstep : stepReceiver build iters t₁ t₂ s = some t) : Framed t := by
  have howned := h.toOwned.processing hpc hi hstep
  obtain ⟨desc, umem, exit, written, hdesc, -, hcases⟩ := h.processing_cases hpc hi hstep
  have hreal : frameOf desc.addr < numFrames := h.real _ (mem_trusted.2
    (Or.inr (Or.inr (Or.inl (unprocessed_eq_cons hpc hdesc ▸ List.mem_cons_self ..)))))
  rcases hcases with ⟨-, rfl⟩ | ⟨-, -, rfl⟩ | ⟨-, -, rfl⟩
  · exact h.keep howned (fun _ ha => ha) (fun _ hd => hd) rfl
  · exact h.push howned desc hreal rfl rfl rfl
  · exact h.keep howned (fun _ ha => ha) (fun _ hd => hd) rfl

/-- A packet of the sending thread. -/
theorem Framed.send (h : Framed s) (packet : Packet) (len : UInt32)
    (huse : s.tx.length < ringSize → s.fill.length + s.inUse < numFrames) :
    Framed (xskSendPacket s (.buffer packet) len true).2 := by
  rcases xskSendPacket_buffer s packet len with ⟨-, he⟩ | ⟨hlt, he⟩
  · rw [he]
    exact h
  · rw [he]
    have hreal := h.exists_frame (huse hlt)
    exact h.push (h.toOwned.submit _ _ _ _ _) ⟨_, len⟩ hreal rfl rfl rfl

/-- The rings hold frames before the first packet. -/
theorem framed_xskConfigureSocket : Framed xskConfigureSocket := by
  have hempty : Framed emptySocket :=
    ⟨owned_emptySocket, fun _ ha => absurd ha List.not_mem_nil,
      fun _ hd => absurd hd List.not_mem_nil, fun _ ha => absurd ha List.not_mem_nil⟩
  exact hempty.stock (by simp [emptySocket, numFrames, ringSize])

/-- **Only frames are stored** while each refill and each packet sent finds
frames left. -/
theorem framed_invariant : (socket build iters).Invariant FramesLeft Framed where
  init := framed_xskConfigureSocket
  step := by
    intro s a t h hg hstep
    have howned := owned_invariant.step h.toOwned trivial hstep
    cases steps_of_step hstep with
    | poll | interrupt | kernelReceive | kernelComplete =>
        exact h.keep howned (fun _ ha => ha) (fun _ hd => hd) rfl
    | refill t₁ t₂ rcvd hpc =>
        have hbegin : Framed { s with rxPc := .processing rcvd 0 } :=
          h.keep (h.begin hpc) (fun _ ha => ha) (fun _ hd => hd) rfl
        exact hbegin.stock (h.stock_le (hg rcvd hpc))
    | packet hpc hi hstep => exact h.processing hpc hi hstep
    | release t₁ t₂ rcvd i hpc hi =>
        exact (h.keep (h.release hpc hi) (fun _ ha => ha) (fun _ hd => hd) rfl).complete
    | send packet len => exact h.send packet len hg
    | complete hpc =>
        exact (h.keep h.toOwned.sent (fun _ ha => ha) (fun _ hd => hd) rfl).complete
    | kernelFill addr fill hfill =>
        exact h.keep howned (fun _ ha => hfill ▸ List.mem_cons_of_mem _ ha) (fun _ hd => hd) rfl
    | kernelTransmit desc tx htx =>
        exact h.keep howned (fun _ ha => ha) (fun _ hd => htx ▸ List.mem_cons_of_mem _ hd) rfl

/-- **Every address stored in the fill or tx ring is a frame**, in every run of
the client or of the server in which the refills and the packets sent find
frames left. -/
theorem frameOf_lt_of_reachableIf (h : (socket build iters).ReachableIf FramesLeft s) :
    ∀ addr ∈ s.stored, frameOf addr < numFrames :=
  (framed_invariant.holds h).stored

/-! ### Runs that are short enough -/

/-- The addresses a step takes off the fill ring, and the descriptors it submits. -/
def given (s t : State) : ℕ := s.fill.length - t.fill.length + (t.tx.length - s.tx.length)

/-- `complete_tx` takes nothing into use. -/
theorem Owned.completeTx_inUse_le (h : Owned s) :
    (completeTx s).inUse ≤ s.inUse ∧ (completeTx s).fill = s.fill := by
  rw [h.completeTx_eq]
  split
  · exact ⟨le_rfl, rfl⟩
  · refine ⟨?_, rfl⟩
    simp only [State.inUse, State.unprocessed, List.length_drop]
    omega

/-- **An address comes into use** off the fill ring or as a descriptor. -/
theorem Owned.step_inUse (h : Owned s) (hstep : (socket build iters).step s a = some t) :
    t.inUse ≤ s.inUse + given s t ∧ t.fill.length ≤ max s.fill.length ringSize := by
  cases steps_of_step hstep with
  | poll rcvd hpc =>
      refine ⟨?_, Nat.le_max_left ..⟩
      simp only [State.inUse, State.unprocessed, hpc, RxPc.processed]
      omega
  | refill t₁ t₂ rcvd hpc =>
      rw [stockFill_eq]
      refine ⟨?_, ?_⟩
      · simp only [State.inUse, State.unprocessed, hpc, RxPc.processed]
        omega
      · simp only [xskProdNbFree, List.length_append, List.length_take, List.length_replicate]
        omega
  | @packet t₁ t₂ rcvd i _ hpc hi hstep =>
      obtain ⟨desc, umem, exit, written, hdesc, -, hcases⟩ := h.processing_cases hpc hi hstep
      have hun : s.unprocessed.length = (s.rx.drop (i + 1)).length + 1 := by
        rw [unprocessed_eq_cons hpc hdesc, List.length_cons, List.length_map]
      simp only [State.unprocessed, hpc, RxPc.processed, List.length_map] at hun
      rcases hcases with ⟨-, rfl⟩ | ⟨-, -, rfl⟩ | ⟨-, -, rfl⟩ <;>
        refine ⟨?_, Nat.le_max_left ..⟩ <;>
        simp only [State.inUse, State.unprocessed, hpc, RxPc.processed, List.length_map,
          List.length_append, List.length_singleton, given] <;> omega
  | release t₁ t₂ rcvd i hpc hi =>
      obtain ⟨hle, hfill⟩ := (h.release hpc hi).completeTx_inUse_le
      have hprocessed : i ≤ rcvd := by simpa only [hpc, RxPc.processed, RxPc.rcvd] using h.processed
      refine ⟨hle.trans ?_, (congrArg List.length hfill).trans_le (Nat.le_max_left ..)⟩
      simp only [State.inUse, State.unprocessed, hpc, RxPc.processed, List.length_map,
        List.length_drop]
      omega
  | send packet len =>
      rcases xskSendPacket_buffer s packet len with ⟨-, he⟩ | ⟨-, he⟩
      · rw [he]
        exact ⟨Nat.le_add_right .., Nat.le_max_left ..⟩
      · rw [he]
        refine ⟨?_, Nat.le_max_left ..⟩
        simp only [State.inUse, State.unprocessed, given, List.length_append,
          List.length_singleton]
        omega
  | complete hpc =>
      obtain ⟨hle, hfill⟩ := h.sent.completeTx_inUse_le
      exact ⟨hle.trans (Nat.le_add_right ..),
        (congrArg List.length hfill).trans_le (Nat.le_max_left ..)⟩
  | interrupt => exact ⟨Nat.le_add_right .., Nat.le_max_left ..⟩
  | kernelFill addr fill hfill =>
      refine ⟨?_, ?_⟩
      · have hkernel : (if frameOf addr < numFrames then s.kernelRx ++ [addr]
            else s.kernelRx).length ≤ s.kernelRx.length + 1 := by
          split <;> simp
        simp only [State.inUse, State.unprocessed, given, hfill, List.length_cons] at hkernel ⊢
        omega
      · simp only [hfill, List.length_cons]
        omega
  | kernelReceive frame addr len packet hframe =>
      have hpos := List.length_pos_of_mem hframe
      refine ⟨?_, Nat.le_max_left ..⟩
      simp only [State.inUse, State.unprocessed, List.length_map, List.length_drop,
        List.length_append, List.length_singleton, List.length_erase_of_mem hframe]
      omega
  | kernelTransmit desc tx htx =>
      have hkernel : (if frameOf desc.addr < numFrames then s.kernelTx ++ [desc.addr]
          else s.kernelTx).length ≤ s.kernelTx.length + 1 := by
        split <;> simp
      refine ⟨?_, Nat.le_max_left ..⟩
      simp only [State.inUse, State.unprocessed, htx, List.length_cons] at hkernel ⊢
      omega
  | kernelComplete addr haddr =>
      have hpos := List.length_pos_of_mem haddr
      refine ⟨?_, Nat.le_max_left ..⟩
      simp only [State.inUse, State.unprocessed, List.length_append, List.length_singleton,
        List.length_erase_of_mem haddr]
      omega

/-- **A short run finds frames left**: while the kernel has taken, and the program has
submitted, fewer than 2048 addresses in all. -/
theorem framesLeft_of_given {n : ℕ} (hn : n < ringSize)
    (h : ((socket build iters).withTotal given).Reachable (s, n)) :
    (socket build iters).ReachableIf FramesLeft s := by
  have hR : numFrames = ringSize + ringSize := rfl
  have hready := ready_xskConfigureSocket
  have huse : xskConfigureSocket.inUse = 0 := by
    simp only [State.inUse, State.unprocessed, hready.kernelRx, hready.rx, hready.tx,
      hready.kernelTx, hready.comp, hready.lost, List.drop_nil, List.map_nil, List.length_nil]
  have hI : ((socket build iters).withTotal given).Invariant (fun _ _ => True) fun x =>
      x.2 < ringSize → (socket build iters).ReachableIf FramesLeft x.1 ∧ Owned x.1 ∧
        x.1.inUse ≤ x.2 ∧ x.1.fill.length ≤ ringSize := by
    refine System.withTotal_invariant (g := fun _ _ => True) (I := fun s n => n < ringSize →
      (socket build iters).ReachableIf FramesLeft s ∧ Owned s ∧ s.inUse ≤ n ∧
        s.fill.length ≤ ringSize)
      (fun _ => ⟨.init, owned_xskConfigureSocket, huse.le, hready.fill.le⟩) ?_
    intro s n a t h _ hstep hlt
    obtain ⟨hs, howned, huse, hfill⟩ := h (by omega)
    obtain ⟨huse', hfill'⟩ := howned.step_inUse hstep
    have hg : FramesLeft s a := by
      cases a with
      | receiver => exact fun _ _ => by omega
      | send => exact fun _ => by omega
      | _ => trivial
    exact ⟨hs.tail hg hstep, owned_invariant.step howned trivial hstep, by omega, by omega⟩
  exact (hI.holds h hn).1

/-- In such a run every address stored is a frame. -/
theorem frameOf_lt_of_given {n : ℕ} (hn : n < ringSize)
    (h : ((socket build iters).withTotal given).Reachable (s, n)) :
    ∀ addr ∈ s.stored, frameOf addr < numFrames :=
  (framed_invariant.holds (framesLeft_of_given hn h)).stored

/-- A run of the server that answers 2047 pings. -/
theorem frameOf_lt_of_reachableIf_rounds :
    ∃ s, (socket .server 2).ReachableIf FramesLeft s ∧ s.tx.length = 2047 ∧
      ∀ addr ∈ s.stored, frameOf addr < numFrames := by
  have hg : ∀ s a, Calm s → FramesLeft s a := by
    rintro s (_ | _ | _ | _ | _ | _ | _ | _ | _) hcalm
    case receiver => exact fun _ _ => hcalm.load
    case send => exact fun _ => hcalm.stack
    all_goals trivial
  obtain ⟨s, hs, hready⟩ := exists_rounds hg (show (1 : UInt64) < 2 by decide)
    (show 2047 < ringSize by decide)
  exact ⟨s, hs, hready.tx, frameOf_lt_of_reachableIf hs⟩

/-- **The sentinel is stored**: a state of the server in which an address given
to the kernel is no frame. -/
theorem exists_invalid_stored : ∃ s, (socket .server 2).Reachable s ∧
    invalidUmemFrame ∈ s.stored ∧ ¬ frameOf invalidUmemFrame < numFrames := by
  obtain ⟨s, hs, -, -, hstored⟩ := exists_overload (show (1 : UInt64) < 2 by decide)
  exact ⟨s, hs, hstored, frameOf_invalidUmemFrame⟩

end Xsk
end Xdp
end DetBypass
