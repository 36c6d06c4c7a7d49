/-
# What the UD server leaves behind

The server of `rdma/ud_pingpong.c` leaves its loop when `recv_idx` has reached
`iters`, and destroys the queue pair.  `parse_single_wc` posts the reply before
`main` updates `recv_idx`, and its completion can only be polled by the next
turn of the loop, which there is none of: `InFlight` carries a reply that is not
polled from the update that reached `iters` to the exit.  So the server never
exits with all bits of `pending_send` clear, unless `iters` is 0
(`clear_iff_of_done`), and a reply may not have been sent at all
(`exists_unsent`).
-/

import DetBypass.Rdma.UdOwnership

namespace DetBypass
namespace Rdma
namespace Ud

open Lib

variable {iters : UInt64} {s t : State} {q : Fin queueSize} {wc : Wc} {rest : List Wc}

/-- The reply from a buffer is posted and its completion not polled. -/
def State.Replying (s : State) (q : Fin queueSize) : Prop :=
  0 < tally SendWr.wrId s.sendQueue (pingpongSendWrid + q) +
    tally Wc.wrId s.cq (pingpongSendWrid + q)

/-- The update of `recv_idx` comes after a reply, and the loop ends after the
update. -/
structure InFlight (iters : UInt64) (s : State) : Prop where
  polling : s.pc = .poll → s.recvIdx < iters
  updating : ∀ q, s.pc = .update q → s.Replying q
  reached : iters ≤ s.recvIdx → iters ≠ 0 → ∃ q, s.Replying q
  idle : iters = 0 → (s.pc = .loop ∨ s.pc = .done) ∧ ∀ q, ¬ s.pendingSend.Mem q

/-- A reply that is not polled has its bit set. -/
theorem State.Replying.mem (h : s.Replying q) (howned : Owned s) : s.pendingSend.Mem q := by
  have hone := howned.once q
  unfold State.Replying at h
  rw [howned.pending q, State.sends, tally_outstanding]
  rw [State.sends, tally_outstanding] at hone
  omega

/-- A step of the HCA. -/
theorem InFlight.move (h : InFlight iters s) (hreplying : ∀ q, s.Replying q → t.Replying q)
    (hpc : t.pc = s.pc) (hidx : t.recvIdx = s.recvIdx) (hpending : t.pendingSend = s.pendingSend) :
    InFlight iters t where
  polling he := hidx ▸ h.polling (hpc ▸ he)
  updating q he := hreplying q (h.updating q (hpc ▸ he))
  reached hle hiters := (h.reached (hidx ▸ hle) hiters).imp hreplying
  idle hiters := by
    rw [hpc, hpending]
    exact h.idle hiters

/-- A step of the main thread inside the loop. -/
theorem InFlight.turn (h : InFlight iters s) (hloop : s.pc ≠ .loop) (hdone : s.pc ≠ .done)
    (hpolling : t.pc = .poll → t.recvIdx < iters) (hupdating : ∀ q, t.pc = .update q → t.Replying q)
    (hreached : iters ≤ t.recvIdx → ∃ q, t.Replying q) : InFlight iters t where
  polling := hpolling
  updating := hupdating
  reached hle _ := hreached hle
  idle hiters := ((h.idle hiters).1.elim hloop hdone).elim

/-- After a completion the thread neither polls nor updates. -/
theorem nextPc_ne : nextPc rest ≠ .poll ∧ ∀ q, nextPc rest ≠ .update q := by
  unfold nextPc
  split_ifs <;> exact ⟨Pc.noConfusion, fun _ => Pc.noConfusion⟩

/-- **Handling a completion** posts a reply or polls none. -/
theorem InFlight.handle (h : InFlight iters s) (howned : Owned s) (hpc : s.pc = .handle)
    (hwcs : s.wc = wc :: rest) (t₁ t₂ : UInt64) (ret : ℤ) :
    (handleWc .server t₁ t₂ ret s wc rest).pc = .failed ∨
      InFlight iters (handleWc .server t₁ t₂ ret s wc rest) := by
  have hmem : wc.wrId ∈ s.outstanding := by simp [State.outstanding, hwcs]
  have hiters : iters ≠ 0 := fun he => by
    have := (h.idle he).1
    simp [hpc] at this
  have hloop : s.pc ≠ .loop := hpc ▸ Pc.noConfusion
  have hdone : s.pc ≠ .done := hpc ▸ Pc.noConfusion
  rcases wrId_cases (howned.known _ hmem) with ⟨q, hwc⟩ | ⟨q, hwc⟩
  · refine (handleWc_send t₁ t₂ ret s rest hwc).imp_right fun he => ?_
    rw [he]
    exact h.turn hloop hdone (fun hp => absurd hp nextPc_ne.1)
      (fun r hr => absurd hr (nextPc_ne.2 r)) fun hle => h.reached hle hiters
  · refine (handleWc_recv t₁ t₂ ret s rest hwc (howned.not_mem (hwc ▸ hmem))).imp_right ?_
    rintro ⟨payloads, handled, he⟩
    rw [he]
    refine h.turn hloop hdone Pc.noConfusion (fun r hr => ?_) fun hle => ?_
    · obtain rfl := Pc.update.inj hr
      simp only [State.Replying, tally_append, tally_cons, if_true]
      omega
    · obtain ⟨r, hr⟩ := h.reached hle hiters
      refine ⟨r, ?_⟩
      simp only [State.Replying, tally_append] at hr ⊢
      omega

/-- **Every other step** polls no reply before the loop has ended. -/
theorem InFlight.moves (h : InFlight iters s) {a : Action} (hmoves : Moves iters s a t) :
    t.pc = .failed ∨ InFlight iters t := by
  cases hmoves with
  | loop hpc =>
      refine Or.inr ⟨fun hp => ?_, fun q hq => ?_, h.reached, fun hiters => ?_⟩
      · dsimp only at hp
        split_ifs at hp with hlt
        exact hlt.1
      · dsimp only at hq
        split_ifs at hq
      · refine ⟨Or.inr (if_neg fun hlt => ?_), (h.idle hiters).2⟩
        exact UInt64.not_lt_zero (hiters ▸ hlt.1)
  | poll n hpc =>
      have hlt := h.polling hpc
      refine Or.inr (h.turn (hpc ▸ Pc.noConfusion) (hpc ▸ Pc.noConfusion) (fun _ => hlt)
        (fun q hq => ?_) fun hle => absurd hlt (UInt64.not_lt.2 hle))
      dsimp only at hq
      split_ifs at hq
  | pollError => exact Or.inl rfl
  | update q hpc =>
      exact Or.inr (h.turn (hpc ▸ Pc.noConfusion) (hpc ▸ Pc.noConfusion)
        (fun hp => absurd hp nextPc_ne.1) (fun r hr => absurd hr (nextPc_ne.2 r))
        fun _ => ⟨q, h.updating q hpc⟩)
  | interrupt => exact Or.inr (h.move (fun _ hq => hq) rfl rfl rfl)
  | received wr success datagram hwr =>
      refine Or.inr (h.move (fun q hq => ?_) rfl rfl rfl)
      simp only [State.Replying, tally_append] at hq ⊢
      omega
  | sent wr success hwr =>
      refine Or.inr (h.move (fun q hq => ?_) rfl rfl rfl)
      have herase := tally_erase (f := SendWr.wrId) (b := pingpongSendWrid + (q : ℕ)) hwr
      unfold State.Replying at hq ⊢
      simp only [tally_append, tally_cons, tally_nil]
      omega

/-- **The loop ends with a reply in flight.** -/
theorem inFlight_invariant : (ud .server iters).Invariant (fun _ _ => True) fun s =>
    (s.pc = .failed ∨ Owned s ∧ s.pc ≠ .spin) ∧ (s.pc = .failed ∨ InFlight iters s) where
  init := by
    refine ⟨owned_invariant.init, Or.inr ⟨Pc.noConfusion, fun _ => Pc.noConfusion, ?_, ?_⟩⟩
    · intro hle hiters
      exact absurd (UInt64.le_antisymm hle UInt64.zero_le) hiters
    · exact fun _ => ⟨Or.inl rfl, fun q => Bitset.not_mem_init⟩
  step := by
    rintro s a t ⟨howned, hinFlight⟩ hguard hstep
    refine ⟨owned_invariant.step howned hguard hstep, ?_⟩
    replace hstep : step .server iters s a = some t := hstep
    rcases hinFlight with hpc | h
    · exact Or.inl (step_failed hpc hstep)
    cases serverStep_of_step hstep with
    | parse t₁ t₂ ret wc rest hpc hwcs =>
        have howned := (howned.resolve_left (hpc ▸ Pc.noConfusion)).1
        exact h.handle howned hpc hwcs t₁ t₂ ret
    | moves hmoves => exact h.moves hmoves

/-- **The server exits with a reply pending.**  When the loop has ended because
`recv_idx` reached `iters`, and until the queue pair is destroyed, all bits of
`pending_send` are clear only if there was no round to run; else the reply of
the round that ended the loop has not been polled. -/
theorem clear_iff_of_done (h : (ud .server iters).Reachable s) (hpc : s.pc = .done)
    (hle : iters ≤ s.recvIdx) : (∀ q, s.pendingSend.test q = 0) ↔ iters = 0 := by
  obtain ⟨howned, hinFlight⟩ := inFlight_invariant.holds h
  have howned := (howned.resolve_left (hpc ▸ Pc.noConfusion)).1
  have hinFlight := hinFlight.resolve_left (hpc ▸ Pc.noConfusion)
  constructor
  · intro hclear
    refine not_not.1 fun hiters => ?_
    obtain ⟨q, hq⟩ := hinFlight.reached hle hiters
    exact Bitset.test_ne_zero.2 (hq.mem howned) (hclear q)
  · intro hiters q
    exact not_not.1 fun htest => (hinFlight.idle hiters).2 q (Bitset.test_ne_zero.1 htest)

/-- A server that has handled its last ping. -/
theorem clear_iff_of_done_one : ∃ s, (ud .server 1).Reachable s ∧ s.pc = .done ∧
    ¬ ∀ q, s.pendingSend.test q = 0 := by
  have hrun : ((ud .server 1).exec initial [.loop, .received ⟨128, ⟨0, by decide⟩⟩ true
      (newPingpongPayload 1), .poll 1, .parse 5 6 0, .update, .loop]).map
      (fun s => (s.pc, s.recvIdx)) = some (.done, 1) := by
    decide +kernel
  obtain ⟨s, hs, he⟩ := Option.map_eq_some_iff.1 hrun
  obtain ⟨hpc, hidx⟩ := Prod.mk.inj he
  have hreach := System.reachable_of_exec hs
  refine ⟨s, hreach, hpc, fun hclear => ?_⟩
  have hzero := (clear_iff_of_done hreach hpc (hidx ▸ UInt64.le_refl _)).1 hclear
  exact absurd hzero (by decide)

/-- The server exits and the reply is still posted. -/
theorem exists_unsent : ∃ s, (ud .server 1).Reachable s ∧ s.pc = .done ∧ s.globalExit = false ∧
    1 ≤ s.recvIdx ∧ s.sendQueue ≠ [] ∧ s.pendingSend.test ⟨0, by decide⟩ ≠ 0 := by
  have hrun : ((ud .server 1).exec initial [.loop, .received ⟨128, ⟨0, by decide⟩⟩ true
      (newPingpongPayload 1), .poll 1, .parse 5 6 0, .update, .loop]).map
      (fun s => (s.pc, s.globalExit, s.recvIdx, s.sendQueue,
        s.pendingSend.test ⟨0, by decide⟩)) =
      some (.done, false, 1, [⟨0, some ⟨0, by decide⟩⟩], 1) := by
    decide +kernel
  obtain ⟨s, hs, he⟩ := Option.map_eq_some_iff.1 hrun
  obtain ⟨hpc, he⟩ := Prod.mk.inj he
  obtain ⟨hexit, he⟩ := Prod.mk.inj he
  obtain ⟨hidx, he⟩ := Prod.mk.inj he
  obtain ⟨hqueue, htest⟩ := Prod.mk.inj he
  refine ⟨s, System.reachable_of_exec hs, hpc, hexit, hidx ▸ UInt64.le_refl _, ?_, ?_⟩
  · simp [hqueue]
  · rw [htest]
    decide

end Ud
end Rdma
end DetBypass
