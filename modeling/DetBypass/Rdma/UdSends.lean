/-
# The sends of the UD client

`pp_post_send` of `rdma/ud_pingpong.c` sets the bit of `send_buf` before it knows
whether the post succeeds, and only a completion clears it.  If every post
succeeds the bit is set exactly while a send is outstanding, of which there is
one at most (`pending_of_reachableIf`); after a failed post the bit stays set
with nothing outstanding, `thread_send_packets` goes on, as the result is not
negative, and waits forever (`exists_stuck`).
-/

import DetBypass.Rdma.UdClient

namespace DetBypass
namespace Rdma
namespace Ud

open Lib

variable {build : Build} {iters : UInt64} {s t : State} {wc : Wc} {rest : List Wc} {a : Action}

/-! ### The bit of `send_buf` -/

/-- **What a step does to the sends:** it is one of the sending thread, or it
does nothing to them, or it handles the completion of one and clears its bit. -/
theorem step_sends (hdrained : Drained s) (hstep : step .client iters s a = some t) :
    (∃ now ret, a = .sender now ret ∧ Sends iters now ret s t) ∨
      t.senderPc = s.senderPc ∧
        (t.sends sendBit = s.sends sendBit ∧
            (t.pendingSend.Mem sendBit ↔ s.pendingSend.Mem sendBit) ∨
          s.sends sendBit = t.sends sendBit + 1 ∧ ¬ t.pendingSend.Mem sendBit) := by
  cases clientStep_of_step hstep with
  | sender hsends => exact Or.inl ⟨_, _, rfl, hsends⟩
  | moves hmoves =>
      refine Or.inr ⟨hmoves.senderPc_eq, Or.inl ⟨hmoves.tally_outstanding hdrained.empty _, ?_⟩⟩
      rw [hmoves.pendingSend_eq]
  | write | unposted => exact Or.inr ⟨rfl, Or.inl ⟨rfl, Iff.rfl⟩⟩
  | repost q hpc =>
      obtain ⟨wc, rest, hwcs, hwc⟩ := hdrained.atHand q (Or.inr hpc)
      refine Or.inr ⟨rfl, Or.inl ⟨?_, Iff.rfl⟩⟩
      simp [State.sends, tally_outstanding, hwcs, hwc]
  | parse hpc hwcs hhandles =>
      cases hhandles with
      | failed | stamped => exact Or.inr ⟨rfl, Or.inl ⟨rfl, Iff.rfl⟩⟩
      | sent q hok hwc =>
          refine Or.inr ⟨rfl, ?_⟩
          by_cases hq : sendBit = q
          · subst hq
            right
            refine ⟨?_, by simp⟩
            simp only [State.sends, tally_outstanding, hwcs, hwc, tally_cons, if_true]
            omega
          · left
            have hval : pingpongSendWrid + (q : ℕ) ≠ pingpongSendWrid + sendBit := fun he =>
              hq (Fin.ext (Nat.add_left_cancel he)).symm
            refine ⟨?_, by simp [hq]⟩
            simp only [State.sends, tally_outstanding, hwcs, hwc, tally_cons, if_neg hval]
            omega

/-- The sending thread has waited and not posted yet. -/
def State.ready (s : State) : Prop :=
  ∃ id, s.senderPc = .writing id ∨ s.senderPc = .posting id

/-- The bit is set exactly while a send is outstanding. -/
structure Pending (s : State) : Prop where
  le : s.sends sendBit ≤ 1
  bit : s.pendingSend.Mem sendBit ↔ s.sends sendBit = 1
  ready : s.ready → ¬ s.pendingSend.Mem sendBit

/-- Nothing is outstanding while the sending thread has not posted. -/
theorem Pending.sends_eq_zero (h : Pending s) (hready : s.ready) : s.sends sendBit = 0 := by
  have hle := h.le
  have hne := mt h.bit.2 (h.ready hready)
  omega

/-- Every post of the sending thread succeeds. -/
def PostsSucceed (s : State) : Action → Prop
  | .sender _ ret => s.posting → ret = 0
  | _ => True

instance (s : State) : (a : Action) → Decidable (PostsSucceed s a)
  | .sender _ ret => inferInstanceAs (Decidable (s.posting → ret = 0))
  | .loop | .poll _ | .pollError | .parse .. | .write | .repost _ | .update | .interrupt
  | .received .. | .sent .. => inferInstanceAs (Decidable True)

/-- Before the loop nothing is sent. -/
theorem sends_initial : initial.sends sendBit = 0 := by
  have hone := owned_initial.once sendBit
  have hne : initial.sends sendBit ≠ 1 := fun he =>
    Bitset.not_mem_init ((owned_initial.pending sendBit).2 he)
  omega

/-- **The bit follows the sends**, if every post succeeds. -/
theorem pending_invariant : (ud .client iters).Invariant PostsSucceed
    fun s => Drained s ∧ Pending s where
  init := ⟨drained_initial, by
    show Pending initial
    refine ⟨by rw [sends_initial]; exact Nat.zero_le 1, ?_, fun _ => Bitset.not_mem_init⟩
    rw [sends_initial]
    exact iff_of_false Bitset.not_mem_init Nat.zero_ne_one⟩
  step := by
    rintro s a t ⟨hdrained, h⟩ hguard hstep
    replace hstep : step .client iters s a = some t := hstep
    refine ⟨hdrained.step hstep, ?_⟩
    rcases step_sends hdrained hstep with ⟨now, ret, rfl, hsends⟩ | ⟨hpc, hmain⟩
    · cases hsends with
      | wait id hpc hid hbit => exact ⟨h.le, h.bit, fun _ => hbit⟩
      | write id hpc => exact ⟨h.le, h.bit, fun _ => h.ready ⟨id, Or.inl hpc⟩⟩
      | unposted id hpc hret => exact absurd (hguard ⟨id, hpc⟩) hret
      | post id hpc =>
          have hbit := h.ready ⟨id, Or.inr hpc⟩
          have hnone := h.sends_eq_zero ⟨id, Or.inr hpc⟩
          have hone : State.sends { s with
              pendingSend := s.pendingSend.set sendBit
              sendQueue := s.sendQueue ++ [⟨pingpongSendWrid + sendBit, none⟩]
              senderPc := .waiting (id + 1) } sendBit = 1 := by
            simp only [State.sends, tally_outstanding] at hnone
            simp only [State.sends, tally_outstanding, tally_append, tally_cons, tally_nil, if_true]
            omega
          refine ⟨hone.le, iff_of_true (by simp) hone, ?_⟩
          rintro ⟨id', he | he⟩ <;> cases he
    · rcases hmain with ⟨hsends, hbit⟩ | ⟨hsends, hclear⟩
      · exact ⟨hsends ▸ h.le, by rw [hbit, hsends]; exact h.bit, fun hready => by
          rw [hbit]
          refine h.ready ?_
          rwa [State.ready, ← hpc]⟩
      · have := h.le
        exact ⟨by omega, iff_of_false hclear (by omega), fun _ => hclear⟩

/-- A failed post leaves the bit set and nothing outstanding. -/
theorem Pending.unposted {now : UInt64} {ret : ℤ} (h : Pending s)
    (hstep : step .client iters s (.sender now ret) = some t)
    (hposting : s.posting) (hret : ret ≠ 0) :
    t.pendingSend.Mem sendBit ∧ t.sends sendBit = 0 := by
  obtain ⟨id, hpc⟩ := hposting
  have hnone := h.sends_eq_zero ⟨id, Or.inr hpc⟩
  cases step_sender hstep with
  | wait id' hpc' | write id' hpc' => simp [hpc] at hpc'
  | post id' hpc' hret' => exact absurd hret' hret
  | unposted => exact ⟨by simp, hnone⟩

/-- **The bit of the UD client says what is outstanding, if every post
succeeds.**  In every such run the bit is set exactly while a send that was
posted has a completion that is not handled; there is one at most, and handling
its completion clears the bit, which releases the wait of the sending thread.
The first post that fails leaves the bit set with nothing outstanding. -/
theorem pending_of_reachableIf (h : (ud .client iters).ReachableIf PostsSucceed s) :
    (s.pendingSend.test sendBit ≠ 0 ↔ s.sends sendBit = 1) ∧ s.sends sendBit ≤ 1 ∧
      (∀ t₁ t₂ ret t wc rest, step .client iters s (.parse t₁ t₂ ret) = some t →
        s.wc = wc :: rest → wc.success = true → wc.wrId = pingpongSendWrid + sendBit →
        t.pendingSend.test sendBit = 0) ∧
      (∀ now ret t, step .client iters s (.sender now ret) = some t →
        ¬ PostsSucceed s (.sender now ret) →
        t.pendingSend.test sendBit ≠ 0 ∧ t.sends sendBit = 0) := by
  obtain ⟨-, hpending⟩ := pending_invariant.holds h
  refine ⟨Bitset.test_ne_zero.trans hpending.bit, hpending.le, ?_, fun now ret t hstep hfails => ?_⟩
  case refine_2 =>
    obtain ⟨hposting, hret⟩ := Classical.not_imp.1 hfails
    have := hpending.unposted hstep hposting hret
    exact this.imp_left Bitset.test_ne_zero.2
  intro t₁ t₂ ret t wc rest hstep hwcs hok hwc
  obtain ⟨wc', rest', -, hwcs', hhandles⟩ := step_parse hstep
  obtain ⟨rfl, rfl⟩ := List.cons.inj (hwcs.symm.trans hwcs')
  refine not_not.1 fun htest => ?_
  have hmem := Bitset.test_ne_zero.1 htest
  cases hhandles with
  | failed hknown =>
      have := hknown hok
      rw [hwc] at this
      exact absurd this (by decide)
  | sent q hok hq =>
      obtain rfl : sendBit = q := Fin.ext (Nat.add_left_cancel (hwc.symm.trans hq))
      simp at hmem
  | stamped q hok hq => exact absurd (hwc.symm.trans hq).symm recvWrid_ne_sendWrid

/-- The first send of the client is outstanding. -/
theorem pending_of_reachableIf_one : ∃ s, (ud .client 10).ReachableIf PostsSucceed s ∧
    s.sendQueue.length = 1 ∧ s.sends sendBit = 1 := by
  have hrun : ((ud .client 10).execIf PostsSucceed initial
      [.sender 5 0, .sender 5 0, .sender 5 0]).map
      (fun s => (s.sendQueue.length, s.pendingSend.test sendBit)) = some (1, 1) := by
    decide +kernel
  obtain ⟨s, hs, he⟩ := Option.map_eq_some_iff.1 hrun
  obtain ⟨hlength, hbit⟩ := Prod.mk.inj he
  have hreach : (ud .client 10).ReachableIf PostsSucceed s := System.runIf_of_execIf hs
  exact ⟨s, hreach, hlength, (pending_of_reachableIf hreach).1.1 (hbit ▸ by decide)⟩

/-- The sending thread waits for a bit that no outstanding send will clear. -/
def Stuck (id : UInt64) (s : State) : Prop :=
  s.senderPc = .waiting id ∧ s.pendingSend.Mem sendBit ∧ s.sends sendBit = 0

/-- It waits forever. -/
theorem Stuck.step {id : UInt64} (h : Stuck id s) (hdrained : Drained s)
    (hstep : step .client iters s a = some t) : Stuck id t := by
  obtain ⟨hpc, hmem, hnone⟩ := h
  rcases step_sends hdrained hstep with ⟨now, ret, rfl, hsends⟩ | ⟨hpc', hmain⟩
  · cases hsends with
    | wait id hpc' hid hbit => exact absurd hmem hbit
    | write id hpc' | post id hpc' | unposted id hpc' => simp [hpc] at hpc'
  · rcases hmain with ⟨hsends, hbit⟩ | ⟨hsends, -⟩
    · exact ⟨hpc'.trans hpc, hbit.2 hmem, hsends.trans hnone⟩
    · omega

/-- **A failed post leaves the bit set**, and the sending thread waits forever:
the first post returns 12, and in no state of any run from there on is the bit
clear. -/
theorem exists_stuck : ∃ s, (ud .client 10).Reachable s ∧ s.sends sendBit = 0 ∧
    s.pendingSend.test sendBit ≠ 0 ∧ ∀ t, (ud .client 10).RunIf (fun _ _ => True) s t →
      t.senderPc = .waiting 2 ∧ t.pendingSend.test sendBit ≠ 0 := by
  have hrun : ((ud .client 10).exec initial [.sender 5 0, .sender 5 0, .sender 5 12]).map
      (fun s => (s.senderPc, s.pendingSend.test sendBit, s.sends sendBit)) =
      some (.waiting 2, 1, 0) := by
    decide +kernel
  obtain ⟨s, hs, he⟩ := Option.map_eq_some_iff.1 hrun
  obtain ⟨hpc, he⟩ := Prod.mk.inj he
  obtain ⟨hbit, hnone⟩ := Prod.mk.inj he
  have hdrained : Drained s := (System.reachable_of_exec hs).preserves (I := Drained)
    (fun h _ hstep => h.step hstep) drained_initial
  have hmem : s.pendingSend.Mem sendBit := Bitset.test_ne_zero.1 (hbit ▸ by decide)
  refine ⟨s, System.reachable_of_exec hs, hnone, Bitset.test_ne_zero.2 hmem, fun t hrun => ?_⟩
  have h : Drained t ∧ Stuck 2 t := hrun.preserves (I := fun s => Drained s ∧ Stuck 2 s)
    (fun h _ hstep => ⟨h.1.step hstep, h.2.step h.1 hstep⟩) ⟨hdrained, hpc, hmem, hnone⟩
  exact ⟨h.2.1, Bitset.test_ne_zero.2 h.2.2.1⟩

end Ud
end Rdma
end DetBypass
