/-
# The client of the UD pingpong, step by step

What a completion does to the client of `rdma/ud_pingpong.c`, said once
(`Handles`): it ends the loop at an error; a send completion clears its bit; a
receive completion gets its last reading.  The payload is written in the next step of
the main thread and its buffer posted in the one after it, or the loop ends.  Every
other step is one of the sending thread (`Sends`) or a move, and the invariants of the
client are proved by these cases (`ClientStep`).

`Drained` is what both builds keep of the array `wc`: it is empty at the loop
condition and at the poll, so a poll drops no completion.
-/

import DetBypass.Rdma.UdOwnership

namespace DetBypass
namespace Rdma
namespace Ud

open Lib

variable {build : Build} {iters : UInt64} {s t : State} {q : Fin queueSize} {wc : Wc}
  {rest : List Wc} {t₁ t₂ : UInt64} {ret : ℤ}

/-- The payload of a completion gets its last reading. -/
def State.stamp (s : State) (wc : Wc) (q : Fin queueSize) (now : UInt64) : State :=
  { s with
    handled := s.handled ++ wc.datagram.toList
    recvPayloads := Function.update s.recvPayloads q ((s.recvPayloads q).setTs 3 now) }

/-- What handling a completion does to the client. -/
inductive Handles (now : UInt64) (s : State) (wc : Wc) (rest : List Wc) : State → Prop
  | failed (h : wc.success = true → pingpongRecvWrid + queueSize ≤ wc.wrId) :
      Handles now s wc rest { s with pc := .failed }
  | sent (q : Fin queueSize) (hok : wc.success = true) (hwc : wc.wrId = pingpongSendWrid + q) :
      Handles now s wc rest
        { s with pendingSend := s.pendingSend.clear q, wc := rest, pc := nextPc rest }
  | stamped (q : Fin queueSize) (hok : wc.success = true) (hwc : wc.wrId = pingpongRecvWrid + q) :
      Handles now s wc rest { s.stamp wc q now with pc := .write q }

/-- **Handling a completion** is one of the three. -/
theorem handles_handleWc (t₁ t₂ : UInt64) (ret : ℤ) (s : State) (wc : Wc) (rest : List Wc) :
    Handles t₂ s wc rest (handleWc .client t₁ t₂ ret s wc rest) := by
  have hrecv : pingpongRecvWrid = queueSize := rfl
  have hsendid : pingpongSendWrid = 0 := rfl
  by_cases hok : wc.success = true
  case neg =>
    rw [Bool.not_eq_true] at hok
    have he : handleWc .client t₁ t₂ ret s wc rest = { s with pc := .failed } := by
      simp [handleWc, parseSingleWc, hok]
    rw [he]
    exact .failed fun h => absurd h (by rw [hok]; decide)
  have hok' : ¬ wc.success = false := by simp [hok]
  by_cases hknown : pingpongRecvWrid + queueSize ≤ wc.wrId
  · have he : handleWc .client t₁ t₂ ret s wc rest = { s with pc := .failed } := by
      simp [handleWc, parseSingleWc, hok', hknown]
    rw [he]
    exact .failed fun _ => hknown
  rcases wrId_cases (Nat.lt_of_not_le hknown) with ⟨q, hq⟩ | ⟨q, hq⟩
  · have hlt := q.isLt
    have hsend : wc.wrId < pingpongSendWrid + queueSize := by omega
    have hno : ¬ pingpongRecvWrid ≤ wc.wrId := by omega
    have hval : wc.wrId - pingpongSendWrid = q := by omega
    have he : handleWc .client t₁ t₂ ret s wc rest =
        { s with pendingSend := s.pendingSend.clear q, wc := rest, pc := nextPc rest } := by
      simp [handleWc, parseSingleWc, hok', hknown, hsend, hval, hno]
    rw [he]
    exact .sent q hok hq
  · have hlt := q.isLt
    have hidx : ∀ h, (⟨wc.wrId - pingpongRecvWrid, h⟩ : Fin queueSize) = q := fun h =>
      Fin.ext (by dsimp only; omega)
    have hsend : ¬ wc.wrId < pingpongSendWrid + queueSize := by omega
    have hyes : pingpongRecvWrid ≤ wc.wrId ∧ wc.wrId - pingpongRecvWrid < queueSize := by omega
    have he : handleWc .client t₁ t₂ ret s wc rest = { s.stamp wc q t₂ with pc := .write q } := by
      simp [handleWc, parseSingleWc, hok', hknown, hsend, hidx, hyes, State.stamp]
    rw [he]
    exact .stamped q hok hq

/-- A step that handles a completion. -/
theorem step_parse (hstep : step .client iters s (.parse t₁ t₂ ret) = some t) :
    ∃ wc rest, s.pc = .handle ∧ s.wc = wc :: rest ∧ Handles t₂ s wc rest t := by
  simp only [step] at hstep
  split at hstep <;> cases hstep
  rename_i wc rest hpc hwc
  exact ⟨wc, rest, hpc, hwc, handles_handleWc t₁ t₂ ret s wc rest⟩

/-- There is an entry. -/
theorem queueSize_pos : 0 < queueSize := by decide

/-- The bit of `pending_send` that the client uses. -/
def sendBit : Fin queueSize := ⟨0, queueSize_pos⟩

/-- The sending thread is about to post. -/
def State.posting (s : State) : Prop := ∃ id, s.senderPc = .posting id

instance (s : State) : Decidable s.posting :=
  match h : s.senderPc with
  | .posting id => isTrue ⟨id, h⟩
  | .waiting _ | .writing _ | .stopped => isFalse fun ⟨_, h'⟩ => by simp [h] at h'

/-- What a step of the sending thread does. -/
inductive Sends (iters now : UInt64) (ret : ℤ) (s : State) : State → Prop
  | wait (id : UInt64) (hpc : s.senderPc = .waiting id) (hid : id ≤ iters)
      (hbit : ¬ s.pendingSend.Mem sendBit) :
      Sends iters now ret s { s with senderPc := .writing id }
  | write (id : UInt64) (hpc : s.senderPc = .writing id) :
      Sends iters now ret s { s with
        sendPayload := (newPingpongPayload id).setTs 0 now, senderPc := .posting id }
  | post (id : UInt64) (hpc : s.senderPc = .posting id) (hret : ret = 0) :
      Sends iters now ret s { s with
        pendingSend := s.pendingSend.set sendBit
        sendQueue := s.sendQueue ++ [⟨pingpongSendWrid + sendBit, none⟩]
        senderPc := .waiting (id + 1) }
  | unposted (id : UInt64) (hpc : s.senderPc = .posting id) (hret : ret ≠ 0) :
      Sends iters now ret s { s with
        pendingSend := s.pendingSend.set sendBit
        senderPc := if ret < 0 then .stopped else .waiting (id + 1) }

/-- **A step of the sending thread** is one of the four. -/
theorem step_sender {now : UInt64} (hstep : step .client iters s (.sender now ret) = some t) :
    Sends iters now ret s t := by
  simp only [step, if_true, stepSender] at hstep
  split at hstep
  case h_1 id hpc =>
    split at hstep <;> cases hstep
    rename_i hguard
    exact .wait id hpc hguard.1 fun hmem => Bitset.test_ne_zero.2 hmem hguard.2
  case h_2 id hpc =>
    cases hstep
    exact .write id hpc
  case h_3 id hpc =>
    by_cases hret : ret = 0
    · subst hret
      cases hstep
      exact .post id hpc rfl
    · simp only [ppPostSend, if_neg hret] at hstep
      cases hstep
      exact .unposted id hpc hret
  case h_4 => cases hstep

/-- What a step of the client does. -/
inductive ClientStep (iters : UInt64) (s : State) : Action → State → Prop
  | parse {t₁ t₂ : UInt64} {ret : ℤ} {wc : Wc} {rest : List Wc} {t : State}
      (hpc : s.pc = .handle) (hwcs : s.wc = wc :: rest) (hhandles : Handles t₂ s wc rest t) :
      ClientStep iters s (.parse t₁ t₂ ret) t
  | write (q : Fin queueSize) (hpc : s.pc = .write q) :
      ClientStep iters s .write
        { s with written := s.written ++ [s.recvPayloads q], pc := .repost q }
  | repost (q : Fin queueSize) (hpc : s.pc = .repost q) :
      ClientStep iters s (.repost 0) { s with
        recvQueue := s.recvQueue ++ [⟨pingpongRecvWrid + q, q⟩]
        wc := s.wc.tail, pc := .update q }
  | unposted (q : Fin queueSize) (ret : ℤ) (hpc : s.pc = .repost q) (hret : ret ≠ 0) :
      ClientStep iters s (.repost ret) { s with pc := .failed }
  | sender {now : UInt64} {ret : ℤ} {t : State} (hsends : Sends iters now ret s t) :
      ClientStep iters s (.sender now ret) t
  | moves {a : Action} {t : State} (hmoves : Moves iters s a t) : ClientStep iters s a t

/-- **A step of the client** handles a completion, writes a record, posts its buffer,
is one of the sending thread or is a move. -/
theorem clientStep_of_step {a : Action} (hstep : step .client iters s a = some t) :
    ClientStep iters s a t := by
  cases a with
  | parse t₁ t₂ ret =>
      obtain ⟨wc, rest, hpc, hwcs, hhandles⟩ := step_parse hstep
      exact .parse hpc hwcs hhandles
  | sender now ret => exact .sender (step_sender hstep)
  | write =>
      simp only [step] at hstep
      split at hstep <;> cases hstep
      rename_i q _ hpc
      exact .write q hpc
  | repost ret =>
      simp only [step] at hstep
      split at hstep <;> cases hstep
      rename_i q _ hpc
      by_cases hret : ret = 0
      · subst hret
        exact .repost q hpc
      · simp only [repost, ppPostRecv, if_pos hret]
        exact .unposted q ret hpc hret
  | _ => exact .moves (moves_of_step id hstep)

/-! ### The polled completions -/

/-- Nothing polled is left at the loop condition and at the poll, and while a pong is
written and its buffer posted its completion is the first of those left. -/
structure Drained (s : State) : Prop where
  empty : s.pc = .loop ∨ s.pc = .poll → s.wc = []
  atHand : ∀ q, s.pc = .write q ∨ s.pc = .repost q →
    ∃ wc rest, s.wc = wc :: rest ∧ wc.wrId = pingpongRecvWrid + q

/-- A place where no pong is at hand. -/
theorem drained_of_ne (hempty : t.pc = .loop ∨ t.pc = .poll → t.wc = [])
    (hne : ∀ q, t.pc ≠ .write q ∧ t.pc ≠ .repost q) : Drained t :=
  ⟨hempty, fun q hpc => (hpc.elim (hne q).1 (hne q).2).elim⟩

/-- The next completion is not begun in the middle. -/
theorem nextPc_ne_write (rest : List Wc) (q : Fin queueSize) :
    nextPc rest ≠ .write q ∧ nextPc rest ≠ .repost q := by
  unfold nextPc
  split_ifs <;> exact ⟨Pc.noConfusion, Pc.noConfusion⟩

/-- A move does not take the main thread to a pong or away from it. -/
theorem Moves.drained_client {a : Action} (hmoves : Moves iters s a t) (h : Drained s) :
    Drained t := by
  have hempty := hmoves.drained h.empty
  cases hmoves with
  | loop | poll =>
      refine drained_of_ne hempty fun q => ?_
      dsimp only
      split_ifs <;> exact ⟨Pc.noConfusion, Pc.noConfusion⟩
  | pollError => exact drained_of_ne hempty fun q => ⟨Pc.noConfusion, Pc.noConfusion⟩
  | update => exact drained_of_ne hempty (nextPc_ne_write _)
  | interrupt | received | sent => exact ⟨hempty, h.atHand⟩

/-- The client drains its completions. -/
theorem Drained.step {a : Action} (h : Drained s) (hstep : step .client iters s a = some t) :
    Drained t := by
  cases clientStep_of_step hstep with
  | @parse _ _ _ wc rest _ hpc hwcs hhandles =>
      cases hhandles with
      | failed =>
          exact drained_of_ne (fun hpc => hpc.elim Pc.noConfusion Pc.noConfusion)
            fun q => ⟨Pc.noConfusion, Pc.noConfusion⟩
      | sent => exact drained_of_ne nextPc_drained (nextPc_ne_write _)
      | stamped q hok hwc =>
          refine ⟨fun hpc => hpc.elim Pc.noConfusion Pc.noConfusion,
            fun r hr => ⟨wc, rest, hwcs, ?_⟩⟩
          obtain rfl := Pc.write.inj (hr.resolve_right Pc.noConfusion)
          exact hwc
  | write q hpc =>
      refine ⟨fun hpc => hpc.elim Pc.noConfusion Pc.noConfusion, fun r hr => ?_⟩
      obtain rfl := Pc.repost.inj (hr.resolve_left Pc.noConfusion)
      exact h.atHand q (Or.inl hpc)
  | repost | unposted =>
      exact drained_of_ne (fun hpc => hpc.elim Pc.noConfusion Pc.noConfusion)
        fun q => ⟨Pc.noConfusion, Pc.noConfusion⟩
  | sender hsends => cases hsends <;> exact ⟨h.empty, h.atHand⟩
  | moves hmoves => exact hmoves.drained_client h

/-- Before the loop there is nothing to handle. -/
theorem drained_initial : Drained initial :=
  drained_of_ne (fun _ => rfl) fun _ => ⟨Pc.noConfusion, Pc.noConfusion⟩

end Ud
end Rdma
end DetBypass
