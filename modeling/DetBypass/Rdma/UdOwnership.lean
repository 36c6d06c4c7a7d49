/-
# Who owns the buffers of the UD server

The server of `rdma/ud_pingpong.c` keeps the owner of each of its `QUEUE_SIZE`
buffers in the queues, in the ids of the work requests and in `pending_send`.
`Owned` ties the three: for each queue index exactly one work request is posted
or has a completion that is not handled, a receive or a send, and its bit is set
exactly when it is a send.  Handling a send completion turns the send into a
receive, handling a receive completion the receive into a send, and everything
else moves work requests between the queues and the completions (`Moves`).
-/

import DetBypass.Rdma.Ud
import DetBypass.Lib.Tally

namespace DetBypass
namespace Rdma
namespace Ud

open Lib

variable {build : Build} {iters : UInt64} {s t : State} {a : Action} {q r : Fin queueSize}
  {wc : Wc} {rest : List Wc}

/-- The ids of the work requests that are posted or have a completion that is
not handled. -/
def State.outstanding (s : State) : List ℕ :=
  s.recvQueue.map RecvWr.wrId ++ (s.sendQueue.map SendWr.wrId ++ (s.cq ++ s.wc).map Wc.wrId)

/-- How often a receive for the index is posted or its completion queued. -/
def State.receives (s : State) (q : Fin queueSize) : ℕ :=
  tally id s.outstanding (pingpongRecvWrid + q)

/-- How often a send for the index is posted or its completion queued. -/
def State.sends (s : State) (q : Fin queueSize) : ℕ :=
  tally id s.outstanding (pingpongSendWrid + q)

/-- Each index has one work request, and its bit says which. -/
structure Owned (s : State) : Prop where
  once : ∀ q, s.receives q + s.sends q = 1
  pending : ∀ q, s.pendingSend.Mem q ↔ s.sends q = 1
  known : ∀ i ∈ s.outstanding, i < pingpongRecvWrid + queueSize
  recvWr : ∀ wr ∈ s.recvQueue, wr.wrId = pingpongRecvWrid + wr.buffer
  sendWr : ∀ wr ∈ s.sendQueue, ∃ q : Fin queueSize, wr = ⟨pingpongSendWrid + q, some q⟩
  drained : s.pc = .loop ∨ s.pc = .poll → s.wc = []

/-! ### The ids -/

/-- No receive has the id of a send. -/
@[simp] theorem recvWrid_ne_sendWrid :
    pingpongRecvWrid + (q : ℕ) ≠ pingpongSendWrid + (r : ℕ) := by
  have hr := r.isLt
  have hrecv : pingpongRecvWrid = queueSize := rfl
  have hsend : pingpongSendWrid = 0 := rfl
  omega

/-- And no send that of a receive. -/
@[simp] theorem sendWrid_ne_recvWrid :
    pingpongSendWrid + (q : ℕ) ≠ pingpongRecvWrid + (r : ℕ) :=
  recvWrid_ne_sendWrid.symm

/-- An id is that of a send or of a receive. -/
theorem wrId_cases {i : ℕ} (h : i < pingpongRecvWrid + queueSize) :
    (∃ q : Fin queueSize, i = pingpongSendWrid + q) ∨
      ∃ q : Fin queueSize, i = pingpongRecvWrid + q := by
  have hrecv : pingpongRecvWrid = queueSize := rfl
  have hsend : pingpongSendWrid = 0 := rfl
  rcases Nat.lt_or_ge i queueSize with hlt | hge
  · exact Or.inl ⟨⟨i, hlt⟩, by dsimp only; omega⟩
  · exact Or.inr ⟨⟨i - queueSize, by omega⟩, by dsimp only; omega⟩

/-! ### Handling a completion -/

/-- The completion of a send. -/
theorem handleWc_send (t₁ t₂ : UInt64) (ret : ℤ) (s : State) (rest : List Wc)
    (hwc : wc.wrId = pingpongSendWrid + q) :
    (handleWc .server t₁ t₂ ret s wc rest).pc = .failed ∨
      handleWc .server t₁ t₂ ret s wc rest = { s with
        pendingSend := s.pendingSend.clear q
        recvQueue := s.recvQueue ++ [⟨pingpongRecvWrid + q, q⟩]
        wc := rest, pc := nextPc rest } := by
  have hrecv : pingpongRecvWrid = queueSize := rfl
  have hq := q.isLt
  have hknown : ¬ pingpongRecvWrid + queueSize ≤ wc.wrId := by
    have hsend : pingpongSendWrid = 0 := rfl
    omega
  have hsend : wc.wrId < pingpongSendWrid + queueSize := by omega
  have hno : ¬ pingpongRecvWrid ≤ wc.wrId := by
    have hsend : pingpongSendWrid = 0 := rfl
    omega
  have hval : wc.wrId - pingpongSendWrid = q := by omega
  by_cases hs : wc.success = false
  · simp [handleWc, parseSingleWc, hs]
  · by_cases hret : ret = 0
    · right
      simp [handleWc, parseSingleWc, hs, hknown, hsend, hval, hno, ppPostRecv, hret]
    · left
      simp [handleWc, parseSingleWc, hs, hknown, hsend, ppPostRecv, hret]

/-- The completion of a receive. -/
theorem handleWc_recv (t₁ t₂ : UInt64) (ret : ℤ) (s : State) (rest : List Wc)
    (hwc : wc.wrId = pingpongRecvWrid + q) (hbit : ¬ s.pendingSend.Mem q) :
    (handleWc .server t₁ t₂ ret s wc rest).pc = .failed ∨
      ∃ payloads handled, handleWc .server t₁ t₂ ret s wc rest = { s with
        pendingSend := s.pendingSend.set q, recvPayloads := payloads, handled := handled
        sendQueue := s.sendQueue ++ [⟨pingpongSendWrid + q, some q⟩]
        wc := rest, pc := .update q } := by
  have hrecv : pingpongRecvWrid = queueSize := rfl
  have hsendid : pingpongSendWrid = 0 := rfl
  have hq := q.isLt
  have hidx : ∀ h, (⟨wc.wrId - pingpongRecvWrid, h⟩ : Fin queueSize) = q := fun h =>
    Fin.ext (by dsimp only; omega)
  have hknown : ¬ pingpongRecvWrid + queueSize ≤ wc.wrId := by omega
  have hsend : ¬ wc.wrId < pingpongSendWrid + queueSize := by omega
  have hyes : pingpongRecvWrid ≤ wc.wrId ∧ wc.wrId - pingpongRecvWrid < queueSize := by omega
  have htest : s.pendingSend.test q = 0 := not_not.1 fun h => hbit (Bitset.test_ne_zero.1 h)
  by_cases hs : wc.success = false
  · simp [handleWc, parseSingleWc, hs]
  · by_cases hret : ret = 0
    · right
      simp [handleWc, parseSingleWc, hs, hknown, hsend, hidx, hyes, htest, ppPostSend, hret]
    · left
      simp [handleWc, parseSingleWc, hs, hknown, hsend, hidx, htest, ppPostSend, hret]

/-! ### The moves -/

/-- The ids in each place. -/
theorem tally_outstanding (s : State) (i : ℕ) : tally id s.outstanding i =
    tally RecvWr.wrId s.recvQueue i + tally SendWr.wrId s.sendQueue i + tally Wc.wrId s.cq i +
      tally Wc.wrId s.wc i := by
  simp only [State.outstanding, tally_append, List.map_append, tally_map, Function.id_comp]
  omega

/-- The thread is back at the loop when all completions are handled. -/
theorem nextPc_drained : nextPc rest = .loop ∨ nextPc rest = .poll → rest = [] := by
  rw [nextPc]
  split <;> simp_all

/-- A step of the main thread that handles no completion, or of the HCA. -/
inductive Moves (iters : UInt64) (s : State) : Action → State → Prop
  | loop (hpc : s.pc = .loop) : Moves iters s .loop { s with
      pc := if s.recvIdx < iters ∧ s.globalExit = false then .poll else .done }
  | poll (n : ℕ) (hpc : s.pc = .poll) (hn : n ≤ 2 ∧ n ≤ s.cq.length) :
      Moves iters s (.poll n) { s with
        cq := s.cq.drop n
        wc := s.cq.take n
        pc := if s.globalExit then .done else if n = 0 then .poll else .handle }
  | pollError (hpc : s.pc = .poll) : Moves iters s .pollError { s with pc := .failed }
  | update (q : Fin queueSize) (hpc : s.pc = .update q) : Moves iters s .update { s with
      recvIdx := max s.recvIdx (s.recvPayloads q).id, pc := nextPc s.wc }
  | interrupt : Moves iters s .interrupt { s with globalExit := true }
  | received (wr : RecvWr) (success : Bool) (datagram : PingpongPayload)
      (hwr : wr ∈ s.recvQueue) : Moves iters s (.received wr success datagram) { s with
        recvQueue := s.recvQueue.erase wr
        recvPayloads := Function.update s.recvPayloads wr.buffer datagram
        cq := s.cq ++ [⟨wr.wrId, success, some datagram⟩] }
  | sent (wr : SendWr) (success : Bool) (hwr : wr ∈ s.sendQueue) :
      Moves iters s (.sent wr success) { s with
        sendQueue := s.sendQueue.erase wr
        cq := s.cq ++ [⟨wr.wrId, success, none⟩] }

/-- The step is one of `parse_single_wc` or of the sending thread. -/
def Action.Handles : Action → Prop
  | .parse .. | .write | .repost _ | .sender .. => True
  | _ => False

/-- **Every other step** handles a completion or is one of the sending thread. -/
theorem moves_of_step (hhandles : ¬ a.Handles) (hstep : step build iters s a = some t) :
    Moves iters s a t := by
  cases a with
  | parse | write | repost | sender => exact absurd trivial hhandles
  | interrupt =>
      cases hstep
      exact .interrupt
  | loop =>
      simp only [step] at hstep
      split at hstep <;> cases hstep
      exact .loop ‹_›
  | poll n =>
      simp only [step] at hstep
      split at hstep <;> cases hstep
      rename_i hpoll
      exact .poll n hpoll.1 hpoll.2
  | pollError =>
      simp only [step] at hstep
      split at hstep <;> cases hstep
      exact .pollError ‹_›
  | update =>
      simp only [step] at hstep
      split at hstep <;> cases hstep
      exact .update _ ‹_›
  | received wr success datagram =>
      simp only [step] at hstep
      split at hstep <;> cases hstep
      exact .received wr success datagram ‹_›
  | sent wr success =>
      simp only [step] at hstep
      split at hstep <;> cases hstep
      exact .sent wr success ‹_›

namespace Moves

/-- Such a step leaves the bits. -/
theorem pendingSend_eq (h : Moves iters s a t) : t.pendingSend = s.pendingSend := by
  cases h <;> rfl

/-- The sending thread. -/
theorem senderPc_eq (h : Moves iters s a t) : t.senderPc = s.senderPc := by
  cases h <;> rfl

/-- The receives handled. -/
theorem handled_eq (h : Moves iters s a t) : t.handled = s.handled := by
  cases h <;> rfl

/-- And what was written. -/
theorem written_eq (h : Moves iters s a t) : t.written = s.written := by
  cases h <;> rfl

/-- It posts no receive. -/
theorem recvQueue_subset (h : Moves iters s a t) : ∀ wr ∈ t.recvQueue, wr ∈ s.recvQueue := by
  cases h with
  | received => exact fun _ hwr => List.mem_of_mem_erase hwr
  | _ => exact fun _ hwr => hwr

/-- And no send. -/
theorem sendQueue_subset (h : Moves iters s a t) : ∀ wr ∈ t.sendQueue, wr ∈ s.sendQueue := by
  cases h with
  | sent => exact fun _ hwr => List.mem_of_mem_erase hwr
  | _ => exact fun _ hwr => hwr

/-- Each work request stays in one place. -/
theorem tally_outstanding (h : Moves iters s a t)
    (hdrained : s.pc = .loop ∨ s.pc = .poll → s.wc = []) (i : ℕ) :
    tally id t.outstanding i = tally id s.outstanding i := by
  cases h with
  | loop | pollError | update | interrupt => rfl
  | poll n hpc =>
      have hsplit := tally_take_add_drop (f := Wc.wrId) (l := s.cq) (b := i) n
      simp only [Ud.tally_outstanding, hdrained (Or.inr hpc), tally_nil]
      omega
  | received wr success datagram hwr =>
      have herase := tally_erase (f := RecvWr.wrId) (b := i) hwr
      simp only [Ud.tally_outstanding, tally_append, tally_cons, tally_nil]
      omega
  | sent wr success hwr =>
      have herase := tally_erase (f := SendWr.wrId) (b := i) hwr
      simp only [Ud.tally_outstanding, tally_append, tally_cons, tally_nil]
      omega

/-- No completion is left at the loop condition and at the poll. -/
theorem drained (h : Moves iters s a t) (hdrained : s.pc = .loop ∨ s.pc = .poll → s.wc = []) :
    t.pc = .loop ∨ t.pc = .poll → t.wc = [] := by
  cases h with
  | loop hpc => exact fun _ => hdrained (Or.inl hpc)
  | poll n hpc =>
      intro hnext
      dsimp only at hnext ⊢
      split_ifs at hnext with hexit hn
      · simp at hnext
      · rw [hn, List.take_zero]
      · simp at hnext
  | pollError => exact fun hnext => by simp at hnext
  | update => exact nextPc_drained
  | interrupt | received | sent => exact hdrained

/-- After a failure the main thread does nothing. -/
theorem pc_failed (h : Moves iters s a t) (hpc : s.pc = .failed) : t.pc = .failed := by
  cases h with
  | loop hpc' | poll n hpc' | update q hpc' => simp [hpc] at hpc'
  | pollError => rfl
  | interrupt | received | sent => exact hpc

/-- The wait of `parse_single_wc` is elsewhere. -/
theorem pc_ne_spin (h : Moves iters s a t) (hspin : s.pc ≠ .spin) : t.pc ≠ .spin := by
  cases h with
  | loop =>
      dsimp only
      split <;> exact Pc.noConfusion
  | poll =>
      dsimp only
      split_ifs <;> exact Pc.noConfusion
  | pollError => exact Pc.noConfusion
  | update =>
      dsimp only [nextPc]
      split <;> exact Pc.noConfusion
  | interrupt | received | sent => exact hspin

end Moves

/-- What a step of the server does. -/
inductive ServerStep (iters : UInt64) (s : State) : Action → State → Prop
  | parse (t₁ t₂ : UInt64) (ret : ℤ) (wc : Wc) (rest : List Wc) (hpc : s.pc = .handle)
      (hwcs : s.wc = wc :: rest) :
      ServerStep iters s (.parse t₁ t₂ ret) (handleWc .server t₁ t₂ ret s wc rest)
  | moves {a : Action} {t : State} (hmoves : Moves iters s a t) : ServerStep iters s a t

/-- **A step of the server** handles a completion or is a move. -/
theorem serverStep_of_step (hstep : step .server iters s a = some t) :
    ServerStep iters s a t := by
  cases a with
  | parse t₁ t₂ ret =>
      simp only [step] at hstep
      split at hstep <;> cases hstep
      exact .parse t₁ t₂ ret _ _ ‹_› ‹_›
  | write | repost | sender => cases hstep
  | _ => exact .moves (moves_of_step id hstep)

/-- A step that only moves work requests between the queues and the
completions. -/
theorem Owned.move (h : Owned s)
    (htally : ∀ i, tally id t.outstanding i = tally id s.outstanding i)
    (hpending : t.pendingSend = s.pendingSend) (hrecv : ∀ wr ∈ t.recvQueue, wr ∈ s.recvQueue)
    (hsend : ∀ wr ∈ t.sendQueue, wr ∈ s.sendQueue)
    (hdrained : t.pc = .loop ∨ t.pc = .poll → t.wc = []) : Owned t where
  once q := by
    rw [State.receives, State.sends, htally, htally]
    exact h.once q
  pending q := by
    rw [hpending, State.sends, htally]
    exact h.pending q
  known i hi := by
    have hpos : 0 < tally id s.outstanding i := htally i ▸ tally_pos_iff.2 ⟨i, hi, rfl⟩
    obtain ⟨j, hj, rfl⟩ := tally_pos_iff.1 hpos
    exact h.known j hj
  recvWr wr hwr := h.recvWr wr (hrecv wr hwr)
  sendWr wr hwr := h.sendWr wr (hsend wr hwr)
  drained := hdrained

/-- The send is done and the buffer posted for a receive. -/
theorem Owned.sendDone (h : Owned s) (hwcs : s.wc = wc :: rest)
    (hwc : wc.wrId = pingpongSendWrid + q) :
    Owned { s with
      pendingSend := s.pendingSend.clear q
      recvQueue := s.recvQueue ++ [⟨pingpongRecvWrid + q, q⟩], wc := rest, pc := nextPc rest } := by
  set t : State := { s with
    pendingSend := s.pendingSend.clear q
    recvQueue := s.recvQueue ++ [⟨pingpongRecvWrid + q, q⟩], wc := rest, pc := nextPc rest }
  have hrecvs : ∀ r, t.receives r = s.receives r + if q = r then 1 else 0 := fun r => by
    simp [t, State.receives, State.outstanding, hwcs, hwc, Fin.ext_iff]
    omega
  have hsends : ∀ r, t.sends r + (if q = r then 1 else 0) = s.sends r := fun r => by
    simp [t, State.sends, State.outstanding, hwcs, hwc, Fin.ext_iff]
    omega
  constructor
  case once =>
    intro r
    have := h.once r
    have := hrecvs r
    have := hsends r
    omega
  case pending =>
    intro r
    have hone := h.once r
    have hs := hsends r
    rw [Bitset.mem_clear, h.pending r]
    by_cases hqr : q = r
    · rw [if_pos hqr] at hs
      simp only [hqr, ne_eq, not_true, false_and, false_iff]
      omega
    · rw [if_neg hqr, Nat.add_zero] at hs
      simp only [hs, ne_eq, Ne.symm hqr, not_false_iff, true_and]
  case known =>
    intro i hi
    have hmem : i = pingpongRecvWrid + q ∨ i ∈ s.outstanding := by
      simp only [t, State.outstanding, hwcs, List.map_append, List.map_cons, List.map_nil,
        List.mem_append, List.mem_cons, List.not_mem_nil] at hi ⊢
      tauto
    rcases hmem with rfl | hi
    · exact Nat.add_lt_add_left q.isLt _
    · exact h.known i hi
  case recvWr =>
    intro wr hwr
    rcases List.mem_append.1 hwr with hwr | hwr
    · exact h.recvWr wr hwr
    · rw [List.mem_singleton.1 hwr]
  case sendWr => exact h.sendWr
  case drained => exact nextPc_drained

/-- The datagram has been received and the buffer is posted for the reply. -/
theorem Owned.recvDone (h : Owned s) (hwcs : s.wc = wc :: rest)
    (hwc : wc.wrId = pingpongRecvWrid + q) (payloads : Fin queueSize → PingpongPayload)
    (handled : List PingpongPayload) :
    Owned { s with
      pendingSend := s.pendingSend.set q, recvPayloads := payloads, handled := handled
      sendQueue := s.sendQueue ++ [⟨pingpongSendWrid + q, some q⟩]
      wc := rest, pc := .update q } := by
  set t : State := { s with
    pendingSend := s.pendingSend.set q, recvPayloads := payloads, handled := handled
    sendQueue := s.sendQueue ++ [⟨pingpongSendWrid + q, some q⟩], wc := rest, pc := .update q }
  have hrecvs : ∀ r, t.receives r + (if q = r then 1 else 0) = s.receives r := fun r => by
    simp [t, State.receives, State.outstanding, hwcs, hwc, Fin.ext_iff]
    omega
  have hsends : ∀ r, t.sends r = s.sends r + if q = r then 1 else 0 := fun r => by
    simp [t, State.sends, State.outstanding, hwcs, hwc, Fin.ext_iff]
    omega
  constructor
  case once =>
    intro r
    have := h.once r
    have := hrecvs r
    have := hsends r
    omega
  case pending =>
    intro r
    have hone := h.once r
    have hr := hrecvs r
    have hs := hsends r
    rw [Bitset.mem_set, h.pending r]
    by_cases hqr : q = r
    · rw [if_pos hqr] at hr hs
      simp only [hqr, true_or, true_iff]
      omega
    · rw [if_neg hqr, Nat.add_zero] at hs
      simp only [hs, Ne.symm hqr, false_or]
  case known =>
    intro i hi
    have hmem : i = pingpongSendWrid + q ∨ i ∈ s.outstanding := by
      simp only [t, State.outstanding, hwcs, List.map_append, List.map_cons, List.map_nil,
        List.mem_append, List.mem_cons, List.not_mem_nil] at hi ⊢
      tauto
    rcases hmem with rfl | hi
    · have hq := q.isLt
      have hsend : pingpongSendWrid = 0 := rfl
      omega
    · exact h.known i hi
  case recvWr => exact h.recvWr
  case sendWr =>
    intro wr hwr
    rcases List.mem_append.1 hwr with hwr | hwr
    · exact h.sendWr wr hwr
    · exact ⟨q, List.mem_singleton.1 hwr⟩
  case drained => exact fun hpc => by rcases hpc with hpc | hpc <;> cases hpc

/-- The bit of a receive that is posted or has a completion queued is clear. -/
theorem Owned.not_mem (h : Owned s) (hmem : pingpongRecvWrid + (q : ℕ) ∈ s.outstanding) :
    ¬ s.pendingSend.Mem q := by
  have hpos : 0 < s.receives q := tally_pos_iff.2 ⟨_, hmem, rfl⟩
  have hone := h.once q
  rw [h.pending q]
  omega

/-- What a handled completion leaves. -/
theorem Owned.handle (h : Owned s) (hwcs : s.wc = wc :: rest) (t₁ t₂ : UInt64) (ret : ℤ) :
    (handleWc .server t₁ t₂ ret s wc rest).pc = .failed ∨
      Owned (handleWc .server t₁ t₂ ret s wc rest) ∧
        (handleWc .server t₁ t₂ ret s wc rest).pc ≠ .spin := by
  have hmem : wc.wrId ∈ s.outstanding := by simp [State.outstanding, hwcs]
  rcases wrId_cases (h.known _ hmem) with ⟨q, hwc⟩ | ⟨q, hwc⟩
  · refine (handleWc_send t₁ t₂ ret s rest hwc).imp_right fun he => ?_
    rw [he]
    refine ⟨h.sendDone hwcs hwc, ?_⟩
    dsimp only [nextPc]
    split <;> exact Pc.noConfusion
  · refine (handleWc_recv t₁ t₂ ret s rest hwc (h.not_mem (hwc ▸ hmem))).imp_right ?_
    rintro ⟨payloads, handled, he⟩
    rw [he]
    exact ⟨h.recvDone hwcs hwc payloads handled, Pc.noConfusion⟩

/-! ### Runs -/

/-- Before the loop all buffers are posted. -/
theorem owned_initial : Owned initial := by
  have hout : initial.outstanding =
      (List.finRange queueSize).map fun q : Fin queueSize => pingpongRecvWrid + (q : ℕ) := by
    simp [State.outstanding, initial]
  have hrecvs : ∀ q, initial.receives q = 1 := fun q => by
    rw [State.receives, hout, tally_map, ← List.count_eq_one_of_mem
      (List.nodup_finRange queueSize) (List.mem_finRange q), tally, List.count]
    exact List.countP_congr fun r _ => by simp [Fin.val_inj]
  have hsends : ∀ q, initial.sends q = 0 := fun q => by
    rw [State.sends, hout, tally_map, tally_eq_zero_iff]
    exact fun r _ => recvWrid_ne_sendWrid (q := r) (r := q)
  constructor
  case once => exact fun q => by rw [hrecvs, hsends]
  case pending =>
    intro q
    rw [hsends]
    exact iff_of_false Bitset.not_mem_init Nat.zero_ne_one
  case known =>
    intro i hi
    rw [hout] at hi
    obtain ⟨q, -, rfl⟩ := List.mem_map.1 hi
    exact Nat.add_lt_add_left q.isLt _
  case recvWr =>
    intro wr hwr
    obtain ⟨q, -, rfl⟩ := List.mem_map.1 hwr
    rfl
  case sendWr => exact fun wr hwr => absurd hwr List.not_mem_nil
  case drained => exact fun _ => rfl

/-- A failed server does not go on. -/
theorem step_failed (hpc : s.pc = .failed) (hstep : step .server iters s a = some t) :
    t.pc = .failed := by
  cases serverStep_of_step hstep with
  | parse t₁ t₂ ret wc rest hpc' => simp [hpc] at hpc'
  | moves hmoves => exact hmoves.pc_failed hpc

/-- **Each buffer has one owner and the server never waits**, until a failure. -/
theorem owned_invariant : (ud .server iters).Invariant (fun _ _ => True)
    fun s => s.pc = .failed ∨ Owned s ∧ s.pc ≠ .spin where
  init := Or.inr ⟨owned_initial, Pc.noConfusion⟩
  step := by
    rintro s a t (hpc | ⟨h, hspin⟩) - hstep
    · exact Or.inl (step_failed hpc hstep)
    cases serverStep_of_step hstep with
    | parse t₁ t₂ ret wc rest hpc hwcs => exact h.handle hwcs t₁ t₂ ret
    | moves hmoves =>
        exact Or.inr ⟨h.move (hmoves.tally_outstanding h.drained) hmoves.pendingSend_eq
          hmoves.recvQueue_subset hmoves.sendQueue_subset (hmoves.drained h.drained),
          hmoves.pc_ne_spin hspin⟩

/-- There are `QUEUE_SIZE` work requests. -/
theorem Owned.length_eq (h : Owned s) : s.outstanding.length = queueSize := by
  rw [length_eq_sum_tally (f := id) (S := Finset.range (pingpongRecvWrid + queueSize))
    fun i hi => Finset.mem_range.2 (h.known i hi), Finset.sum_range_add, pingpongRecvWrid,
    ← Finset.sum_add_distrib]
  refine (Finset.sum_congr rfl fun q hq => ?_).trans
    ((Finset.card_eq_sum_ones _).symm.trans (Finset.card_range queueSize))
  have hone := h.once ⟨q, Finset.mem_range.1 hq⟩
  simp only [State.receives, State.sends, pingpongSendWrid, pingpongRecvWrid, Nat.zero_add] at hone
  omega

/-- A posted receive and a posted send have different buffers. -/
theorem Owned.buffer_ne (h : Owned s) {recvWr : RecvWr} {sendWr : SendWr}
    (hrecv : recvWr ∈ s.recvQueue) (hsend : sendWr ∈ s.sendQueue) :
    sendWr.buffer ≠ some recvWr.buffer := by
  intro hbuffer
  obtain ⟨q, rfl⟩ := h.sendWr sendWr hsend
  obtain rfl := Option.some.inj hbuffer
  have hrecvs : 0 < s.receives recvWr.buffer := tally_pos_iff.2 ⟨recvWr.wrId,
    List.mem_append_left _ (List.mem_map_of_mem hrecv), h.recvWr recvWr hrecv⟩
  have hsends : 0 < s.sends recvWr.buffer := tally_pos_iff.2 ⟨pingpongSendWrid + recvWr.buffer,
    List.mem_append_right _ (List.mem_append_left _ (List.mem_map_of_mem hsend)), rfl⟩
  have := h.once recvWr.buffer
  omega

/-- **Buffer ownership.**  In every state of every run of the server, up to a
failure that ends the loop, each queue index has exactly one work request
outstanding, a receive or a send; its bit of `pending_send` is set exactly when
it is a send, so it is clear for each receive completion to be handled and the
wait of `parse_single_wc` never spins; no buffer is posted for a receive and a
send at once, and at most `QUEUE_SIZE` of each are outstanding. -/
theorem ownership_of_reachable (h : (ud .server iters).Reachable s) (hpc : s.pc ≠ .failed) :
    (∀ q, s.receives q + s.sends q = 1 ∧ (s.pendingSend.test q ≠ 0 ↔ s.sends q = 1)) ∧
      (∀ wc ∈ s.cq ++ s.wc, ∀ q : Fin queueSize, wc.wrId = pingpongRecvWrid + q →
        s.pendingSend.test q = 0) ∧
      s.pc ≠ .spin ∧
      (∀ recvWr ∈ s.recvQueue, ∀ sendWr ∈ s.sendQueue, sendWr.buffer ≠ some recvWr.buffer) ∧
      (s.outstanding.filter (pingpongRecvWrid ≤ ·)).length ≤ queueSize ∧
      (s.outstanding.filter (· < pingpongRecvWrid)).length ≤ queueSize := by
  obtain ⟨howned, hspin⟩ := (owned_invariant.holds h).resolve_left hpc
  have hlength := howned.length_eq
  refine ⟨fun q => ⟨howned.once q, Bitset.test_ne_zero.trans (howned.pending q)⟩, ?_, hspin,
    fun _ hrecv _ hsend => howned.buffer_ne hrecv hsend,
    hlength ▸ List.length_filter_le _ _, hlength ▸ List.length_filter_le _ _⟩
  intro wc hwc q hq
  have hmem : pingpongRecvWrid + (q : ℕ) ∈ s.outstanding := by
    rw [← hq, State.outstanding]
    exact List.mem_append_right _ (List.mem_append_right _ (List.mem_map_of_mem hwc))
  exact not_not.1 fun h => howned.not_mem hmem (Bitset.test_ne_zero.1 h)

/-- The server has received a ping in buffer 0 and posted the reply. -/
theorem ownership_of_reachable_one : ∃ s, (ud .server 10).Reachable s ∧
    s.sendQueue = [⟨0, some ⟨0, by decide⟩⟩] ∧ ∀ q, s.receives q + s.sends q = 1 := by
  have hrun : ((ud .server 10).exec initial [.loop, .received ⟨128, ⟨0, by decide⟩⟩ true .zero,
      .poll 1, .parse 5 6 0]).map (fun s => (s.pc, s.sendQueue)) =
      some (.update ⟨0, by decide⟩, [⟨0, some ⟨0, by decide⟩⟩]) := by
    decide +kernel
  obtain ⟨s, hs, he⟩ := Option.map_eq_some_iff.1 hrun
  obtain ⟨hpc, hsend⟩ := Prod.mk.inj he
  have hreach := System.reachable_of_exec hs
  exact ⟨s, hreach, hsend, fun q => ((ownership_of_reachable hreach
    (hpc ▸ Pc.noConfusion)).1 q).1⟩

end Ud
end Rdma
end DetBypass
