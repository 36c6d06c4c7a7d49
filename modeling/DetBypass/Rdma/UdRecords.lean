/-
# What the UD client records

`QUEUE_SIZE` buffers of `rdma/ud_pingpong.c` are posted again and again while
datagrams arrive.  `Intact` says of each buffer that one receive for it is
posted, or has a completion that is not handled; as long as there is one the
buffer is not posted, so it still holds that completion's datagram.  The completion
counts as not handled until its buffer is posted again, and so the payload that is
read, stamped and written is the datagram whatever arrives in between: what the client
records is what it handled, one record for each (`intact_of_reachable`).

`parse_single_wc` posts the buffer again before `main` reads the id out of it.
If no datagram arrives in between, `recv_idx` is the latest id recorded
(`latest_of_reachableIf`); if one does, it is the id of a datagram that is not
recorded yet, and the loop may end without it (`exists_not_recorded`).
-/

import DetBypass.Rdma.UdClient

namespace DetBypass
namespace Rdma
namespace Ud

open Lib

variable {iters : UInt64} {s t : State} {q : Fin queueSize} {wc : Wc} {rest : List Wc}
  {now : UInt64} {a : Action}

/-- The completions polled that `parse_single_wc` has not been called for. -/
def State.unparsed (s : State) : List Wc :=
  match s.pc with
  | .write _ | .repost _ => s.wc.tail
  | _ => s.wc

/-- The payload that is stamped and not written yet. -/
def State.toWrite (s : State) : List PingpongPayload :=
  match s.pc with
  | .write q => [s.recvPayloads q]
  | _ => []

/-- Each index has one receive, and its buffer the datagram of a completion that
is not handled; a buffer about to be posted holds the latest record. -/
structure Intact (s : State) : Prop where
  once : ∀ q, s.receives q = 1
  recvWr : ∀ wr ∈ s.recvQueue, wr.wrId = pingpongRecvWrid + wr.buffer
  sendWr : ∀ wr ∈ s.sendQueue, wr.wrId < pingpongRecvWrid
  datagram : ∀ wc ∈ s.cq ++ s.unparsed, ∀ q : Fin queueSize, wc.wrId = pingpongRecvWrid + q →
    wc.datagram = some (s.recvPayloads q)
  latest : ∀ q, s.pc = .repost q → s.written.getLast? = some (s.recvPayloads q)

/-- Each record, and the payload about to be written, is a datagram that was handled,
with one more reading. -/
def Recorded (s : State) : Prop :=
  List.Forall₂ (fun d w => ∃ now, w = PingpongPayload.setTs d 3 now) s.handled
    (s.written ++ s.toWrite)

/-- A completion to be parsed is one that was polled. -/
theorem mem_wc_of_unparsed (h : wc ∈ s.unparsed) : wc ∈ s.wc := by
  unfold State.unparsed at h
  split at h
  · exact List.mem_of_mem_tail h
  · exact List.mem_of_mem_tail h
  · exact h

/-- While no pong is at hand every completion polled is still to be handled. -/
theorem unparsed_eq (h : ∀ q, s.pc ≠ .write q ∧ s.pc ≠ .repost q) : s.unparsed = s.wc := by
  unfold State.unparsed
  split
  · rename_i q hpc
    exact absurd hpc (h q).1
  · rename_i q hpc
    exact absurd hpc (h q).2
  · rfl

/-- Only a pong that is stamped is to be written. -/
theorem toWrite_eq_nil (h : ∀ q, s.pc ≠ .write q) : s.toWrite = [] := by
  unfold State.toWrite
  split
  · rename_i q hpc
    exact absurd hpc (h q)
  · rfl

/-! ### The buffer of a completion -/

/-- The receives of an index in each place. -/
theorem Intact.tally (h : Intact s) (q : Fin queueSize) :
    Lib.tally RecvWr.wrId s.recvQueue (pingpongRecvWrid + q) +
      Lib.tally Wc.wrId s.cq (pingpongRecvWrid + q) +
      Lib.tally Wc.wrId s.wc (pingpongRecvWrid + q) ≤ 1 := by
  have hone := h.once q
  rw [State.receives, tally_outstanding] at hone
  omega

/-- A posted buffer has no completion. -/
theorem Intact.not_queued (h : Intact s) {wr : RecvWr} (hwr : wr ∈ s.recvQueue)
    (hwc : wc ∈ s.cq ++ s.wc) : wc.wrId ≠ pingpongRecvWrid + wr.buffer := by
  intro he
  have hrecv : 0 < Lib.tally RecvWr.wrId s.recvQueue (pingpongRecvWrid + wr.buffer) :=
    tally_pos_iff.2 ⟨wr, hwr, h.recvWr wr hwr⟩
  have hqueued : 0 < Lib.tally Wc.wrId (s.cq ++ s.wc) (pingpongRecvWrid + wr.buffer) :=
    tally_pos_iff.2 ⟨wc, hwc, he⟩
  have hone := h.tally wr.buffer
  rw [tally_append] at hqueued
  omega

/-- The other completions are of other buffers. -/
theorem Intact.other (h : Intact s) (hwcs : s.wc = wc :: rest)
    (hwc : wc.wrId = pingpongRecvWrid + q) {wc' : Wc} (hmem : wc' ∈ s.cq ++ rest) :
    wc'.wrId ≠ pingpongRecvWrid + q := by
  intro he
  have hpos : 0 < Lib.tally Wc.wrId (s.cq ++ rest) (pingpongRecvWrid + q) :=
    tally_pos_iff.2 ⟨wc', hmem, he⟩
  have hone := h.tally q
  rw [hwcs, tally_cons, if_pos hwc] at hone
  rw [tally_append] at hpos
  omega

/-- The buffer of a pong at hand is not posted. -/
theorem Intact.not_posted (h : Intact s) (hdrained : Drained s)
    (hpc : s.pc = .write q ∨ s.pc = .repost q) {wr : RecvWr} (hwr : wr ∈ s.recvQueue) :
    wr.buffer ≠ q := by
  rintro rfl
  obtain ⟨wc, rest, hwcs, hwc⟩ := hdrained.atHand wr.buffer hpc
  exact h.not_queued hwr (by simp [hwcs]) hwc

/-! ### One step -/

/-- A step that moves work requests and writes no buffer. -/
theorem Intact.move (h : Intact s) (hrecvs : ∀ q, t.receives q = s.receives q)
    (hrecv : t.recvQueue = s.recvQueue) (hpayloads : t.recvPayloads = s.recvPayloads)
    (hsend : ∀ wr ∈ t.sendQueue, wr ∈ s.sendQueue ∨ wr.wrId < pingpongRecvWrid)
    (hwc : ∀ wc ∈ t.cq ++ t.unparsed, wc ∈ s.cq ++ s.unparsed ∨ wc.wrId < pingpongRecvWrid)
    (hlatest : ∀ q, t.pc = .repost q → t.written.getLast? = some (t.recvPayloads q)) :
    Intact t where
  once q := (hrecvs q).trans (h.once q)
  recvWr wr hwr := h.recvWr wr (hrecv ▸ hwr)
  sendWr wr hwr := (hsend wr hwr).elim (h.sendWr wr) id
  datagram wc hmem q hq := by
    rw [hpayloads]
    rcases hwc wc hmem with hmem | hlt
    · exact h.datagram wc hmem q hq
    · omega
  latest := hlatest

/-- A datagram arrives in a posted buffer. -/
theorem Intact.received (h : Intact s) (hdrained : Drained s) {wr : RecvWr}
    (hwr : wr ∈ s.recvQueue) (success : Bool) (datagram : PingpongPayload) :
    Intact { s with
      recvQueue := s.recvQueue.erase wr
      recvPayloads := Function.update s.recvPayloads wr.buffer datagram
      cq := s.cq ++ [⟨wr.wrId, success, some datagram⟩] } where
  once q := by
    have herase := tally_erase (f := RecvWr.wrId) (b := pingpongRecvWrid + (q : ℕ)) hwr
    refine Eq.trans ?_ (h.once q)
    simp only [State.receives, tally_outstanding, tally_append, tally_cons, tally_nil]
    omega
  recvWr wr' hwr' := h.recvWr wr' (List.mem_of_mem_erase hwr')
  sendWr := h.sendWr
  datagram wc hmem q hq := by
    have hmem' : wc ∈ s.cq ++ s.unparsed ∨ wc = ⟨wr.wrId, success, some datagram⟩ := by
      have hmem : wc ∈ (s.cq ++ [⟨wr.wrId, success, some datagram⟩]) ++ s.unparsed := hmem
      simp only [List.mem_append, List.mem_singleton] at hmem ⊢
      tauto
    dsimp only
    rcases hmem' with hmem' | rfl
    · have hne : q ≠ wr.buffer := by
        rintro rfl
        exact h.not_queued hwr (List.mem_append.2 ((List.mem_append.1 hmem').imp_right
          mem_wc_of_unparsed)) hq
      rw [Function.update_of_ne hne]
      exact h.datagram wc hmem' q hq
    · have he : pingpongRecvWrid + (wr.buffer : ℕ) = pingpongRecvWrid + q :=
        (h.recvWr wr hwr).symm.trans hq
      obtain rfl : wr.buffer = q := Fin.ext (Nat.add_left_cancel he)
      rw [Function.update_self]
  latest q hpc := by
    dsimp only
    rw [Function.update_of_ne (h.not_posted hdrained (Or.inr hpc) hwr).symm]
    exact h.latest q hpc

/-- A pong is stamped, in its own buffer. -/
theorem Intact.stamped (h : Intact s) (hpc : s.pc = .handle) (hwcs : s.wc = wc :: rest)
    (hwc : wc.wrId = pingpongRecvWrid + q) : Intact { s.stamp wc q now with pc := .write q } where
  once := h.once
  recvWr := h.recvWr
  sendWr := h.sendWr
  datagram wc' hmem r hr := by
    have hunparsed : s.unparsed = s.wc := unparsed_eq fun _ => by rw [hpc]; simp
    have hrest : wc' ∈ s.cq ++ rest := by
      have hmem : wc' ∈ s.cq ++ s.wc.tail := hmem
      rwa [hwcs, List.tail_cons] at hmem
    have hmem' : wc' ∈ s.cq ++ s.unparsed := by
      rw [hunparsed, hwcs, List.mem_append, List.mem_cons]
      exact (List.mem_append.1 hrest).imp_right Or.inr
    have hne : r ≠ q := by
      rintro rfl
      exact h.other hwcs hwc hrest hr
    rw [h.datagram wc' hmem' r hr]
    show _ = some (Function.update s.recvPayloads q _ r)
    rw [Function.update_of_ne hne]
  latest _ hpc := Pc.noConfusion hpc

/-- The record is written. -/
theorem Intact.written (h : Intact s) (hpc : s.pc = .write q) :
    Intact { s with written := s.written ++ [s.recvPayloads q], pc := .repost q } := by
  refine h.move (fun _ => rfl) rfl rfl (fun _ => Or.inl) (fun wc hw => Or.inl ?_) fun r hr => ?_
  · have hunparsed : s.unparsed = s.wc.tail := by
      unfold State.unparsed
      rw [hpc]
    rw [hunparsed]
    exact hw
  · obtain rfl := Pc.repost.inj hr
    rw [List.getLast?_append, List.getLast?_singleton]
    rfl

/-- The buffer is posted again. -/
theorem Intact.reposted (h : Intact s) (hdrained : Drained s) (hpc : s.pc = .repost q) :
    Intact { s with
      recvQueue := s.recvQueue ++ [⟨pingpongRecvWrid + q, q⟩]
      wc := s.wc.tail, pc := .update q } where
  once r := by
    obtain ⟨wc, rest, hwcs, hwc⟩ := hdrained.atHand q (Or.inr hpc)
    refine Eq.trans ?_ (h.once r)
    simp only [State.receives, tally_outstanding, hwcs, hwc, List.tail_cons, tally_append,
      tally_cons, tally_nil]
    omega
  recvWr wr hwr := by
    rcases List.mem_append.1 hwr with hwr | hwr
    · exact h.recvWr wr hwr
    · rw [List.mem_singleton.1 hwr]
  sendWr := h.sendWr
  datagram wc hmem r hr := by
    have hunparsed : s.unparsed = s.wc.tail := by
      unfold State.unparsed
      rw [hpc]
    have hmem : wc ∈ s.cq ++ s.wc.tail := hmem
    exact h.datagram wc (hunparsed ▸ hmem) r hr
  latest _ hpc := Pc.noConfusion hpc

/-- The send of the sending thread is posted. -/
theorem Intact.post (h : Intact s) {id : UInt64} :
    Intact { s with
      pendingSend := s.pendingSend.set sendBit
      sendQueue := s.sendQueue ++ [⟨pingpongSendWrid + sendBit, none⟩]
      senderPc := .waiting (id + 1) } := by
  refine h.move (fun r => ?_) rfl rfl (fun wr hwr => ?_) (fun _ hw => Or.inl hw) h.latest
  · simp only [State.receives, tally_outstanding, tally_append, tally_cons, tally_nil,
      if_neg (recvWrid_ne_sendWrid (q := r) (r := sendBit)).symm]
    omega
  · refine (List.mem_append.1 hwr).imp_right fun hwr => ?_
    rw [List.mem_singleton.1 hwr]
    decide

/-- **Every other step** writes no buffer but a posted one. -/
theorem Intact.moves (h : Intact s) (hdrained : Drained s) (hmoves : Moves iters s a t) :
    Intact t := by
  have htally := hmoves.tally_outstanding hdrained.empty
  cases hmoves with
  | interrupt => exact { h with }
  | loop hpc =>
      have hpc' : ∀ q, (if s.recvIdx < iters ∧ s.globalExit = false then Pc.poll else .done) ≠
          .write q ∧
          (if s.recvIdx < iters ∧ s.globalExit = false then Pc.poll else .done) ≠ .repost q :=
        fun q => by split_ifs <;> simp
      refine h.move (fun _ => rfl) rfl rfl (fun _ => Or.inl) (fun wc hw => Or.inl ?_)
        fun q hq => absurd hq (hpc' q).2
      rwa [unparsed_eq hpc', ← unparsed_eq (s := s) fun _ => by rw [hpc]; simp] at hw
  | pollError hpc =>
      refine h.move (fun _ => rfl) rfl rfl (fun _ => Or.inl) (fun wc hw => Or.inl ?_)
        fun _ => Pc.noConfusion
      rwa [unparsed_eq (s := s) fun _ => by rw [hpc]; simp]
  | update q hpc =>
      refine h.move (fun _ => rfl) rfl rfl (fun _ => Or.inl) (fun wc hw => Or.inl ?_)
        fun q hq => absurd hq (nextPc_ne_write _ q).2
      rw [unparsed_eq (nextPc_ne_write _)] at hw
      rwa [unparsed_eq (s := s) fun _ => by rw [hpc]; simp]
  | poll n hpc =>
      have hpc' : ∀ q, (if s.globalExit then Pc.done else if n = 0 then .poll else .handle) ≠
          .write q ∧
          (if s.globalExit then Pc.done else if n = 0 then .poll else .handle) ≠ .repost q :=
        fun q => by split_ifs <;> simp
      refine h.move (fun r => htally _) rfl rfl (fun _ hw => Or.inl hw) (fun wc hw => ?_)
        fun q hq => absurd hq (hpc' q).2
      rw [unparsed_eq hpc'] at hw
      rcases List.mem_append.1 hw with hw | hw
      · exact Or.inl (List.mem_append_left _ (List.mem_of_mem_drop hw))
      · exact Or.inl (List.mem_append_left _ (List.mem_of_mem_take hw))
  | received wr success datagram hwr => exact h.received hdrained hwr success datagram
  | sent wr success hwr =>
      refine h.move (fun r => htally _) rfl rfl (fun _ hw => Or.inl (List.mem_of_mem_erase hw))
        (fun wc hw => ?_) h.latest
      have hmem : wc ∈ s.cq ++ s.unparsed ∨ wc = ⟨wr.wrId, success, none⟩ := by
        have hw : wc ∈ (s.cq ++ [⟨wr.wrId, success, none⟩]) ++ s.unparsed := hw
        simp only [List.mem_append, List.mem_singleton] at hw ⊢
        tauto
      refine hmem.imp_right ?_
      rintro rfl
      exact h.sendWr wr hwr

/-- **Every other step** leaves the payload to be written, unless it is overwritten. -/
theorem Moves.toWrite_eq (h : Moves iters s a t)
    (hne : ∀ wr success datagram, a = .received wr success datagram → s.pc ≠ .write wr.buffer) :
    t.toWrite = s.toWrite := by
  cases h with
  | loop hpc | poll n hpc =>
      rw [toWrite_eq_nil (s := s) fun q => by rw [hpc]; simp, toWrite_eq_nil fun q => ?_]
      dsimp only
      split_ifs <;> simp
  | pollError hpc =>
      rw [toWrite_eq_nil (s := s) fun q => by rw [hpc]; simp]
      rfl
  | update q hpc =>
      rw [toWrite_eq_nil (s := s) fun q => by rw [hpc]; simp,
        toWrite_eq_nil fun q => (nextPc_ne_write _ q).1]
  | interrupt | sent => rfl
  | received wr success datagram hwr =>
      have hne := hne wr success datagram rfl
      unfold State.toWrite
      cases hpc : s.pc with
      | write q =>
          have hq : q ≠ wr.buffer := fun he => hne (he ▸ hpc)
          dsimp only
          rw [Function.update_of_ne hq]
      | _ => rfl

/-- A pong that is handled is to be written. -/
theorem Recorded.stamped (h : Recorded s) (hpc : s.pc = .handle)
    (hdatagram : wc.datagram = some (s.recvPayloads q)) :
    Recorded { s.stamp wc q now with pc := .write q } := by
  have hnil : s.toWrite = [] := toWrite_eq_nil fun _ => by rw [hpc]; simp
  unfold Recorded at h
  rw [hnil, List.append_nil] at h
  show List.Forall₂ _ (s.handled ++ wc.datagram.toList)
    (s.written ++ [Function.update s.recvPayloads q _ q])
  rw [hdatagram, Function.update_self]
  exact List.rel_append h (.cons ⟨now, rfl⟩ .nil)

/-- It is written. -/
theorem Recorded.write (h : Recorded s) (hpc : s.pc = .write q) :
    Recorded { s with written := s.written ++ [s.recvPayloads q], pc := .repost q } := by
  have hpayload : s.toWrite = [s.recvPayloads q] := by
    unfold State.toWrite
    rw [hpc]
  unfold Recorded at h
  rw [hpayload] at h
  show List.Forall₂ _ s.handled (s.written ++ [s.recvPayloads q] ++ [])
  rwa [List.append_nil]

/-- **Each buffer keeps its datagram until it is recorded**, and every datagram
handled is recorded. -/
theorem intact_invariant : (ud .client iters).Invariant (fun _ _ => True)
    fun s => Drained s ∧ Recorded s ∧ (s.pc = .failed ∨ Intact s) where
  init := by
    refine ⟨drained_initial, .nil, Or.inr ⟨fun q => ?_, owned_initial.recvWr,
      fun wr hwr => absurd hwr List.not_mem_nil, ?_, fun _ => Pc.noConfusion⟩⟩
    · show initial.receives q = 1
      have hone := owned_initial.once q
      have hsends : initial.sends q ≠ 1 := fun he =>
        Bitset.not_mem_init ((owned_initial.pending q).2 he)
      omega
    · exact fun wc hwc => absurd hwc List.not_mem_nil
  step := by
    rintro s a t ⟨hdrained, hrecorded, hintact⟩ - hstep
    replace hstep : step .client iters s a = some t := hstep
    refine ⟨hdrained.step hstep, ?_⟩
    cases clientStep_of_step hstep with
    | @parse t₁ t₂ ret wc rest _ hpc hwcs hhandles =>
        have h : Intact s := hintact.resolve_left (by rw [hpc]; exact Pc.noConfusion)
        have hunparsed : s.unparsed = s.wc := unparsed_eq fun _ => by rw [hpc]; simp
        have hnil : s.toWrite = [] := toWrite_eq_nil fun _ => by rw [hpc]; simp
        cases hhandles with
        | failed =>
            refine ⟨?_, Or.inl rfl⟩
            show List.Forall₂ _ s.handled (s.written ++ [])
            exact hnil ▸ hrecorded
        | sent q hok hwc =>
            refine ⟨?_, Or.inr (h.move (fun r => ?_) rfl rfl (fun _ hw => Or.inl hw)
              (fun wc' hw => ?_) fun r hr => absurd hr (nextPc_ne_write _ r).2)⟩
            · unfold Recorded
              rw [toWrite_eq_nil fun r => (nextPc_ne_write _ r).1]
              exact hnil ▸ hrecorded
            · simp [State.receives, tally_outstanding, hwcs, hwc]
            · rw [unparsed_eq (nextPc_ne_write _)] at hw
              rw [hunparsed]
              simp only [hwcs, List.mem_append, List.mem_cons] at hw ⊢
              tauto
        | stamped q hok hwc =>
            have hmem : wc ∈ s.cq ++ s.unparsed := by simp [hunparsed, hwcs]
            exact ⟨hrecorded.stamped hpc (h.datagram wc hmem q hwc),
              Or.inr (h.stamped hpc hwcs hwc)⟩
    | write q hpc =>
        exact ⟨hrecorded.write hpc,
          hintact.elim (fun hfailed => Pc.noConfusion (hpc.symm.trans hfailed))
            fun h => Or.inr (h.written hpc)⟩
    | repost q hpc =>
        have hnil : s.toWrite = [] := toWrite_eq_nil fun _ => by rw [hpc]; simp
        refine ⟨?_, hintact.elim (fun hfailed => Pc.noConfusion (hpc.symm.trans hfailed))
          fun h => Or.inr (h.reposted hdrained hpc)⟩
        show List.Forall₂ _ s.handled (s.written ++ [])
        exact hnil ▸ hrecorded
    | unposted q ret hpc =>
        have hnil : s.toWrite = [] := toWrite_eq_nil fun _ => by rw [hpc]; simp
        refine ⟨?_, Or.inl rfl⟩
        show List.Forall₂ _ s.handled (s.written ++ [])
        exact hnil ▸ hrecorded
    | sender hsends =>
        cases hsends with
        | wait | write | unposted => exact ⟨hrecorded, hintact.imp_right fun h => { h with }⟩
        | post => exact ⟨hrecorded, hintact.imp_right fun h => h.post⟩
    | moves hmoves =>
        refine ⟨?_, hintact.imp hmoves.pc_failed fun h => h.moves hdrained hmoves⟩
        show List.Forall₂ _ t.handled (t.written ++ t.toWrite)
        rw [hmoves.handled_eq, hmoves.written_eq, hmoves.toWrite_eq ?_]
        · exact hrecorded
        rintro wr success datagram rfl hpc
        have h := hintact.resolve_left (by rw [hpc]; exact Pc.noConfusion)
        cases hmoves with
        | received _ _ _ hwr => exact h.not_posted hdrained (Or.inl hpc) hwr rfl

/-- Only the write adds a record. -/
theorem step_written (hstep : step .client iters s a = some t) (ha : a ≠ .write) :
    t.written = s.written := by
  cases clientStep_of_step hstep with
  | parse hpc hwcs hhandles => cases hhandles <;> rfl
  | write => exact absurd rfl ha
  | repost | unposted => rfl
  | sender hsends => cases hsends <;> rfl
  | moves hmoves => exact hmoves.written_eq

/-- Only the end of `parse_single_wc` posts a buffer. -/
theorem step_recvQueue (hstep : step .client iters s a = some t) {wr : RecvWr}
    (hwr : wr ∈ t.recvQueue) (hno : wr ∉ s.recvQueue) : s.pc = .repost wr.buffer := by
  cases clientStep_of_step hstep with
  | parse hpc hwcs hhandles => cases hhandles <;> exact absurd hwr hno
  | write | unposted => exact absurd hwr hno
  | repost q hpc =>
      rcases List.mem_append.1 hwr with hwr | hwr
      · exact absurd hwr hno
      · rw [List.mem_singleton.1 hwr]
        exact hpc
  | sender hsends => cases hsends <;> exact absurd hwr hno
  | moves hmoves => exact absurd (hmoves.recvQueue_subset wr hwr) hno

/-- **The client records every pong once and intact.**  In every run the records, and
the payload about to be written, are the datagrams of the receive completions handled,
in order, each with its reading in `ts[3]`; until a failure that ends the loop, the
buffer of a completion that is not handled holds its datagram and is not posted;
handling a completion stamps its datagram, which the next step of the main thread
writes; nothing else is written; and a buffer is posted again only when the payload in
it is the latest record. -/
theorem intact_of_reachable (h : (ud .client iters).Reachable s) :
    List.Forall₂ (fun d w => ∃ now, w = PingpongPayload.setTs d 3 now) s.handled
        (s.written ++ s.toWrite) ∧
      (s.pc ≠ .failed → ∀ wc ∈ s.cq ++ s.unparsed, ∀ q : Fin queueSize,
        wc.wrId = pingpongRecvWrid + q →
        wc.datagram = some (s.recvPayloads q) ∧ ∀ wr ∈ s.recvQueue, wr.buffer ≠ q) ∧
      (∀ t₁ t₂ ret t wc rest, step .client iters s (.parse t₁ t₂ ret) = some t →
        s.wc = wc :: rest → wc.success = true →
        ∀ q : Fin queueSize, wc.wrId = pingpongRecvWrid + q →
        ∃ d, wc.datagram = some d ∧ t.handled = s.handled ++ [d] ∧ t.written = s.written ∧
          t.pc = .write q ∧ t.toWrite = [d.setTs 3 t₂]) ∧
      (∀ q, s.pc = .write q → (∀ wr ∈ s.recvQueue, wr.buffer ≠ q) ∧
        step .client iters s .write =
          some { s with written := s.written ++ s.toWrite, pc := .repost q }) ∧
      (∀ a t, step .client iters s a = some t → a ≠ .write → t.written = s.written) ∧
      ∀ a t, step .client iters s a = some t → ∀ wr ∈ t.recvQueue, wr ∉ s.recvQueue →
        s.pc = .repost wr.buffer ∧ s.written.getLast? = some (s.recvPayloads wr.buffer) := by
  obtain ⟨hdrained, hrecorded, hintact⟩ := intact_invariant.holds h
  refine ⟨hrecorded, fun hpc wc hmem q hwc => ?_, ?_, fun q hpc => ?_,
    fun a t hstep ha => step_written hstep ha, fun a t hstep wr hwr hno => ?_⟩
  · have h : Intact s := hintact.resolve_left hpc
    refine ⟨h.datagram wc hmem q hwc, fun wr hwr hbuffer => ?_⟩
    exact h.not_queued hwr (List.mem_append.2 ((List.mem_append.1 hmem).imp_right
      mem_wc_of_unparsed)) (hbuffer ▸ hwc)
  · intro t₁ t₂ ret t wc rest hstep hwcs hok q hwc
    obtain ⟨wc', rest', hpc, hwcs', hhandles⟩ := step_parse hstep
    obtain ⟨rfl, rfl⟩ := List.cons.inj (hwcs.symm.trans hwcs')
    have h : Intact s := hintact.resolve_left (by rw [hpc]; exact Pc.noConfusion)
    have hunparsed : s.unparsed = s.wc := unparsed_eq fun _ => by rw [hpc]; simp
    have hdatagram : wc.datagram = some (s.recvPayloads q) :=
      h.datagram wc (by simp [hunparsed, hwcs]) q hwc
    refine ⟨s.recvPayloads q, hdatagram, ?_⟩
    have hlt := q.isLt
    cases hhandles with
    | failed hknown =>
        have := hknown hok
        omega
    | sent r hok hr => exact absurd (hwc.symm.trans hr) recvWrid_ne_sendWrid
    | stamped r hok hr =>
        obtain rfl : r = q := Fin.ext (Nat.add_left_cancel (hr.symm.trans hwc))
        refine ⟨?_, rfl, rfl, ?_⟩
        · show s.handled ++ wc.datagram.toList = _
          rw [hdatagram]
          rfl
        · show [Function.update s.recvPayloads r _ r] = _
          rw [Function.update_self]
  · have h : Intact s := hintact.resolve_left (by rw [hpc]; exact Pc.noConfusion)
    refine ⟨fun wr hwr => h.not_posted hdrained (Or.inl hpc) hwr, ?_⟩
    have hpayload : s.toWrite = [s.recvPayloads q] := by
      unfold State.toWrite
      rw [hpc]
    simp only [step, hpc, writeRecord, hpayload]
  · have hpc := step_recvQueue hstep hwr hno
    have h : Intact s := hintact.resolve_left (by rw [hpc]; exact Pc.noConfusion)
    exact ⟨hpc, h.latest _ hpc⟩

/-- The first pong of the client, written while the next one arrives. -/
theorem intact_of_reachable_one : ∃ s, (ud .client 10).Reachable s ∧
    s.written.length = 1 ∧ s.cq.length = 1 ∧ s.handled.length = s.written.length := by
  have hrun : ((ud .client 10).exec initial [.loop, .received ⟨128, ⟨0, by decide⟩⟩ true
      (newPingpongPayload 1), .poll 1, .parse 5 6 0, .received ⟨129, ⟨1, by decide⟩⟩ true
      (newPingpongPayload 2), .write]).map
      (fun s => (s.written.length, s.cq.length, s.toWrite.length)) = some (1, 1, 0) := by
    decide +kernel
  obtain ⟨s, hs, he⟩ := Option.map_eq_some_iff.1 hrun
  obtain ⟨hwritten, he⟩ := Prod.mk.inj he
  obtain ⟨hcq, htoWrite⟩ := Prod.mk.inj he
  have hreach := System.reachable_of_exec hs
  have hlength := (intact_of_reachable hreach).1.length_eq
  rw [List.length_append, htoWrite, Nat.add_zero] at hlength
  exact ⟨s, hreach, hwritten, hcq, hlength⟩

/-! ### The latest id -/

/-- `recv_idx`, after the update that `main` is about to make. -/
def State.latest (s : State) : UInt64 :=
  match s.pc with
  | .repost q | .update q => max s.recvIdx (s.recvPayloads q).id
  | _ => s.recvIdx

/-- Buffers are posted again, and no datagram arrives in the one whose id `main`
is about to read. -/
def ReadInTime (s : State) : Action → Prop
  | .repost ret => ret = 0
  | .received wr _ _ => s.pc ≠ .update wr.buffer
  | _ => True

instance (s : State) : (a : Action) → Decidable (ReadInTime s a)
  | .repost ret => inferInstanceAs (Decidable (ret = 0))
  | .received wr _ _ => inferInstanceAs (Decidable (s.pc ≠ .update wr.buffer))
  | .loop | .poll _ | .pollError | .parse .. | .write | .update | .sender .. | .interrupt
  | .sent .. => inferInstanceAs (Decidable True)

/-- Between completions the latest is the one recorded. -/
theorem latest_nextPc (hpc : s.pc = nextPc rest) : s.latest = s.recvIdx := by
  unfold State.latest
  rw [hpc]
  unfold nextPc
  split_ifs <;> rfl

/-- **Every other step** leaves the latest id, if `main` reads it in time. -/
theorem Moves.latest_eq (h : Moves iters s a t) (hguard : ReadInTime s a)
    (hne : ∀ wr success datagram, a = .received wr success datagram → s.pc ≠ .repost wr.buffer) :
    t.latest = s.latest := by
  cases h with
  | loop hpc | poll n hpc =>
      unfold State.latest
      rw [hpc]
      dsimp only
      split_ifs <;> rfl
  | pollError hpc =>
      unfold State.latest
      rw [hpc]
  | update q hpc =>
      refine (latest_nextPc rfl).trans ?_
      unfold State.latest
      rw [hpc]
  | interrupt | sent => rfl
  | received wr success datagram hwr =>
      have hupdate : s.pc ≠ .update wr.buffer := hguard
      have hrepost := hne wr success datagram rfl
      unfold State.latest
      cases hpc : s.pc with
      | repost q =>
          have hq : q ≠ wr.buffer := fun he => hrepost (he ▸ hpc)
          dsimp only
          rw [Function.update_of_ne hq]
      | update q =>
          have hq : q ≠ wr.buffer := fun he => hupdate (he ▸ hpc)
          dsimp only
          rw [Function.update_of_ne hq]
      | _ => rfl

/-- **What `main` read is what was recorded**, if it read it in time. -/
theorem latest_invariant : (ud .client iters).Invariant ReadInTime fun s =>
    (Drained s ∧ Recorded s ∧ (s.pc = .failed ∨ Intact s)) ∧ s.latest = maxId s.written where
  init := ⟨intact_invariant.init, rfl⟩
  step := by
    rintro s a t ⟨hall, h⟩ hguard hstep
    refine ⟨intact_invariant.step hall trivial hstep, ?_⟩
    replace hstep : step .client iters s a = some t := hstep
    cases clientStep_of_step hstep with
    | parse hpc hwcs hhandles =>
        have hlatest : s.recvIdx = maxId s.written := by
          rw [← h, State.latest, hpc]
        cases hhandles with
        | failed | stamped => exact hlatest
        | sent q hok hwc => exact (latest_nextPc rfl).trans hlatest
    | write q hpc =>
        have hlatest : s.recvIdx = maxId s.written := by
          rw [← h, State.latest, hpc]
        show max s.recvIdx (s.recvPayloads q).id = maxId (s.written ++ [_])
        rw [maxId_concat, hlatest]
    | repost q hpc =>
        rw [State.latest, hpc] at h
        exact h
    | unposted q ret hpc hret => exact absurd hguard hret
    | sender hsends => cases hsends <;> exact h
    | moves hmoves =>
        obtain ⟨hdrained, -, hintact⟩ := hall
        rw [hmoves.latest_eq hguard ?_, hmoves.written_eq, h]
        rintro wr success datagram rfl hpc
        have hintact := hintact.resolve_left (by rw [hpc]; exact Pc.noConfusion)
        cases hmoves with
        | received _ _ _ hwr => exact hintact.not_posted hdrained (Or.inr hpc) hwr rfl

/-- **The UD client stops after recording the last round, if it reads the id in
time.**  In every run in which buffers are posted again and no datagram arrives
in a buffer between its post and the update of `recv_idx`, `recv_idx` is the
latest id recorded, counting the update to come; so if the loop ends because
`recv_idx` has reached `iters`, an id of at least `iters` has been recorded. -/
theorem latest_of_reachableIf (h : (ud .client iters).ReachableIf ReadInTime s) :
    (∀ q, s.pc = .repost q ∨ s.pc = .update q →
        max s.recvIdx (s.recvPayloads q).id = maxId s.written) ∧
      ((∀ q, s.pc ≠ .repost q ∧ s.pc ≠ .update q) → s.recvIdx = maxId s.written) ∧
      (iters ≠ 0 → s.pc = .done → iters ≤ s.recvIdx → ∃ w ∈ s.written, iters ≤ w.id) := by
  obtain ⟨-, hlatest⟩ := latest_invariant.holds h
  have hother : (∀ q, s.pc ≠ .repost q ∧ s.pc ≠ .update q) → s.recvIdx = maxId s.written := by
    intro hpc
    rw [← hlatest]
    unfold State.latest
    split
    · rename_i q hq
      exact absurd hq (hpc q).1
    · rename_i q hq
      exact absurd hq (hpc q).2
    · rfl
  refine ⟨fun q hpc => ?_, hother, fun hiters hpc hle => ?_⟩
  · rw [← hlatest, State.latest]
    rcases hpc with hpc | hpc <;> rw [hpc]
  · rw [hother fun q => hpc ▸ ⟨Pc.noConfusion, Pc.noConfusion⟩] at hle
    exact exists_le_id hiters hle

/-- A pong recorded and its id read. -/
theorem latest_of_reachableIf_one : ∃ s, (ud .client 1).ReachableIf ReadInTime s ∧
    s.pc = .done ∧ ∃ w ∈ s.written, (1 : UInt64) ≤ w.id := by
  have hrun : ((ud .client 1).execIf ReadInTime initial [.loop, .received ⟨128, ⟨0, by decide⟩⟩
      true (newPingpongPayload 1), .poll 1, .parse 5 6 0, .write, .repost 0, .update, .loop]).map
      (fun s => (s.pc, s.recvIdx)) = some (.done, 1) := by
    decide +kernel
  obtain ⟨s, hs, he⟩ := Option.map_eq_some_iff.1 hrun
  obtain ⟨hpc, hidx⟩ := Prod.mk.inj he
  have hreach : (ud .client 1).ReachableIf ReadInTime s := System.runIf_of_execIf hs
  exact ⟨s, hreach, hpc, (latest_of_reachableIf hreach).2.2 (by decide) hpc
    (hidx ▸ UInt64.le_refl _)⟩

/-- A datagram arrives before `main` reads the id: pong 1 is recorded, `recv_idx`
is 2, and the loop ends. -/
theorem exists_not_recorded : ∃ s, (ud .client 2).Reachable s ∧
    s.pc = .done ∧ s.globalExit = false ∧ s.recvIdx = 2 ∧
      s.written.map PingpongPayload.id = [1] := by
  have hrun : ((ud .client 2).exec initial [.loop, .received ⟨128, ⟨0, by decide⟩⟩ true
      (newPingpongPayload 1), .poll 1, .parse 5 6 0, .write, .repost 0,
      .received ⟨128, ⟨0, by decide⟩⟩ true (newPingpongPayload 2), .update, .loop]).map
      (fun s => (s.pc, s.globalExit, s.recvIdx, s.written.map PingpongPayload.id)) =
      some (.done, false, 2, [1]) := by
    decide +kernel
  obtain ⟨s, hs, he⟩ := Option.map_eq_some_iff.1 hrun
  obtain ⟨hpc, he⟩ := Prod.mk.inj he
  obtain ⟨hexit, he⟩ := Prod.mk.inj he
  obtain ⟨hidx, hwritten⟩ := Prod.mk.inj he
  exact ⟨s, System.reachable_of_exec hs, hpc, hexit, hidx, hwritten⟩

/-- The HCA fills the buffers in the order in which they were posted. -/
def InOrder (s : State) : Action → Prop
  | .received wr _ _ => s.recvQueue.head? = some wr
  | _ => True

instance (s : State) : (a : Action) → Decidable (InOrder s a)
  | .received wr _ _ => inferInstanceAs (Decidable (s.recvQueue.head? = some wr))
  | .loop | .poll _ | .pollError | .parse .. | .write | .repost _ | .update | .sender ..
  | .interrupt | .sent .. => inferInstanceAs (Decidable True)

/-- The same with the buffers filled in order: pong 1 is recorded, and before `main`
reads its id the pongs 2 to 128 arrive in the other buffers and 129 in that of pong 1. -/
theorem exists_not_recorded_inOrder : ∃ s, (ud .client 129).ReachableIf InOrder s ∧
    s.pc = .done ∧ s.globalExit = false ∧ s.recvIdx = 129 ∧
    s.written.map PingpongPayload.id = [1] := by
  have hrun : ((ud .client 129).execIf InOrder initial ([.loop,
      .received ⟨128, ⟨0, by decide⟩⟩ true (newPingpongPayload 1), .poll 1, .parse 5 6 0, .write,
      .repost 0] ++ ((List.finRange queueSize).tail.map fun q => .received
        ⟨pingpongRecvWrid + q, q⟩ true (newPingpongPayload (UInt64.ofNat (q + 1)))) ++
      [.received ⟨128, ⟨0, by decide⟩⟩ true (newPingpongPayload 129), .update, .loop])).map
      (fun s => (s.pc, s.globalExit, s.recvIdx, s.written.map PingpongPayload.id)) =
      some (.done, false, 129, [1]) := by
    decide +kernel
  obtain ⟨s, hs, he⟩ := Option.map_eq_some_iff.1 hrun
  obtain ⟨hpc, he⟩ := Prod.mk.inj he
  obtain ⟨hexit, he⟩ := Prod.mk.inj he
  obtain ⟨hidx, hwritten⟩ := Prod.mk.inj he
  exact ⟨s, System.runIf_of_execIf hs, hpc, hexit, hidx, hwritten⟩

end Ud
end Rdma
end DetBypass
