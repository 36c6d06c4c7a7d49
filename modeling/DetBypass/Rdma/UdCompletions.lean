/-
# Room in the completion queue

`ibv_create_cq` of `rdma/ud_pingpong.c` asks for `QUEUE_SIZE` entries, and
receives and signaled sends complete into the one queue.  The server turns
receives into sends and back, so `QUEUE_SIZE` completions are all there can be.
The client keeps `QUEUE_SIZE` receives posted besides its send: its queue is
large enough exactly while the sends to be polled are no more than the receive
completions that are polled and whose buffers are not posted again
(`Counted.unpolled_add`).  Its first send is one too many (`exists_overrun`).
-/

import DetBypass.Rdma.UdClient

namespace DetBypass
namespace Rdma
namespace Ud

open Lib

variable {build : Build} {iters : UInt64} {s t : State} {wc : Wc} {rest : List Wc} {a : Action}

/-- The work requests posted whose completion is not polled. -/
def State.unpolled (s : State) : ℕ := s.recvQueue.length + s.sendQueue.length + s.cq.length

/-- The sends among them. -/
def State.unpolledSends (s : State) : ℕ :=
  s.sendQueue.length + s.cq.countP fun wc => wc.wrId < pingpongRecvWrid

/-- The receive completions that are polled and whose buffers are not posted again. -/
def State.polledRecvs (s : State) : ℕ := s.wc.countP fun wc => pingpongRecvWrid ≤ wc.wrId

/-- The completions that are polled count too. -/
def State.load (s : State) : ℕ := s.unpolled + s.wc.length

/-- Nothing but a post takes room. -/
theorem Moves.unpolled_le (h : Moves iters s a t) : t.unpolled ≤ s.unpolled := by
  cases h with
  | loop | pollError | update | interrupt => exact Nat.le_refl _
  | poll n =>
      simp only [State.unpolled, List.length_drop]
      omega
  | received wr success datagram hwr =>
      have := List.length_pos_of_mem hwr
      simp only [State.unpolled, List.length_erase_of_mem hwr, List.length_append,
        List.length_singleton]
      omega
  | sent wr success hwr =>
      have := List.length_pos_of_mem hwr
      simp only [State.unpolled, List.length_erase_of_mem hwr, List.length_append,
        List.length_singleton]
      omega

/-- Polling does not either. -/
theorem Moves.load_le (h : Moves iters s a t) : t.load ≤ s.load := by
  have hle := h.unpolled_le
  cases h with
  | poll n =>
      simp only [State.load, State.unpolled, List.length_drop, List.length_take]
      omega
  | _ => exact Nat.add_le_add_right hle _

/-! ### The client -/

/-- The completion of a send. -/
theorem lt_recvWrid {q : Fin queueSize} (hwc : wc.wrId = pingpongSendWrid + q) :
    wc.wrId < pingpongRecvWrid := by
  have hlt := q.isLt
  have hsend : pingpongSendWrid = 0 := rfl
  have hrecv : pingpongRecvWrid = queueSize := rfl
  omega

/-- The main thread is about to post a buffer again. -/
def State.reposting (s : State) : Prop := ∃ q, s.pc = .repost q

instance (s : State) : Decidable s.reposting :=
  match h : s.pc with
  | .repost q => isTrue ⟨q, h⟩
  | .loop | .poll | .handle | .write _ | .update _ | .spin | .done | .failed =>
    isFalse fun ⟨_, h'⟩ => by simp [h] at h'

/-- The step posts a work request. -/
def Posts (s : State) : Action → Prop
  | .sender _ ret => s.posting ∧ ret = 0
  | .repost ret => s.reposting ∧ ret = 0
  | _ => False

instance (s : State) : (a : Action) → Decidable (Posts s a)
  | .sender _ ret => inferInstanceAs (Decidable (s.posting ∧ ret = 0))
  | .repost ret => inferInstanceAs (Decidable (s.reposting ∧ ret = 0))
  | .loop | .poll _ | .pollError | .parse .. | .write | .update | .interrupt | .received ..
  | .sent .. => inferInstanceAs (Decidable False)

/-- **Only a post takes room** in the queue of the client. -/
theorem step_unpolled (hstep : step .client iters s a = some t) :
    Posts s a ∧ t.unpolled = s.unpolled + 1 ∨ ¬ Posts s a ∧ t.unpolled ≤ s.unpolled := by
  cases clientStep_of_step hstep with
  | parse hpc hwcs hhandles =>
      cases hhandles with
      | failed | sent | stamped => exact Or.inr ⟨id, Nat.le_refl _⟩
  | write => exact Or.inr ⟨id, Nat.le_refl _⟩
  | repost q hpc =>
      refine Or.inl ⟨⟨⟨q, hpc⟩, rfl⟩, ?_⟩
      simp only [State.unpolled, List.length_append, List.length_singleton]
      omega
  | unposted q ret hpc hret => exact Or.inr ⟨fun h => hret h.2, Nat.le_refl _⟩
  | sender hsends =>
      cases hsends with
      | wait id hpc | write id hpc =>
          refine Or.inr ⟨?_, Nat.le_refl _⟩
          rintro ⟨⟨id', hpc'⟩, -⟩
          simp [hpc] at hpc'
      | post id hpc hret =>
          refine Or.inl ⟨⟨⟨id, hpc⟩, hret⟩, ?_⟩
          simp only [State.unpolled, List.length_append, List.length_singleton]
          omega
      | unposted id hpc hret => exact Or.inr ⟨fun h => hret h.2, Nat.le_refl _⟩
  | moves hmoves =>
      refine Or.inr ⟨fun hposts => ?_, hmoves.unpolled_le⟩
      cases hmoves <;> exact hposts

/-- `QUEUE_SIZE` receives are posted or have a completion that is not handled. -/
structure Counted (s : State) : Prop where
  recvs : s.recvQueue.length + (s.cq.countP fun wc => pingpongRecvWrid ≤ wc.wrId) +
    s.polledRecvs = queueSize
  recvWr : ∀ wr ∈ s.recvQueue, pingpongRecvWrid ≤ wr.wrId
  sendWr : ∀ wr ∈ s.sendQueue, wr.wrId < pingpongRecvWrid

/-- **What the capacity leaves for sends.** -/
theorem Counted.unpolled_add (h : Counted s) :
    s.unpolled + s.polledRecvs = queueSize + s.unpolledSends := by
  have hlength := List.length_eq_countP_add_countP (l := s.cq)
    (p := fun wc => decide (pingpongRecvWrid ≤ wc.wrId))
  have hsends : (s.cq.countP fun wc => decide (wc.wrId < pingpongRecvWrid)) =
      s.cq.countP fun wc => ¬ decide (pingpongRecvWrid ≤ wc.wrId) :=
    List.countP_congr fun wc _ => by simp
  have hrecvs := h.recvs
  unfold State.unpolled State.unpolledSends
  omega

/-- A move keeps the receives in the queue or among the completions. -/
theorem Counted.moves (h : Counted s) (hdrained : Drained s) (hmoves : Moves iters s a t) :
    Counted t := by
  have hrecvs := h.recvs
  unfold State.polledRecvs at hrecvs
  cases hmoves with
  | loop | pollError | update | interrupt => exact { h with }
  | poll n hpc =>
      refine ⟨?_, h.recvWr, h.sendWr⟩
      have hsplit : (s.cq.countP fun wc => pingpongRecvWrid ≤ wc.wrId) =
          ((s.cq.take n).countP fun wc => pingpongRecvWrid ≤ wc.wrId) +
            (s.cq.drop n).countP fun wc => pingpongRecvWrid ≤ wc.wrId := by
        rw [← List.countP_append, List.take_append_drop]
      rw [hdrained.empty (Or.inr hpc), List.countP_nil] at hrecvs
      simp only [State.polledRecvs]
      omega
  | received wr success datagram hwr =>
      refine ⟨?_, fun wr' hwr' => h.recvWr wr' (List.mem_of_mem_erase hwr'), h.sendWr⟩
      have hpos := List.length_pos_of_mem hwr
      simp only [State.polledRecvs, List.length_erase_of_mem hwr, List.countP_append,
        List.countP_singleton, decide_eq_true (h.recvWr wr hwr), if_true]
      omega
  | sent wr success hwr =>
      refine ⟨?_, h.recvWr, fun wr' hwr' => h.sendWr wr' (List.mem_of_mem_erase hwr')⟩
      have hno := Nat.not_le_of_lt (h.sendWr wr hwr)
      simpa only [State.polledRecvs, List.countP_append, List.countP_singleton,
        decide_eq_false hno, Bool.false_eq_true, if_false, Nat.add_zero] using hrecvs

/-- The client posts each receive again when it has handled its completion, and
no other. -/
theorem counted_invariant :
    (ud .client iters).Invariant (fun _ _ => True) fun s => Drained s ∧ Counted s where
  init := by
    refine ⟨drained_initial, rfl, fun wr hwr => ?_, fun wr hwr => absurd hwr List.not_mem_nil⟩
    obtain ⟨q, -, rfl⟩ := List.mem_map.1 hwr
    exact Nat.le_add_right _ _
  step := by
    rintro s a t ⟨hdrained, h⟩ - hstep
    replace hstep : step .client iters s a = some t := hstep
    refine ⟨hdrained.step hstep, ?_⟩
    have hrecvs := h.recvs
    unfold State.polledRecvs at hrecvs
    cases clientStep_of_step hstep with
    | @parse t₁ t₂ ret wc rest _ hpc hwcs hhandles =>
        cases hhandles with
        | failed | stamped => exact { h with }
        | sent q hok hwc =>
            rw [hwcs, List.countP_cons,
              decide_eq_false (Nat.not_le_of_lt (lt_recvWrid hwc))] at hrecvs
            exact ⟨hrecvs, h.recvWr, h.sendWr⟩
    | write | unposted => exact { h with }
    | repost q hpc =>
        obtain ⟨wc, rest, hwcs, hwc⟩ := hdrained.atHand q (Or.inr hpc)
        have hyes : pingpongRecvWrid ≤ wc.wrId := hwc ▸ Nat.le_add_right _ _
        rw [hwcs, List.countP_cons, decide_eq_true hyes, if_pos rfl] at hrecvs
        refine ⟨?_, fun wr hwr => ?_, h.sendWr⟩
        · simp only [State.polledRecvs, hwcs, List.tail_cons, List.length_append,
            List.length_singleton]
          omega
        · rcases List.mem_append.1 hwr with hwr | hwr
          · exact h.recvWr wr hwr
          · rw [List.mem_singleton.1 hwr]
            exact Nat.le_add_right _ _
    | sender hsends =>
        cases hsends with
        | wait | write | unposted => exact { h with }
        | post =>
            refine ⟨h.recvs, h.recvWr, fun wr hwr => ?_⟩
            rcases List.mem_append.1 hwr with hwr | hwr
            · exact h.sendWr wr hwr
            · rw [List.mem_singleton.1 hwr]
              decide
    | moves hmoves => exact h.moves hdrained hmoves

/-! ### The server -/

/-- The server posts once for a completion, or fails. -/
theorem parseSingleWc_unpolled (t₁ t₂ : UInt64) (ret : ℤ) (s : State) (wc : Wc) :
    (parseSingleWc .server t₁ t₂ ret s wc).2.wc = s.wc ∧
      ((parseSingleWc .server t₁ t₂ ret s wc).1 = some 0 ∧
          (parseSingleWc .server t₁ t₂ ret s wc).2.unpolled = s.unpolled + 1 ∨
        (parseSingleWc .server t₁ t₂ ret s wc).1 ≠ some 0 ∧
          (parseSingleWc .server t₁ t₂ ret s wc).2.unpolled = s.unpolled) := by
  unfold parseSingleWc
  split_ifs with hok hknown hsend
  · simp
  · simp
  · by_cases hret : ret = 0
    · simp [ppPostRecv, hret, State.unpolled]
      omega
    · simp [ppPostRecv, hret, State.unpolled]
  · dsimp only
    by_cases hbit : s.pendingSend.test ⟨wc.wrId - pingpongRecvWrid, recvIdx_lt hknown⟩ ≠ 0
    · rw [if_pos hbit]
      simp [State.unpolled]
    · rw [if_neg hbit]
      by_cases hret : ret = 0
      · simp [ppPostSend, hret, State.unpolled]
        omega
      · simp [ppPostSend, hret, State.unpolled]

/-- A completion makes room before the next post. -/
theorem load_handleWc (t₁ t₂ : UInt64) (ret : ℤ) (hwcs : s.wc = wc :: rest) :
    (handleWc .server t₁ t₂ ret s wc rest).load ≤ s.load := by
  obtain ⟨hwc, hposts⟩ := parseSingleWc_unpolled t₁ t₂ ret s wc
  have hlength : s.wc.length = rest.length + 1 := by rw [hwcs, List.length_cons]
  unfold handleWc State.load
  generalize parseSingleWc .server t₁ t₂ ret s wc = parsed at hwc hposts
  obtain ⟨failed, u⟩ := parsed
  dsimp only at hwc hposts ⊢
  rcases hposts with ⟨rfl, hu⟩ | ⟨hfailed, hu⟩
  · have hzero : ¬ (0 : ℤ) ≠ 0 := fun h => h rfl
    dsimp only
    rw [if_neg hzero]
    split_ifs <;> (simp only [State.unpolled] at hu ⊢; omega)
  · cases failed with
    | none => exact (congrArg₂ (· + ·) hu (congrArg List.length hwc)).le
    | some failed =>
        have hne : failed ≠ 0 := fun h => hfailed (h ▸ rfl)
        dsimp only
        rw [if_pos hne]
        exact (congrArg₂ (· + ·) hu (congrArg List.length hwc)).le

/-- **The work requests of the server are no more than its receives were.** -/
theorem load_invariant :
    (ud .server iters).Invariant (fun _ _ => True) fun s => s.load ≤ queueSize where
  init := by
    show initial.load ≤ queueSize
    simp [State.load, State.unpolled, initial]
  step := by
    rintro s a t h - hstep
    refine Nat.le_trans ?_ h
    cases serverStep_of_step hstep with
    | parse t₁ t₂ ret wc rest hpc hwcs => exact load_handleWc t₁ t₂ ret hwcs
    | moves hmoves => exact hmoves.load_le

/-! ### The capacity -/

/-- The client posts only when the sends to be polled are fewer than the receive
completions it has polled and not handled. -/
def RoomFor (build : Build) (s : State) (a : Action) : Prop :=
  build = .client → Posts s a → s.unpolledSends < s.polledRecvs

instance (build : Build) (s : State) (a : Action) : Decidable (RoomFor build s a) :=
  inferInstanceAs (Decidable (build = .client → Posts s a → s.unpolledSends < s.polledRecvs))

/-- **The completion queue does not overflow, if each post of the client has
room.**  In every such run of the client and in every run of the server the work
requests whose completion is not polled are at most `QUEUE_SIZE`; the first post
of the client without room makes them more. -/
theorem unpolled_le_of_reachableIf (h : (ud build iters).ReachableIf (RoomFor build) s) :
    s.unpolled ≤ queueSize ∧ ∀ a t, step build iters s a = some t → ¬ RoomFor build s a →
      queueSize < t.unpolled := by
  cases build with
  | server =>
      refine ⟨Nat.le_trans (Nat.le_add_right _ _) (load_invariant.holds h.reachable), ?_⟩
      exact fun a t _ hfull => absurd (fun he => Build.noConfusion he) hfull
  | client =>
      have hcounted : ∀ {s}, (ud .client iters).ReachableIf (RoomFor .client) s → Counted s :=
        fun h => (counted_invariant.holds h.reachable).2
      have hle : s.unpolled ≤ queueSize := by
        unfold System.ReachableIf System.RunIf at h
        induction h with
        | refl => exact Nat.le_of_eq rfl
        | tail hrun hlast ih =>
            obtain ⟨a, hroom, hstep⟩ := hlast
            have hadd := (hcounted hrun).unpolled_add
            rcases step_unpolled hstep with ⟨hposts, he⟩ | ⟨-, hle⟩
            · have := hroom rfl hposts
              omega
            · exact Nat.le_trans hle ih
      refine ⟨hle, fun a t hstep hfull => ?_⟩
      have hadd := (hcounted h).unpolled_add
      obtain ⟨-, hfull⟩ := Classical.not_imp.1 hfull
      obtain ⟨hposts, hfull⟩ := Classical.not_imp.1 hfull
      rcases step_unpolled hstep with ⟨-, he⟩ | ⟨hno, -⟩
      · omega
      · exact absurd hposts hno

/-- The client has polled a receive completion when it posts its send. -/
theorem unpolled_le_of_reachableIf_one : ∃ s, (ud .client 10).ReachableIf (RoomFor .client) s ∧
    s.sendQueue.length = 1 ∧ s.unpolled ≤ queueSize := by
  have hrun : ((ud .client 10).execIf (RoomFor .client) initial [.loop,
      .received ⟨128, ⟨0, by decide⟩⟩ true .zero, .poll 1, .sender 5 0, .sender 5 0,
      .sender 5 0]).map (fun s => s.sendQueue.length) = some 1 := by
    decide +kernel
  obtain ⟨s, hs, hlength⟩ := Option.map_eq_some_iff.1 hrun
  have hreach : (ud .client 10).ReachableIf (RoomFor .client) s := System.runIf_of_execIf hs
  exact ⟨s, hreach, hlength, (unpolled_le_of_reachableIf hreach).1⟩

/-- The first send of the client is one too many. -/
theorem exists_overrun : ∃ s, (ud .client 10).Reachable s ∧ queueSize < s.unpolled := by
  have hrun : ((ud .client 10).exec initial [.sender 5 0, .sender 5 0, .sender 5 0]).map
      State.unpolled = some 129 := by
    decide +kernel
  obtain ⟨s, hs, hunpolled⟩ := Option.map_eq_some_iff.1 hrun
  exact ⟨s, System.reachable_of_exec hs, hunpolled ▸ by decide⟩

/-! ### The input of the client -/

/-- The sending thread has no packet to send, and no send is posted or completed. -/
structure Sendless (s : State) : Prop where
  sender : s.senderPc = .waiting 1
  sendQueue : s.sendQueue = []
  cq : ∀ wc ∈ s.cq, pingpongRecvWrid ≤ wc.wrId

/-- Without rounds nothing is sent. -/
theorem Sendless.step (h : Sendless s) (hcounted : Counted s)
    (hstep : step .client 0 s a = some t) : Sendless t := by
  cases clientStep_of_step hstep with
  | parse hpc hwcs hhandles => cases hhandles <;> exact { h with }
  | write | repost | unposted => exact { h with }
  | sender hsends =>
      cases hsends with
      | wait id hpc hid =>
          obtain rfl := SenderPc.waiting.inj (h.sender.symm.trans hpc)
          exact absurd hid (by decide)
      | write id hpc | post id hpc | unposted id hpc => simp [h.sender] at hpc
  | moves hmoves =>
      cases hmoves with
      | loop | pollError | update | interrupt => exact { h with }
      | poll n => exact ⟨h.sender, h.sendQueue, fun wc hwc => h.cq wc (List.mem_of_mem_drop hwc)⟩
      | received wr success datagram hwr =>
          refine ⟨h.sender, h.sendQueue, fun wc hwc => ?_⟩
          rcases List.mem_append.1 hwc with hwc | hwc
          · exact h.cq wc hwc
          · rw [List.mem_singleton.1 hwc]
            exact hcounted.recvWr wr hwr
      | sent wr success hwr => simp [h.sendQueue] at hwr

/-- The sending thread posts its first packet. -/
theorem exists_posted (hiters : iters ≠ 0) :
    ∃ s, (ud .client iters).Reachable s ∧ s.unpolled = queueSize + 1 := by
  have hone : (1 : UInt64) ≤ iters := by
    rw [UInt64.le_iff_toNat_le]
    exact Nat.pos_of_ne_zero fun he => hiters (UInt64.toNat_inj.1 he)
  have hfree : initial.pendingSend.test ⟨0, by decide⟩ = 0 := by decide
  have hwait : step .client iters initial (.sender 5 0) =
      some { initial with senderPc := .writing 1 } := by
    simp [step, stepSender, show initial.senderPc = .waiting 1 from rfl, hone, hfree]
  have hwrite : step .client iters { initial with senderPc := .writing 1 } (.sender 5 0) =
      some { initial with
        sendPayload := (newPingpongPayload 1).setTs 0 5, senderPc := .posting 1 } := by
    simp [step, stepSender]
  obtain ⟨t, hpost, ht⟩ : ∃ t, step .client iters { initial with
      sendPayload := (newPingpongPayload 1).setTs 0 5, senderPc := .posting 1 } (.sender 5 0) =
      some t ∧ t.unpolled = queueSize + 1 := by
    refine ⟨_, by simp [step, stepSender]; rfl, ?_⟩
    simp [State.unpolled, ppPostSend, initial]
  have hwaited : (ud .client iters).Reachable _ :=
    System.Reachable.init.tail (a := .sender 5 0) hwait
  have hwritten : (ud .client iters).Reachable _ := hwaited.tail (a := .sender 5 0) hwrite
  exact ⟨t, hwritten.tail (a := .sender 5 0) hpost, ht⟩

/-- **The queue of the client is large enough for no round**: whatever the number of
iterations, unless it is 0. -/
theorem unpolled_le_iff :
    (∀ s, (ud .client iters).Reachable s → s.unpolled ≤ queueSize) ↔ iters = 0 := by
  constructor
  · intro hall
    by_contra hiters
    obtain ⟨s, hs, hunpolled⟩ := exists_posted hiters
    have hle := hall s hs
    omega
  · rintro rfl s hs
    have hsendless : Counted s ∧ Sendless s := by
      refine hs.preserves (I := fun s => (Drained s ∧ Counted s) ∧ Sendless s)
        (fun ⟨hc, hl⟩ _ hstep => ⟨counted_invariant.step hc trivial hstep, hl.step hc.2 hstep⟩)
        ⟨counted_invariant.init, rfl, rfl, fun _ hwc => absurd hwc List.not_mem_nil⟩ |>.imp_left
          And.right
    obtain ⟨hcounted, hsendless⟩ := hsendless
    have hadd := hcounted.unpolled_add
    have hnone : s.unpolledSends = 0 := by
      rw [State.unpolledSends, hsendless.sendQueue, List.length_nil, Nat.zero_add,
        List.countP_eq_zero]
      intro wc hwc
      have hle := hsendless.cq wc hwc
      simp only [decide_eq_true_eq]
      omega
    omega

end Ud
end Rdma
end DetBypass
