/-
# A server whose kernel sends nothing

Runs of the server of `xdp/pp_sock.c` in which the kernel delivers pings and
never takes a descriptor off the tx ring.  Each ping answered moves one frame to
the tx ring, and the refill takes another off the stack (`exists_round`).  After
2047 of them the stack has one frame and the tx ring one entry; a batch of two
makes the refill store the sentinel, and the second reply finds the ring full
(`exists_overload`).
-/

import DetBypass.Xdp.XskFrames

namespace DetBypass
namespace Xdp
namespace Xsk

open Lib

variable {build : Build} {iters : UInt64} {s t : State} {n : ℕ}

/-- A packet of the pingpong. -/
def ping : Packet := ⟨fun _ => 0, fun _ => 0, ethPPingpong, 0, 0, newPingpongPayload 1⟩

/-- There is an entry of the tx ring free, at most half of the frames are in use
and some frame is on the stack. -/
structure Calm (s : State) : Prop where
  tx : s.tx.length < ringSize
  load : s.inUse ≤ ringSize
  stack : s.fill.length + s.inUse < numFrames

/-- Between two batches: the fill ring is full, the tx ring has `n` entries and
the other places but the stack are empty. -/
structure Ready (s : State) (n : ℕ) : Prop where
  owned : Owned s
  pc : s.rxPc = .polling
  idle : s.txPc = .idle
  exit : s.globalExit = false
  kernelRx : s.kernelRx = []
  rx : s.rx = []
  kernelTx : s.kernelTx = []
  comp : s.comp = []
  lost : s.lost = []
  tx : s.tx.length = n
  fill : s.fill.length = ringSize
  frames : s.umemFrames.length + n = ringSize
  real : ∀ addr ∈ s.fill, frameOf addr < numFrames

/-- A socket with room is calm. -/
theorem Ready.calm (h : Ready s n) (hn : n < ringSize) : Calm s := by
  have hN : numFrames = ringSize + ringSize := rfl
  have hfill := h.fill
  have htx := h.tx
  constructor
  case tx => omega
  all_goals
    simp only [State.inUse, State.unprocessed, h.kernelRx, h.rx, h.kernelTx, h.comp, h.lost,
      List.length_nil, List.drop_nil, List.map_nil]
    omega

/-- It stays so after a peek. -/
theorem Calm.peeked (h : Calm s) (hpc : s.rxPc = .polling) (rcvd : ℕ) :
    Calm { s with rxPc := .peeked rcvd } := by
  have huse : State.inUse { s with rxPc := .peeked rcvd } = s.inUse := by
    simp only [State.inUse, State.unprocessed, hpc, RxPc.processed]
  exact ⟨h.tx, huse ▸ h.load, huse ▸ h.stack⟩

/-- The kernel has delivered a ping in the frame at the head of the fill ring. -/
def deliver (s : State) (addr : UInt64) (fill : List UInt64) : State :=
  { s with
    fill := fill, rx := s.rx ++ [⟨addr, minPacketLen⟩]
    umem := Function.update s.umem (frameOf addr) ping }

/-- The kernel delivers a packet into the next frame. -/
theorem exists_deliver {g : State → Action → Prop} {addr : UInt64} {fill : List UInt64}
    (hfill : s.fill = addr :: fill) (hreal : frameOf addr < numFrames) (hkernel : s.kernelRx = [])
    (hroom : s.rx.length < ringSize) (hg : g s .kernelFill)
    (hg' : g { s with fill := fill, kernelRx := [addr] }
      (.kernelReceive addr addr minPacketLen ping)) :
    (socket build iters).RunIf g s (deliver s addr fill) := by
  have h₁ : (socket build iters).step s .kernelFill =
      some { s with fill := fill, kernelRx := [addr] } := by
    simp only [socket, step, hfill, hreal, if_true, hkernel, List.nil_append]
  have h₂ : (socket build iters).step { s with fill := fill, kernelRx := [addr] }
      (.kernelReceive addr addr minPacketLen ping) = some (deliver s addr fill) := by
    simp [socket, step, deliver, hroom, hkernel]
  exact (System.RunIf.refl.tail hg h₁).tail hg' h₂

/-- `complete_tx` with nothing to complete. -/
theorem completeTx_of_nil (hcomp : s.comp = []) : completeTx s = s := by
  rw [completeTx]
  split
  · rfl
  · rename_i hpos
    have hlt : UInt32.ofNat 0 < s.outstandingTx := UInt32.pos_iff_ne_zero.2 hpos
    simp only [hcomp, List.take_nil, List.foldl_nil, List.length_nil, List.drop_zero, if_pos hlt]
    rw [show UInt32.ofNat 0 = 0 from rfl, UInt32.sub_zero, ← hcomp]

/-- The reply to a ping finds an entry free. -/
theorem Owned.exists_reply (h : Owned s) (iters : UInt64) {rcvd i : ℕ} {desc : Desc}
    (hpc : s.rxPc = .processing rcvd i) (hi : i < rcvd) (hdesc : s.rx[i]? = some desc)
    (hreply : Replies .server s desc) :
    ∃ umem exit, Handled iters s desc umem exit ∧
      (s.tx.length < ringSize ∧ step .server iters s (.receiver 0 0) = some { s with
          umem := umem, globalExit := exit, tx := s.tx ++ [⟨desc.addr, desc.len⟩]
          outstandingTx := s.outstandingTx + 1, stored := s.stored ++ [desc.addr]
          rxPc := .processing rcvd (i + 1) } ∨
        ringSize ≤ s.tx.length ∧ step .server iters s (.receiver 0 0) = some { s with
          umem := umem, globalExit := exit, lost := s.lost ++ [desc.addr]
          rxPc := .processing rcvd (i + 1) }) := by
  have hsome : ∃ t, stepReceiver .server iters 0 0 s = some t := by
    simp [stepReceiver, hpc, hi, hdesc]
  obtain ⟨t, ht⟩ := hsome
  have hstep : step .server iters s (.receiver 0 0) = some t := by
    rw [step, if_neg (by rw [h.running]; decide), ht]
  obtain ⟨desc', umem, exit, written, hdesc', hhandled, hcases⟩ := h.processing_cases hpc hi ht
  obtain rfl := Option.some.inj (hdesc.symm.trans hdesc')
  rcases hcases with ⟨hno, -⟩ | ⟨-, hlt, rfl⟩ | ⟨-, hfull, rfl⟩
  · exact absurd hreply hno
  · exact ⟨umem, exit, hhandled, Or.inl ⟨hlt, hstep⟩⟩
  · exact ⟨umem, exit, hhandled, Or.inr ⟨hfull, hstep⟩⟩

/-- The peek of a batch and the refill of the fill ring. -/
theorem exists_refill {g : State → Action → Prop} {rcvd : ℕ} (hpc : s.rxPc = .polling)
    (hidle : s.txPc = .idle) (hexit : s.globalExit = false) (hrun : s.aborted = false)
    (hpos : 0 < rcvd) (hle : rcvd ≤ rxBatchSize) (hrx : rcvd ≤ s.rx.length) (hg : g s (.poll rcvd))
    (hg' : g { s with rxPc := .peeked rcvd } (.receiver 0 0)) :
    (socket build iters).RunIf g s
      (stockFill (ringSize - s.fill.length) { s with rxPc := .processing rcvd 0 }) := by
  have h₁ : (socket build iters).step s (.poll rcvd) = some { s with rxPc := .peeked rcvd } := by
    simp [socket, step, hpc, hexit, hrun, hpos, hle, hrx]
  have h₂ : (socket build iters).step { s with rxPc := .peeked rcvd } (.receiver 0 0) =
      some (stockFill (ringSize - s.fill.length) { s with rxPc := .processing rcvd 0 }) := by
    simp [socket, step, hrun, stepReceiver, xskProdNbFree, hidle, TxPc.locked]
  exact (System.RunIf.refl.tail hg h₁).tail hg' h₂

/-- The release of a batch with nothing to complete. -/
theorem step_release (hrun : s.aborted = false) {rcvd : ℕ}
    (hpc : s.rxPc = .processing rcvd rcvd) (hcomp : s.comp = []) :
    step build iters s (.receiver 0 0) =
      some { s with rx := s.rx.drop rcvd, rxPc := .polling } := by
  have hnil := completeTx_of_nil (s := { s with rx := s.rx.drop rcvd, rxPc := .polling }) hcomp
  rw [step, if_neg (by rw [hrun]; decide)]
  simp only [stepReceiver, hpc, Nat.lt_irrefl, if_false, hnil]

/-- A ping at the server is replied to. -/
theorem replies_ping {addr : UInt64} (hproto : (s.umem (frameOf addr)).hProto = ethPPingpong) :
    Replies .server s ⟨addr, minPacketLen⟩ :=
  ⟨rfl, show ¬ minPacketLen < minPacketLen by decide, hproto⟩

/-- In a batch of one, a ping: the fill ring is full again, the tx ring has `n`
entries. -/
structure Stocked (s : State) (n : ℕ) (addr : UInt64) : Prop where
  owned : Owned s
  pc : s.rxPc = .processing 1 0
  idle : s.txPc = .idle
  exit : s.globalExit = false
  kernelRx : s.kernelRx = []
  rx : s.rx = [⟨addr, minPacketLen⟩]
  kernelTx : s.kernelTx = []
  comp : s.comp = []
  lost : s.lost = []
  tx : s.tx.length = n
  fill : s.fill.length = ringSize
  frames : s.umemFrames.length + n + 1 = ringSize
  real : ∀ addr ∈ s.fill, frameOf addr < numFrames
  ping : s.umem (frameOf addr) = ping

/-- **A ping arrives.**  The kernel takes the head of the fill ring for it, and
the refill puts the head of the stack at the end. -/
theorem exists_stocked {g : State → Action → Prop} (hg : ∀ s a, Calm s → g s a)
    (h : Ready s n) (hn : n + 1 < ringSize) :
    ∃ t addr, (socket build iters).RunIf g s t ∧ Stocked t n addr := by
  have hN : numFrames = ringSize + ringSize := rfl
  have hfilllen := h.fill
  have hframeslen := h.frames
  have htx := h.tx
  obtain ⟨addr, fill, hfill⟩ := List.exists_cons_of_length_pos (l := s.fill) (by omega)
  obtain ⟨frame, frames, hframes⟩ := List.exists_cons_of_length_pos (l := s.umemFrames) (by omega)
  rw [hfill, List.length_cons] at hfilllen
  rw [hframes, List.length_cons] at hframeslen
  have hrealframe : frameOf frame < numFrames :=
    h.owned.real frame (mem_trusted.2 (Or.inl (hframes ▸ List.mem_cons_self ..)))
  have hcalm₀ : Calm { s with fill := fill, kernelRx := [addr] } := by
    constructor <;>
      simp [State.inUse, State.unprocessed, h.rx, h.kernelTx, h.comp, h.lost] <;> omega
  let s₁ := deliver s addr fill
  have h₁ : (socket build iters).RunIf g s s₁ :=
    exists_deliver hfill (h.real addr (hfill ▸ List.mem_cons_self ..)) h.kernelRx
      (by rw [h.rx]; decide) (hg _ _ (h.calm (by omega))) (hg _ _ hcalm₀)
  have hrx₁ : s₁.rx = [⟨addr, minPacketLen⟩] := by simp [s₁, deliver, h.rx]
  have hcalm₁ : Calm s₁ := by
    constructor <;>
      simp [State.inUse, State.unprocessed, s₁, deliver, h.rx, h.kernelRx, h.kernelTx, h.comp,
        h.lost, h.pc, RxPc.processed] <;> omega
  have hstock : ringSize - s₁.fill.length = 1 := by
    change ringSize - fill.length = 1
    omega
  have hrefill : (socket build iters).RunIf g s₁
      (stockFill (ringSize - s₁.fill.length) { s₁ with rxPc := .processing 1 0 }) :=
    exists_refill h.pc h.idle h.exit h.owned.running Nat.one_pos (by decide)
      (by rw [hrx₁]; exact le_rfl) (hg _ _ hcalm₁) (hg _ _ (hcalm₁.peeked h.pc 1))
  rw [hstock, stockFill_eq] at hrefill
  let s₂ : State := { s₁ with
    rxPc := .processing 1 0, umemFrames := frames, fill := fill ++ [frame]
    stored := s.stored ++ [frame] }
  have h₂ : (socket build iters).RunIf g s s₂ := h₁.trans (by
    simpa [s₁, s₂, deliver, hframes] using hrefill)
  have howned₂ : Owned s₂ :=
    h₂.preserves (fun hI _ hst => owned_invariant.step hI trivial hst) h.owned
  refine ⟨s₂, addr, h₂, howned₂, rfl, h.idle, h.exit, h.kernelRx, hrx₁, h.kernelTx, h.comp, h.lost,
    htx, ?_, ?_, fun addr' ha => ?_, Function.update_self ..⟩
  · show (fill ++ [frame]).length = ringSize
    rw [List.length_append, List.length_singleton]
    omega
  · show frames.length + n + 1 = ringSize
    omega
  · rcases List.mem_append.1 ha with ha | ha
    · exact h.real addr' (hfill ▸ List.mem_cons_of_mem _ ha)
    · rwa [List.mem_singleton.1 ha]

/-- **It is replied to**, and the batch is released. -/
theorem Stocked.exists_ready {g : State → Action → Prop} (hg : ∀ s a, Calm s → g s a)
    (hiters : 1 < iters) {addr : UInt64} (h : Stocked s n addr) (hn : n + 1 < ringSize) :
    ∃ t, (socket .server iters).RunIf g s t ∧ Ready t (n + 1) := by
  have hN : numFrames = ringSize + ringSize := rfl
  have htx := h.tx
  have hfill := h.fill
  have hframes := h.frames
  have hcalm : Calm s := by
    refine ⟨by omega, ?_, ?_⟩ <;>
      simp [State.inUse, State.unprocessed, h.rx, h.kernelRx, h.kernelTx, h.comp, h.lost, h.pc,
        RxPc.processed] <;> omega
  obtain ⟨umem, exit, hhandled, ⟨-, hstep⟩ | ⟨hfull, -⟩⟩ :=
    h.owned.exists_reply iters h.pc Nat.one_pos (by rw [h.rx]; rfl)
      (replies_ping (by rw [h.ping]; rfl))
  case inr => exact absurd hfull (Nat.not_le.2 hcalm.tx)
  let s₁ : State := { s with
    umem := umem, globalExit := exit, tx := s.tx ++ [⟨addr, minPacketLen⟩]
    outstandingTx := s.outstandingTx + 1, stored := s.stored ++ [addr]
    rxPc := .processing 1 1 }
  have h₁ : (socket .server iters).RunIf g s s₁ :=
    System.RunIf.refl.tail (hg _ (.receiver 0 0) hcalm) hstep
  have hcalm₁ : Calm s₁ := by
    constructor <;>
      simp [State.inUse, State.unprocessed, s₁, h.rx, h.kernelRx, h.kernelTx, h.comp, h.lost,
        RxPc.processed] <;> omega
  let t : State := { s₁ with rx := s₁.rx.drop 1, rxPc := .polling }
  have ht : (socket .server iters).RunIf g s t :=
    h₁.tail (hg _ (.receiver 0 0) hcalm₁) (step_release (s := s₁) h.owned.running rfl h.comp)
  have howned : Owned t :=
    ht.preserves (fun hI _ hst => owned_invariant.step hI trivial hst) h.owned
  have hexit : exit = false := by
    refine Bool.eq_false_iff.2 fun he => ?_
    rcases hhandled.2 he with he | he
    · exact Bool.noConfusion (h.exit.symm.trans he)
    · have hid : (s.umem (frameOf addr)).payload.id = 1 := by rw [h.ping]; rfl
      rw [hid] at he
      exact UInt64.not_le.2 hiters he
  refine ⟨t, ht, howned, rfl, h.idle, hexit, h.kernelRx, ?_, h.kernelTx, h.comp, h.lost, ?_, h.fill,
    ?_, h.real⟩
  · show s.rx.drop 1 = []
    rw [h.rx]
    rfl
  · show (s.tx ++ [(⟨addr, minPacketLen⟩ : Desc)]).length = n + 1
    rw [List.length_append, List.length_singleton, htx]
  · show s.umemFrames.length + (n + 1) = ringSize
    omega

/-- **One ping answered.**  A frame moves from the fill ring to the tx ring and
another from the stack to the fill ring. -/
theorem exists_round {g : State → Action → Prop} (hg : ∀ s a, Calm s → g s a)
    (hiters : 1 < iters) (h : Ready s n) (hn : n + 1 < ringSize) :
    ∃ t, (socket .server iters).RunIf g s t ∧ Ready t (n + 1) := by
  obtain ⟨r, addr, hrun, hstocked⟩ := exists_stocked hg h hn
  obtain ⟨t, hrun', hready⟩ := hstocked.exists_ready hg hiters hn
  exact ⟨t, hrun.trans hrun', hready⟩

/-- The socket before the first packet. -/
theorem ready_xskConfigureSocket : Ready xskConfigureSocket 0 := by
  have hframes : emptySocket.umemFrames.length = ringSize + ringSize := by
    simp [emptySocket, numFrames, ringSize]
  have hzero : ringSize - emptySocket.umemFrames.length = 0 := by omega
  have howned := owned_xskConfigureSocket
  rw [xskConfigureSocket, stockFill_eq, hzero, List.replicate_zero, List.append_nil] at howned ⊢
  refine ⟨howned, rfl, rfl, rfl, rfl, rfl, rfl, rfl, rfl, rfl, ?_, ?_, ?_⟩
  · simp only [emptySocket, List.nil_append] at hframes ⊢
    rw [List.length_take, hframes]
    omega
  · rw [List.length_drop, hframes]
    omega
  · intro addr ha
    have ha : addr ∈ [] ++ emptySocket.umemFrames.take ringSize := ha
    rw [List.nil_append] at ha
    exact owned_emptySocket.real addr (mem_trusted.2 (Or.inl (List.mem_of_mem_take ha)))

/-- Any number of pings short of the size of the tx ring, each answered. -/
theorem exists_rounds {g : State → Action → Prop} (hg : ∀ s a, Calm s → g s a)
    (hiters : 1 < iters) (hn : n < ringSize) :
    ∃ t, (socket .server iters).ReachableIf g t ∧ Ready t n := by
  induction n with
  | zero => exact ⟨xskConfigureSocket, System.ReachableIf.init, ready_xskConfigureSocket⟩
  | succ n ih =>
      obtain ⟨s, hs, hready⟩ := ih (by omega)
      obtain ⟨t, ht, hready'⟩ := exists_round hg hiters hready hn
      exact ⟨t, hs.trans ht, hready'⟩

/-- The packet delivered has the type of a pingpong. -/
theorem deliver_hProto (s : State) (addr : UInt64) (fill : List UInt64) {f : ℕ}
    (h : f = frameOf addr ∨ (s.umem f).hProto = ethPPingpong) :
    ((deliver s addr fill).umem f).hProto = ethPPingpong := by
  rcases eq_or_ne f (frameOf addr) with rfl | hne
  · simp only [deliver, Function.update_self]
    rfl
  · simp only [deliver, Function.update_of_ne hne]
    exact h.resolve_left hne

/-- **Two pings with one entry of the tx ring left.**  The refill stores the
sentinel, the second reply finds the ring full and its frame is lost. -/
theorem exists_overload (hiters : 1 < iters) :
    ∃ t, (socket .server iters).Reachable t ∧ t.rxPc = .polling ∧ t.lost ≠ [] ∧
      invalidUmemFrame ∈ t.stored := by
  obtain ⟨s, hs, h⟩ := exists_rounds (g := fun _ _ => True) (n := 2047) (fun _ _ _ => trivial)
    hiters (by decide)
  have hR : ringSize = 2048 := rfl
  have hfilllen := h.fill
  have hframeslen := h.frames
  obtain ⟨a₁, fill₁, hfill₁⟩ := List.exists_cons_of_length_pos (l := s.fill) (by omega)
  rw [hfill₁, List.length_cons] at hfilllen
  obtain ⟨a₂, fill, rfl⟩ := List.exists_cons_of_length_pos (l := fill₁) (by omega)
  rw [List.length_cons] at hfilllen
  obtain ⟨frame, hframes⟩ := List.length_eq_one_iff.1 (show s.umemFrames.length = 1 by omega)
  -- the kernel delivers both
  let s₁ := deliver s a₁ (a₂ :: fill)
  let s₂ := deliver s₁ a₂ fill
  have h₁ : (socket .server iters).Reachable s₁ := hs.trans
    (exists_deliver hfill₁ (h.real a₁ (by rw [hfill₁]; simp)) h.kernelRx (by rw [h.rx]; decide)
      trivial trivial)
  have h₂ : (socket .server iters).Reachable s₂ := h₁.trans
    (exists_deliver rfl (h.real a₂ (by rw [hfill₁]; simp)) h.kernelRx
      (by simp [s₁, deliver, h.rx, hR]) trivial trivial)
  have hrx : s₂.rx = [⟨a₁, minPacketLen⟩, ⟨a₂, minPacketLen⟩] := by
    simp [s₂, s₁, deliver, h.rx]
  -- the refill finds two entries free and one frame on the stack
  have hrefill : (socket .server iters).RunIf (fun _ _ => True) s₂
      (stockFill (ringSize - s₂.fill.length) { s₂ with rxPc := .processing 2 0 }) :=
    exists_refill h.pc h.idle h.exit h.owned.running Nat.two_pos (by decide)
      (by rw [hrx]; exact le_rfl) trivial trivial
  have hstock : ringSize - s₂.fill.length = 2 := by
    change ringSize - fill.length = 2
    omega
  rw [hstock, stockFill_eq] at hrefill
  let s₃ : State := { s₂ with
    rxPc := .processing 2 0, umemFrames := [], fill := fill ++ [frame, invalidUmemFrame]
    stored := s.stored ++ [frame, invalidUmemFrame] }
  have h₃ : (socket .server iters).Reachable s₃ := h₂.trans (by
    simpa [s₁, s₂, s₃, deliver, hframes] using hrefill)
  have hproto₁ : (s₃.umem (frameOf a₁)).hProto = ethPPingpong :=
    deliver_hProto s₁ a₂ fill (Or.inr (deliver_hProto s a₁ (a₂ :: fill) (Or.inl rfl)))
  have hproto₂ : (s₃.umem (frameOf a₂)).hProto = ethPPingpong :=
    deliver_hProto s₁ a₂ fill (Or.inl rfl)
  -- the first reply takes the last entry
  have htx₃ : s₃.tx.length = 2047 := h.tx
  obtain ⟨umem, exit, hhandled, ⟨-, h₄⟩ | ⟨hfull, -⟩⟩ :=
    (owned_of_reachable h₃).exists_reply iters rfl Nat.two_pos
      (by rw [show s₃.rx = _ from hrx]; rfl) (replies_ping hproto₁)
  case inr => omega
  let s₄ : State := { s₃ with
    umem := umem, globalExit := exit, tx := s₃.tx ++ [⟨a₁, minPacketLen⟩]
    outstandingTx := s₃.outstandingTx + 1, stored := s₃.stored ++ [a₁]
    rxPc := .processing 2 1 }
  have h₄ : (socket .server iters).Reachable s₄ := h₃.tail (a := .receiver 0 0) h₄
  -- the second reply finds none
  have htx₄ : s₄.tx.length = 2048 := by rw [List.length_append, htx₃]; rfl
  obtain ⟨umem', exit', -, ⟨hlt, -⟩ | ⟨-, h₅⟩⟩ :=
    (owned_of_reachable h₄).exists_reply iters rfl Nat.one_lt_two
      (by rw [show s₄.rx = _ from hrx]; rfl) (replies_ping ((hhandled.1 _).trans hproto₂))
  case inl => omega
  let s₅ : State := { s₄ with
    umem := umem', globalExit := exit', lost := s₄.lost ++ [a₂], rxPc := .processing 2 2 }
  have h₅ : (socket .server iters).Reachable s₅ := h₄.tail (a := .receiver 0 0) h₅
  have hrunning := (owned_of_reachable h₅).running
  refine ⟨{ s₅ with rx := s₅.rx.drop 2, rxPc := .polling },
    h₅.tail (a := .receiver 0 0) (step_release (s := s₅) hrunning rfl h.comp), rfl, ?_, ?_⟩
  · exact List.append_ne_nil_of_right_ne_nil _ (List.cons_ne_nil _ _)
  · change invalidUmemFrame ∈ (s.stored ++ [frame, invalidUmemFrame]) ++ [a₁]
    simp

end Xsk
end Xdp
end DetBypass
