/-
# Where the frames of the AF_XDP programs are

Each of the `NUM_FRAMES` frames of `xdp/pp_sock.c` is in one place: the free
stack, the fill ring or the kernel's receive side, the part of the rx ring that
is not processed yet, the tx ring or the kernel's transmit side, the completion
ring, or it was kept for a reply that was never sent.  `Owned` says so for every
state of every run, together with what the moves need: the places the program
and the kernel take frames from hold real frames only, so the free stack never
outgrows `NUM_FRAMES` and the assertion of `xsk_free_umem_frame` holds.

The server ignores the result of `xsk_send_packet` in `process_packet` and keeps
the frame whether the reply was queued or not.  So the frames are conserved
exactly while none has been lost that way (`conserved_iff`).  What a step can do
is said once (`Steps`), for this invariant and those of the modules after it.
-/

import DetBypass.Xdp.Xsk
import DetBypass.Lib.Tally

namespace DetBypass
namespace Xdp
namespace Xsk

open Lib

variable {build : Build} {iters : UInt64} {s t : State} {a : Action}

/-- The part of the rx ring that has not been processed. -/
def State.unprocessed (s : State) : List UInt64 :=
  (s.rx.drop s.rxPc.processed).map Desc.addr

/-- The addresses in every place a frame can be. -/
def State.places (s : State) : List UInt64 :=
  s.umemFrames ++ (s.fill ++ (s.kernelRx ++ (s.unprocessed ++
    (s.tx.map Desc.addr ++ (s.kernelTx ++ s.comp)))))

/-- How many addresses are neither on the free stack nor in the fill ring. -/
def State.inUse (s : State) : ℕ :=
  s.kernelRx.length + s.unprocessed.length + s.tx.length + s.kernelTx.length + s.comp.length +
    s.lost.length

/-- Each frame is in exactly one place, once. -/
def Conserved (s : State) : Prop :=
  ∀ f < numFrames, tally frameOf s.places f = 1

/-- The places the program and the kernel take addresses from without a check. -/
def State.trusted (s : State) : List UInt64 :=
  s.umemFrames ++ (s.kernelRx ++ (s.unprocessed ++ (s.kernelTx ++ (s.comp ++ s.lost))))

/-- Each frame is in one place or lost, and the trusted places hold frames. -/
structure Owned (s : State) : Prop where
  once : ∀ f < numFrames, tally frameOf s.places f + tally frameOf s.lost f = 1
  real : ∀ addr ∈ s.trusted, frameOf addr < numFrames
  processed : s.rxPc.processed ≤ s.rxPc.rcvd
  batch : s.rxPc.rcvd ≤ s.rx.length
  running : s.aborted = false

/-! ### Spec lemmas of the functions -/

/-- Allocating `n` frames takes the top `n` of the stack, and the sentinel once
it is empty. -/
theorem stockFill_eq (n : ℕ) (s : State) :
    stockFill n s = { s with
      umemFrames := s.umemFrames.drop n
      fill := s.fill ++ (s.umemFrames.take n ++
        List.replicate (n - s.umemFrames.length) invalidUmemFrame)
      stored := s.stored ++ (s.umemFrames.take n ++
        List.replicate (n - s.umemFrames.length) invalidUmemFrame) } := by
  induction n generalizing s with
  | zero => simp [stockFill]
  | succ n ih =>
      cases hs : s.umemFrames with
      | nil => simp [stockFill, xskAllocUmemFrame, hs, ih, List.replicate_succ]
      | cons frame frames => simp [stockFill, xskAllocUmemFrame, hs, ih]

/-- Freeing frames the stack has room for. -/
theorem foldl_xskFreeUmemFrame (l : List UInt64) (s : State)
    (h : s.umemFrames.length + l.length ≤ numFrames) :
    l.foldl xskFreeUmemFrame s = { s with umemFrames := l.reverse ++ s.umemFrames } := by
  induction l generalizing s with
  | nil => rfl
  | cons a l ih =>
      rw [List.length_cons] at h
      have hfree : xskFreeUmemFrame s a = { s with umemFrames := a :: s.umemFrames } := by
        rw [xskFreeUmemFrame, if_pos (by omega)]
      rw [List.foldl_cons, hfree, ih _ (by rw [List.length_cons]; omega)]
      simp

/-- `process_packet` replies to the packet of a descriptor. -/
def Replies (build : Build) (s : State) (desc : Desc) : Prop :=
  build = .server ∧ ¬ desc.len < minPacketLen ∧ (s.umem (frameOf desc.addr)).hProto = ethPPingpong

/-- What `process_packet` may do to the packets and to the exit flag. -/
def Handled (iters : UInt64) (s : State) (desc : Desc) (umem : ℕ → Packet) (exit : Bool) : Prop :=
  (∀ f, (umem f).hProto = (s.umem f).hProto) ∧
    (exit = true → s.globalExit = true ∨ iters ≤ (s.umem (frameOf desc.addr)).payload.id)

/-- A packet rewritten in its frame is handled. -/
theorem handled_update (iters : UInt64) (s : State) (desc : Desc) (packet : Packet)
    (h : packet.hProto = (s.umem (frameOf desc.addr)).hProto) :
    Handled iters s desc (Function.update s.umem (frameOf desc.addr) packet)
      (s.globalExit || decide (iters ≤ (s.umem (frameOf desc.addr)).payload.id)) := by
  refine ⟨fun f => ?_, fun he => ?_⟩
  · by_cases hf : f = frameOf desc.addr
    · rw [hf, Function.update_self, h]
    · rw [Function.update_of_ne hf]
  · simpa using he

/-- `process_packet` keeps the frame and queues it for a reply, or gives it
back. -/
theorem processPacket_cases (build : Build) (iters t₁ t₂ : UInt64) (s : State) (desc : Desc) :
    ∃ umem exit written, Handled iters s desc umem exit ∧
      (Replies build s desc ∧ processPacket build iters t₁ t₂ s desc.addr desc.len =
        (true, (xskSendPacket { s with umem := umem, globalExit := exit }
          (.umemFrame desc.addr) desc.len false).2) ∨
      ¬ Replies build s desc ∧ processPacket build iters t₁ t₂ s desc.addr desc.len =
        (false, { s with umem := umem, globalExit := exit, written := written })) := by
  unfold processPacket
  split
  · rename_i hlen
    exact ⟨s.umem, s.globalExit, s.written, ⟨fun _ => rfl, Or.inl⟩,
      Or.inr ⟨fun hr => hr.2.1 hlen, rfl⟩⟩
  · rename_i hlen
    dsimp only
    split
    · rename_i hproto
      exact ⟨s.umem, s.globalExit, s.written, ⟨fun _ => rfl, Or.inl⟩,
        Or.inr ⟨fun hr => hproto hr.2.2, rfl⟩⟩
    · rename_i hproto
      cases build with
      | server =>
          exact ⟨_, _, s.written, handled_update iters s desc
            ((s.umem (frameOf desc.addr)).reply t₁ t₂) rfl,
            Or.inl ⟨⟨rfl, hlen, not_not.1 hproto⟩, rfl⟩⟩
      | client =>
          exact ⟨_, _, _, handled_update iters s desc { s.umem (frameOf desc.addr) with
            payload := (s.umem (frameOf desc.addr)).payload.setTs 3 t₁ } rfl,
            Or.inr ⟨fun hr => Build.noConfusion hr.1, rfl⟩⟩

/-! ### The moves -/

/-- The copies of a frame, place by place. -/
theorem tally_places (s : State) (f : ℕ) : tally frameOf s.places f =
    tally frameOf s.umemFrames f + tally frameOf s.fill f + tally frameOf s.kernelRx f +
      tally frameOf s.unprocessed f + tally frameOf (s.tx.map Desc.addr) f +
      tally frameOf s.kernelTx f + tally frameOf s.comp f := by
  simp only [State.places, tally_append]
  omega

/-- The places whose addresses are real frames. -/
theorem mem_trusted {addr : UInt64} : addr ∈ s.trusted ↔ addr ∈ s.umemFrames ∨
    addr ∈ s.kernelRx ∨ addr ∈ s.unprocessed ∨ addr ∈ s.kernelTx ∨ addr ∈ s.comp ∨
      addr ∈ s.lost := by
  simp only [State.trusted, List.mem_append]

/-- The sentinel is no frame. -/
theorem frameOf_invalidUmemFrame : ¬ frameOf invalidUmemFrame < numFrames := by
  decide

/-- An address outside the UMEM is no frame. -/
theorem tally_singleton_of_not_lt {addr : UInt64} {f : ℕ} (h : ¬ frameOf addr < numFrames)
    (hf : f < numFrames) : tally frameOf [addr] f = 0 := by
  rw [tally_cons, tally_nil, if_neg (by omega)]

/-- Two places that hold frames have room for each other in the stack. -/
theorem Owned.length_le (h : Owned s) {l : List UInt64}
    (hreal : ∀ addr ∈ l, frameOf addr < numFrames)
    (hone : ∀ f < numFrames, tally frameOf l f ≤ tally frameOf s.places f) :
    l.length ≤ numFrames := by
  have hcard := length_le_card (f := frameOf) (l := l) (S := Finset.range numFrames)
    (fun addr ha => Finset.mem_range.2 (hreal addr ha))
    (fun f hf => by
      have hf := Finset.mem_range.1 hf
      have := h.once f hf
      have := hone f hf
      omega)
  rwa [Finset.card_range] at hcard

/-- A step that moves no frame. -/
theorem Owned.keep (h : Owned s) (hplaces : t.places = s.places) (hlost : t.lost = s.lost)
    (htrusted : t.trusted = s.trusted) (hrcvd : t.rxPc.rcvd ≤ t.rx.length)
    (hprocessed : t.rxPc.processed ≤ t.rxPc.rcvd) (haborted : t.aborted = false) : Owned t where
  once f hf := by
    rw [hplaces, hlost]
    exact h.once f hf
  real addr ha := h.real addr (htrusted ▸ ha)
  processed := hprocessed
  batch := hrcvd
  running := haborted

/-- The batch that was peeked. -/
theorem Owned.begin (h : Owned s) {rcvd : ℕ} (hpc : s.rxPc = .peeked rcvd) :
    Owned { s with rxPc := .processing rcvd 0 } := by
  have hbatch := h.batch
  rw [hpc] at hbatch
  exact h.keep (by simp [State.places, State.unprocessed, hpc, RxPc.processed]) rfl
    (by simp [State.trusted, State.unprocessed, hpc, RxPc.processed]) hbatch (Nat.zero_le _)
    h.running

/-- The refill of the fill ring. -/
theorem Owned.stock (h : Owned s) (n : ℕ) : Owned (stockFill n s) := by
  rw [stockFill_eq]
  constructor
  case once =>
    intro f hf
    have honce := h.once f hf
    have hsplit := tally_take_add_drop (f := frameOf) (l := s.umemFrames) (b := f) n
    have hinvalid : tally frameOf (List.replicate (n - s.umemFrames.length) invalidUmemFrame) f =
        0 := tally_eq_zero_iff.2 fun addr ha he => by
      rw [(List.mem_replicate.1 ha).2] at he
      exact frameOf_invalidUmemFrame (he ▸ hf)
    simp only [tally_places, tally_append] at honce ⊢
    have hun : tally frameOf (State.unprocessed { s with
        umemFrames := s.umemFrames.drop n
        fill := s.fill ++ (s.umemFrames.take n ++
          List.replicate (n - s.umemFrames.length) invalidUmemFrame)
        stored := s.stored ++ (s.umemFrames.take n ++
          List.replicate (n - s.umemFrames.length) invalidUmemFrame) }) f =
        tally frameOf s.unprocessed f := rfl
    omega
  case real =>
    intro addr ha
    rcases mem_trusted.1 ha with ha | ha
    · exact h.real addr (mem_trusted.2 (Or.inl (List.mem_of_mem_drop ha)))
    · exact h.real addr (mem_trusted.2 (Or.inr ha))
  case processed => exact h.processed
  case batch => exact h.batch
  case running => exact h.running

/-- What `complete_tx` subtracts for `n` completions. -/
def State.collected (s : State) (n : ℕ) : UInt32 :=
  if UInt32.ofNat n < s.outstandingTx then UInt32.ofNat n else s.outstandingTx

/-- **`complete_tx` frees what has been sent.** -/
theorem Owned.completeTx_eq (h : Owned s) : completeTx s = if s.outstandingTx = 0 then s else
    { s with
      umemFrames := (s.comp.take ringSize).reverse ++ s.umemFrames
      comp := s.comp.drop (s.comp.take ringSize).length
      outstandingTx := s.outstandingTx - s.collected (s.comp.take ringSize).length } := by
  have hroom : s.umemFrames.length + (s.comp.take ringSize).length ≤ numFrames := by
    have hlen := h.length_le (l := s.umemFrames ++ s.comp.take ringSize)
      (fun addr ha => h.real addr (mem_trusted.2 ((List.mem_append.1 ha).imp_right fun hc =>
        Or.inr (Or.inr (Or.inr (Or.inl (List.mem_of_mem_take hc)))))))
      (fun f _ => by
        have := tally_take_add_drop (f := frameOf) (l := s.comp) (b := f) ringSize
        rw [tally_places, tally_append]
        omega)
    rwa [List.length_append] at hlen
  rw [completeTx]
  split
  · rfl
  · simp only [foldl_xskFreeUmemFrame _ _ hroom]
    rfl

/-- **`complete_tx` keeps the frames**: those completed go back to the stack. -/
theorem Owned.complete (h : Owned s) : Owned (completeTx s) := by
  rw [h.completeTx_eq]
  split
  · exact h
  · have hdrop : s.comp.drop (s.comp.take ringSize).length = s.comp.drop ringSize := by
      rw [List.length_take]
      rcases Nat.le_total ringSize s.comp.length with hle | hle
      · rw [Nat.min_eq_left hle]
      · rw [Nat.min_eq_right hle, List.drop_length, List.drop_eq_nil_of_le hle]
    constructor
    case once =>
      intro f hf
      have honce := h.once f hf
      have hsplit := tally_take_add_drop (f := frameOf) (l := s.comp) (b := f) ringSize
      rw [tally_places] at honce ⊢
      simp only [tally_append, tally_reverse, hdrop]
      simp only [State.unprocessed] at honce ⊢
      omega
    case real =>
      intro addr ha
      simp only [mem_trusted, List.mem_append, List.mem_reverse] at ha
      rcases ha with (ha | ha) | ha | ha | ha | ha | ha
      · exact h.real addr (mem_trusted.2 (by simp [List.mem_of_mem_take ha]))
      · exact h.real addr (mem_trusted.2 (by simp [ha]))
      · exact h.real addr (mem_trusted.2 (by simp [ha]))
      · have ha : addr ∈ s.unprocessed := ha
        exact h.real addr (mem_trusted.2 (by simp [ha]))
      · exact h.real addr (mem_trusted.2 (by simp [ha]))
      · exact h.real addr (mem_trusted.2 (by simp [List.mem_of_mem_drop ha]))
      · exact h.real addr (mem_trusted.2 (by simp [ha]))
    case processed => exact h.processed
    case batch => exact h.batch
    case running => exact h.running

/-- The descriptor at hand is the first of those unprocessed. -/
theorem unprocessed_eq_cons {rcvd i : ℕ} {desc : Desc} (hpc : s.rxPc = .processing rcvd i)
    (hdesc : s.rx[i]? = some desc) :
    s.unprocessed = desc.addr :: (s.rx.drop (i + 1)).map Desc.addr := by
  obtain ⟨hi, rfl⟩ := List.getElem?_eq_some_iff.1 hdesc
  rw [State.unprocessed, hpc, RxPc.processed, List.drop_eq_getElem_cons hi, List.map_cons]

/-- The stack has room for the frame of a packet that is being processed. -/
theorem Owned.room (h : Owned s) {rcvd i : ℕ} {desc : Desc} (hpc : s.rxPc = .processing rcvd i)
    (hdesc : s.rx[i]? = some desc) : s.umemFrames.length < numFrames := by
  have hun := unprocessed_eq_cons hpc hdesc
  refine h.length_le (l := desc.addr :: s.umemFrames)
    (fun addr ha => h.real addr (mem_trusted.2 ?_)) fun f _ => ?_
  · rcases List.mem_cons.1 ha with rfl | ha
    · rw [hun]
      exact Or.inr (Or.inr (Or.inl (List.mem_cons_self ..)))
    · exact Or.inl ha
  · rw [tally_places, hun, tally_cons, tally_cons]
    omega

/-- **What processing a packet of the batch does with its frame**: back to the
stack, to the tx ring, or, with no entry free, nowhere. -/
theorem Owned.processing_cases (h : Owned s) {rcvd i : ℕ} {t₁ t₂ : UInt64}
    (hpc : s.rxPc = .processing rcvd i) (hi : i < rcvd)
    (hstep : stepReceiver build iters t₁ t₂ s = some t) :
    ∃ desc umem exit written, s.rx[i]? = some desc ∧ Handled iters s desc umem exit ∧
      (¬ Replies build s desc ∧ t = { s with
          umem := umem, globalExit := exit, written := written
          umemFrames := desc.addr :: s.umemFrames, rxPc := .processing rcvd (i + 1) } ∨
        Replies build s desc ∧ s.tx.length < ringSize ∧ t = { s with
          umem := umem, globalExit := exit, tx := s.tx ++ [⟨desc.addr, desc.len⟩]
          outstandingTx := s.outstandingTx + 1, stored := s.stored ++ [desc.addr]
          rxPc := .processing rcvd (i + 1) } ∨
        Replies build s desc ∧ ringSize ≤ s.tx.length ∧ t = { s with
          umem := umem, globalExit := exit, lost := s.lost ++ [desc.addr]
          rxPc := .processing rcvd (i + 1) }) := by
  simp only [stepReceiver, hpc, hi, if_true] at hstep
  obtain ⟨desc, hdesc, rfl⟩ := Option.map_eq_some_iff.1 hstep
  obtain ⟨umem, exit, written, hhandled, ⟨hreply, hproc⟩ | ⟨hreply, hproc⟩⟩ :=
    processPacket_cases build iters t₁ t₂ s desc
  · refine ⟨desc, umem, exit, written, hdesc, hhandled, Or.inr ?_⟩
    rcases Nat.lt_or_ge s.tx.length ringSize with hlt | hge
    · refine Or.inl ⟨hreply, hlt, ?_⟩
      simp [hproc, xskSendPacket, txAddr, Nat.not_le.2 hlt]
    · refine Or.inr ⟨hreply, hge, ?_⟩
      simp [hproc, xskSendPacket, hge]
  · refine ⟨desc, umem, exit, written, hdesc, hhandled, Or.inl ⟨hreply, ?_⟩⟩
    simp [hproc, xskFreeUmemFrame, h.room hpc hdesc]

/-- A packet of the batch. -/
theorem Owned.processing (h : Owned s) {rcvd i : ℕ} {t₁ t₂ : UInt64}
    (hpc : s.rxPc = .processing rcvd i) (hi : i < rcvd)
    (hstep : stepReceiver build iters t₁ t₂ s = some t) : Owned t := by
  obtain ⟨desc, umem, exit, written, hdesc, -, hcases⟩ := h.processing_cases hpc hi hstep
  have hun := unprocessed_eq_cons hpc hdesc
  have hpc' : t.rxPc = .processing rcvd (i + 1) := by
    rcases hcases with ⟨-, rfl⟩ | ⟨-, -, rfl⟩ | ⟨-, -, rfl⟩ <;> rfl
  have hrx : t.rx = s.rx := by rcases hcases with ⟨-, rfl⟩ | ⟨-, -, rfl⟩ | ⟨-, -, rfl⟩ <;> rfl
  have hun' : t.unprocessed = (s.rx.drop (i + 1)).map Desc.addr := by
    rw [State.unprocessed, hpc', hrx, RxPc.processed]
  have hrealdesc : frameOf desc.addr < numFrames :=
    h.real _ (mem_trusted.2 (Or.inr (Or.inr (Or.inl (hun ▸ List.mem_cons_self ..)))))
  have hrealun : ∀ addr ∈ t.unprocessed, frameOf addr < numFrames := fun addr ha =>
    h.real _ (mem_trusted.2 (Or.inr (Or.inr (Or.inl
      (hun ▸ List.mem_cons_of_mem _ (hun' ▸ ha))))))
  constructor
  case once =>
    intro f hf
    have honce := h.once f hf
    rw [tally_places, hun] at honce
    rw [tally_places, hun']
    rcases hcases with ⟨-, rfl⟩ | ⟨-, -, rfl⟩ | ⟨-, -, rfl⟩ <;>
      simp only [tally_cons, tally_append, List.map_append, List.map_cons, List.map_nil,
        tally_nil] at honce ⊢ <;> omega
  case real =>
    intro addr ha
    have hold : ∀ addr, addr ∈ s.umemFrames ∨ addr ∈ s.kernelRx ∨ addr ∈ s.kernelTx ∨
        addr ∈ s.comp ∨ addr ∈ s.lost → frameOf addr < numFrames := fun addr ha =>
      h.real addr (mem_trusted.2 (by tauto))
    rcases mem_trusted.1 ha with ha | ha | ha | ha | ha | ha
    · rcases hcases with ⟨-, rfl⟩ | ⟨-, -, rfl⟩ | ⟨-, -, rfl⟩
      · rcases List.mem_cons.1 ha with rfl | ha
        · exact hrealdesc
        · exact hold addr (Or.inl ha)
      · exact hold addr (Or.inl ha)
      · exact hold addr (Or.inl ha)
    · refine hold addr (Or.inr (Or.inl ?_))
      rcases hcases with ⟨-, rfl⟩ | ⟨-, -, rfl⟩ | ⟨-, -, rfl⟩ <;> exact ha
    · exact hrealun addr ha
    · refine hold addr (Or.inr (Or.inr (Or.inl ?_)))
      rcases hcases with ⟨-, rfl⟩ | ⟨-, -, rfl⟩ | ⟨-, -, rfl⟩ <;> exact ha
    · refine hold addr (Or.inr (Or.inr (Or.inr (Or.inl ?_))))
      rcases hcases with ⟨-, rfl⟩ | ⟨-, -, rfl⟩ | ⟨-, -, rfl⟩ <;> exact ha
    · rcases hcases with ⟨-, rfl⟩ | ⟨-, -, rfl⟩ | ⟨-, -, rfl⟩
      · exact hold addr (by tauto)
      · exact hold addr (by tauto)
      · rcases List.mem_append.1 ha with ha | ha
        · exact hold addr (by tauto)
        · rw [List.mem_singleton.1 ha]
          exact hrealdesc
  case processed =>
    rw [hpc']
    exact hi
  case batch =>
    have := h.batch
    rw [hpc] at this
    rw [hpc', hrx]
    exact this
  case running => rcases hcases with ⟨-, rfl⟩ | ⟨-, -, rfl⟩ | ⟨-, -, rfl⟩ <;> exact h.running

/-- The release of the batch. -/
theorem Owned.release (h : Owned s) {rcvd i : ℕ} (hpc : s.rxPc = .processing rcvd i)
    (hi : ¬ i < rcvd) : Owned { s with rx := s.rx.drop rcvd, rxPc := .polling } := by
  have hprocessed := h.processed
  rw [hpc] at hprocessed
  have hrcvd : i = rcvd := Nat.le_antisymm hprocessed (Nat.not_lt.1 hi)
  subst hrcvd
  exact h.keep (by simp [State.places, State.unprocessed, hpc, RxPc.processed]) rfl
    (by simp [State.trusted, State.unprocessed, hpc, RxPc.processed]) (Nat.zero_le _)
    le_rfl h.running

/-- The packet of the sending thread: a new frame, or the sentinel, goes to the
tx ring. -/
theorem Owned.submit (h : Owned s) (umem : ℕ → Packet) (len : UInt32) (n : UInt32) (pc : TxPc)
    (stored : List UInt64) :
    Owned { s with
      umem := umem, umemFrames := s.umemFrames.drop 1
      tx := s.tx ++ [⟨s.umemFrames.headD invalidUmemFrame, len⟩]
      outstandingTx := n, txPc := pc, stored := stored } := by
  constructor
  case once =>
    intro f hf
    have honce := h.once f hf
    have htx : tally frameOf (s.umemFrames.drop 1) f +
        tally frameOf [s.umemFrames.headD invalidUmemFrame] f = tally frameOf s.umemFrames f := by
      cases s.umemFrames with
      | nil => simpa using tally_singleton_of_not_lt frameOf_invalidUmemFrame hf
      | cons frame frames => simp
    rw [tally_places] at honce ⊢
    simp only [List.map_append, List.map_cons, List.map_nil, tally_append]
    simp only [State.unprocessed] at honce ⊢
    omega
  case real =>
    intro addr ha
    rcases mem_trusted.1 ha with ha | ha
    · exact h.real addr (mem_trusted.2 (Or.inl (List.mem_of_mem_drop ha)))
    · exact h.real addr (mem_trusted.2 (Or.inr ha))
  case processed => exact h.processed
  case batch => exact h.batch
  case running => exact h.running

/-- `xsk_send_packet` of a buffer, up to `complete_tx`. -/
theorem xskSendPacket_buffer (s : State) (packet : Packet) (len : UInt32) :
    ringSize ≤ s.tx.length ∧ xskSendPacket s (.buffer packet) len true = (-1, s) ∨
    s.tx.length < ringSize ∧ xskSendPacket s (.buffer packet) len true = (0, { s with
      umem := Function.update s.umem (frameOf (s.umemFrames.headD invalidUmemFrame)) packet
      umemFrames := s.umemFrames.drop 1
      tx := s.tx ++ [⟨s.umemFrames.headD invalidUmemFrame, len⟩]
      outstandingTx := s.outstandingTx + 1
      txPc := .completing
      stored := s.stored ++ [s.umemFrames.headD invalidUmemFrame] }) := by
  rcases Nat.lt_or_ge s.tx.length ringSize with hlt | hge
  · refine Or.inr ⟨hlt, ?_⟩
    rw [xskSendPacket, if_neg (Nat.not_le.2 hlt)]
    cases hs : s.umemFrames <;> simp [txAddr, xskAllocUmemFrame, hs]
  · exact Or.inl ⟨hge, by rw [xskSendPacket, if_pos hge]⟩

/-- **A packet of the sending thread keeps them**: its frame goes to the tx ring. -/
theorem Owned.send (h : Owned s) (packet : Packet) (len : UInt32) :
    Owned (xskSendPacket s (.buffer packet) len true).2 := by
  rcases xskSendPacket_buffer s packet len with ⟨-, he⟩ | ⟨-, he⟩
  · rw [he]
    exact h
  · rw [he]
    exact h.submit _ _ _ _ _

/-- The sending thread goes on to `complete_tx`. -/
theorem Owned.sent (h : Owned s) : Owned { s with txPc := .idle } :=
  h.keep rfl rfl rfl h.batch h.processed h.running

/-- The kernel takes an address off the fill ring. -/
theorem Owned.kernelFill (h : Owned s) {addr : UInt64} {fill : List UInt64}
    (hfill : s.fill = addr :: fill) :
    Owned { s with
      fill := fill
      kernelRx := if frameOf addr < numFrames then s.kernelRx ++ [addr] else s.kernelRx } := by
  constructor
  case once =>
    intro f hf
    have honce := h.once f hf
    rw [tally_places, hfill, tally_cons] at honce
    rw [tally_places]
    simp only [State.unprocessed] at honce ⊢
    split
    · simp only [tally_append, tally_cons, tally_nil]
      omega
    · have hne : frameOf addr ≠ f := by omega
      rw [if_neg hne] at honce
      omega
  case real =>
    intro addr' ha
    rcases mem_trusted.1 ha with ha | ha | ha
    · exact h.real addr' (mem_trusted.2 (Or.inl ha))
    · dsimp only at ha
      split at ha
      · rcases List.mem_append.1 ha with ha | ha
        · exact h.real addr' (mem_trusted.2 (Or.inr (Or.inl ha)))
        · rw [List.mem_singleton.1 ha]
          assumption
      · exact h.real addr' (mem_trusted.2 (Or.inr (Or.inl ha)))
    · exact h.real addr' (mem_trusted.2 (Or.inr (Or.inr ha)))
  case processed => exact h.processed
  case batch => exact h.batch
  case running => exact h.running

/-- The kernel delivers a packet in a frame it holds. -/
theorem Owned.kernelReceive (h : Owned s) {frame addr : UInt64} (len : UInt32)
    (umem : ℕ → Packet) (hframe : frame ∈ s.kernelRx) (haddr : frameOf addr = frameOf frame) :
    Owned { s with
      kernelRx := s.kernelRx.erase frame, rx := s.rx ++ [⟨addr, len⟩], umem := umem } := by
  have hle : s.rxPc.processed ≤ s.rx.length := h.processed.trans h.batch
  have hun : (List.drop s.rxPc.processed (s.rx ++ [⟨addr, len⟩])).map Desc.addr =
      s.unprocessed ++ [addr] := by
    rw [List.drop_append_of_le_length hle, List.map_append]
    rfl
  constructor
  case once =>
    intro f hf
    have honce := h.once f hf
    have herase := tally_erase (f := frameOf) (b := f) hframe
    rw [tally_places] at honce ⊢
    simp only [State.unprocessed] at hun honce ⊢
    rw [hun]
    simp only [tally_append, tally_cons, tally_nil, haddr]
    omega
  case real =>
    intro addr' ha
    have hreal : frameOf addr < numFrames :=
      haddr ▸ h.real frame (mem_trusted.2 (Or.inr (Or.inl hframe)))
    rcases mem_trusted.1 ha with ha | ha | ha | ha
    · exact h.real addr' (mem_trusted.2 (Or.inl ha))
    · exact h.real addr' (mem_trusted.2 (Or.inr (Or.inl (List.mem_of_mem_erase ha))))
    · simp only [State.unprocessed] at hun ha
      rw [hun] at ha
      rcases List.mem_append.1 ha with ha | ha
      · exact h.real addr' (mem_trusted.2 (Or.inr (Or.inr (Or.inl ha))))
      · rw [List.mem_singleton.1 ha]
        exact hreal
    · exact h.real addr' (mem_trusted.2 (Or.inr (Or.inr (Or.inr ha))))
  case processed => exact h.processed
  case batch =>
    have := h.batch
    simp only [List.length_append]
    omega
  case running => exact h.running

/-- The kernel takes a descriptor off the tx ring. -/
theorem Owned.kernelTransmit (h : Owned s) {desc : Desc} {tx : List Desc}
    (htx : s.tx = desc :: tx) :
    Owned { s with
      tx := tx
      kernelTx := if frameOf desc.addr < numFrames then s.kernelTx ++ [desc.addr]
        else s.kernelTx } := by
  constructor
  case once =>
    intro f hf
    have honce := h.once f hf
    rw [tally_places, htx, List.map_cons, tally_cons] at honce
    rw [tally_places]
    simp only [State.unprocessed] at honce ⊢
    split
    · simp only [tally_append, tally_cons, tally_nil]
      omega
    · have hne : frameOf desc.addr ≠ f := by omega
      rw [if_neg hne] at honce
      omega
  case real =>
    intro addr ha
    rcases mem_trusted.1 ha with ha | ha | ha | ha | ha
    · exact h.real addr (mem_trusted.2 (Or.inl ha))
    · exact h.real addr (mem_trusted.2 (Or.inr (Or.inl ha)))
    · exact h.real addr (mem_trusted.2 (Or.inr (Or.inr (Or.inl ha))))
    · dsimp only at ha
      split at ha
      · rcases List.mem_append.1 ha with ha | ha
        · exact h.real addr (mem_trusted.2 (Or.inr (Or.inr (Or.inr (Or.inl ha)))))
        · rw [List.mem_singleton.1 ha]
          assumption
      · exact h.real addr (mem_trusted.2 (Or.inr (Or.inr (Or.inr (Or.inl ha)))))
    · exact h.real addr (mem_trusted.2 (Or.inr (Or.inr (Or.inr (Or.inr ha)))))
  case processed => exact h.processed
  case batch => exact h.batch
  case running => exact h.running

/-- The kernel completes a transmission. -/
theorem Owned.kernelComplete (h : Owned s) {addr : UInt64} (haddr : addr ∈ s.kernelTx) :
    Owned { s with kernelTx := s.kernelTx.erase addr, comp := s.comp ++ [addr] } := by
  constructor
  case once =>
    intro f hf
    have honce := h.once f hf
    have herase := tally_erase (f := frameOf) (b := f) haddr
    rw [tally_places] at honce ⊢
    simp only [State.unprocessed] at honce ⊢
    simp only [tally_append, tally_cons, tally_nil]
    omega
  case real =>
    intro addr' ha
    refine h.real addr' (mem_trusted.2 ?_)
    rcases mem_trusted.1 ha with ha | ha | ha | ha | ha | ha
    · exact Or.inl ha
    · exact Or.inr (Or.inl ha)
    · exact Or.inr (Or.inr (Or.inl ha))
    · exact Or.inr (Or.inr (Or.inr (Or.inl (List.mem_of_mem_erase ha))))
    · rcases List.mem_append.1 ha with ha | ha
      · exact Or.inr (Or.inr (Or.inr (Or.inr (Or.inl ha))))
      · rw [List.mem_singleton.1 ha]
        exact Or.inr (Or.inr (Or.inr (Or.inl haddr)))
    · exact Or.inr (Or.inr (Or.inr (Or.inr (Or.inr ha))))
  case processed => exact h.processed
  case batch => exact h.batch
  case running => exact h.running

/-! ### One step -/

/-- What a step does. -/
inductive Steps (build : Build) (iters : UInt64) (s : State) : Action → State → Prop
  | poll (rcvd : ℕ) (hpc : s.rxPc = .polling) (hexit : s.globalExit = false) (hpos : 0 < rcvd)
      (hle : rcvd ≤ rxBatchSize) (hrx : rcvd ≤ s.rx.length) :
      Steps build iters s (.poll rcvd) { s with rxPc := .peeked rcvd }
  | refill (t₁ t₂ : UInt64) (rcvd : ℕ) (hpc : s.rxPc = .peeked rcvd)
      (hlocked : s.txPc.locked = false) :
      Steps build iters s (.receiver t₁ t₂)
        (stockFill (xskProdNbFree s.fill (xskUmemFreeFrames s))
          { s with rxPc := .processing rcvd 0 })
  | packet {t₁ t₂ : UInt64} {rcvd i : ℕ} {t : State} (hpc : s.rxPc = .processing rcvd i)
      (hi : i < rcvd) (hstep : stepReceiver build iters t₁ t₂ s = some t) :
      Steps build iters s (.receiver t₁ t₂) t
  | release (t₁ t₂ : UInt64) (rcvd i : ℕ) (hpc : s.rxPc = .processing rcvd i)
      (hi : ¬ i < rcvd) : Steps build iters s (.receiver t₁ t₂)
        (completeTx { s with rx := s.rx.drop rcvd, rxPc := .polling })
  | send (packet : Packet) (len : UInt32) (hbuild : build = .client)
      (hlocked : s.rxPc.locked = false) (hidle : s.txPc = .idle) :
      Steps build iters s (.send packet len) (xskSendPacket s (.buffer packet) len true).2
  | complete (hpc : s.txPc = .completing) :
      Steps build iters s .complete (completeTx { s with txPc := .idle })
  | interrupt : Steps build iters s .interrupt { s with globalExit := true }
  | kernelFill (addr : UInt64) (fill : List UInt64) (hfill : s.fill = addr :: fill) :
      Steps build iters s .kernelFill { s with
        fill := fill
        kernelRx := if frameOf addr < numFrames then s.kernelRx ++ [addr] else s.kernelRx }
  | kernelReceive (frame addr : UInt64) (len : UInt32) (packet : Packet)
      (hframe : frame ∈ s.kernelRx) (haddr : frameOf addr = frameOf frame)
      (hroom : s.rx.length < ringSize) :
      Steps build iters s (.kernelReceive frame addr len packet) { s with
        kernelRx := s.kernelRx.erase frame
        rx := s.rx ++ [⟨addr, len⟩]
        umem := Function.update s.umem (frameOf addr) packet }
  | kernelTransmit (desc : Desc) (tx : List Desc) (htx : s.tx = desc :: tx) :
      Steps build iters s .kernelTransmit { s with
        tx := tx
        kernelTx := if frameOf desc.addr < numFrames then s.kernelTx ++ [desc.addr]
          else s.kernelTx }
  | kernelComplete (addr : UInt64) (haddr : addr ∈ s.kernelTx) (hroom : s.comp.length < ringSize) :
      Steps build iters s (.kernelComplete addr)
        { s with kernelTx := s.kernelTx.erase addr, comp := s.comp ++ [addr] }

/-- **A step** is one of these. -/
theorem steps_of_step (hstep : step build iters s a = some t) : Steps build iters s a t := by
  cases a with
  | interrupt =>
      cases hstep
      exact .interrupt
  | poll rcvd =>
      simp only [step] at hstep
      split at hstep <;> cases hstep
      rename_i hpoll
      obtain ⟨hpc, hexit, -, hpos, hle, hrx⟩ := hpoll
      exact .poll rcvd hpc hexit hpos hle hrx
  | receiver t₁ t₂ =>
      simp only [step] at hstep
      split at hstep
      · cases hstep
      cases hpc : s.rxPc with
      | polling => simp [stepReceiver, hpc] at hstep
      | peeked rcvd =>
          simp only [stepReceiver, hpc] at hstep
          split at hstep <;> cases hstep
          rename_i hlocked
          exact .refill t₁ t₂ rcvd hpc (Bool.eq_false_iff.2 hlocked)
      | processing rcvd i =>
          by_cases hi : i < rcvd
          · exact .packet hpc hi hstep
          · simp only [stepReceiver, hpc, hi, if_false, Option.some.injEq] at hstep
            exact hstep ▸ .release t₁ t₂ rcvd i hpc hi
  | send packet len =>
      simp only [step] at hstep
      split at hstep <;> cases hstep
      rename_i hsend
      exact .send packet len hsend.1 hsend.2.1 hsend.2.2.1
  | complete =>
      simp only [step] at hstep
      split at hstep <;> cases hstep
      rename_i hcomplete
      exact .complete hcomplete.1
  | kernelFill =>
      simp only [step] at hstep
      split at hstep <;> cases hstep
      exact .kernelFill _ _ ‹_›
  | kernelReceive frame addr len packet =>
      simp only [step] at hstep
      split at hstep <;> cases hstep
      rename_i hk
      exact .kernelReceive frame addr len packet hk.1 hk.2.1 hk.2.2
  | kernelTransmit =>
      simp only [step] at hstep
      split at hstep <;> cases hstep
      exact .kernelTransmit _ _ ‹_›
  | kernelComplete addr =>
      simp only [step] at hstep
      split at hstep <;> cases hstep
      rename_i hk
      exact .kernelComplete addr hk.1 hk.2

/-! ### Runs -/

/-- The frames lie one after another. -/
theorem frameOf_ofNat {i : ℕ} (h : i < numFrames) :
    frameOf (UInt64.ofNat (i * frameSize)) = i := by
  have hN : numFrames = 4096 := rfl
  have hS : frameSize = 4096 := rfl
  rw [frameOf, UInt64.toNat_ofNat', hS]
  omega

/-- All of them are on the stack first. -/
theorem emptySocket_trusted : emptySocket.trusted =
    (List.range numFrames).reverse.map fun i => UInt64.ofNat (i * frameSize) := by
  simp [State.trusted, State.unprocessed, emptySocket]

/-- Each of them once. -/
theorem owned_emptySocket : Owned emptySocket where
  once f hf := by
    have hcount : tally frameOf emptySocket.umemFrames f = (List.range numFrames).count f := by
      rw [emptySocket, tally_map, tally_reverse, tally, List.count]
      refine List.countP_congr fun i hi => ?_
      rw [Function.comp_apply, frameOf_ofNat (List.mem_range.1 hi)]
      simp
    rw [tally_places, hcount,
      List.count_eq_one_of_mem List.nodup_range (List.mem_range.2 hf)]
    rfl
  real addr ha := by
    rw [emptySocket_trusted] at ha
    obtain ⟨i, hi, rfl⟩ := List.mem_map.1 ha
    have hi := List.mem_range.1 (List.mem_reverse.1 hi)
    rwa [frameOf_ofNat hi]
  processed := le_rfl
  batch := le_rfl
  running := rfl

/-- And after the fill ring was filled. -/
theorem owned_xskConfigureSocket : Owned xskConfigureSocket := by
  rw [xskConfigureSocket]
  exact owned_emptySocket.stock ringSize

/-- **Every frame is somewhere, once**, in every state of every run. -/
theorem owned_invariant : (socket build iters).Invariant (fun _ _ => True) Owned where
  init := owned_xskConfigureSocket
  step := by
    intro s a t h _ hstep
    cases steps_of_step hstep with
    | poll rcvd hpc hexit hpos hle hrx =>
        exact h.keep (by simp [State.places, State.unprocessed, hpc, RxPc.processed]) rfl
          (by simp [State.trusted, State.unprocessed, hpc, RxPc.processed]) hrx (Nat.zero_le _)
          h.running
    | refill t₁ t₂ rcvd hpc => exact (h.begin hpc).stock _
    | packet hpc hi hstep => exact h.processing hpc hi hstep
    | release t₁ t₂ rcvd i hpc hi => exact (h.release hpc hi).complete
    | send packet len => exact h.send packet len
    | complete hpc => exact h.sent.complete
    | interrupt => exact h.keep rfl rfl rfl h.batch h.processed h.running
    | kernelFill addr fill hfill => exact h.kernelFill hfill
    | kernelReceive frame addr len packet hframe haddr =>
        exact h.kernelReceive len _ hframe haddr
    | kernelTransmit desc tx htx => exact h.kernelTransmit htx
    | kernelComplete addr haddr => exact h.kernelComplete haddr

/-- **Every frame is in one place or lost** in every state. -/
theorem owned_of_reachable (h : (socket build iters).Reachable s) : Owned s :=
  owned_invariant.holds h

/-- **The lock of the client**: the two threads do not hold it at once. -/
theorem locked_of_reachable (h : (socket build iters).Reachable s) :
    s.rxPc.locked = false ∨ s.txPc.locked = false := by
  have hI : (socket build iters).Invariant (fun _ _ => True) fun s =>
      Owned s ∧ (s.rxPc.locked = false ∨ s.txPc.locked = false) := by
    refine ⟨⟨owned_xskConfigureSocket, Or.inr ?_⟩, ?_⟩
    · show xskConfigureSocket.txPc.locked = false
      rw [xskConfigureSocket, stockFill_eq]
      rfl
    · intro s a t ⟨howned, hlocked⟩ _ hstep
      refine ⟨owned_invariant.step howned trivial hstep, ?_⟩
      cases steps_of_step hstep with
      | poll => exact Or.inl rfl
      | refill t₁ t₂ rcvd hpc hfree =>
          rw [stockFill_eq]
          exact Or.inr hfree
      | packet hpc hi hstep =>
          have hfree : s.txPc.locked = false :=
            hlocked.resolve_left (by simp [hpc, RxPc.locked])
          obtain ⟨desc, umem, exit, written, -, -, hcases⟩ := howned.processing_cases hpc hi hstep
          rcases hcases with ⟨-, rfl⟩ | ⟨-, -, rfl⟩ | ⟨-, -, rfl⟩ <;> exact Or.inr hfree
      | release t₁ t₂ rcvd i hpc hi =>
          rw [(howned.release hpc hi).completeTx_eq]
          split <;> exact Or.inl rfl
      | send packet len hbuild hfree =>
          rcases xskSendPacket_buffer s packet len with ⟨-, he⟩ | ⟨-, he⟩ <;> rw [he]
          · exact hlocked
          · exact Or.inl hfree
      | complete hpc =>
          rw [howned.sent.completeTx_eq]
          split <;> exact Or.inr rfl
      | _ => exact hlocked
  exact (hI.holds h).2

/-- **Frames are conserved exactly while no reply has been dropped.** -/
theorem conserved_iff (h : (socket build iters).Reachable s) : Conserved s ↔ s.lost = [] := by
  have howned := owned_of_reachable h
  constructor
  · intro hc
    rcases hlost : s.lost with - | ⟨addr, lost⟩
    · rfl
    · have haddr : addr ∈ s.lost := hlost ▸ List.mem_cons_self ..
      have hreal := howned.real addr (mem_trusted.2 (by tauto))
      have hpos := tally_pos_iff (f := frameOf).2 ⟨addr, haddr, rfl⟩
      have := howned.once _ hreal
      have := hc _ hreal
      omega
  · intro hlost f hf
    have := howned.once f hf
    rwa [hlost, tally_nil, Nat.add_zero] at this

end Xsk
end Xdp
end DetBypass
