/-
# The AF_XDP programs

`xdp/pp_sock.c`, client and server build: the stack of free UMEM frames, the
four rings and what the kernel does to them.  A frame is `addr / FRAME_SIZE`.
The kernel takes addresses off the fill ring, later returns them on the rx ring
with a packet and possibly at an offset in the frame, takes descriptors off the
tx ring and later returns their addresses on the completion ring; an address
outside the UMEM it drops.  It may do any of it between any two steps below.

The receiving thread is interrupted between `xsk_ring_cons__peek`, the refill of
the fill ring, each packet of the batch, and the release with `complete_tx`; the
client's sending thread between the submission of its packet and `complete_tx`,
and it may go on after a failure.  Each holds the client's lock in between: the
receiver from the refill on, the sender from the reservation on.
`xsk_prod_nb_free` returns the free entries of the ring.

`umemFrames` is `umem_frame_addr[0 .. umem_frame_free)`, the top first.
`stored`, `lost` and `written` are history: the addresses stored in the fill and
tx rings, those of packets kept for a reply that was not sent, and the payloads
given to `persistence_agent->write`.
-/

import DetBypass.Lib.Transition
import DetBypass.Common.Payload

namespace DetBypass
namespace Xdp
namespace Xsk

open Lib

/-- `NUM_FRAMES`. -/
def numFrames : ℕ := 4096

/-- `FRAME_SIZE`. -/
def frameSize : ℕ := 4096

/-- `RX_BATCH_SIZE`. -/
def rxBatchSize : ℕ := 64

/-- `XSK_RING_PROD__DEFAULT_NUM_DESCS` and `XSK_RING_CONS__DEFAULT_NUM_DESCS`. -/
def ringSize : ℕ := 2048

/-- `INVALID_UMEM_FRAME`, `UINT64_MAX`. -/
def invalidUmemFrame : UInt64 := UInt64.ofNat (2 ^ 64 - 1)

/-- `ETH_P_PINGPONG`. -/
def ethPPingpong : UInt16 := 0x2002

/-- `sizeof (struct ethhdr) + sizeof (struct iphdr) + sizeof (struct pingpong_payload)`. -/
def minPacketLen : UInt32 := 14 + 20 + 48

/-- The frame an address lies in. -/
def frameOf (addr : UInt64) : ℕ := addr.toNat / frameSize

/-- The fields of a packet that `process_packet` reads or writes. -/
structure Packet where
  hDest : Fin 6 → UInt8
  hSource : Fin 6 → UInt8
  hProto : UInt16
  saddr : UInt32
  daddr : UInt32
  payload : PingpongPayload

/-- `struct xdp_desc`. -/
structure Desc where
  addr : UInt64
  len : UInt32
deriving DecidableEq

/-- Where the receiving thread stands in `handle_receive_packets`. -/
inductive RxPc
  | polling
  | peeked (rcvd : ℕ)
  | processing (rcvd i : ℕ)
deriving DecidableEq

/-- The size of the batch. -/
def RxPc.rcvd : RxPc → ℕ
  | .polling => 0
  | .peeked rcvd | .processing rcvd _ => rcvd

/-- How many packets of the batch have been processed. -/
def RxPc.processed : RxPc → ℕ
  | .processing _ i => i
  | _ => 0

/-- The receiving thread of the client holds `xsk_client_lock`. -/
def RxPc.locked : RxPc → Bool
  | .processing _ _ => true
  | _ => false

/-- Where the sending thread of the client stands in `xsk_send_packet`. -/
inductive TxPc
  | idle
  | completing
deriving DecidableEq

/-- The sending thread holds `xsk_client_lock`. -/
def TxPc.locked : TxPc → Bool
  | .idle => false
  | .completing => true

structure State where
  umem : ℕ → Packet
  umemFrames : List UInt64
  fill : List UInt64
  kernelRx : List UInt64
  rx : List Desc
  tx : List Desc
  kernelTx : List UInt64
  comp : List UInt64
  outstandingTx : UInt32
  rxPc : RxPc
  txPc : TxPc
  globalExit : Bool
  aborted : Bool
  stored : List UInt64
  lost : List UInt64
  written : List PingpongPayload

/-- `xsk_alloc_umem_frame`. -/
def xskAllocUmemFrame (s : State) : UInt64 × State :=
  match s.umemFrames with
  | [] => (invalidUmemFrame, s)
  | frame :: frames => (frame, { s with umemFrames := frames })

/-- `xsk_free_umem_frame`; a failed assertion aborts the program. -/
def xskFreeUmemFrame (s : State) (frame : UInt64) : State :=
  if s.umemFrames.length < numFrames then { s with umemFrames := frame :: s.umemFrames }
  else { s with aborted := true }

/-- `xsk_umem_free_frames`. -/
def xskUmemFreeFrames (s : State) : ℕ := s.umemFrames.length

/-- `xsk_prod_nb_free`: the free entries, not capped by the second argument. -/
def xskProdNbFree (ring : List UInt64) (_nb : ℕ) : ℕ := ringSize - ring.length

/-- The loop that stores `n` newly allocated frames in the fill ring. -/
@[irreducible] def stockFill : ℕ → State → State
  | 0, s => s
  | n + 1, s =>
    let (addr, s) := xskAllocUmemFrame s
    stockFill n { s with fill := s.fill ++ [addr], stored := s.stored ++ [addr] }

/-- `complete_tx`. -/
def completeTx (s : State) : State :=
  if s.outstandingTx = 0 then s
  else
    let frames := s.comp.take ringSize
    let completed := UInt32.ofNat frames.length
    let s := frames.foldl xskFreeUmemFrame s
    { s with
      comp := s.comp.drop frames.length
      outstandingTx := s.outstandingTx -
        if completed < s.outstandingTx then completed else s.outstandingTx }

/-- The packet argument of `xsk_send_packet`: `is_umem_frame` or not. -/
inductive TxSource
  | umemFrame (addr : UInt64)
  | buffer (packet : Packet)

/-- The address of the tx descriptor: the frame of the packet, or a new frame
the packet is copied to. -/
def txAddr (s : State) : TxSource → UInt64 × State
  | .umemFrame addr => (addr, s)
  | .buffer packet =>
    let (addr, s) := xskAllocUmemFrame s
    (addr, { s with umem := Function.update s.umem (frameOf addr) packet })

/-- `xsk_send_packet`, with `complete_tx` still to come if it is asked for. -/
def xskSendPacket (s : State) (source : TxSource) (len : UInt32) (complete : Bool) :
    ℤ × State :=
  if ringSize ≤ s.tx.length then (-1, s)
  else
    let (addr, s) := txAddr s source
    let s := { s with
      tx := s.tx ++ [⟨addr, len⟩]
      outstandingTx := s.outstandingTx + 1
      stored := s.stored ++ [addr] }
    (0, if complete then { s with txPc := .completing } else s)

/-- The reply of the server: the addresses exchanged, `ts[1]` and `ts[2]` set. -/
def Packet.reply (packet : Packet) (t₁ t₂ : UInt64) : Packet where
  hDest := packet.hSource
  hSource := packet.hDest
  hProto := packet.hProto
  saddr := packet.daddr
  daddr := packet.saddr
  payload := (packet.payload.setTs 1 t₁).setTs 2 t₂

/-- `process_packet`, with the two readings of the clock: whether the frame is
kept, and the state after it. -/
def processPacket (build : Build) (iters t₁ t₂ : UInt64) (s : State) (addr : UInt64)
    (len : UInt32) : Bool × State :=
  if len < minPacketLen then (false, s)
  else
    let packet := s.umem (frameOf addr)
    if packet.hProto ≠ ethPPingpong then (false, s)
    else
      let s := { s with globalExit := s.globalExit || decide (iters ≤ packet.payload.id) }
      match build with
      | .server =>
        let s := { s with umem := Function.update s.umem (frameOf addr) (packet.reply t₁ t₂) }
        (true, (xskSendPacket s (.umemFrame addr) len false).2)
      | .client =>
        let payload := packet.payload.setTs 3 t₁
        (false, { s with
          umem := Function.update s.umem (frameOf addr) { packet with payload := payload }
          written := s.written ++ [payload] })

/-- The next step of `handle_receive_packets` after the peek: the refill, which
waits for the lock, a packet of the batch, or the release. -/
def stepReceiver (build : Build) (iters t₁ t₂ : UInt64) (s : State) : Option State :=
  match s.rxPc with
  | .polling => none
  | .peeked rcvd =>
    let stock := xskProdNbFree s.fill (xskUmemFreeFrames s)
    if s.txPc.locked then none
    else some (stockFill stock { s with rxPc := .processing rcvd 0 })
  | .processing rcvd i =>
    if i < rcvd then
      s.rx[i]?.map fun desc =>
        let (keep, t) := processPacket build iters t₁ t₂ s desc.addr desc.len
        let t := if keep then t else xskFreeUmemFrame t desc.addr
        { t with
          rxPc := .processing rcvd (i + 1)
          lost := if keep ∧ ringSize ≤ s.tx.length then t.lost ++ [desc.addr] else t.lost }
    else
      some (completeTx { s with rx := s.rx.drop rcvd, rxPc := .polling })

/-- One scheduler choice. -/
inductive Action
  | poll (rcvd : ℕ)
  | receiver (t₁ t₂ : UInt64)
  | send (packet : Packet) (len : UInt32)
  | complete
  | interrupt
  | kernelFill
  | kernelReceive (frame addr : UInt64) (len : UInt32) (packet : Packet)
  | kernelTransmit
  | kernelComplete (addr : UInt64)

/-- One step of the program or the kernel. -/
def step (build : Build) (iters : UInt64) (s : State) : Action → Option State
  | .poll rcvd =>
    if s.rxPc = .polling ∧ s.globalExit = false ∧ s.aborted = false ∧ 0 < rcvd ∧
        rcvd ≤ rxBatchSize ∧ rcvd ≤ s.rx.length then
      some { s with rxPc := .peeked rcvd }
    else none
  | .receiver t₁ t₂ => if s.aborted then none else stepReceiver build iters t₁ t₂ s
  | .send packet len =>
    if build = .client ∧ s.rxPc.locked = false ∧ s.txPc = .idle ∧ s.aborted = false then
      some (xskSendPacket s (.buffer packet) len true).2
    else none
  | .complete =>
    if s.txPc = .completing ∧ s.aborted = false then some (completeTx { s with txPc := .idle })
    else none
  | .interrupt => some { s with globalExit := true }
  | .kernelFill =>
    match s.fill with
    | [] => none
    | addr :: fill =>
      some { s with
        fill := fill
        kernelRx := if frameOf addr < numFrames then s.kernelRx ++ [addr] else s.kernelRx }
  | .kernelReceive frame addr len packet =>
    if frame ∈ s.kernelRx ∧ frameOf addr = frameOf frame ∧ s.rx.length < ringSize then
      some { s with
        kernelRx := s.kernelRx.erase frame
        rx := s.rx ++ [⟨addr, len⟩]
        umem := Function.update s.umem (frameOf addr) packet }
    else none
  | .kernelTransmit =>
    match s.tx with
    | [] => none
    | desc :: tx =>
      some { s with
        tx := tx
        kernelTx := if frameOf desc.addr < numFrames then s.kernelTx ++ [desc.addr]
          else s.kernelTx }
  | .kernelComplete addr =>
    if addr ∈ s.kernelTx ∧ s.comp.length < ringSize then
      some { s with kernelTx := s.kernelTx.erase addr, comp := s.comp ++ [addr] }
    else none

/-- The socket before the initial fill: `umem_frame_addr[i] = i * FRAME_SIZE`. -/
def emptySocket : State where
  umem := fun _ => ⟨fun _ => 0, fun _ => 0, 0, 0, 0, .zero⟩
  umemFrames := (List.range numFrames).reverse.map fun i => UInt64.ofNat (i * frameSize)
  fill := []
  kernelRx := []
  rx := []
  tx := []
  kernelTx := []
  comp := []
  outstandingTx := 0
  rxPc := .polling
  txPc := .idle
  globalExit := false
  aborted := false
  stored := []
  lost := []
  written := []

/-- `xsk_configure_socket`: half of the frames go to the fill ring. -/
def xskConfigureSocket : State := stockFill ringSize emptySocket

/-- The runs of a build for a number of iterations. -/
def socket (build : Build) (iters : UInt64) : System State Action :=
  ⟨xskConfigureSocket, step build iters⟩

end Xsk
end Xdp
end DetBypass
