/-
# A packet of the AF_XDP programs, byte by byte

`xdp_xsk` of `xdp/pingpong_xsk.c`, which hands a packet to the socket, and
`process_packet` of `xdp/pp_sock.c` on the bytes of the frame: the packed headers
and the payload are views of one buffer, edited in place.  The state machine of
`Xdp.Xsk` keeps the fields of a packet; `readPacket` reads them, and the edits are
those of the state machine (`processPacket_readPacket`).
-/

import DetBypass.Xdp.PingpongPure
import DetBypass.Xdp.Xsk

namespace DetBypass

open Lib Memory

/-! ### The exchanged addresses -/

namespace Pure

variable {m : Memory} {b : ℕ}

/-- The MAC addresses change places, byte by byte. -/
theorem swapMac_of_lt (h : b < 6) : swapMac m b = m (6 + b) := by
  unfold swapMac
  rw [memcpy_of_lt h, memcpy_of_mem (Nat.zero_le b) (by omega), Nat.sub_zero]

/-- The source becomes the destination. -/
theorem swapMac_of_mem (h : b < 6) : swapMac m (6 + b) = m b := by
  unfold swapMac
  rw [memcpy_of_mem (by omega) (by omega), Nat.zero_add, Nat.add_sub_cancel_left]

/-- Past the two addresses nothing changes. -/
theorem swapMac_of_ge (h : 12 ≤ b) : swapMac m b = m b := by
  unfold swapMac
  rw [memcpy_of_ge (by omega), memcpy_of_ge (by omega)]

/-- So do the IP addresses. -/
theorem swapIp_eq (m : Memory) :
    swapIp m = memcpy (memcpy m (ip + 16) m (ip + 12) 4) (ip + 12) m (ip + 16) 4 := by
  unfold swapIp
  dsimp only
  rw [store_load, store_load]

/-- The destination becomes the source. -/
theorem swapIp_saddr (h : b < 4) : swapIp m (ip + 12 + b) = m (ip + 16 + b) := by
  rw [swapIp_eq, memcpy_of_mem (by omega) (by omega), Nat.add_sub_cancel_left]

/-- The source becomes the destination. -/
theorem swapIp_daddr (h : b < 4) : swapIp m (ip + 16 + b) = m (ip + 12 + b) := by
  rw [swapIp_eq, memcpy_of_ge (by omega), memcpy_of_mem (by omega) (by omega),
    Nat.add_sub_cancel_left]

/-- Before the two addresses nothing changes. -/
theorem swapIp_of_lt (h : b < ip + 12) : swapIp m b = m b := by
  rw [swapIp_eq, memcpy_of_lt h, memcpy_of_lt (by omega)]

/-- Nor past them. -/
theorem swapIp_of_ge (h : ip + 20 ≤ b) : swapIp m b = m b := by
  rw [swapIp_eq, memcpy_of_ge (by omega), memcpy_of_ge (by omega)]

end Pure

namespace Xdp
namespace Xsk

/-- Where the IP header starts. -/
def ip : ℕ := 14

/-- Where the payload starts, also by `packet_payload`. -/
def payload : ℕ := ip + 20

/-- The two results of `xdp_xsk`: the packet goes on to the kernel or to the
socket. -/
inductive XskAction
  | pass
  | redirect
deriving DecidableEq

/-- `xdp_xsk`. -/
def xdpXsk (data : Memory) (dataEnd : ℕ) : XskAction :=
  if dataEnd < payload + 48 then .pass
  else if load data 12 2 ≠ Pure.bpfHtons ethPPingpong.toNat then .pass
  else if (readPayload data payload).magic ≠ pingpongMagic then .pass
  else .redirect

/-- What `process_packet` does with the bytes of a packet: whether it is sent
back, the bytes after it, whether it sets `global_exit`, and what it gives to
`persistence_agent->write`. -/
structure Processed where
  keep : Bool
  pkt : Memory
  globalExit : Bool
  written : Option PingpongPayload

/-- `process_packet`, with the two readings of the clock. -/
def processBytes (build : Build) (iters t₁ t₂ : UInt64) (pkt : Memory) (len : UInt32) :
    Processed :=
  if len < minPacketLen then ⟨false, pkt, false, none⟩
  else if load pkt 12 2 ≠ Pure.bpfHtons ethPPingpong.toNat then ⟨false, pkt, false, none⟩
  else
    let globalExit := decide (iters ≤ (readPayload pkt payload).id)
    match build with
    | .server =>
      let pkt := store pkt (payload + 8 + 8 * 1) 8 t₁.toNat
      let pkt := Pure.swapIp (Pure.swapMac pkt)
      let pkt := store pkt (payload + 8 + 8 * 2) 8 t₂.toNat
      ⟨true, pkt, globalExit, none⟩
    | .client =>
      let pkt := store pkt (payload + 8 + 8 * 3) 8 t₁.toNat
      ⟨false, pkt, globalExit, some (readPayload pkt payload)⟩

/-- The fields of a packet in memory. -/
def readPacket (m : Memory) : Packet where
  hDest i := m i
  hSource i := m (6 + i)
  hProto := UInt16.ofNat (Pure.bpfHtons (load m 12 2))
  saddr := UInt32.ofNat (load m (ip + 12) 4)
  daddr := UInt32.ofNat (load m (ip + 16) 4)
  payload := readPayload m payload

variable {m pkt : Memory} {s : State} {iters t₁ t₂ : UInt64} {addr : UInt64} {len : UInt32}

/-! ### The fields of the edited packet -/

/-- The test of the ethertype, in the packet's byte order. -/
theorem readPacket_hProto_iff :
    (readPacket m).hProto = ethPPingpong ↔ load m 12 2 = Pure.bpfHtons ethPPingpong.toNat := by
  have hlt : load m 12 2 < 65536 := load_lt m 12 2
  show UInt16.ofNat (load m 12 2 % 256 * 256 + load m 12 2 / 256) = _ ↔ load m 12 2 = 0x0220
  generalize load m 12 2 = v at hlt ⊢
  rw [← UInt16.toNat_inj, UInt16.toNat_ofNat', Nat.mod_eq_of_lt (by omega)]
  show v % 256 * 256 + v / 256 = 0x2002 ↔ v = 0x0220
  constructor
  · intro h
    have hhigh : v / 256 = 2 := by omega
    omega
  · rintro rfl
    rfl

/-- The exchange of the addresses leaves the payload alone. -/
theorem readPayload_swap {a : ℕ} (ha : ip + 20 ≤ a) :
    readPayload (Pure.swapIp (Pure.swapMac m)) a = readPayload m a :=
  readPayload_congr fun i _ => by
    have hip : ip = 14 := rfl
    rw [Pure.swapIp_of_ge (by unfold Pure.ip; omega), Pure.swapMac_of_ge (by omega)]

/-- A store to the payload leaves the headers alone. -/
theorem readPacket_store_payload {k n v : ℕ} (hk : payload ≤ k) :
    readPacket (store m k n v) =
      { readPacket m with payload := readPayload (store m k n v) payload } := by
  have hip : ip = 14 := rfl
  have hpayload : payload = 34 := rfl
  have hdest : (fun i : Fin 6 => store m k n v i) = fun i : Fin 6 => m i :=
    funext fun i => store_of_lt (by omega)
  have hsource : (fun i : Fin 6 => store m k n v (6 + i)) = fun i : Fin 6 => m (6 + i) :=
    funext fun i => store_of_lt (by omega)
  simp (disch := omega) only [readPacket, hdest, hsource, load_store_of_disjoint]

/-- The exchange, in the fields. -/
theorem readPacket_swap (m : Memory) :
    readPacket (Pure.swapIp (Pure.swapMac m)) =
      { readPacket m with
        hDest := (readPacket m).hSource
        hSource := (readPacket m).hDest
        saddr := (readPacket m).daddr
        daddr := (readPacket m).saddr } := by
  have hip : Pure.ip = 14 := rfl
  have hdest : (fun i : Fin 6 => Pure.swapIp (Pure.swapMac m) i) = fun i : Fin 6 => m (6 + i) :=
    funext fun i => by rw [Pure.swapIp_of_lt (by omega), Pure.swapMac_of_lt i.isLt]
  have hsource : (fun i : Fin 6 => Pure.swapIp (Pure.swapMac m) (6 + i)) = fun i : Fin 6 => m i :=
    funext fun i => by rw [Pure.swapIp_of_lt (by omega), Pure.swapMac_of_mem i.isLt]
  have hproto : load (Pure.swapIp (Pure.swapMac m)) 12 2 = load m 12 2 :=
    load_congr fun i hi hi' => by
      rw [Pure.swapIp_of_lt (by omega), Pure.swapMac_of_ge hi]
  have hsaddr : load (Pure.swapIp (Pure.swapMac m)) (ip + 12) 4 = load m (ip + 16) 4 :=
    load_shift fun i hi => (Pure.swapIp_saddr hi).trans (Pure.swapMac_of_ge (by omega))
  have hdaddr : load (Pure.swapIp (Pure.swapMac m)) (ip + 16) 4 = load m (ip + 12) 4 :=
    load_shift fun i hi => (Pure.swapIp_daddr hi).trans (Pure.swapMac_of_ge (by omega))
  simp only [readPacket, hdest, hsource, hproto, hsaddr, hdaddr, readPayload_swap (Nat.le_refl _),
    payload]

/-- **The edits of the server are the reply** of the state machine. -/
theorem readPacket_reply (m : Memory) (t₁ t₂ : UInt64) :
    readPacket (store (Pure.swapIp (Pure.swapMac (store m (payload + 8 + 8 * 1) 8 t₁.toNat)))
      (payload + 8 + 8 * 2) 8 t₂.toNat) = (readPacket m).reply t₁ t₂ := by
  have hpayload : payload = Pure.ip + 20 := rfl
  have h₁ : readPayload (store m (payload + 8 + 8 * 1) 8 t₁.toNat) payload =
      (readPayload m payload).setTs 1 t₁ := readPayload_store_ts m payload 1 t₁
  have hpacket₁ := readPacket_store_payload (m := m) (k := payload + 8 + 8 * 1) (n := 8)
    (v := t₁.toNat) (by omega)
  generalize store m (payload + 8 + 8 * 1) 8 t₁.toNat = m₁ at h₁ hpacket₁ ⊢
  have h₂ : readPayload (store (Pure.swapIp (Pure.swapMac m₁)) (payload + 8 + 8 * 2) 8 t₂.toNat)
      payload = (readPayload (Pure.swapIp (Pure.swapMac m₁)) payload).setTs 2 t₂ :=
    readPayload_store_ts _ payload 2 t₂
  rw [readPacket_store_payload (by omega), h₂, readPayload_swap hpayload.ge, h₁,
    readPacket_swap, hpacket₁]
  rfl

/-- Queueing a frame does not touch the packets or what has been written. -/
theorem xskSendPacket_frame (s : State) (addr : UInt64) (len : UInt32) :
    (xskSendPacket s (.umemFrame addr) len false).2.umem = s.umem ∧
      (xskSendPacket s (.umemFrame addr) len false).2.globalExit = s.globalExit ∧
      (xskSendPacket s (.umemFrame addr) len false).2.written = s.written := by
  unfold xskSendPacket
  by_cases hfull : ringSize ≤ s.tx.length
  · rw [if_pos hfull]
    exact ⟨rfl, rfl, rfl⟩
  · rw [if_neg hfull]
    exact ⟨rfl, rfl, rfl⟩

/-- **On the fields it is `process_packet` of the state machine.** -/
theorem processPacket_readPacket (build : Build)
    (hpacket : s.umem (frameOf addr) = readPacket pkt) :
    let r := processBytes build iters t₁ t₂ pkt len
    let t := processPacket build iters t₁ t₂ s addr len
    t.1 = r.keep ∧ t.2.umem (frameOf addr) = readPacket r.pkt ∧
      t.2.globalExit = (s.globalExit || r.globalExit) ∧
      t.2.written = s.written ++ r.written.toList := by
  intro r t
  have hexit : s.globalExit = (s.globalExit || false) := (Bool.or_false _).symm
  have hwritten : s.written = s.written ++ (none : Option PingpongPayload).toList :=
    (List.append_nil _).symm
  simp only [r, t, processBytes, processPacket, hpacket]
  by_cases hlen : len < minPacketLen
  · simp only [if_pos hlen]
    exact ⟨trivial, hpacket, hexit, hwritten⟩
  by_cases hproto : load pkt 12 2 = Pure.bpfHtons ethPPingpong.toNat
  · have hfield : ¬ (readPacket pkt).hProto ≠ ethPPingpong :=
      not_not.2 (readPacket_hProto_iff.2 hproto)
    simp only [if_neg hlen, if_neg hfield, if_neg (not_not.2 hproto)]
    cases build with
    | server =>
        obtain ⟨humem, hglobal, hlist⟩ := xskSendPacket_frame
          { s with
            globalExit := s.globalExit || decide (iters ≤ (readPayload pkt payload).id)
            umem := Function.update s.umem (frameOf addr) ((readPacket pkt).reply t₁ t₂) } addr len
        refine ⟨rfl, ?_, hglobal, hlist.trans hwritten⟩
        rw [readPacket_reply]
        exact (congrFun humem (frameOf addr)).trans (Function.update_self ..)
    | client =>
        have hts : readPayload (store pkt (payload + 8 + 8 * 3) 8 t₁.toNat) payload =
            (readPayload pkt payload).setTs 3 t₁ := readPayload_store_ts pkt payload 3 t₁
        refine ⟨rfl, ?_, rfl, ?_⟩
        · rw [readPacket_store_payload (by omega), hts]
          exact Function.update_self ..
        · rw [hts]
          rfl
  · have hfield : (readPacket pkt).hProto ≠ ethPPingpong :=
      fun he => hproto (readPacket_hProto_iff.1 he)
    simp only [if_neg hlen, if_pos hfield, if_pos hproto]
    exact ⟨trivial, hpacket, hexit, hwritten⟩

end Xsk
end Xdp
end DetBypass
