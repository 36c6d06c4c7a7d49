/-
# The packets of the XDP-poll programs

`send_packet` and the reply of `start_server` in `xdp/pp_poll.c`, which write a
packet over the headers of `build_base_packet`, and `xdp_main` with
`add_packet_to_map` in `xdp/pingpong.c`, which the other host runs on it.  The two
are compiled apart: each has its own offsets into the same bytes.  What the second
stores in the map is the payload that the first wrote
(`Delivers`, `sent_packet_delivers`).

A map is the bytes of `last_payload`, one payload after another, and `lock->index`.
-/

import DetBypass.Common.Net
import DetBypass.Xdp.PingpongPure
import DetBypass.Xdp.PollRing

namespace DetBypass
namespace Xdp
namespace Poll

open Lib Memory Net

/-! ### The senders -/

/-- `send_packet`: the packet given to `sendto`. -/
def sendPacket (buf : Memory) (packetId t : UInt64) : Memory :=
  let m := store buf (ip + 4) 2 (htons packetId.toNat)
  let m := storePayload m packetPayload (newPingpongPayload packetId)
  store m (packetPayload + 8 + 8 * 0) 8 t.toNat

/-- A round of `start_server`: the packet given to `sendto` after the payload of a
slot has been copied to the buffer. -/
def pong (buf map : Memory) (slot : ℕ) (t₁ t₂ : UInt64) : Memory :=
  let m := memcpy buf packetPayload map slot 48
  let m := store m (packetPayload + 8 + 8 * 1) 8 t₁.toNat
  let m := store m (packetPayload + 40) 4 2
  store m (packetPayload + 8 + 8 * 2) 8 t₂.toNat

/-! ### The XDP program -/

/-- Where the payload of a packet starts. -/
def payload : ℕ := 14 + 20

/-- The element of `lck` and the values of `last_payload`. -/
structure Maps where
  index : UInt32
  lastPayload : Memory

/-- `enum xdp_action`, the two values returned. -/
inductive XdpAction
  | pass
  | drop
deriving DecidableEq

/-- Where the value of a key starts in `last_payload`. -/
def slot (key : UInt32) : ℕ := 48 * key.toNat

/-- `add_packet_to_map`: its result, the maps and the packet. -/
def addPacketToMap (maps : Maps) (data : Memory) (payload : ℕ) : ℤ × Maps × Memory :=
  let key := maps.index
  let maps := { maps with index := (maps.index + 1) % UInt32.ofNat packetsMapSize }
  if packetsMapSize ≤ key.toNat then (-1, maps, data)
  else if validPingpongPayload (readPayload maps.lastPayload (slot key)) then
    (-1, { maps with index := key }, data)
  else
    let data := store data (payload + 44) 4
      ((readPayload data payload).magic &&& 0xFFFFFFFE).toNat
    let m := memcpy maps.lastPayload (slot key) data payload 48
    let m := store m (slot key + 44) 4 ((readPayload m (slot key)).magic ||| 1).toNat
    (0, { maps with lastPayload := m }, data)

/-- `xdp_main`: the action, the maps and the packet. -/
def xdpMain (maps : Maps) (data : Memory) (dataEnd : ℕ) : XdpAction × Maps × Memory :=
  if dataEnd < payload + 48 then (.pass, maps, data)
  else if load data 12 2 ≠ Pure.bpfHtons ethPPingpong then (.pass, maps, data)
  else if validPingpongPayload (readPayload data payload) = false then (.pass, maps, data)
  else (.drop, (addPacketToMap maps data payload).2)

variable {data map : Memory} {maps : Maps} {p : PingpongPayload} {off : ℕ}
  {srcMac destMac : Memory} {srcIp destIp : UInt32}

/-- The map after the payload has been added. -/
def Maps.Added (maps maps' : Maps) (p : PingpongPayload) : Prop :=
  readPayload maps'.lastPayload (slot maps.index) = p ∧
    ∀ b, b < slot maps.index ∨ slot maps.index + 48 ≤ b →
      maps'.lastPayload b = maps.lastPayload b

/-- The slot is there and free. -/
def Maps.Free (maps : Maps) : Prop :=
  maps.index.toNat < packetsMapSize ∧
    validPingpongPayload (readPayload maps.lastPayload (slot maps.index)) = false

/-- A call that finds no free slot fails. -/
theorem addPacketToMap_of_not_free (h : ¬ maps.Free) :
    (addPacketToMap maps data off).1 = -1 := by
  unfold addPacketToMap
  dsimp only
  split_ifs with hkey hvalid
  · rfl
  · rfl
  · exact absurd ⟨Nat.not_le.1 hkey, Bool.eq_false_iff.2 hvalid⟩ h

/-- **A call that finds a free slot** stores the payload there: the bit of the
magic number that it clears in the packet is set again in the map. -/
theorem addPacketToMap_of_free (h : maps.Free)
    (hvalid : validPingpongPayload (readPayload data off) = true) :
    (addPacketToMap maps data off).1 = 0 ∧
      maps.Added (addPacketToMap maps data off).2.1 (readPayload data off) := by
  obtain ⟨hkey, hfree⟩ := h
  have hcleared (m : Memory) : readPayload (memcpy m (slot maps.index) (store data (off + 44) 4
      ((readPayload data off).magic &&& 0xFFFFFFFE).toNat) off 48) (slot maps.index) =
      clearCommitBit (readPayload data off) := by
    rw [readPayload_memcpy, readPayload_store_magic]
    rfl
  unfold addPacketToMap
  rw [if_neg (Nat.not_le.2 hkey), if_neg (by rw [hfree]; decide)]
  refine ⟨rfl, ?_, fun b hb => ?_⟩
  · show readPayload (store _ _ 4 _) _ = _
    rw [readPayload_store_magic, hcleared]
    exact setCommitBit_clearCommitBit (validPingpongPayload_iff.1 hvalid)
  · show store _ _ 4 _ b = _
    rw [store_of_not_mem (by omega)]
    exact if_neg (by omega)

/-- The packet passes `xdp_main`, and `add_packet_to_map` stores `p` if it
succeeds, which it does if it finds a free slot. -/
def Delivers (pkt : Memory) (p : PingpongPayload) : Prop :=
  ∀ maps : Maps,
    xdpMain maps pkt packetSize = (.drop, (addPacketToMap maps pkt payload).2) ∧
    ((addPacketToMap maps pkt payload).1 = 0 ↔ maps.Free) ∧
    ((addPacketToMap maps pkt payload).1 = 0 →
      maps.Added (addPacketToMap maps pkt payload).2.1 p)

/-- **A packet with the headers and a valid payload is delivered.** -/
theorem delivers_of_headers {pkt : Memory} (h : Headers srcMac destMac srcIp destIp pkt)
    (hread : readPayload pkt packetPayload = p) (hvalid : validPingpongPayload p = true) :
    Delivers pkt p := by
  intro maps
  have hpayload : payload = packetPayload := rfl
  have hread' : validPingpongPayload (readPayload pkt payload) = true := by
    rw [hpayload, hread, hvalid]
  have hsuccess : (addPacketToMap maps pkt payload).1 = 0 ↔ maps.Free := by
    constructor
    · intro hzero
      by_contra hfull
      rw [addPacketToMap_of_not_free hfull] at hzero
      exact absurd hzero (by decide)
    · exact fun hfree => (addPacketToMap_of_free hfree hread').1
  refine ⟨?_, hsuccess, fun hzero => ?_⟩
  · have hproto : ¬ load pkt 12 2 ≠ Pure.bpfHtons ethPPingpong := not_not.2 h.proto
    unfold xdpMain
    rw [if_neg (by decide), if_neg hproto, if_neg (by rw [hread']; decide)]
  · have hadded := (addPacketToMap_of_free (hsuccess.1 hzero) hread').2
    rwa [hpayload, hread] at hadded

/-! ### What is sent is delivered -/

/-- The payload area of a packet, with what it held before. -/
def withPayloadArea (buf area : Memory) : Memory :=
  memcpy buf packetPayload area 0 (packetSize - packetPayload)

/-- The headers lie before the payload. -/
theorem headers_withPayloadArea (h : Headers srcMac destMac srcIp destIp data) (area : Memory) :
    Headers srcMac destMac srcIp destIp (withPayloadArea data area) :=
  h.congr fun _ hb _ => memcpy_of_lt hb

/-- The ping of `send_packet`. -/
theorem sendPacket_ping (h : Headers srcMac destMac srcIp destIp data) (packetId t : UInt64) :
    Headers srcMac destMac srcIp destIp (sendPacket data packetId t) ∧
      readPayload (sendPacket data packetId t) packetPayload =
        (newPingpongPayload packetId).setTs 0 t := by
  have hip : ip = 14 := rfl
  have hpayload : packetPayload = 34 := rfl
  constructor
  · refine h.congr fun b hb hid => ?_
    unfold sendPacket
    rw [store_of_lt (by omega), storePayload_of_lt (by omega), store_of_not_mem (by omega)]
  · refine (readPayload_store_ts _ packetPayload 0 t).trans ?_
    rw [readPayload_storePayload]

/-- The reply of `start_server`. -/
theorem pong_reply (h : Headers srcMac destMac srcIp destIp data) (map : Memory) (slot : ℕ)
    (t₁ t₂ : UInt64) :
    Headers srcMac destMac srcIp destIp (pong data map slot t₁ t₂) ∧
      readPayload (pong data map slot t₁ t₂) packetPayload =
        { ((readPayload map slot).setTs 1 t₁).setTs 2 t₂ with phase := 2 } := by
  have hip : ip = 14 := rfl
  have hpayload : packetPayload = 34 := rfl
  constructor
  · refine h.congr fun b hb _ => ?_
    unfold pong
    rw [store_of_lt (by omega), store_of_lt (by omega), store_of_lt (by omega),
      memcpy_of_lt (by omega)]
  · have hcopied : readPayload (store (memcpy data packetPayload map slot 48)
        (packetPayload + 8 + 8 * 1) 8 t₁.toNat) packetPayload =
        (readPayload map slot).setTs 1 t₁ :=
      (readPayload_store_ts _ packetPayload 1 t₁).trans (by rw [readPayload_memcpy])
    have hphase := readPayload_store_phase (store (memcpy data packetPayload map slot 48)
      (packetPayload + 8 + 8 * 1) 8 t₁.toNat) packetPayload 2
    rw [hcopied] at hphase
    exact (readPayload_store_ts _ packetPayload 2 t₂).trans
      (congrArg (fun p => p.setTs 2 t₂) hphase)

/-- **The two programs agree on the packet.**  For all addresses, ids, timestamps
and earlier bytes: a ping and a reply carry the addresses, pass `xdp_main`, and
the payload that is stored in the map is the one that was written. -/
theorem sent_packet_delivers (buf area srcMac destMac : Memory) (srcIp destIp : UInt32) :
    let base := withPayloadArea (buildBasePacket buf srcMac destMac srcIp destIp) area
    (∀ packetId t,
      Headers srcMac destMac srcIp destIp (sendPacket base packetId t) ∧
        readPayload (sendPacket base packetId t) packetPayload =
          (newPingpongPayload packetId).setTs 0 t ∧
        Delivers (sendPacket base packetId t) ((newPingpongPayload packetId).setTs 0 t)) ∧
    ∀ map slot t₁ t₂, validPingpongPayload (readPayload map slot) = true →
      let p := { ((readPayload map slot).setTs 1 t₁).setTs 2 t₂ with phase := 2 }
      Headers srcMac destMac srcIp destIp (pong base map slot t₁ t₂) ∧
        readPayload (pong base map slot t₁ t₂) packetPayload = p ∧
        Delivers (pong base map slot t₁ t₂) p := by
  intro base
  have hbase : Headers srcMac destMac srcIp destIp base :=
    headers_withPayloadArea (headers_buildBasePacket buf srcMac destMac srcIp destIp) area
  refine ⟨fun packetId t => ?_, fun map slot t₁ t₂ hvalid => ?_⟩
  · obtain ⟨hheaders, hread⟩ := sendPacket_ping hbase packetId t
    exact ⟨hheaders, hread, delivers_of_headers hheaders hread rfl⟩
  · obtain ⟨hheaders, hread⟩ := pong_reply hbase map slot t₁ t₂
    exact ⟨hheaders, hread, delivers_of_headers hheaders hread hvalid⟩

/-- A reply to the ping 9, which was in the third slot, to a map whose first slot
is free. -/
theorem sent_packet_delivers_nine :
    let ping := (newPingpongPayload 9).setTs 0 5
    let pkt := pong (withPayloadArea (buildBasePacket (fun _ => 0) (fun _ => 1) (fun _ => 2) 3 4)
      fun _ => 255) (storePayload (fun _ => 0) (slot 2) ping) (slot 2) 7 8
    (addPacketToMap ⟨0, fun _ => 0⟩ pkt payload).1 = 0 ∧
      (⟨0, fun _ => 0⟩ : Maps).Added (addPacketToMap ⟨0, fun _ => 0⟩ pkt payload).2.1
        ⟨9, ![5, 7, 8, 0], 2, pingpongMagic⟩ := by
  intro ping pkt
  have hping := readPayload_storePayload (fun _ => 0) (slot 2) ping
  obtain ⟨-, -, hdelivers⟩ :=
    (sent_packet_delivers (fun _ => 0) (fun _ => 255) (fun _ => 1) (fun _ => 2) 3 4).2
      (storePayload (fun _ => 0) (slot 2) ping) (slot 2) 7 8 (by rw [hping]; rfl)
  obtain ⟨-, hsuccess, hadded⟩ := hdelivers ⟨0, fun _ => 0⟩
  have hzero := hsuccess.2 ⟨by decide, by decide⟩
  refine ⟨hzero, ?_⟩
  have hpong : ({ (ping.setTs 1 7).setTs 2 8 with phase := 2 } : PingpongPayload) =
      ⟨9, ![5, 7, 8, 0], 2, pingpongMagic⟩ :=
    PingpongPayload.ext rfl (funext fun i => by fin_cases i <;> rfl) rfl rfl
  have h := hadded hzero
  rwa [hping, hpong] at h

end Poll
end Xdp
end DetBypass
