/-
# The packet builder

`build_base_packet` of `common/net.c` writes a packed Ethernet and IP header at
the front of a buffer, on a little-endian machine; the payload follows them
(`packet_payload`).  `Headers` are the addresses and the ethertype, wherever they
come from; `headers_buildBasePacket` says that the builder writes those it is
given, whatever the buffer held.
-/

import DetBypass.Common.PayloadBytes

namespace DetBypass
namespace Net

open Lib Memory

/-- `PACKET_SIZE`. -/
def packetSize : ℕ := 1024

/-- `ETH_P_PINGPONG`. -/
def ethPPingpong : ℕ := 0x2002

/-- `IPPROTO_RAW`. -/
def ipprotoRaw : ℕ := 255

/-- `htons`, of the low 16 bits of its argument. -/
def htons (n : ℕ) : ℕ := n % 256 * 256 + n / 256 % 256

/-- `sizeof (struct ethhdr)`, where the IP header starts. -/
def ip : ℕ := 14

/-- `packet_payload`, as an offset. -/
def packetPayload : ℕ := ip + 20

/-- The loop over the MAC addresses, `h_dest` at 0 and `h_source` at 6. -/
def storeMacs (buf srcMac destMac : Memory) (n : ℕ) : Memory :=
  (List.range n).foldl (fun m i =>
    store (store m (6 + i) 1 (srcMac i).toNat) i 1 (destMac i).toNat) buf

/-- `build_base_packet`. -/
def buildBasePacket (buf srcMac destMac : Memory) (srcIp destIp : UInt32) : Memory :=
  let m := storeMacs buf srcMac destMac 6
  let m := store m 12 2 (htons ethPPingpong)
  -- `ihl` is the low half of the first byte, `version` the high half
  let m := store m ip 1 ((m ip).toNat / 16 * 16 + 5)
  let m := store m ip 1 (4 * 16 + (m ip).toNat % 16)
  let m := store m (ip + 1) 1 0
  let m := store m (ip + 2) 2 (htons (packetSize - 14))
  let m := store m (ip + 4) 2 0
  let m := store m (ip + 6) 2 (htons 0)
  let m := store m (ip + 8) 1 64
  let m := store m (ip + 9) 1 ipprotoRaw
  let m := store m (ip + 10) 2 0
  let m := store m (ip + 12) 4 srcIp.toNat
  store m (ip + 16) 4 destIp.toNat

variable {m m' srcMac destMac : Memory} {srcIp destIp : UInt32}

/-- The headers of a packet between two hosts. -/
structure Headers (srcMac destMac : Memory) (srcIp destIp : UInt32) (m : Memory) : Prop where
  dest : ∀ i < 6, m i = destMac i
  source : ∀ i < 6, m (6 + i) = srcMac i
  proto : load m 12 2 = htons ethPPingpong
  version : m ip = 0x45
  saddr : load m (ip + 12) 4 = srcIp.toNat
  daddr : load m (ip + 16) 4 = destIp.toNat

/-- They are in the bytes before the payload, those of `ip->id` apart. -/
theorem Headers.congr (h : Headers srcMac destMac srcIp destIp m)
    (hsame : ∀ b < packetPayload, b < ip + 4 ∨ ip + 6 ≤ b → m' b = m b) :
    Headers srcMac destMac srcIp destIp m' := by
  have hip : ip = 14 := rfl
  have hpayload : packetPayload = 34 := rfl
  refine ⟨fun i hi => ?_, fun i hi => ?_, ?_, ?_, ?_, ?_⟩
  · rw [hsame _ (by omega) (by omega), h.dest i hi]
  · rw [hsame _ (by omega) (by omega), h.source i hi]
  · rw [load_congr fun b hb hb' => hsame b (by omega) (by omega), h.proto]
  · rw [hsame _ (by omega) (by omega), h.version]
  · rw [load_congr fun b hb hb' => hsame b (by omega) (by omega), h.saddr]
  · rw [load_congr fun b hb hb' => hsame b (by omega) (by omega), h.daddr]

/-- The loop, after some of its rounds. -/
theorem storeMacs_apply (buf srcMac destMac : Memory) {n : ℕ} (hn : n ≤ 6) :
    (∀ i < n, storeMacs buf srcMac destMac n i = destMac i) ∧
      ∀ i < n, storeMacs buf srcMac destMac n (6 + i) = srcMac i := by
  have hbyte (v : UInt8) (a : ℕ) : UInt8.ofNat (v.toNat / 256 ^ (a - a)) = v := by
    rw [Nat.sub_self, Nat.pow_zero, Nat.div_one, UInt8.ofNat_toNat]
  induction n with
  | zero => exact ⟨fun i hi => absurd hi (Nat.not_lt_zero i),
      fun i hi => absurd hi (Nat.not_lt_zero i)⟩
  | succ n ih =>
      obtain ⟨hdest, hsource⟩ := ih (by omega)
      have hsucc : storeMacs buf srcMac destMac (n + 1) =
          store (store (storeMacs buf srcMac destMac n) (6 + n) 1 (srcMac n).toNat) n 1
            (destMac n).toNat := by
        rw [storeMacs, List.range_succ, List.foldl_append]
        rfl
      rw [hsucc]
      refine ⟨fun i hi => ?_, fun i hi => ?_⟩
      · rcases Nat.lt_succ_iff_lt_or_eq.1 hi with hlt | rfl
        · rw [store_of_lt hlt, store_of_lt (by omega), hdest i hlt]
        · rw [store_of_mem (Nat.le_refl _) (by omega), hbyte]
      · rw [store_of_ge (by omega)]
        rcases Nat.lt_succ_iff_lt_or_eq.1 hi with hlt | rfl
        · rw [store_of_lt (by omega), hsource i hlt]
        · rw [store_of_mem (Nat.le_refl _) (by omega), hbyte]

/-- **The builder writes the headers it is given**, whatever the buffer held. -/
theorem headers_buildBasePacket (buf srcMac destMac : Memory) (srcIp destIp : UInt32) :
    Headers srcMac destMac srcIp destIp (buildBasePacket buf srcMac destMac srcIp destIp) := by
  have hip : ip = 14 := rfl
  obtain ⟨hdest, hsource⟩ := storeMacs_apply buf srcMac destMac (Nat.le_refl 6)
  unfold buildBasePacket
  refine ⟨fun i hi => ?_, fun i hi => ?_, ?_, ?_, ?_, ?_⟩
  · simp (disch := omega) only [store_of_lt]
    exact hdest i hi
  · simp (disch := omega) only [store_of_lt]
    exact hsource i hi
  · simp (disch := omega) only [load_store_of_disjoint, load_store]
    rfl
  · simp (disch := omega) only [store_of_lt]
    -- the two halves are stored one after the other
    generalize store (storeMacs buf srcMac destMac 6) 12 2 (htons ethPPingpong) = m
    rw [store_of_mem (Nat.le_refl _) (by omega), store_of_mem (Nat.le_refl _) (by omega),
      Nat.sub_self, Nat.pow_zero, Nat.div_one, Nat.div_one, UInt8.toNat_ofNat',
      show ((m ip).toNat / 16 * 16 + 5) % 2 ^ 8 % 16 = 5 by omega]
    rfl
  · simp (disch := omega) only [load_store_of_disjoint, load_store]
    exact Nat.mod_eq_of_lt srcIp.toNat_lt
  · simp (disch := omega) only [load_store]
    exact Nat.mod_eq_of_lt destIp.toNat_lt

end Net
end DetBypass
