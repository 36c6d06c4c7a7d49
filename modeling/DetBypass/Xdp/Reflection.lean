/-
# The reflected packet

The servers of `pp_sock` and `pp_pure` edit a packet in place and send it back.
`Reflects` says what becomes of each of its bytes: the MAC and IP addresses have
changed places, `ts[1]` and `ts[2]` are set, and every other byte is the one
received, but for those that `pingpong_pure` writes anew (`Pure.Rewritten`).  It
gives the payload of the reply (`Reflects.readPayload_eq`), and that the filter of
the client takes it.
-/

import DetBypass.Xdp.XskPacket

namespace DetBypass

open Lib Memory

variable {m m' data : Memory} {off : ℕ} {rewritten : ℕ → Prop} {t₁ t₂ : UInt64}

/-- Every byte of a reply to a packet whose payload is at `off`. -/
structure Reflects (off : ℕ) (rewritten : ℕ → Prop) (t₁ t₂ : UInt64) (m m' : Memory) :
    Prop where
  macs : ∀ i < 6, m' i = m (6 + i) ∧ m' (6 + i) = m i
  ips : ∀ i < 4, m' (26 + i) = m (30 + i) ∧ m' (30 + i) = m (26 + i)
  ts₁ : (readPayload m' off).ts 1 = t₁
  ts₂ : (readPayload m' off).ts 2 = t₂
  other : ∀ b, 12 ≤ b → b < 26 ∨ 34 ≤ b → b < off + 16 ∨ off + 32 ≤ b → ¬ rewritten b → m' b = m b

/-- A word that no edit touches. -/
theorem Reflects.load_eq {a n : ℕ} (h : Reflects off rewritten t₁ t₂ m m') (ha : 12 ≤ a)
    (hips : a + n ≤ 26 ∨ 34 ≤ a) (hts : a + n ≤ off + 16 ∨ off + 32 ≤ a)
    (hfree : ∀ b, a ≤ b → b < a + n → ¬ rewritten b) : load m' a n = load m a n :=
  load_congr fun b hb hb' => h.other b (by omega) (by omega) (by omega) (hfree b hb hb')

/-- **The payload of the reply.** -/
theorem Reflects.readPayload_eq (h : Reflects off rewritten t₁ t₂ m m') (hoff : 34 ≤ off)
    (hfree : ∀ b, off ≤ b → ¬ rewritten b) :
    readPayload m' off = ((readPayload m off).setTs 1 t₁).setTs 2 t₂ := by
  have hword {a n : ℕ} (ha : off ≤ a) (hts : a + n ≤ off + 16 ∨ off + 32 ≤ a) :
      load m' a n = load m a n :=
    h.load_eq (by omega) (by omega) hts fun b hb _ => hfree b (by omega)
  refine readPayload_eq_iff.2 ⟨?_, fun i => ?_, ?_, ?_⟩
  · rw [hword (Nat.le_refl _) (by omega)]
    exact (readPayload_id m off).symm
  · rw [← readPayload_ts]
    refine congrArg UInt64.toNat ?_
    rcases i with ⟨_ | _ | _ | _ | i, hi⟩
    · refine UInt64.toNat_inj.1 ?_
      rw [readPayload_ts, hword (by omega) (by simp)]
      exact (readPayload_ts m off 0).symm
    · exact h.ts₁
    · exact h.ts₂
    · refine UInt64.toNat_inj.1 ?_
      rw [readPayload_ts, hword (by omega) (by simp)]
      exact (readPayload_ts m off 3).symm
    · omega
  · rw [hword (by omega) (by omega)]
    exact (readPayload_phase m off).symm
  · rw [hword (by omega) (by omega)]
    exact (readPayload_magic m off).symm

/-- The edits that both servers make, and others in the headers. -/
theorem reflects_of_swapped (hoff : 34 ≤ off)
    (hrewritten : ∀ b, rewritten b → 14 ≤ b ∧ (b < 26 ∨ 34 ≤ b) ∧ b < off)
    (hsame : ∀ b, b < off + 24 ∨ off + 32 ≤ b → ¬ rewritten b →
      m' b = Pure.swapIp (Pure.swapMac (store m (off + 8 + 8 * 1) 8 t₁.toNat)) b)
    (hts : (readPayload m' off).ts 2 = t₂) : Reflects off rewritten t₁ t₂ m m' := by
  have hip : Pure.ip = 14 := rfl
  have hfree : ∀ b, b < 14 ∨ 26 ≤ b ∧ b < 34 ∨ off ≤ b → ¬ rewritten b := fun b hb hr => by
    have := hrewritten b hr
    omega
  refine ⟨fun i hi => ⟨?_, ?_⟩, fun i hi => ⟨?_, ?_⟩, ?_, hts, fun b hb hips hts hr => ?_⟩
  · rw [hsame _ (by omega) (hfree _ (by omega)), Pure.swapIp_of_lt (by omega),
      Pure.swapMac_of_lt hi, store_of_lt (by omega)]
  · rw [hsame _ (by omega) (hfree _ (by omega)), Pure.swapIp_of_lt (by omega),
      Pure.swapMac_of_mem hi, store_of_lt (by omega)]
  · rw [hsame _ (by omega) (hfree _ (by omega))]
    refine (Pure.swapIp_saddr hi).trans ?_
    rw [Pure.swapMac_of_ge (by omega), store_of_lt (by omega), hip]
  · rw [hsame _ (by omega) (hfree _ (by omega))]
    refine (Pure.swapIp_daddr hi).trans ?_
    rw [Pure.swapMac_of_ge (by omega), store_of_lt (by omega), hip]
  · -- `ts[1]` was stored before the addresses changed places
    have hload : load m' (off + 8 + 8 * 1) 8 =
        load (store m (off + 8 + 8 * 1) 8 t₁.toNat) (off + 8 + 8 * 1) 8 :=
      load_congr fun b hb hb' => by
        rw [hsame b (by omega) (hfree b (by omega)), Pure.swapIp_of_ge (by omega),
          Pure.swapMac_of_ge (by omega)]
    refine UInt64.toNat_inj.1 ((readPayload_ts m' off 1).trans (hload.trans ?_))
    rw [load_store]
    exact Nat.mod_eq_of_lt t₁.toNat_lt
  · rw [hsame b (by omega) hr]
    rcases hips with hlt | hge
    · rw [Pure.swapIp_of_lt (by omega), Pure.swapMac_of_ge hb, store_of_lt (by omega)]
    · rw [Pure.swapIp_of_ge (by omega), Pure.swapMac_of_ge hb]
      rcases hts with hlt | hge'
      · exact store_of_lt (by omega)
      · exact store_of_ge (by omega)

/-! ### `pp_sock` -/

namespace Xdp
namespace Xsk

variable {iters : UInt64} {len : UInt32}

/-- What `xdp_xsk` takes. -/
theorem xdpXsk_eq_redirect {dataEnd : ℕ} : xdpXsk data dataEnd = .redirect ↔
    payload + 48 ≤ dataEnd ∧ load data 12 2 = Pure.bpfHtons ethPPingpong.toNat ∧
      (readPayload data payload).magic = pingpongMagic := by
  unfold xdpXsk
  split_ifs with hsize hproto hmagic
  · exact iff_of_false (by decide) fun h => by omega
  · exact iff_of_false (by decide) fun h => hproto h.2.1
  · exact iff_of_false (by decide) fun h => hmagic h.2.2
  · exact iff_of_true rfl ⟨Nat.not_lt.1 hsize, not_not.1 hproto, not_not.1 hmagic⟩

/-- The size test of `process_packet` is that of `xdp_xsk`. -/
theorem not_lt_minPacketLen (h : payload + 48 ≤ len.toNat) : ¬ len < minPacketLen := by
  rw [UInt32.lt_iff_toNat_lt]
  exact Nat.not_lt.2 h

/-- **The server sends an accepted packet back.** -/
theorem processBytes_server (h : xdpXsk data len.toNat = .redirect) (iters t₁ t₂ : UInt64) :
    (processBytes .server iters t₁ t₂ data len).keep = true ∧
      Reflects payload (fun _ => False) t₁ t₂ data
        (processBytes .server iters t₁ t₂ data len).pkt := by
  obtain ⟨hsize, hproto, -⟩ := xdpXsk_eq_redirect.1 h
  have hpayload : payload = 34 := rfl
  unfold processBytes
  rw [if_neg (not_lt_minPacketLen hsize), if_neg (not_not.2 hproto)]
  refine ⟨rfl, reflects_of_swapped (by omega) (fun b hr => hr.elim) (fun b hb _ => ?_) ?_⟩
  · rcases hb with hlt | hge
    · exact store_of_lt (by omega)
    · exact store_of_ge (by omega)
  · have hts := congrArg (fun p => p.ts 2) (readPayload_store_ts
      (Pure.swapIp (Pure.swapMac (store data (payload + 8 + 8 * 1) 8 t₁.toNat))) payload 2 t₂)
    exact hts.trans (PingpongPayload.setTs_ts _ 2 t₂)

/-- **The client records an accepted packet**, with `ts[3]`. -/
theorem processBytes_client (h : xdpXsk data len.toNat = .redirect) :
    (processBytes .client iters t₁ t₂ data len).written =
      some ((readPayload data payload).setTs 3 t₁) := by
  obtain ⟨hsize, hproto, -⟩ := xdpXsk_eq_redirect.1 h
  unfold processBytes
  rw [if_neg (not_lt_minPacketLen hsize), if_neg (not_not.2 hproto)]
  exact congrArg some (readPayload_store_ts data payload 3 t₁)

/-- The reply passes the filter. -/
theorem xdpXsk_reply (h : xdpXsk m len.toNat = .redirect)
    (hreply : Reflects payload (fun _ => False) t₁ t₂ m m') :
    xdpXsk m' len.toNat = .redirect := by
  have hpayload : payload = 34 := rfl
  obtain ⟨hsize, hproto, hmagic⟩ := xdpXsk_eq_redirect.1 h
  refine xdpXsk_eq_redirect.2 ⟨hsize, ?_, ?_⟩
  · rw [hreply.load_eq (by omega) (by omega) (by omega) fun _ _ _ => id]
    exact hproto
  · rw [hreply.readPayload_eq (by omega) fun _ _ => id]
    exact hmagic

end Xsk
end Xdp

/-! ### `pingpong_pure` -/

namespace Pure

variable {ts now : UInt64} {dataEnd : ℕ} {bpfCsumDiff : List UInt8 → UInt32 → UInt64}

/-- The bytes of the TTL and the checksum of the IP header, and of the ports and
the checksum of the UDP header. -/
def Rewritten (b : ℕ) : Prop :=
  b = ip + 8 ∨ b = ip + 10 ∨ b = ip + 11 ∨ udp ≤ b ∧ b < udp + 4 ∨ b = udp + 6 ∨ b = udp + 7

/-- The bytes rewritten lie in the headers, and the protocol and the addresses do not. -/
theorem Rewritten.bounds {b : ℕ} (h : Rewritten b) :
    22 ≤ b ∧ b ≠ 23 ∧ (b < 26 ∨ 34 ≤ b) ∧ b < 42 := by
  have hip : ip = 14 := rfl
  have hudp : udp = 34 := rfl
  unfold Rewritten at h
  omega

/-- The packet passes the tests of `xdp_main`. -/
def Accepts (data : Memory) (dataEnd : ℕ) : Prop :=
  payload + 48 ≤ dataEnd ∧ load data 12 2 = bpfHtons ethPIp ∧
    load data (ip + 9) 1 = ipprotoUdp ∧ load data (udp + 2) 2 = bpfHtons xdpUdpPort ∧
    validPingpongPayload (readPayload data payload) = true

/-- What `xdp_main` does with such a packet. -/
theorem xdpMain_of_accepts (h : Accepts data dataEnd) :
    xdpMain bpfCsumDiff .server ts now data dataEnd = (.tx, reflect bpfCsumDiff ts now data) ∧
    xdpMain bpfCsumDiff .client ts now data dataEnd =
      (.pass, store data (payload + 8 + 8 * 3) 8 ts.toNat) := by
  obtain ⟨hsize, hproto, hudp, hport, hvalid⟩ := h
  have htests : ¬ (load data 12 2 ≠ bpfHtons ethPIp ∨ load data (ip + 9) 1 ≠ ipprotoUdp ∨
      load data (udp + 2) 2 ≠ bpfHtons xdpUdpPort) := by
    rw [hproto, hudp, hport]
    simp
  have hmagic : ¬ validPingpongPayload (readPayload data payload) = false := by
    rw [hvalid]
    decide
  unfold xdpMain
  rw [if_neg (Nat.not_lt.2 hsize), if_neg htests, if_neg hmagic, if_neg (Nat.not_lt.2 hsize),
    if_neg htests, if_neg hmagic]
  exact ⟨rfl, rfl⟩

/-- A packet that is sent back has passed them. -/
theorem accepts_of_tx (h : (xdpMain bpfCsumDiff .server ts now data dataEnd).1 = .tx) :
    Accepts data dataEnd := by
  unfold xdpMain at h
  split_ifs at h with hsize htests hmagic
  · rw [not_or, not_or, not_not, not_not, not_not] at htests
    exact ⟨Nat.not_lt.1 hsize, htests.1, htests.2.1, htests.2.2, Bool.of_not_eq_false hmagic⟩

/-- **The edits of the server**, byte by byte. -/
theorem reflects_reflect (bpfCsumDiff : List UInt8 → UInt32 → UInt64) (ts now : UInt64)
    (m : Memory) : Reflects payload Rewritten ts now m (reflect bpfCsumDiff ts now m) := by
  have hip : ip = 14 := rfl
  have hudp : udp = 34 := rfl
  have hpayload : payload = 42 := rfl
  refine reflects_of_swapped (by omega) (fun b hr => ?_) (fun b hb hr => ?_) ?_
  · have := hr.bounds
    omega
  · unfold Rewritten at hr
    unfold reflect
    rw [store_of_not_mem (by omega), store_of_not_mem (by omega), store_of_not_mem (by omega),
      store_of_not_mem (by omega), store_of_not_mem (by omega), store_of_not_mem (by omega),
      store_of_not_mem (by omega)]
  · unfold reflect
    exact (congrArg (fun p => p.ts 2) (readPayload_store_ts _ payload 2 now)).trans
      (PingpongPayload.setTs_ts _ 2 now)

/-- The reply passes the tests. -/
theorem accepts_reflect (h : Accepts data dataEnd) :
    Accepts (reflect bpfCsumDiff ts now data) dataEnd := by
  have hip : ip = 14 := rfl
  have hudp : udp = 34 := rfl
  have hpayload : payload = 42 := rfl
  have hreply := reflects_reflect bpfCsumDiff ts now data
  obtain ⟨hsize, hproto, hprotocol, -, hvalid⟩ := h
  refine ⟨hsize, ?_, ?_, ?_, ?_⟩
  · rw [hreply.load_eq (by omega) (by omega) (by omega) fun b _ _ hr => ?_]
    · exact hproto
    · have := hr.bounds
      omega
  · rw [hreply.load_eq (by omega) (by omega) (by omega) fun b _ _ hr => ?_]
    · exact hprotocol
    · have := hr.bounds
      omega
  · unfold reflect
    rw [load_store_of_disjoint (by omega), load_store_of_disjoint (by omega), load_store]
    rfl
  · rw [hreply.readPayload_eq (by omega) fun b _ hr => ?_]
    · exact hvalid
    · have := hr.bounds
      omega

end Pure

namespace Xdp

/-- **Reflection preserves the round.**  For every packet that the filter of a
server takes: the addresses have changed places, `ts[1]` and `ts[2]` are set, and
every other byte is the one received, but for the headers that `pingpong_pure`
writes anew.  The reply passes the filter of the client, and its record has the
`id` and the `ts[0]` of the ping. -/
theorem reflection_preserves_round :
    (∀ (iters t₁ t₂ : UInt64) (data : Memory) (len : UInt32),
      Xsk.xdpXsk data len.toNat = .redirect →
      let reply := Xsk.processBytes .server iters t₁ t₂ data len
      let ping := readPayload data Xsk.payload
      reply.keep = true ∧ Reflects Xsk.payload (fun _ => False) t₁ t₂ data reply.pkt ∧
        readPayload reply.pkt Xsk.payload = (ping.setTs 1 t₁).setTs 2 t₂ ∧
        load reply.pkt 12 2 = load data 12 2 ∧
        Xsk.xdpXsk reply.pkt len.toNat = .redirect ∧
        ∀ iters' t₃ t₄, ∃ p,
          (Xsk.processBytes .client iters' t₃ t₄ reply.pkt len).written = some p ∧
          p = ((ping.setTs 1 t₁).setTs 2 t₂).setTs 3 t₃ ∧ p.id = ping.id ∧ p.ts 0 = ping.ts 0) ∧
    (∀ (bpfCsumDiff : List UInt8 → UInt32 → UInt64) (ts now : UInt64) (data : Memory)
        (dataEnd : ℕ),
      (Pure.xdpMain bpfCsumDiff .server ts now data dataEnd).1 = .tx →
      let reply := (Pure.xdpMain bpfCsumDiff .server ts now data dataEnd).2
      let ping := readPayload data Pure.payload
      Reflects Pure.payload Pure.Rewritten ts now data reply ∧
        readPayload reply Pure.payload = (ping.setTs 1 ts).setTs 2 now ∧
        load reply 12 2 = load data 12 2 ∧
        ∀ ts' now', ∃ pkt, Pure.xdpMain bpfCsumDiff .client ts' now' reply dataEnd = (.pass, pkt) ∧
          pkt = store reply (Pure.payload + 8 + 8 * 3) 8 ts'.toNat ∧
          readPayload pkt Pure.payload = ((ping.setTs 1 ts).setTs 2 now).setTs 3 ts' ∧
          (readPayload pkt Pure.payload).id = ping.id ∧
          (readPayload pkt Pure.payload).ts 0 = ping.ts 0) := by
  have hts₀ (p : PingpongPayload) (t₁ t₂ t₃ : UInt64) :
      (((p.setTs 1 t₁).setTs 2 t₂).setTs 3 t₃).ts 0 = p.ts 0 := rfl
  constructor
  · intro iters t₁ t₂ data len h reply ping
    have hpayload : Xsk.payload = 34 := rfl
    obtain ⟨hkeep, hreply⟩ := Xsk.processBytes_server h iters t₁ t₂
    have hread : readPayload reply.pkt Xsk.payload = (ping.setTs 1 t₁).setTs 2 t₂ :=
      hreply.readPayload_eq (by omega) fun _ _ => id
    have hfilter := Xsk.xdpXsk_reply h hreply
    refine ⟨hkeep, hreply, hread,
      hreply.load_eq (by omega) (by omega) (by omega) fun _ _ _ => id, hfilter,
      fun iters' t₃ t₄ => ⟨_, Xsk.processBytes_client hfilter, ?_, ?_, ?_⟩⟩
    · rw [hread]
    · rw [hread]
      rfl
    · rw [hread]
      exact hts₀ ping t₁ t₂ t₃
  · intro bpfCsumDiff ts now data dataEnd h reply ping
    have hpayload : Pure.payload = 42 := rfl
    have haccepts := Pure.accepts_of_tx h
    have hmain : reply = Pure.reflect bpfCsumDiff ts now data :=
      congrArg Prod.snd (Pure.xdpMain_of_accepts haccepts).1
    have hreply : Reflects Pure.payload Pure.Rewritten ts now data reply :=
      hmain ▸ Pure.reflects_reflect bpfCsumDiff ts now data
    have hread : readPayload reply Pure.payload = (ping.setTs 1 ts).setTs 2 now :=
      hreply.readPayload_eq (by omega) fun b hb hr => by have := hr.bounds; omega
    have hfilter : Pure.Accepts reply dataEnd := hmain ▸ Pure.accepts_reflect haccepts
    refine ⟨hreply, hread,
      hreply.load_eq (by omega) (by omega) (by omega) fun b _ _ hr => by
        have := hr.bounds
        omega,
      fun ts' now' => ⟨_, (Pure.xdpMain_of_accepts hfilter).2, rfl, ?_⟩⟩
    have hrecord : readPayload (store reply (Pure.payload + 8 + 8 * 3) 8 ts'.toNat) Pure.payload =
        ((ping.setTs 1 ts).setTs 2 now).setTs 3 ts' :=
      (readPayload_store_ts reply Pure.payload 3 ts').trans (by rw [hread])
    rw [hrecord]
    exact ⟨rfl, rfl, hts₀ ping ts now ts'⟩

/-- The headers of a ping with an ethertype and a protocol, and a payload that
starts with a byte at `off`. -/
def pingBytes (proto proto' protocol : UInt8) (off : ℕ) : Memory := fun i =>
  ([2, 0, 0, 0, 0, 1, 2, 0, 0, 0, 0, 2, proto, proto',
    0x45, 0, 0, 76, 0, 0, 0, 0, 64, protocol, 0, 0, 10, 0, 0, 1, 10, 0, 0, 2] ++
    [4, 0xd2, 4, 0xd2, 0, 56, 0, 0].take (off - 34) ++
    (9 :: List.replicate 43 0) ++ [0xef, 0xbe, 0xad, 0x8b]).getD i 0

/-- A ping with the id 9 to each of the servers. -/
theorem reflection_preserves_round_ping :
    (∃ p, (Xsk.processBytes .client 10 8 8 (Xsk.processBytes .server 10 5 7
        (pingBytes 0x20 0x02 255 34) 1024).pkt 1024).written = some p ∧ p.id = 9) ∧
      readPayload (Pure.xdpMain (fun _ _ => 0) .server 5 7 (pingBytes 0x08 0 17 42) 1024).2
        Pure.payload = ((readPayload (pingBytes 0x08 0 17 42) 42).setTs 1 5).setTs 2 7 := by
  obtain ⟨hsock, hpure⟩ := reflection_preserves_round
  obtain ⟨-, -, -, -, -, hrecord⟩ :=
    hsock 10 5 7 (pingBytes 0x20 0x02 255 34) 1024 (by decide +kernel)
  obtain ⟨p, hp, -, hid, -⟩ := hrecord 10 8 8
  obtain ⟨-, hread, -⟩ :=
    hpure (fun _ _ => 0) 5 7 (pingBytes 0x08 0 17 42) 1024 (by decide +kernel)
  exact ⟨⟨p, hp, hid.trans (by decide +kernel)⟩, hread⟩

end Xdp
end DetBypass
