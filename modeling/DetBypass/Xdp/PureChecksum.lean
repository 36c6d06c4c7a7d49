/-
# The checksum of the reflected header

The server build of `xdp/pingpong_pure.c` computes the checksum of the IPv4
header and then stores 64 to its TTL.  Its helper folds any 64-bit sum to 16 bits
in four rounds (`csumFoldHelper_folds`), so the checksum stored makes the words add
up to a multiple of `65535` with the TTL that was received; the store adds `64 - ttl`
to one of them, less than a byte, so the header sent back verifies if and only if the
TTL was 64 (`verifies_reflect_iff`).
-/

import DetBypass.Xdp.PingpongPure

namespace DetBypass
namespace Pure

open Lib Memory

variable {m m' data : Memory} {csum ts now : UInt64} {dataEnd : ℕ}
  {bpfCsumDiff : List UInt8 → UInt32 → UInt64}

/-- The ten 16-bit words of an IPv4 header without options add up to all ones. -/
def Verifies (m : Memory) (a : ℕ) : Prop :=
  onesSum (wordsBe m a 10) = 0xFFFF

instance (m : Memory) (a : ℕ) : Decidable (Verifies m a) :=
  inferInstanceAs (Decidable (onesSum (wordsBe m a 10) = 0xFFFF))

/-! ### The fold -/

/-- A round of the helper is a fold. -/
theorem csumFold_toNat (csum : UInt64) : (csumFold csum).toNat = fold csum.toNat := by
  have hlt := csum.toNat_lt
  have hshift : (csum >>> 16).toNat = csum.toNat / 65536 := by
    rw [UInt64.toNat_shiftRight, Nat.shiftRight_eq_div_pow]
    rfl
  have hmask : (csum &&& (0xffff : UInt64)).toNat = csum.toNat % 65536 := by
    rw [UInt64.toNat_and]
    exact Nat.and_two_pow_sub_one_eq_mod csum.toNat 16
  unfold csumFold fold
  by_cases h : csum.toNat / 65536 = 0
  · have hzero : csum >>> 16 = 0 := UInt64.toNat_inj.1 (hshift.trans h)
    rw [if_neg (not_not.2 hzero), if_pos h]
  · have hne : csum >>> 16 ≠ 0 := fun hzero => h (hshift.symm.trans (congrArg UInt64.toNat hzero))
    rw [if_pos hne, if_neg h, UInt64.toNat_add, hshift, hmask]
    exact Nat.mod_eq_of_lt (by omega)

/-- What the four rounds of the loop leave. -/
def csumFolds (csum : UInt64) : UInt64 := csumFold (csumFold (csumFold (csumFold csum)))

/-- Its loop is four of them. -/
theorem csumFolds_toNat (csum : UInt64) :
    (csumFolds csum).toNat = fold (fold (fold (fold csum.toNat))) := by
  rw [csumFolds, csumFold_toNat, csumFold_toNat, csumFold_toNat, csumFold_toNat]

/-- Four folds keep the sum modulo 65535. -/
theorem folds_modEq (c : ℕ) : fold (fold (fold (fold c))) ≡ c [MOD 65535] :=
  (fold_modEq _).trans ((fold_modEq _).trans ((fold_modEq _).trans (fold_modEq _)))

/-- And only zero folds to zero. -/
theorem folds_eq_zero_iff (csum : UInt64) :
    fold (fold (fold (fold csum.toNat))) = 0 ↔ csum = 0 := by
  rw [fold_eq_zero_iff, fold_eq_zero_iff, fold_eq_zero_iff, fold_eq_zero_iff,
    ← UInt64.toNat_inj]
  rfl

/-- The complement keeps what the rounds left, as that is 16 bits wide. -/
theorem toNat_complement {r : UInt64} (hr : r.toNat ≤ 65535) :
    (~~~ r).toUInt16.toNat = 65535 - r.toNat := by
  rw [UInt64.toNat_toUInt16, UInt64.toNat_not]
  have hsize : UInt64.size = 2 ^ 64 := rfl
  omega

/-- The helper returns the complement of the folded sum, for any 64 bits. -/
theorem csumFoldHelper_toNat (csum : UInt64) : ∃ r ≤ 65535, r ≡ csum.toNat [MOD 65535] ∧
    (r = 0 ↔ csum = 0) ∧ (csumFoldHelper csum).toNat = 65535 - r := by
  have hfour := fold_four_le csum.toNat_lt
  refine ⟨_, hfour, folds_modEq _, folds_eq_zero_iff csum, ?_⟩
  rw [← csumFolds_toNat] at hfour ⊢
  exact toNat_complement hfour

/-- **Four rounds fold every sum.**  What they leave has 16 bits, is the sum
modulo `65535` and 0 only if that is, and its complement is the result. -/
theorem csumFoldHelper_folds (csum : UInt64) :
    (csumFolds csum).toNat < 2 ^ 16 ∧ (csumFolds csum).toNat ≡ csum.toNat [MOD 65535] ∧
      (csumFolds csum = 0 ↔ csum = 0) ∧
      (csumFolds csum).toUInt16.toUInt64 = csumFolds csum ∧
      csumFoldHelper csum = ~~~ (csumFolds csum).toUInt16 ∧
      (csumFoldHelper csum).toNat = 65535 - (csumFolds csum).toNat := by
  have hr := csumFolds_toNat csum
  have hle : (csumFolds csum).toNat ≤ 65535 := hr ▸ fold_four_le csum.toNat_lt
  have hresult : (csumFoldHelper csum).toNat = 65535 - (csumFolds csum).toNat :=
    toNat_complement hle
  refine ⟨Nat.lt_succ_of_le hle, hr ▸ folds_modEq _, ?_, ?_, ?_, hresult⟩
  · rw [← folds_eq_zero_iff csum, ← hr, ← UInt64.toNat_inj]
    rfl
  · apply UInt64.toNat_inj.1
    rw [UInt16.toNat_toUInt64, UInt64.toNat_toUInt16]
    exact Nat.mod_eq_of_lt (Nat.lt_succ_of_le hle)
  · apply UInt16.toNat_inj.1
    rw [hresult, UInt16.toNat_not, UInt64.toNat_toUInt16]
    have hsize : UInt16.size = 2 ^ 16 := rfl
    omega

/-- Three rounds are not enough: the third can still carry. -/
example : (csumFold (csumFold (csumFold 0x100000000ffff))).toNat = 65536 := by
  decide

/-! ### The header through the edits -/

/-- The packet when the checksum is computed. -/
def beforeChecksum (ts : UInt64) (m : Memory) : Memory :=
  store (swapIp (swapMac (store m (payload + 8 + 8 * 1) 8 ts.toNat))) (ip + 10) 2 0

/-- The TTL and the protocol are those received. -/
theorem beforeChecksum_of_mem {b : ℕ} (hb : ip + 8 ≤ b) (hb' : b < ip + 10) :
    beforeChecksum ts m b = m b := by
  have hip : ip = 14 := rfl
  have hpayload : payload = 42 := rfl
  unfold beforeChecksum swapIp swapMac memcpy
  dsimp only
  rw [store_of_lt (by omega), store_of_lt (by omega), store_of_lt (by omega),
    if_neg (by omega), if_neg (by omega), store_of_lt (by omega)]

/-- What is stored after the checksum and the TTL is past the IP header. -/
theorem reflect_of_mem {b : ℕ} (hb : ip ≤ b) (hb' : b < ip + 20) :
    reflect bpfCsumDiff ts now m b = store (store (beforeChecksum ts m) (ip + 10) 2
      (csumFoldHelper (bpfCsumDiff (bytes (beforeChecksum ts m) ip 20) 0)).toNat)
      (ip + 8) 1 64 b := by
  have hip : ip = 14 := rfl
  have hudp : udp = 34 := rfl
  have hpayload : payload = 42 := rfl
  have hcheck (c : UInt16) : c.toUInt64.toUInt16 = c := by simp
  unfold reflect ipv4Csum
  rw [store_of_lt (by omega), store_of_lt (by omega), store_of_lt (by omega),
    store_of_lt (by omega), hcheck]
  rfl

/-- The checksum completes the sum of the words with the TTL received, and the
new TTL is stored over it. -/
theorem sum_wordsLe_reflect (hcsum : IsCsumDiff bpfCsumDiff) (ts now : UInt64) (m : Memory) :
    (wordsLe (reflect bpfCsumDiff ts now m) ip 10).sum + (m (ip + 8)).toNat ≡ 64 [MOD 65535] ∧
      64 + 256 * (m (ip + 9)).toNat ≤ (wordsLe (reflect bpfCsumDiff ts now m) ip 10).sum := by
  obtain ⟨r, hr, hfolded, -, hfold⟩ :=
    csumFoldHelper_toNat (bpfCsumDiff (bytes (beforeChecksum ts m) ip 20) 0)
  have hdiff : (bpfCsumDiff (bytes (beforeChecksum ts m) ip 20) 0).toNat ≡
      0 + (wordsLe (beforeChecksum ts m) ip 10).sum [MOD 65535] :=
    (hcsum (beforeChecksum ts m) ip 5 0).2
  have hwords : wordsLe (reflect bpfCsumDiff ts now m) ip 10 = wordsLe
      (store (store (beforeChecksum ts m) (ip + 10) 2 (65535 - r)) (ip + 8) 1 64) ip 10 :=
    wordsLe_congr fun i hi hi' => by rw [reflect_of_mem hi hi', hfold]
  rw [hwords]
  set m₁ := beforeChecksum ts m with hm₁
  set m₂ := store m₁ (ip + 10) 2 (65535 - r) with hm₂
  -- the checksum
  have hsum₂ : (wordsLe m₂ ip 10).sum + load m₁ (ip + 2 * 5) 2 =
      (wordsLe m₁ ip 10).sum + load m₂ (ip + 2 * 5) 2 :=
    sum_wordsLe_update (by decide) fun i hi hne => load_store_of_disjoint (by omega)
  have hzero : load m₁ (ip + 2 * 5) 2 = 0 := load_store
  have hcheck : load m₂ (ip + 2 * 5) 2 = 65535 - r := by
    rw [hm₂, load_store]
    omega
  -- the TTL
  have hsum₃ : (wordsLe (store m₂ (ip + 8) 1 64) ip 10).sum + load m₂ (ip + 2 * 4) 2 =
      (wordsLe m₂ ip 10).sum + load (store m₂ (ip + 8) 1 64) (ip + 2 * 4) 2 :=
    sum_wordsLe_update (by decide) fun i hi hne => load_store_of_disjoint (by omega)
  have hold : load m₂ (ip + 2 * 4) 2 = (m (ip + 8)).toNat + 256 * (m (ip + 9)).toNat := by
    rw [load_two, hm₂, store_of_lt (by omega), store_of_lt (by omega), hm₁,
      beforeChecksum_of_mem (by omega) (by omega), beforeChecksum_of_mem (by omega) (by omega)]
  have hnew : load (store m₂ (ip + 8) 1 64) (ip + 2 * 4) 2 = 64 + 256 * (m (ip + 9)).toNat := by
    rw [load_two, store_of_mem (by omega) (by omega), store_of_ge (by omega), hm₂,
      store_of_lt (by omega), hm₁, beforeChecksum_of_mem (by omega) (by omega)]
    rfl
  have hle := load_le_sum_wordsLe (m := store m₂ (ip + 8) 1 64) (a := ip) (k := 10) (j := 4)
    (by decide)
  rw [hzero, hcheck] at hsum₂
  rw [hold, hnew] at hsum₃
  rw [hnew] at hle
  refine ⟨?_, hle⟩
  unfold Nat.ModEq at hfolded hdiff ⊢
  omega

/-- An accepted packet is UDP, and the edits are made. -/
theorem xdpMain_of_tx
    (h : (xdpMain bpfCsumDiff .server ts now data dataEnd).1 = .tx) :
    (xdpMain bpfCsumDiff .server ts now data dataEnd).2 = reflect bpfCsumDiff ts now data ∧
      (data (ip + 9)).toNat = 17 := by
  unfold xdpMain at h ⊢
  split_ifs at h ⊢ with hsize hproto hvalid
  · rw [not_or, not_or] at hproto
    refine ⟨rfl, ?_⟩
    have hudp := not_not.1 hproto.2.1
    exact hudp

/-- **When the reflected header verifies.**  For every packet that the server
sends back, if and only if its TTL was 64. -/
theorem verifies_reflect_iff (hcsum : IsCsumDiff bpfCsumDiff)
    (htx : (xdpMain bpfCsumDiff .server ts now data dataEnd).1 = .tx) :
    Verifies (xdpMain bpfCsumDiff .server ts now data dataEnd).2 ip ↔
      (data (ip + 8)).toNat = 64 := by
  obtain ⟨hreflect, hudp⟩ := xdpMain_of_tx htx
  obtain ⟨hmod, hle⟩ := sum_wordsLe_reflect hcsum ts now data
  have hlt := (data (ip + 8)).toNat_lt
  rw [Verifies, hreflect, onesSum_wordsBe_iff]
  unfold Nat.ModEq at hmod
  omega

/-- The sum of the little-endian 32-bit words. -/
def sumWords32 : List UInt8 → ℕ
  | b₀ :: b₁ :: b₂ :: b₃ :: rest => b₀.toNat + 256 * b₁.toNat + 65536 * b₂.toNat +
      16777216 * b₃.toNat + sumWords32 rest
  | _ => 0

/-- The kernel's sum of 32-bit words with the carry added at the low end. -/
def csumPartial (bs : List UInt8) (seed : UInt32) : UInt64 :=
  UInt64.ofNat ((seed.toNat + sumWords32 bs) % (2 ^ 32 - 1))

/-- The sum of the 32-bit words is that of the 16-bit ones modulo 65535. -/
theorem sumWords32_modEq (m : Memory) (a k : ℕ) :
    sumWords32 (bytes m a (4 * k)) ≡ (wordsLe m a (2 * k)).sum [MOD 65535] := by
  induction k generalizing a with
  | zero => rfl
  | succ k ih =>
      have hrest : sumWords32 (bytes m (a + 1 + 1 + 1 + 1) (4 * k)) ≡
          (wordsLe m (a + 2 + 2) (2 * k)).sum [MOD 65535] := ih (a + 4)
      have h₂ : (m (a + 1 + 1)).toNat = (m (a + 2)).toNat := rfl
      have h₃ : (m (a + 1 + 1 + 1)).toNat = (m (a + 2 + 1)).toNat := rfl
      rw [show 4 * (k + 1) = 4 * k + 3 + 1 from rfl, bytes_succ, bytes_succ, bytes_succ,
        bytes_succ, sumWords32, show 2 * (k + 1) = 2 * k + 1 + 1 from rfl, wordsLe_succ,
        wordsLe_succ, List.sum_cons, List.sum_cons, load_two, load_two]
      unfold Nat.ModEq at hrest ⊢
      omega

/-- A function that does what is documented. -/
theorem isCsumDiff_csumPartial : IsCsumDiff csumPartial := by
  intro m a k seed
  have hmod := sumWords32_modEq m a k
  have hval : (csumPartial (bytes m a (4 * k)) seed).toNat =
      (seed.toNat + sumWords32 (bytes m a (4 * k))) % (2 ^ 32 - 1) := by
    unfold csumPartial
    rw [UInt64.toNat_ofNat']
    omega
  unfold Nat.ModEq at hmod ⊢
  rw [hval]
  omega

/-- A ping of 90 bytes with a TTL and the two bytes of its header checksum. -/
def pingPacket (ttl c c' : UInt8) : Memory := fun i =>
  ([2, 0, 0, 0, 0, 1, 2, 0, 0, 0, 0, 2, 8, 0,
    0x45, 0, 0, 76, 0, 0, 0, 0, ttl, 17, c, c', 10, 0, 0, 1, 10, 0, 0, 2,
    4, 0xd2, 4, 0xd2, 0, 56, 0, 0] ++ List.replicate 44 0 ++
    [0xef, 0xbe, 0xad, 0x8b]).getD i 0

/-- A ping with a TTL of 64. -/
theorem verifies_reflect_iff_ping :
    Verifies (xdpMain csumPartial .server 5 7 (pingPacket 64 0x66 0x9f) 90).2 ip :=
  (verifies_reflect_iff isCsumDiff_csumPartial (by decide +kernel)).2 (by decide)

/-- **A reflected header that does not verify.**  A ping that passed a router is
sent back. -/
theorem exists_not_verifies :
    Verifies (pingPacket 63 0x67 0x9f) ip ∧
      (xdpMain csumPartial .server 5 7 (pingPacket 63 0x67 0x9f) 90).1 = .tx ∧
      ¬ Verifies (xdpMain csumPartial .server 5 7 (pingPacket 63 0x67 0x9f) 90).2 ip := by
  decide +kernel

end Pure
end DetBypass
