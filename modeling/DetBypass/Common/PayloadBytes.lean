/-
# The payload in memory

`struct pingpong_payload` as 48 bytes of a buffer: `id` at 0, `ts[i]` at
`8 + 8 * i`, `phase` at 40 and `magic` at 44.  `readPayload` is the payload that a
memory holds; `readPayload_eq_iff` gives its fields.  A store to one field changes
that field (`readPayload_store_ts`, `readPayload_store_phase`), a payload that was
stored or copied is read back (`readPayload_storePayload`, `readPayload_memcpy`),
and bytes outside do not matter (`readPayload_congr`).
-/

import DetBypass.Common.Payload
import DetBypass.Lib.Memory

namespace DetBypass

open Lib Memory

/-- The payload a memory holds at `a`. -/
def readPayload (m : Memory) (a : ℕ) : PingpongPayload :=
  .ofWords fun w => UInt64.ofNat (load m (a + 8 * w) 8)

/-- The assignment `*payload = p` at `a`. -/
def storePayload (m : Memory) (a : ℕ) (p : PingpongPayload) : Memory :=
  let m := store m a 8 p.id.toNat
  let m := store m (a + 8 + 8 * 0) 8 (p.ts 0).toNat
  let m := store m (a + 8 + 8 * 1) 8 (p.ts 1).toNat
  let m := store m (a + 8 + 8 * 2) 8 (p.ts 2).toNat
  let m := store m (a + 8 + 8 * 3) 8 (p.ts 3).toNat
  let m := store m (a + 40) 4 p.phase.toNat
  store m (a + 44) 4 p.magic.toNat

variable {m m' : Memory} {a b : ℕ} {p : PingpongPayload}

/-- Eight bytes fit a `uint64_t`. -/
theorem toNat_word (m : Memory) (a : ℕ) : (UInt64.ofNat (load m a 8)).toNat = load m a 8 := by
  rw [UInt64.toNat_ofNat']
  exact Nat.mod_eq_of_lt (load_lt m a 8)

/-! ### The fields -/

/-- The id is in the first eight bytes. -/
theorem readPayload_id (m : Memory) (a : ℕ) : (readPayload m a).id.toNat = load m a 8 :=
  toNat_word m a

/-- The time stamps are in the 32 after it. -/
theorem readPayload_ts (m : Memory) (a : ℕ) (i : Fin 4) :
    ((readPayload m a).ts i).toNat = load m (a + 8 + 8 * i) 8 := by
  have hword : (readPayload m a).ts i = UInt64.ofNat (load m (a + 8 * (1 + i)) 8) := by
    fin_cases i <;> rfl
  rw [hword, toNat_word, Nat.mul_add, Nat.mul_one, Nat.add_assoc]

/-- The last word holds `phase` and `magic`. -/
theorem load_last (m : Memory) (a : ℕ) :
    load m (a + 40) 8 = load m (a + 40) 4 + 2 ^ 32 * load m (a + 44) 4 :=
  load_add m (a + 40) 4 4

/-- The phase is at 40. -/
theorem readPayload_phase (m : Memory) (a : ℕ) :
    (readPayload m a).phase.toNat = load m (a + 40) 4 := by
  have hlow : load m (a + 40) 4 < 2 ^ 32 := load_lt m (a + 40) 4
  show (UInt32.ofNat ((UInt64.ofNat (load m (a + 40) 8)).toNat % 2 ^ 32)).toNat = _
  rw [UInt32.toNat_ofNat', toNat_word, load_last]
  omega

/-- The magic is at 44. -/
theorem readPayload_magic (m : Memory) (a : ℕ) :
    (readPayload m a).magic.toNat = load m (a + 44) 4 := by
  have hlow : load m (a + 40) 4 < 2 ^ 32 := load_lt m (a + 40) 4
  have hhigh : load m (a + 44) 4 < 2 ^ 32 := load_lt m (a + 44) 4
  show (UInt32.ofNat ((UInt64.ofNat (load m (a + 40) 8)).toNat / 2 ^ 32)).toNat = _
  rw [UInt32.toNat_ofNat', toNat_word, load_last]
  omega

/-- **The payload in memory**, field by field. -/
theorem readPayload_eq_iff : readPayload m a = p ↔
    load m a 8 = p.id.toNat ∧ (∀ i : Fin 4, load m (a + 8 + 8 * i) 8 = (p.ts i).toNat) ∧
      load m (a + 40) 4 = p.phase.toNat ∧ load m (a + 44) 4 = p.magic.toNat := by
  rw [← readPayload_id, ← readPayload_phase, ← readPayload_magic]
  simp only [← readPayload_ts]
  constructor
  · rintro rfl
    exact ⟨rfl, fun _ => rfl, rfl, rfl⟩
  · rintro ⟨hid, hts, hphase, hmagic⟩
    exact PingpongPayload.ext (UInt64.toNat_inj.1 hid)
      (funext fun i => UInt64.toNat_inj.1 (hts i)) (UInt32.toNat_inj.1 hphase)
      (UInt32.toNat_inj.1 hmagic)

/-- Only its 48 bytes matter. -/
theorem readPayload_congr (h : ∀ i < 48, m (a + i) = m' (b + i)) :
    readPayload m a = readPayload m' b := by
  have hload : ∀ k n, k + n ≤ 48 → load m (a + k) n = load m' (b + k) n := fun k n hk =>
    load_shift fun i hi => by rw [Nat.add_assoc, Nat.add_assoc, h (k + i) (by omega)]
  refine readPayload_eq_iff.2 ⟨?_, fun i => ?_, ?_, ?_⟩
  · rw [readPayload_id]
    exact hload 0 8 (by decide)
  · have hi := i.isLt
    rw [readPayload_ts, Nat.add_assoc, Nat.add_assoc]
    exact hload _ 8 (by omega)
  · rw [readPayload_phase]
    exact hload 40 4 (by decide)
  · rw [readPayload_magic]
    exact hload 44 4 (by decide)

/-! ### Stores -/

/-- `payload->ts[i] = t`. -/
theorem readPayload_store_ts (m : Memory) (a : ℕ) (i : Fin 4) (t : UInt64) :
    readPayload (store m (a + 8 + 8 * i) 8 t.toNat) a = (readPayload m a).setTs i t := by
  have hi := i.isLt
  refine readPayload_eq_iff.2 ⟨?_, fun j => ?_, ?_, ?_⟩
  · rw [load_store_of_disjoint (by omega)]
    exact (readPayload_id m a).symm
  · by_cases hj : j = i
    · subst hj
      rw [load_store, PingpongPayload.setTs_ts]
      exact Nat.mod_eq_of_lt t.toNat_lt
    · have hne : (j : ℕ) ≠ i := fun he => hj (Fin.ext he)
      rw [load_store_of_disjoint (by omega), PingpongPayload.setTs_ts_ne hj]
      exact (readPayload_ts m a j).symm
  · rw [load_store_of_disjoint (by omega)]
    exact (readPayload_phase m a).symm
  · rw [load_store_of_disjoint (by omega)]
    exact (readPayload_magic m a).symm

/-- A store to the last word leaves the others. -/
theorem readPayload_store_last {n v : ℕ} (h : a + 40 ≤ b) :
    (readPayload (store m b n v) a).id = (readPayload m a).id ∧
      (readPayload (store m b n v) a).ts = (readPayload m a).ts := by
  refine ⟨UInt64.toNat_inj.1 ?_, funext fun i => UInt64.toNat_inj.1 ?_⟩
  · rw [readPayload_id, readPayload_id, load_store_of_disjoint (by omega)]
  · have hi := i.isLt
    rw [readPayload_ts, readPayload_ts, load_store_of_disjoint (by omega)]

/-- `payload->phase = phase`. -/
theorem readPayload_store_phase (m : Memory) (a : ℕ) (phase : UInt32) :
    readPayload (store m (a + 40) 4 phase.toNat) a = { readPayload m a with phase } := by
  obtain ⟨hid, hts⟩ := readPayload_store_last (Nat.le_refl (a + 40))
  refine PingpongPayload.ext hid hts (UInt32.toNat_inj.1 ?_) (UInt32.toNat_inj.1 ?_)
  · rw [readPayload_phase, load_store]
    exact Nat.mod_eq_of_lt phase.toNat_lt
  · rw [readPayload_magic, load_store_of_disjoint (by omega)]
    exact (readPayload_magic m a).symm

/-- `payload->magic = magic`. -/
theorem readPayload_store_magic (m : Memory) (a : ℕ) (magic : UInt32) :
    readPayload (store m (a + 44) 4 magic.toNat) a = { readPayload m a with magic } := by
  obtain ⟨hid, hts⟩ := readPayload_store_last (Nat.add_le_add_left (by decide : 40 ≤ 44) a)
  refine PingpongPayload.ext hid hts (UInt32.toNat_inj.1 ?_) (UInt32.toNat_inj.1 ?_)
  · rw [readPayload_phase, load_store_of_disjoint (by omega)]
    exact (readPayload_phase m a).symm
  · rw [readPayload_magic, load_store]
    exact Nat.mod_eq_of_lt magic.toNat_lt

/-- **A stored payload is read back**, whatever the bytes were. -/
@[simp] theorem readPayload_storePayload (m : Memory) (a : ℕ) (p : PingpongPayload) :
    readPayload (storePayload m a p) a = p := by
  have h64 (v : UInt64) : v.toNat % 256 ^ 8 = v.toNat := Nat.mod_eq_of_lt v.toNat_lt
  have h32 (v : UInt32) : v.toNat % 256 ^ 4 = v.toNat := Nat.mod_eq_of_lt v.toNat_lt
  -- each field is stored once, and the later stores are elsewhere
  refine readPayload_eq_iff.2 ⟨?_, fun i => ?_, ?_, ?_⟩
  · simp (disch := omega) only [storePayload, load_store_of_disjoint, load_store, h64]
  · rcases i with ⟨_ | _ | _ | _ | i, hi⟩
    · simp (disch := omega) only [storePayload, load_store_of_disjoint, load_store, h64]
      rfl
    · simp (disch := omega) only [storePayload, load_store_of_disjoint, load_store, h64]
      rfl
    · simp (disch := omega) only [storePayload, load_store_of_disjoint, load_store, h64]
      rfl
    · simp (disch := omega) only [storePayload, load_store_of_disjoint, load_store, h64]
      rfl
    · omega
  · simp (disch := omega) only [storePayload, load_store_of_disjoint, load_store, h32]
  · simp only [storePayload, load_store, h32]

/-- Outside its 48 bytes nothing is stored. -/
theorem storePayload_of_lt {i : ℕ} (h : i < a) : storePayload m a p i = m i := by
  unfold storePayload
  rw [store_of_lt (by omega), store_of_lt (by omega), store_of_lt (by omega),
    store_of_lt (by omega), store_of_lt (by omega), store_of_lt (by omega), store_of_lt h]

/-- **A copied payload is read back.** -/
theorem readPayload_memcpy (m m' : Memory) (a b : ℕ) :
    readPayload (memcpy m a m' b 48) a = readPayload m' b :=
  readPayload_congr fun i hi => by
    rw [memcpy_of_mem (by omega) (by omega), Nat.add_sub_cancel_left]

end DetBypass
