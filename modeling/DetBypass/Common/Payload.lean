/-
# The pingpong payload

`common/common.h`: `struct pingpong_payload`, its magic number, its
constructor, `valid_pingpong_payload` and `compute_latency`, all fields at
their C widths (`__u64`, `__u32`).

The struct is packed: 48 bytes, six 8-byte words, the last one holding `phase`
in its low and `magic` in its high half on the little-endian machines the
programs run on.  `words` and `ofWords` are that layout, and `ofWords_words`
says it loses nothing, so a copy made word by word can be compared with the
payload it came from.
-/

import Mathlib.Algebra.GroupWithZero.Nat
import Mathlib.Data.Fin.VecNotation
import Mathlib.Data.Fintype.Pi
import Mathlib.Tactic.FinCases

namespace DetBypass

/-- The two builds of every program: CMake's `SERVER` flag. -/
inductive Build
  | server
  | client
deriving DecidableEq

/-- The four timestamps of a payload have literal indices. -/
instance neZero_four : NeZero (4 : ℕ) := ⟨by decide⟩

/-- So have its six words. -/
instance neZero_six : NeZero (6 : ℕ) := ⟨by decide⟩

/-- `PINGPONG_MAGIC`. -/
def pingpongMagic : UInt32 := 0x8badbeef

/-- `struct pingpong_payload`. -/
@[ext] structure PingpongPayload where
  id : UInt64
  ts : Fin 4 → UInt64
  phase : UInt32
  magic : UInt32
deriving DecidableEq

namespace PingpongPayload

/-- The bytes of a payload after `memset (…, 0, sizeof (struct pingpong_payload))`. -/
def zero : PingpongPayload := ⟨0, fun _ => 0, 0, 0⟩

/-- The store `payload->ts[i] = t`. -/
def setTs (p : PingpongPayload) (i : Fin 4) (t : UInt64) : PingpongPayload :=
  { p with ts := Function.update p.ts i t }

/-- A time stamp leaves the id. -/
theorem setTs_id (p : PingpongPayload) (i : Fin 4) (t : UInt64) :
    (p.setTs i t).id = p.id := rfl

/-- The time stamp that is set. -/
@[simp] theorem setTs_ts (p : PingpongPayload) (i : Fin 4) (t : UInt64) :
    (p.setTs i t).ts i = t :=
  Function.update_self ..

/-- The others are left. -/
theorem setTs_ts_ne {i j : Fin 4} (h : j ≠ i) (p : PingpongPayload) (t : UInt64) :
    (p.setTs i t).ts j = p.ts j :=
  Function.update_of_ne h ..

/-! ### The six words in memory -/

/-- `phase` and `magic` in one little-endian word. -/
def packWord (phase magic : UInt32) : UInt64 :=
  UInt64.ofNat (phase.toNat + 2 ^ 32 * magic.toNat)

/-- The `phase` half of the last word. -/
def wordPhase (w : UInt64) : UInt32 := UInt32.ofNat (w.toNat % 2 ^ 32)

/-- The `magic` half of the last word. -/
def wordMagic (w : UInt64) : UInt32 := UInt32.ofNat (w.toNat / 2 ^ 32)

/-- The phase in the last word. -/
@[simp] theorem wordPhase_packWord (phase magic : UInt32) :
    wordPhase (packWord phase magic) = phase := by
  have h₁ := phase.toNat_lt
  have h₂ := magic.toNat_lt
  apply UInt32.toNat_inj.1
  simp only [wordPhase, packWord, UInt64.toNat_ofNat', UInt32.toNat_ofNat']
  omega

/-- The magic in the last word. -/
@[simp] theorem wordMagic_packWord (phase magic : UInt32) :
    wordMagic (packWord phase magic) = magic := by
  have h₁ := phase.toNat_lt
  have h₂ := magic.toNat_lt
  apply UInt32.toNat_inj.1
  simp only [wordMagic, packWord, UInt64.toNat_ofNat', UInt32.toNat_ofNat']
  omega

/-- The six 8-byte words of the packed struct, in ascending address order. -/
def words (p : PingpongPayload) : Fin 6 → UInt64 :=
  ![p.id, p.ts 0, p.ts 1, p.ts 2, p.ts 3, packWord p.phase p.magic]

/-- The payload a 48-byte area holds. -/
def ofWords (w : Fin 6 → UInt64) : PingpongPayload :=
  ⟨w 0, ![w 1, w 2, w 3, w 4], wordPhase (w 5), wordMagic (w 5)⟩

/-- The last word holds the phase and the magic. -/
@[simp] theorem words_five (p : PingpongPayload) : p.words 5 = packWord p.phase p.magic := rfl

/-- The magic number is in the last word only. -/
theorem words_magic_ne (p : PingpongPayload) (magic : UInt32) {w : Fin 6} (hw : w ≠ 5) :
    words { p with magic := magic } w = p.words w := by
  fin_cases w <;> first | exact absurd rfl hw | simp [words]

/-- The layout loses nothing. -/
@[simp] theorem ofWords_words (p : PingpongPayload) : ofWords p.words = p := by
  refine PingpongPayload.ext rfl (funext fun i => ?_) (wordPhase_packWord p.phase p.magic)
    (wordMagic_packWord p.phase p.magic)
  fin_cases i <;> rfl

end PingpongPayload

/-- `new_pingpong_payload`. -/
def newPingpongPayload (id : UInt64) : PingpongPayload :=
  ⟨id, ![0, 0, 0, 0], 0, pingpongMagic⟩

/-- `valid_pingpong_payload`: the magic number matches. -/
def validPingpongPayload (p : PingpongPayload) : Bool :=
  p.magic == pingpongMagic

/-- The test looks at the magic alone. -/
theorem validPingpongPayload_iff {p : PingpongPayload} :
    validPingpongPayload p = true ↔ p.magic = pingpongMagic := by
  simp [validPingpongPayload]

/-- Zeroed memory is not valid. -/
@[simp] theorem validPingpongPayload_zero : validPingpongPayload .zero = false := rfl

/-- A new payload is. -/
@[simp] theorem validPingpongPayload_new (id : UInt64) :
    validPingpongPayload (newPingpongPayload id) = true := rfl

/-- `compute_latency`, in `__u64` arithmetic. -/
def computeLatency (p : PingpongPayload) : UInt64 :=
  ((p.ts 3 - p.ts 0) - (p.ts 2 - p.ts 1)) / 2

/-! ### The latest id -/

/-- What the loops of the clients keep: `max (current, payload->id)` over the
payloads so far. -/
def maxId (ps : List PingpongPayload) : UInt64 :=
  ps.foldl (fun current p => max current p.id) 0

/-- The greatest id, with one payload more. -/
theorem maxId_concat (ps : List PingpongPayload) (p : PingpongPayload) :
    maxId (ps ++ [p]) = max (maxId ps) p.id := by
  unfold maxId
  rw [List.foldl_append, List.foldl_cons, List.foldl_nil]

/-- The latest id is one of them, or zero. -/
theorem exists_id_eq_maxId (ps : List PingpongPayload) :
    maxId ps = 0 ∨ ∃ p ∈ ps, p.id = maxId ps := by
  induction ps using List.reverseRecOn with
  | nil => exact Or.inl rfl
  | append_singleton ps q ih =>
      rw [maxId_concat]
      show (if maxId ps ≤ q.id then q.id else maxId ps) = 0 ∨
        ∃ p ∈ ps ++ [q], p.id = if maxId ps ≤ q.id then q.id else maxId ps
      split_ifs
      · exact Or.inr ⟨q, List.mem_append_right _ (List.mem_singleton_self q), rfl⟩
      · refine ih.imp_right ?_
        rintro ⟨p, hp, hid⟩
        exact ⟨p, List.mem_append_left _ hp, hid⟩

/-- None of them is after it. -/
theorem le_maxId {ps : List PingpongPayload} {p : PingpongPayload} (hp : p ∈ ps) :
    p.id ≤ maxId ps := by
  induction ps using List.reverseRecOn with
  | nil => exact absurd hp List.not_mem_nil
  | append_singleton ps q ih =>
      rw [maxId_concat]
      show p.id ≤ if maxId ps ≤ q.id then q.id else maxId ps
      rw [List.mem_append, List.mem_singleton] at hp
      split_ifs with hle
      · rcases hp with hp | rfl
        · exact UInt64.le_trans (ih hp) hle
        · exact UInt64.le_refl _
      · rcases hp with hp | rfl
        · exact ih hp
        · exact UInt64.le_of_lt (UInt64.not_le.1 hle)

/-- A bound the latest id has reached was reached by a payload. -/
theorem exists_le_id {ps : List PingpongPayload} {n : UInt64} (hn : n ≠ 0) (h : n ≤ maxId ps) :
    ∃ p ∈ ps, n ≤ p.id := by
  rcases exists_id_eq_maxId ps with hzero | ⟨p, hp, hid⟩
  · rw [hzero, UInt64.le_iff_toNat_le] at h
    refine absurd (UInt64.toNat_inj.1 ?_) hn
    show n.toNat = 0
    exact Nat.le_zero.1 h
  · exact ⟨p, hp, hid ▸ h⟩

end DetBypass
