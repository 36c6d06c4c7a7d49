/-
# Bytes in memory

A memory holds a byte at every address.  A word of `n` bytes is loaded and stored
with its low byte first.  What a load returns depends on the bytes it reads only
(`load_congr`), so a store elsewhere does not change it, and a load of a word
that was just stored returns it (`load_store`).  `chain` follows records of which
each says where the next one begins.
-/

import Mathlib.Algebra.Order.Group.Nat

namespace DetBypass
namespace Lib

/-- A byte at every address. -/
abbrev Memory := ℕ → UInt8

namespace Memory

variable {m m' : Memory} {a b n k v : ℕ}

/-- The little-endian word of `n` bytes at `a`. -/
def load (m : Memory) (a : ℕ) : ℕ → ℕ
  | 0 => 0
  | n + 1 => (m a).toNat + 256 * load m (a + 1) n

/-- Store the low `n` bytes of `v` at `a`. -/
def store (m : Memory) (a n v : ℕ) : Memory := fun i =>
  if a ≤ i ∧ i < a + n then UInt8.ofNat (v / 256 ^ (i - a)) else m i

/-- Copy `n` bytes of `m'` from `src` on to `dst`. -/
def memcpy (m : Memory) (dst : ℕ) (m' : Memory) (src n : ℕ) : Memory := fun i =>
  if dst ≤ i ∧ i < dst + n then m' (src + (i - dst)) else m i

/-- The `n` bytes from `a` on. -/
def bytes (m : Memory) (a n : ℕ) : List UInt8 :=
  (List.range n).map fun i => m (a + i)

/-- The first byte and the rest. -/
theorem bytes_succ (m : Memory) (a n : ℕ) : bytes m a (n + 1) = m a :: bytes m (a + 1) n := by
  simp only [bytes, List.range_succ_eq_map, List.map_cons, List.map_map, Nat.add_zero]
  exact congrArg _ (List.map_congr_left fun i _ => congrArg m (Nat.add_right_comm a i 1))

/-- A store leaves what is below it. -/
theorem store_of_lt (h : b < a) : store m a n v b = m b :=
  if_neg (by omega)

/-- And what is above it. -/
theorem store_of_ge (h : a + n ≤ b) : store m a n v b = m b :=
  if_neg (by omega)

/-- A store leaves every byte but its own. -/
theorem store_of_not_mem (h : ¬ (a ≤ b ∧ b < a + n)) : store m a n v b = m b :=
  if_neg h

/-- These are the bytes of the value, the low ones first. -/
theorem store_of_mem (h : a ≤ b) (h' : b < a + n) :
    store m a n v b = UInt8.ofNat (v / 256 ^ (b - a)) :=
  if_pos ⟨h, h'⟩

/-- A load depends on the bytes it reads. -/
theorem load_congr (h : ∀ i, a ≤ i → i < a + n → m i = m' i) : load m a n = load m' a n := by
  induction n generalizing a with
  | zero => rfl
  | succ n ih =>
      rw [load, load, h a (Nat.le_refl a) (by omega),
        ih fun i hi hi' => h i (by omega) (by omega)]

/-- The same bytes at another address. -/
theorem load_shift (h : ∀ i < n, m (a + i) = m' (b + i)) : load m a n = load m' b n := by
  induction n generalizing a b with
  | zero => rfl
  | succ n ih =>
      have hfirst : m a = m' b := h 0 (Nat.succ_pos n)
      rw [load, load, hfirst, ih fun i hi => ?_]
      rw [Nat.add_right_comm, Nat.add_assoc, h (i + 1) (by omega), Nat.add_right_comm b,
        Nat.add_assoc b]

/-- A store elsewhere. -/
theorem load_store_of_disjoint (h : a + n ≤ b ∨ b + k ≤ a) :
    load (store m b k v) a n = load m a n :=
  load_congr fun i hi hi' => if_neg (by omega)

/-- **A stored word is read back.** -/
theorem load_store : load (store m a n v) a n = v % 256 ^ n := by
  induction n generalizing m a v with
  | zero => exact (Nat.mod_one v).symm
  | succ n ih =>
      -- the other bytes are those of the quotient
      have hrest : load (store m a (n + 1) v) (a + 1) n =
          load (store m (a + 1) n (v / 256)) (a + 1) n := by
        refine load_congr fun i hi hi' => ?_
        rw [store_of_mem (by omega) (by omega), store_of_mem hi hi', Nat.div_div_eq_div_mul,
          ← Nat.pow_succ', show (i - (a + 1)).succ = i - a by omega]
      have hbyte : (store m a (n + 1) v a).toNat = v % 256 := by
        rw [store_of_mem (Nat.le_refl a) (by omega), Nat.sub_self, Nat.pow_zero, Nat.div_one]
        exact UInt8.toNat_ofNat'
      rw [load, hrest, ih, hbyte, Nat.pow_succ', ← Nat.mod_mul]

/-- `n` bytes give a number below `256^n`. -/
theorem load_lt (m : Memory) (a n : ℕ) : load m a n < 256 ^ n := by
  induction n generalizing a with
  | zero => exact Nat.one_pos
  | succ n ih =>
      have hbyte := (m a).toNat_lt
      have hrest := ih (a + 1)
      rw [load, Nat.pow_succ']
      omega

/-- A word is its low and its high part. -/
theorem load_add (m : Memory) (a n k : ℕ) :
    load m a (n + k) = load m a n + 256 ^ n * load m (a + n) k := by
  induction n generalizing a with
  | zero => rw [Nat.zero_add, load, Nat.pow_zero, Nat.one_mul, Nat.zero_add, Nat.add_zero]
  | succ n ih =>
      rw [Nat.add_right_comm, load, ih, load, Nat.add_assoc a 1 n, Nat.add_comm 1 n,
        Nat.pow_succ', Nat.mul_add, ← Nat.mul_assoc, Nat.add_assoc]

/-- A byte of a word. -/
theorem ofNat_load_div (h : k < n) : UInt8.ofNat (load m a n / 256 ^ k) = m (a + k) := by
  induction k generalizing a n with
  | zero =>
      obtain ⟨n, rfl⟩ := Nat.exists_eq_succ_of_ne_zero (Nat.ne_of_gt h)
      rw [Nat.pow_zero, Nat.div_one, Nat.add_zero, load, ← UInt8.toNat_inj, UInt8.toNat_ofNat']
      have hbyte := (m a).toNat_lt
      omega
  | succ k ih =>
      obtain ⟨n, rfl⟩ := Nat.exists_eq_succ_of_ne_zero (Nat.ne_of_gt (Nat.zero_lt_of_lt h))
      have hbyte := (m a).toNat_lt
      rw [load, Nat.pow_succ', ← Nat.div_div_eq_div_mul,
        show ((m a).toNat + 256 * load m (a + 1) n) / 256 = load m (a + 1) n by omega,
        ih (Nat.lt_of_succ_lt_succ h), Nat.add_right_comm, Nat.add_assoc]

/-! ### Copies -/

/-- A byte that is copied. -/
theorem memcpy_of_mem (h : b ≤ a) (h' : a < b + n) :
    memcpy m b m' k n a = m' (k + (a - b)) :=
  if_pos ⟨h, h'⟩

/-- Below the copy nothing changes. -/
theorem memcpy_of_lt (h : a < b) : memcpy m b m' k n a = m a :=
  if_neg (by omega)

/-- Nor above it. -/
theorem memcpy_of_ge (h : b + n ≤ a) : memcpy m b m' k n a = m a :=
  if_neg (by omega)

/-- A word loaded and stored is copied. -/
theorem store_load (m m' : Memory) (a b n : ℕ) :
    store m a n (load m' b n) = memcpy m a m' b n := by
  funext i
  unfold store memcpy
  split_ifs with hi
  · exact ofNat_load_div (by omega)
  · rfl

end Memory

/-! ### Records one after another -/

/-- The records from the one at `a` on, when `next` is where the one after begins. -/
def chain (next : ℕ → Option ℕ) (stop : ℕ) (hnext : ∀ a b, next a = some b → a < b ∧ b ≤ stop)
    (a : ℕ) : List ℕ :=
  match _hb : next a with
  | some b => a :: chain next stop hnext b
  | none => [a]
termination_by stop - a
decreasing_by
  obtain ⟨hlt, hle⟩ := hnext a b _hb
  omega

variable {next : ℕ → Option ℕ} {stop a b : ℕ}
  {hnext : ∀ a b, next a = some b → a < b ∧ b ≤ stop}

/-- The chain goes on. -/
theorem chain_of_some (h : next a = some b) :
    chain next stop hnext a = a :: chain next stop hnext b := by
  rw [chain]
  split
  · rename_i b' h'
    rw [Option.some.inj (h'.symm.trans h)]
  · rename_i h'
    cases h'.symm.trans h

/-- The chain ends. -/
theorem chain_of_none (h : next a = none) : chain next stop hnext a = [a] := by
  rw [chain]
  split
  · rename_i b' h'
    cases h'.symm.trans h
  · rfl

end Lib
end DetBypass
