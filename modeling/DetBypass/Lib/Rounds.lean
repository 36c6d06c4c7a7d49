/-
# Rounds between two clocks

A client sends numbered pings and a server sends them back, over a network that
may lose, repeat and reorder what is on its way.  Each host reads its own clock
twice in a round: the client when it makes the ping and when it takes the reply,
the server when the ping arrives and when it answers.  `Rounds` says what a
program does with its messages; the readings are whatever its clocks show at the
time of the step, and the time only goes forward.

The times of a message are history, which no program reads.  In every run each
record is what the program makes of the readings at its four times, which are in
order (`completed_of_reachable`), and a network that repeats nothing yields no
two records of one ping (`nodup_of_reachable`).  Clocks that count nanoseconds
from different origins and wrap cancel in the difference of the two differences
(`clock_round`).
-/

import DetBypass.Lib.Transition
import Mathlib.Algebra.Order.Group.Multiset
import Mathlib.Data.List.Perm.Basic
import Mathlib.Tactic.Abel
import Mathlib.Tactic.GCongr

namespace DetBypass
namespace Lib

/-! ### Clocks -/

/-- A clock that showed `origin` at the time 0 and counts nanoseconds in 64 bits. -/
def clock (origin time : ℕ) : UInt64 := UInt64.ofNat (origin + time)

variable {origin origin' t₀ t₁ t₂ t₃ : ℕ}

/-- A reading of a clock that has not wrapped. -/
theorem clock_toNat (h : origin + t₀ < 2 ^ 64) : (clock origin t₀).toNat = origin + t₀ := by
  rw [clock, UInt64.toNat_ofNat']
  exact Nat.mod_eq_of_lt h

/-- Two readings of one clock. -/
theorem clock_sub (origin : ℕ) (h : t₀ ≤ t₁) :
    clock origin t₁ - clock origin t₀ = UInt64.ofNat (t₁ - t₀) := by
  apply UInt64.toNat_inj.1
  simp only [clock, UInt64.toNat_sub, UInt64.toNat_ofNat']
  omega

/-- **The origins cancel**, whether or not the clocks wrap in between. -/
theorem clock_round (origin origin' : ℕ) (h₀₁ : t₀ ≤ t₁) (h₁₂ : t₁ ≤ t₂) (h₂₃ : t₂ ≤ t₃) :
    (clock origin t₃ - clock origin t₀) - (clock origin' t₂ - clock origin' t₁) =
      UInt64.ofNat ((t₁ - t₀) + (t₃ - t₂)) := by
  rw [clock_sub origin (by omega), clock_sub origin' h₁₂]
  apply UInt64.toNat_inj.1
  simp only [UInt64.toNat_sub, UInt64.toNat_ofNat']
  omega

/-! ### Programs -/

/-- What a program does with its messages: the ping for a number and a reading,
the answer to a message and two readings, and the record of a message and a
reading; `none` where a message is dropped. -/
structure Rounds (R M P : Type*) where
  ping : ℕ → R → M
  pong : M → R → R → Option M
  take : M → R → Option P

/-- A message or a record, the number of its ping, and the times of the readings
in it so far. -/
structure Trip (X : Type*) where
  id : ℕ
  val : X
  t₀ : ℕ
  t₁ : ℕ
  t₂ : ℕ
  t₃ : ℕ

namespace Rounds

variable {R M P : Type*}

/-- The time, the next ping, the messages on the way to the server, those it
holds, the answers on the way back, and the records. -/
structure State (M P : Type*) where
  now : ℕ
  next : ℕ
  there : List (Trip M)
  held : List (Trip M)
  back : List (Trip M)
  records : List (Trip P)

/-- One scheduler choice; a number is a place in a list.  `arrive` and `take` with
`again` keep a copy on the way. -/
inductive Action
  | wait (d : ℕ)
  | ping
  | arrive (k : ℕ) (again : Bool)
  | pong (k : ℕ)
  | take (k : ℕ) (again : Bool)
  | loseThere (k : ℕ)
  | loseBack (k : ℕ)

/-- What is left on the way. -/
def rest {X : Type*} (l : List X) (k : ℕ) (again : Bool) : List X :=
  if again then l else l.eraseIdx k

/-- One step of a host, of the network or of the time. -/
def step (r : Rounds R M P) (client server : ℕ → R) (iters : ℕ) (s : State M P) :
    Action → Option (State M P)
  | .wait d => some { s with now := s.now + d }
  | .ping =>
    if s.next ≤ iters then
      some { s with
        next := s.next + 1
        there := s.there ++ [⟨s.next, r.ping s.next (client s.now), s.now, 0, 0, 0⟩] }
    else none
  | .arrive k again =>
    match s.there[k]? with
    | some x => some { s with
        there := rest s.there k again
        held := s.held ++ [{ x with t₁ := s.now }] }
    | none => none
  | .pong k =>
    match s.held[k]? with
    | some x => some { s with
        held := s.held.eraseIdx k
        back := s.back ++ ((r.pong x.val (server x.t₁) (server s.now)).map fun m =>
          ({ x with val := m, t₂ := s.now } : Trip M)).toList }
    | none => none
  | .take k again =>
    match s.back[k]? with
    | some x => some { s with
        back := rest s.back k again
        records := s.records ++ ((r.take x.val (client s.now)).map fun p =>
          (⟨x.id, p, x.t₀, x.t₁, x.t₂, s.now⟩ : Trip P)).toList }
    | none => none
  | .loseThere k => if k < s.there.length then some { s with there := s.there.eraseIdx k } else none
  | .loseBack k => if k < s.back.length then some { s with back := s.back.eraseIdx k } else none

/-- Nothing sent, at the time 0. -/
def initial : State M P := ⟨0, 1, [], [], [], []⟩

/-- The runs of a program with two clocks, for a number of pings. -/
def system (r : Rounds R M P) (client server : ℕ → R) (iters : ℕ) : System (State M P) Action :=
  ⟨initial, r.step client server iters⟩

/-- The network repeats nothing. -/
def NoRepeat (_ : State M P) : Action → Prop
  | .arrive _ again => again = false
  | .take _ again => again = false
  | _ => True

instance (s : State M P) (a : Action) : Decidable (NoRepeat s a) :=
  match a with
  | .arrive _ again => inferInstanceAs (Decidable (again = false))
  | .take _ again => inferInstanceAs (Decidable (again = false))
  | .wait _ | .ping | .pong _ | .loseThere _ | .loseBack _ => inferInstanceAs (Decidable True)

variable {r : Rounds R M P} {client server : ℕ → R} {iters : ℕ} {s t : State M P} {a : Action}

/-! ### The times of a round -/

/-- A record of a whole round. -/
structure Completed (r : Rounds R M P) (client server : ℕ → R) (x : Trip P) : Prop where
  there : x.t₀ ≤ x.t₁
  turn : x.t₁ ≤ x.t₂
  back : x.t₂ ≤ x.t₃
  exists_pong : ∃ m, r.pong (r.ping x.id (client x.t₀)) (server x.t₁) (server x.t₂) = some m ∧
    r.take m (client x.t₃) = some x.val

/-- Where a message stands in its round. -/
structure Consistent (r : Rounds R M P) (client server : ℕ → R) (iters : ℕ) (s : State M P) :
    Prop where
  next : 1 ≤ s.next ∧ s.next ≤ iters + 1
  there : ∀ x ∈ s.there, (1 ≤ x.id ∧ x.id < s.next) ∧ x.val = r.ping x.id (client x.t₀) ∧
    x.t₀ ≤ s.now
  held : ∀ x ∈ s.held, (1 ≤ x.id ∧ x.id < s.next) ∧ x.val = r.ping x.id (client x.t₀) ∧
    x.t₀ ≤ x.t₁ ∧ x.t₁ ≤ s.now
  back : ∀ x ∈ s.back, (1 ≤ x.id ∧ x.id < s.next) ∧
    r.pong (r.ping x.id (client x.t₀)) (server x.t₁) (server x.t₂) = some x.val ∧
    x.t₀ ≤ x.t₁ ∧ x.t₁ ≤ x.t₂ ∧ x.t₂ ≤ s.now
  records : ∀ x ∈ s.records, (1 ≤ x.id ∧ x.id < s.next) ∧ r.Completed client server x ∧
    x.t₃ ≤ s.now

/-- What is left was there. -/
theorem mem_of_mem_rest {X : Type*} {l : List X} {k : ℕ} {again : Bool} {x : X}
    (h : x ∈ rest l k again) : x ∈ l := by
  unfold rest at h
  split_ifs at h
  · exact h
  · exact List.mem_of_mem_eraseIdx h

/-- **A step keeps every message in its round.** -/
theorem Consistent.step (h : r.Consistent client server iters s)
    (hstep : r.step client server iters s a = some t) :
    r.Consistent client server iters t := by
  cases a with
  | wait d =>
      cases hstep
      refine ⟨h.next, fun x hx => ?_, fun x hx => ?_, fun x hx => ?_, fun x hx => ?_⟩
      · obtain ⟨hid, hval, hle⟩ := h.there x hx
        exact ⟨hid, hval, Nat.le_add_right_of_le hle⟩
      · obtain ⟨hid, hval, h₀₁, hle⟩ := h.held x hx
        exact ⟨hid, hval, h₀₁, Nat.le_add_right_of_le hle⟩
      · obtain ⟨hid, hval, h₀₁, h₁₂, hle⟩ := h.back x hx
        exact ⟨hid, hval, h₀₁, h₁₂, Nat.le_add_right_of_le hle⟩
      · obtain ⟨hid, hval, hle⟩ := h.records x hx
        exact ⟨hid, hval, Nat.le_add_right_of_le hle⟩
  | ping =>
      simp only [Rounds.step] at hstep
      split at hstep <;> cases hstep
      rename_i hiters
      have hnext := h.next
      refine ⟨by dsimp only; omega, fun x hx => ?_, fun x hx => ?_, fun x hx => ?_, fun x hx => ?_⟩
      · rcases List.mem_append.1 hx with hx | hx
        · obtain ⟨hid, hval, hle⟩ := h.there x hx
          exact ⟨⟨hid.1, Nat.lt_succ_of_lt hid.2⟩, hval, hle⟩
        · rw [List.mem_singleton.1 hx]
          exact ⟨⟨hnext.1, Nat.lt_succ_self _⟩, rfl, Nat.le_refl _⟩
      · obtain ⟨hid, hheld⟩ := h.held x hx
        exact ⟨⟨hid.1, Nat.lt_succ_of_lt hid.2⟩, hheld⟩
      · obtain ⟨hid, hback⟩ := h.back x hx
        exact ⟨⟨hid.1, Nat.lt_succ_of_lt hid.2⟩, hback⟩
      · obtain ⟨hid, hrecord⟩ := h.records x hx
        exact ⟨⟨hid.1, Nat.lt_succ_of_lt hid.2⟩, hrecord⟩
  | arrive k again =>
      simp only [Rounds.step] at hstep
      split at hstep <;> cases hstep
      rename_i x hx
      refine ⟨h.next, fun y hy => h.there y (mem_of_mem_rest hy), fun y hy => ?_, h.back,
        h.records⟩
      rcases List.mem_append.1 hy with hy | hy
      · exact h.held y hy
      · obtain ⟨hid, hval, hle⟩ := h.there x (List.mem_of_getElem? hx)
        rw [List.mem_singleton.1 hy]
        exact ⟨hid, hval, hle, Nat.le_refl _⟩
  | pong k =>
      simp only [Rounds.step] at hstep
      split at hstep <;> cases hstep
      rename_i x hx
      refine ⟨h.next, h.there, fun y hy => h.held y (List.mem_of_mem_eraseIdx hy), fun y hy => ?_,
        h.records⟩
      rcases List.mem_append.1 hy with hy | hy
      · exact h.back y hy
      · obtain ⟨hid, hval, h₀₁, hle⟩ := h.held x (List.mem_of_getElem? hx)
        obtain ⟨m, hm, rfl⟩ := Option.map_eq_some_iff.1 (Option.mem_toList.1 hy)
        rw [hval] at hm
        exact ⟨hid, hm, h₀₁, hle, Nat.le_refl _⟩
  | take k again =>
      simp only [Rounds.step] at hstep
      split at hstep <;> cases hstep
      rename_i x hx
      refine ⟨h.next, h.there, h.held, fun y hy => h.back y (mem_of_mem_rest hy), fun y hy => ?_⟩
      rcases List.mem_append.1 hy with hy | hy
      · exact h.records y hy
      · obtain ⟨hid, hpong, h₀₁, h₁₂, hle⟩ := h.back x (List.mem_of_getElem? hx)
        obtain ⟨p, hp, rfl⟩ := Option.map_eq_some_iff.1 (Option.mem_toList.1 hy)
        exact ⟨hid, ⟨h₀₁, h₁₂, hle, x.val, hpong, hp⟩, Nat.le_refl _⟩
  | loseThere k =>
      simp only [Rounds.step] at hstep
      split at hstep <;> cases hstep
      exact ⟨h.next, fun x hx => h.there x (List.mem_of_mem_eraseIdx hx), h.held, h.back,
        h.records⟩
  | loseBack k =>
      simp only [Rounds.step] at hstep
      split at hstep <;> cases hstep
      exact ⟨h.next, h.there, h.held, fun x hx => h.back x (List.mem_of_mem_eraseIdx hx),
        h.records⟩

/-- Before the first step there is nothing to agree with. -/
theorem consistent_initial : r.Consistent client server iters initial :=
  ⟨⟨Nat.le_refl 1, Nat.le_add_left 1 iters⟩, List.forall_mem_nil _, List.forall_mem_nil _,
    List.forall_mem_nil _, List.forall_mem_nil _⟩

/-- **In every run** the messages are in their rounds. -/
theorem consistent_of_reachable (h : (r.system client server iters).Reachable s) :
    r.Consistent client server iters s :=
  System.Invariant.holds ⟨consistent_initial, fun h _ hstep => h.step hstep⟩ h

/-- **A record is that of a whole round** of one of the pings. -/
theorem completed_of_reachable (h : (r.system client server iters).Reachable s) {x : Trip P}
    (hx : x ∈ s.records) :
    (1 ≤ x.id ∧ x.id ≤ iters) ∧ r.Completed client server x ∧ x.t₃ ≤ s.now := by
  have hall := consistent_of_reachable h
  obtain ⟨hid, hrecord⟩ := hall.records x hx
  have hnext := hall.next
  exact ⟨by omega, hrecord⟩

/-! ### One record for each ping -/

/-- The numbers of all messages and records. -/
def ids (s : State M P) : Multiset ℕ :=
  s.there.map Trip.id + s.held.map Trip.id + s.back.map Trip.id + s.records.map Trip.id

/-- The element at a place, and the others. -/
theorem coe_map_eraseIdx {X : Type*} {f : X → ℕ} {l : List X} {k : ℕ} {x : X}
    (h : l[k]? = some x) :
    (↑(l.map f) : Multiset ℕ) = {f x} + ↑((l.eraseIdx k).map f) := by
  obtain ⟨hk, rfl⟩ := List.getElem?_eq_some_iff.1 h
  rw [Multiset.singleton_add, Multiset.cons_coe, Multiset.coe_eq_coe, ← List.map_cons]
  exact ((List.getElem_cons_eraseIdx_perm hk).map f).symm

/-- At most one is mapped to `n`. -/
theorem coe_map_toList_le {X Y : Type*} {f : Y → ℕ} {g : X → Y} (o : Option X) {n : ℕ}
    (h : ∀ x, f (g x) = n) : (↑((o.map g).toList.map f) : Multiset ℕ) ≤ {n} := by
  cases o with
  | none => exact Multiset.zero_le _
  | some x => exact le_of_eq (congrArg (fun m => ({m} : Multiset ℕ)) (h x))

/-- A step that repeats nothing makes the next number or none. -/
theorem ids_step (hnew : NoRepeat s a) (hstep : r.step client server iters s a = some t) :
    t.next = s.next ∧ ids t ≤ ids s ∨ t.next = s.next + 1 ∧ ids t = {s.next} + ids s := by
  cases a with
  | wait d =>
      cases hstep
      exact Or.inl ⟨rfl, le_refl _⟩
  | ping =>
      simp only [Rounds.step] at hstep
      split at hstep <;> cases hstep
      refine Or.inr ⟨rfl, ?_⟩
      simp only [ids, List.map_append, ← Multiset.coe_add, List.map_singleton,
        Multiset.coe_singleton]
      abel
  | arrive k again =>
      obtain rfl : again = false := hnew
      simp only [Rounds.step] at hstep
      split at hstep <;> cases hstep
      rename_i x hx
      refine Or.inl ⟨rfl, le_of_eq ?_⟩
      simp only [ids, coe_map_eraseIdx hx, rest, Bool.false_eq_true, if_false, List.map_append,
        ← Multiset.coe_add, List.map_singleton, Multiset.coe_singleton]
      abel
  | pong k =>
      simp only [Rounds.step] at hstep
      split at hstep <;> cases hstep
      rename_i x hx
      refine Or.inl ⟨rfl, ?_⟩
      obtain ⟨dropped, hdropped⟩ := Multiset.le_iff_exists_add.1 (coe_map_toList_le
        (r.pong x.val (server x.t₁) (server s.now))
        (fun m => (rfl : Trip.id ({ x with val := m, t₂ := s.now } : Trip M) = x.id)))
      simp only [ids, coe_map_eraseIdx hx, List.map_append, ← Multiset.coe_add, hdropped]
      refine le_of_le_of_eq (Multiset.le_add_right _ dropped) ?_
      abel
  | take k again =>
      obtain rfl : again = false := hnew
      simp only [Rounds.step] at hstep
      split at hstep <;> cases hstep
      rename_i x hx
      refine Or.inl ⟨rfl, ?_⟩
      obtain ⟨dropped, hdropped⟩ := Multiset.le_iff_exists_add.1 (coe_map_toList_le
        (r.take x.val (client s.now))
        (fun p => (rfl : Trip.id (⟨x.id, p, x.t₀, x.t₁, x.t₂, s.now⟩ : Trip P) = x.id)))
      simp only [ids, coe_map_eraseIdx hx, rest, Bool.false_eq_true, if_false, List.map_append,
        ← Multiset.coe_add, hdropped]
      refine le_of_le_of_eq (Multiset.le_add_right _ dropped) ?_
      abel
  | loseThere k =>
      simp only [Rounds.step] at hstep
      split at hstep <;> cases hstep
      rename_i hk
      refine Or.inl ⟨rfl, ?_⟩
      simp only [ids, coe_map_eraseIdx (List.getElem?_eq_getElem hk)]
      gcongr
      exact Multiset.le_add_left _ _
  | loseBack k =>
      simp only [Rounds.step] at hstep
      split at hstep <;> cases hstep
      rename_i hk
      refine Or.inl ⟨rfl, ?_⟩
      simp only [ids, coe_map_eraseIdx (List.getElem?_eq_getElem hk)]
      gcongr
      exact Multiset.le_add_left _ _

/-- The numbers are those given out, each at most once. -/
structure Fresh (s : State M P) : Prop where
  lt : ∀ n ∈ ids s, n < s.next
  nodup : (ids s).Nodup

/-- **Fresh ids stay fresh** where nothing is repeated. -/
theorem Fresh.step (h : Fresh s) (hnew : NoRepeat s a)
    (hstep : r.step client server iters s a = some t) : Fresh t := by
  rcases ids_step hnew hstep with ⟨hnext, hle⟩ | ⟨hnext, heq⟩
  · exact ⟨fun n hn => hnext ▸ h.lt n (Multiset.mem_of_le hle hn), Multiset.nodup_of_le hle h.nodup⟩
  · refine ⟨fun n hn => ?_, ?_⟩
    · rw [heq, Multiset.mem_add, Multiset.mem_singleton] at hn
      rcases hn with rfl | hn
      · exact hnext ▸ Nat.lt_succ_self _
      · exact hnext ▸ Nat.lt_succ_of_lt (h.lt n hn)
    · rw [heq, Multiset.singleton_add, Multiset.nodup_cons]
      exact ⟨fun hmem => Nat.lt_irrefl _ (h.lt _ hmem), h.nodup⟩

/-- **One record for each ping**, if the network repeats nothing. -/
theorem nodup_of_reachable (h : (r.system client server iters).ReachableIf NoRepeat s) :
    (s.records.map Trip.id).Nodup := by
  have hinit : Fresh (initial : State M P) :=
    ⟨fun n hn => absurd hn (Multiset.notMem_zero n), Multiset.nodup_zero⟩
  have hfresh := System.Invariant.holds (S := r.system client server iters)
    ⟨hinit, fun h hnew hstep => h.step hnew hstep⟩ h
  exact Multiset.coe_nodup.1 (Multiset.nodup_of_le (Multiset.le_add_left _ _) hfresh.nodup)

end Rounds
end Lib
end DetBypass
