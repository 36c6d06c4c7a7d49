/-
# The sending thread

`thread_send_packets` of `common/net.c` for any send function: the affinity of
the thread, then one invocation for each id until the ids are over or an
invocation returns a negative value.  The operation under an invocation
(`sendto`, a reservation in the tx ring, a verbs post) succeeds or fails by a
pattern given in advance, one outcome for each operation.

A send function may wait for bit 0 of `pending_send` to be clear, and then sets
it at its operation.  The completion of a send that was really posted is handled
at any time after it, and clears the bit; nothing else does.

`calls` are the ids of the invocations so far, `packets` the payloads in the
buffer at each operation.  The law is `Lawful`: the ids are 1, 2, 3, ..., each
of `iters` is sent if no operation fails, and a failure is the last.  A send
function that `signals` a failure obeys it unless the loop is not reached or its
condition never fails (`Signals.lawful_iff`); one that `hides` it must not fail
before the last id (`Hides.lawful_iff`).
-/

import DetBypass.Lib.Transition
import DetBypass.Common.Payload

namespace DetBypass
namespace Sender

open Lib

/-- What has become of the operation under an invocation; `errno` is positive. -/
inductive Outcome
  | ok
  | failed (errno : ℤ) (h : 0 < errno)
deriving DecidableEq

/-- A send function: whether it waits for bit 0 of `pending_send`, the payload it
writes for an id and a reading of the clock, and what it returns. -/
structure SendPacket where
  waits : Bool
  payload : UInt64 → UInt64 → PingpongPayload
  ret : Outcome → ℤ
  ret_ok : 0 ≤ ret .ok

/-! ### The affinity of the thread -/

/-- `CPU_SETSIZE`. -/
def cpuSetSize : ℕ := 1024

/-- What the system calls before the loop return. -/
structure Affinity where
  getaffinity : ℤ
  currentMask : Fin cpuSetSize → Bool
  numCores : ℤ
  setaffinity : ℤ

/-- `stick_this_thread_to_core`. -/
def stickThisThreadToCore (a : Affinity) (coreId : ℤ) : ℤ :=
  if coreId < 0 ∨ a.numCores ≤ coreId then -22 else a.setaffinity

/-- The loop over the mask: `core_id` and `cnt`. -/
def scanMask (mask : Fin cpuSetSize → Bool) : ℤ × ℤ :=
  (List.finRange cpuSetSize).foldl
    (fun p i => if mask i then ((i : ℤ) + 1, p.2 + 1) else p) (0, 0)

/-- The thread gets to its loop. -/
def Affinity.Reaches (a : Affinity) : Prop :=
  0 ≤ a.getaffinity ∧
    ¬ ((scanMask a.currentMask).2 = 1 ∧
      stickThisThreadToCore a (scanMask a.currentMask).1 < 0)

instance (a : Affinity) : Decidable a.Reaches :=
  inferInstanceAs (Decidable (0 ≤ a.getaffinity ∧
    ¬ ((scanMask a.currentMask).2 = 1 ∧
      stickThisThreadToCore a (scanMask a.currentMask).1 < 0)))

/-! ### The loop -/

/-- Where the thread stands: at the condition of the loop, in the invocation of
the send function, or after the return. -/
inductive Pc
  | loop (id : UInt64)
  | call (id : UInt64)
  | done
deriving DecidableEq

structure State where
  pc : Pc
  calls : List UInt64
  packets : List PingpongPayload
  pending : Bool
  posted : Bool

/-- The rest of an invocation, from the write of the payload on, and the test of
its result. -/
def State.send (s : State) (f : SendPacket) (o : Outcome) (id now : UInt64) : State where
  pc := if f.ret o < 0 then .done else .loop (id + 1)
  calls := s.calls
  packets := s.packets ++ [f.payload id now]
  pending := f.waits || s.pending
  posted := if f.waits then decide (o = .ok) else s.posted

/-- One scheduler choice: the thread goes on, or the completion of a posted send
is handled. -/
inductive Action
  | thread (now : UInt64)
  | completed

/-- One step of the thread or of the handling of completions. -/
def step (f : SendPacket) (iters : UInt64) (outcome : ℕ → Outcome) (s : State) :
    Action → Option State
  | .thread now =>
    match s.pc with
    | .loop id =>
      if id ≤ iters then some { s with pc := .call id, calls := s.calls ++ [id] }
      else some { s with pc := .done }
    | .call id =>
      if f.waits ∧ s.pending then none
      else some (s.send f (outcome s.packets.length) id now)
    | .done => none
  | .completed =>
    if s.posted then some { s with pending := false, posted := false } else none

/-- The thread before its loop, or where it has returned instead. -/
def initial (a : Affinity) : State where
  pc := if a.Reaches then .loop 1 else .done
  calls := []
  packets := []
  pending := false
  posted := false

/-- The runs of a send function for a number of iterations and a pattern of
outcomes. -/
def thread (f : SendPacket) (a : Affinity) (iters : UInt64) (outcome : ℕ → Outcome) :
    System State Action :=
  ⟨initial a, step f iters outcome⟩

/-- **The law of the sending thread.** -/
structure Lawful (f : SendPacket) (a : Affinity) (iters : UInt64) (outcome : ℕ → Outcome) :
    Prop where
  ids : ∀ {s}, (thread f a iters outcome).Reachable s →
    s.calls.map UInt64.toNat = List.range' 1 s.calls.length
  all : (∀ k < iters.toNat, outcome k = .ok) → ∀ {s}, (thread f a iters outcome).Reachable s →
    s.calls.length ≤ iters.toNat ∧
      ∃ t, (thread f a iters outcome).RunIf (fun _ _ => True) s t ∧ t.pc = .done ∧
        t.calls.length = iters.toNat
  last : ∀ {s}, (thread f a iters outcome).Reachable s → ∀ k < s.packets.length,
    outcome k ≠ .ok → s.calls.length ≤ k + 1

variable {f : SendPacket} {a : Affinity} {iters : UInt64} {outcome : ℕ → Outcome} {s t : State}
  {o : Outcome}

/-! ### One step -/

/-- A result the loop takes for a failure. -/
def SendPacket.Halts (f : SendPacket) (o : Outcome) : Prop := f.ret o < 0

/-- A result that ends the loop is that of a failure. -/
theorem SendPacket.Halts.ne_ok (h : f.Halts o) : o ≠ .ok := by
  rintro rfl
  have hok := f.ret_ok
  unfold Halts at h
  omega

/-- What a step does. -/
inductive Moves (f : SendPacket) (iters : UInt64) (outcome : ℕ → Outcome) (s : State) :
    State → Prop
  | call (id : UInt64) (hpc : s.pc = .loop id) (hid : id ≤ iters) :
      Moves f iters outcome s { s with pc := .call id, calls := s.calls ++ [id] }
  | finish (id : UInt64) (hpc : s.pc = .loop id) (hid : iters < id) :
      Moves f iters outcome s { s with pc := .done }
  | send (id now : UInt64) (hpc : s.pc = .call id) (hfree : f.waits = true → s.pending = false) :
      Moves f iters outcome s (s.send f (outcome s.packets.length) id now)
  | completed (hposted : s.posted = true) :
      Moves f iters outcome s { s with pending := false, posted := false }

/-- **A step** is one of the four. -/
theorem moves_of_step {act : Action} (hstep : step f iters outcome s act = some t) :
    Moves f iters outcome s t := by
  cases act with
  | thread now =>
      simp only [step] at hstep
      split at hstep
      case h_1 id hpc =>
        split at hstep <;> cases hstep
        · exact .call id hpc ‹_›
        · exact .finish id hpc (UInt64.not_le.1 ‹_›)
      case h_2 id hpc =>
        split at hstep <;> cases hstep
        rename_i hfree
        exact .send id now hpc fun hwaits => Bool.eq_false_of_not_eq_true fun hpending =>
          hfree ⟨hwaits, hpending⟩
      case h_3 => cases hstep
  | completed =>
      simp only [step] at hstep
      split at hstep <;> cases hstep
      exact .completed ‹_›

/-- Each of the four is a step. -/
theorem Moves.exists_step (h : Moves f iters outcome s t) :
    ∃ act, step f iters outcome s act = some t := by
  cases h with
  | call id hpc hid => exact ⟨.thread 0, by simp [step, hpc, hid]⟩
  | finish id hpc hid => exact ⟨.thread 0, by simp [step, hpc, UInt64.not_le.2 hid]⟩
  | send id now hpc hfree =>
      refine ⟨.thread now, ?_⟩
      have hgo : ¬ (f.waits = true ∧ s.pending = true) := fun h => by simp [hfree h.1] at h
      simp only [step, hpc, if_neg hgo]
  | completed hposted => exact ⟨.completed, by simp [step, hposted]⟩

/-- A run goes on with any of the four. -/
theorem Moves.run {r : State} (h : Moves f iters outcome s t)
    (hrun : (thread f a iters outcome).RunIf (fun _ _ => True) t r) :
    (thread f a iters outcome).RunIf (fun _ _ => True) s r := by
  obtain ⟨act, hstep⟩ := h.exists_step
  exact (System.RunIf.tail .refl trivial hstep).trans hrun

/-- The condition of the loop can fail, or an operation before it ends the loop. -/
def Ends (f : SendPacket) (iters : UInt64) (outcome : ℕ → Outcome) : Prop :=
  iters.toNat + 1 < 2 ^ 64 ∨ ∃ k < iters.toNat, f.Halts (outcome k)

/-- What the thread keeps. -/
structure Regular (f : SendPacket) (iters : UInt64) (outcome : ℕ → Outcome) (s : State) : Prop where
  ids : s.calls.map UInt64.toNat = List.range' 1 s.calls.length
  le : s.calls.length ≤ iters.toNat
  loop : ∀ id, s.pc = .loop id →
    id.toNat = s.calls.length + 1 ∧ s.packets.length = s.calls.length
  call : ∀ id, s.pc = .call id →
    id.toNat = s.calls.length ∧ s.packets.length + 1 = s.calls.length
  halted : ∀ k < s.packets.length, f.Halts (outcome k) → s.pc = .done ∧ s.calls.length ≤ k + 1

/-- **A step keeps it.** -/
theorem Regular.step (h : Regular f iters outcome s) (hends : Ends f iters outcome)
    (hmoves : Moves f iters outcome s t) : Regular f iters outcome t := by
  cases hmoves with
  | call id hpc hid =>
      obtain ⟨hval, hlength⟩ := h.loop id hpc
      have hle := UInt64.le_iff_toNat_le.1 hid
      refine ⟨?_, ?_, fun id' he => ?_, fun id' he => ?_, fun k hk hhalts => ?_⟩
      · show (s.calls ++ [id]).map UInt64.toNat = List.range' 1 (s.calls ++ [id]).length
        rw [List.map_append, h.ids, List.length_append, List.length_singleton,
          List.range'_1_concat, List.map_singleton, hval, Nat.add_comm 1]
      · show (s.calls ++ [id]).length ≤ iters.toNat
        rw [List.length_append, List.length_singleton]
        omega
      · simp at he
      · obtain rfl : id = id' := Pc.call.inj he
        refine ⟨?_, ?_⟩ <;> rw [List.length_append, List.length_singleton]
        · exact hval
        · rw [← hlength]
      · have := (h.halted k hk hhalts).1
        simp [hpc] at this
  | finish id hpc hid =>
      refine ⟨h.ids, h.le, fun id' he => ?_, fun id' he => ?_, fun k hk hhalts => ?_⟩
      · simp at he
      · simp at he
      · exact ⟨rfl, (h.halted k hk hhalts).2⟩
  | send id now hpc hfree =>
      obtain ⟨hval, hlength⟩ := h.call id hpc
      have hgoing : ∀ k < s.packets.length, ¬ f.Halts (outcome k) := fun k hk hhalts => by
        have := (h.halted k hk hhalts).1
        simp [hpc] at this
      have hle := h.le
      refine ⟨h.ids, h.le, fun id' he => ?_, fun id' he => ?_, fun k hk hhalts => ?_⟩
      · by_cases hret : f.ret (outcome s.packets.length) < 0
        · simp [State.send, hret] at he
        · obtain rfl : id + 1 = id' := by simpa [State.send, hret] using he
          -- an operation that ends the loop is still to come, so `id` is not the last
          have hroom : id.toNat + 1 < 2 ^ 64 := by
            rcases hends with hroom | ⟨k, hk, hhalts⟩
            · omega
            · have hne : k ≠ s.packets.length := fun he => hret (he ▸ hhalts)
              have hge : ¬ k < s.packets.length := fun hlt => hgoing k hlt hhalts
              have := iters.toNat_lt
              omega
          refine ⟨?_, ?_⟩
          · rw [UInt64.toNat_add]
            show (id.toNat + 1) % 2 ^ 64 = s.calls.length + 1
            rw [Nat.mod_eq_of_lt hroom, hval]
          · show (s.packets ++ [f.payload id now]).length = s.calls.length
            rw [List.length_append, List.length_singleton]
            omega
      · by_cases hret : f.ret (outcome s.packets.length) < 0 <;>
          simp [State.send, hret] at he
      · have hlt : k < (s.packets ++ [f.payload id now]).length := hk
        rw [List.length_append, List.length_singleton] at hlt
        obtain rfl : k = s.packets.length := by
          by_contra hne
          exact hgoing k (by omega) hhalts
        exact ⟨if_pos hhalts, hlength.ge⟩
  | completed hposted => exact ⟨h.ids, h.le, h.loop, h.call, h.halted⟩

/-- Before the first packet nothing is out of order. -/
theorem regular_initial : Regular f iters outcome (initial a) := by
  refine ⟨rfl, Nat.zero_le _, fun id he => ?_, fun id he => ?_, fun k hk => absurd hk (by
    exact Nat.not_lt_zero k)⟩
  · unfold initial at he
    split_ifs at he
    cases he
    exact ⟨rfl, rfl⟩
  · unfold initial at he
    split_ifs at he

/-- **What the thread keeps holds in every reachable state**, if the loop ends. -/
theorem regular_of_reachable (hends : Ends f iters outcome)
    (h : (thread f a iters outcome).Reachable s) : Regular f iters outcome s :=
  System.Invariant.holds ⟨regular_initial, fun h _ hstep => h.step hends (moves_of_step hstep)⟩ h

/-! ### The ids that are sent -/

/-- The wait of the send function ends. -/
def Free (f : SendPacket) (s : State) : Prop :=
  f.waits = true → s.pending = true → s.posted = true

/-- An invocation returns, with a result that does not end the loop. -/
theorem exists_send (a : Affinity) (iters : UInt64) {id : UInt64} (hpc : s.pc = .call id)
    (hfree : Free f s) (hret : ¬ f.Halts (outcome s.packets.length)) :
    ∃ t, (thread f a iters outcome).RunIf (fun _ _ => True) s t ∧ t.pc = .loop (id + 1) ∧
      t.calls.length = s.calls.length ∧ t.packets.length = s.packets.length + 1 ∧
      (outcome s.packets.length = .ok → Free f t) := by
  obtain ⟨r, hrun, hcall, hcalls, hpackets, hidle⟩ : ∃ r,
      (thread f a iters outcome).RunIf (fun _ _ => True) s r ∧ r.pc = .call id ∧
      r.calls = s.calls ∧ r.packets = s.packets ∧ (f.waits = true → r.pending = false) := by
    by_cases hwait : f.waits = true ∧ s.pending = true
    · have hclear : Moves f iters outcome s { s with pending := false, posted := false } :=
        .completed (hfree hwait.1 hwait.2)
      exact ⟨_, hclear.run .refl, hpc, rfl, rfl, fun _ => rfl⟩
    · refine ⟨s, .refl, hpc, rfl, rfl, fun hwaits => ?_⟩
      exact Bool.eq_false_of_not_eq_true fun hpending => hwait ⟨hwaits, hpending⟩
  rw [← hpackets] at hret
  refine ⟨_, hrun.trans ((Moves.send id 0 hcall hidle).run .refl), if_neg hret, ?_, ?_, ?_⟩
  · exact congrArg List.length hcalls
  · simp [State.send, hpackets]
  · intro hok hwaits _
    simp [State.send, hwaits, hpackets, hok]

/-- **One round of the loop.** -/
theorem exists_round (a : Affinity) {id : UInt64} (hpc : s.pc = .loop id) (hid : id ≤ iters)
    (hfree : Free f s) (hret : ¬ f.Halts (outcome s.packets.length)) :
    ∃ t, (thread f a iters outcome).RunIf (fun _ _ => True) s t ∧ t.pc = .loop (id + 1) ∧
      t.calls.length = s.calls.length + 1 ∧ t.packets.length = s.packets.length + 1 ∧
      (outcome s.packets.length = .ok → Free f t) := by
  have hcall : Moves f iters outcome s { s with pc := .call id, calls := s.calls ++ [id] } :=
    .call id hpc hid
  obtain ⟨t, hrun, hloop, hcalls, hpackets, hfree'⟩ := exists_send a iters
    (s := { s with pc := .call id, calls := s.calls ++ [id] }) rfl hfree hret
  refine ⟨t, hcall.run hrun, hloop, ?_, hpackets, hfree'⟩
  rw [hcalls, List.length_append, List.length_singleton]

/-- **Rounds of the loop**: the first `k` operations succeed, and the thread is
at the condition again. -/
theorem exists_rounds (ha : a.Reaches) {k : ℕ} (hk : k ≤ iters.toNat)
    (hok : ∀ j < k, outcome j = .ok) :
    ∃ t, (thread f a iters outcome).Reachable t ∧ t.pc = .loop (UInt64.ofNat (k + 1)) ∧
      t.calls.length = k ∧ t.packets.length = k ∧ Free f t := by
  induction k with
  | zero => exact ⟨initial a, .init, if_pos ha, rfl, rfl, fun _ h => by cases h⟩
  | succ k ih =>
      obtain ⟨s, hs, hpc, hcalls, hpackets, hfree⟩ := ih (by omega) fun j hj => hok j (by omega)
      have hlast := hok k (Nat.lt_succ_self k)
      rw [← hpackets] at hlast
      have hid : UInt64.ofNat (k + 1) ≤ iters := by
        have := iters.toNat_lt
        rw [UInt64.le_iff_toNat_le, UInt64.toNat_ofNat']
        omega
      have hret : ¬ f.Halts (outcome s.packets.length) := fun hhalts => hhalts.ne_ok hlast
      obtain ⟨t, hrun, hloop, hcalls', hpackets', hfree'⟩ := exists_round a hpc hid hfree hret
      refine ⟨t, hs.trans hrun, ?_, by omega, by omega, hfree' hlast⟩
      rw [hloop, UInt64.ofNat_add (k + 1) 1]
      rfl

/-- What the thread keeps besides while nothing fails: its wait ends, and it
returns after the last id only. -/
structure Going (f : SendPacket) (iters : UInt64) (s : State) : Prop where
  free : Free f s
  done : s.pc = .done → s.calls.length = iters.toNat

/-- **A step keeps it.** -/
theorem Going.step (hgoing : Going f iters s) (h : Regular f iters outcome s)
    (hok : ∀ k < iters.toNat, outcome k = .ok) (hmoves : Moves f iters outcome s t) :
    Going f iters t := by
  have hle := h.le
  cases hmoves with
  | call id hpc hid => exact ⟨hgoing.free, fun he => by simp at he⟩
  | finish id hpc hid =>
      refine ⟨hgoing.free, fun _ => ?_⟩
      have hval := (h.loop id hpc).1
      have hlt := UInt64.lt_iff_toNat_lt.1 hid
      show s.calls.length = iters.toNat
      omega
  | send id now hpc hfree =>
      have hlength := (h.call id hpc).2
      have hlast := hok s.packets.length (by omega)
      refine ⟨fun hwaits _ => by simp [State.send, hwaits, hlast], fun he => ?_⟩
      have hret : ¬ f.ret (outcome s.packets.length) < 0 := fun hhalts =>
        SendPacket.Halts.ne_ok hhalts hlast
      simp [State.send, hret] at he
  | completed hposted => exact ⟨fun _ hpending => by simp at hpending, hgoing.done⟩

/-- The loop is reached, unless there is nothing to send. -/
theorem going_of_reachable (hends : Ends f iters outcome)
    (hok : ∀ k < iters.toNat, outcome k = .ok) (hstart : a.Reaches ∨ iters = 0)
    (h : (thread f a iters outcome).Reachable s) : Going f iters s := by
  have hinv : (thread f a iters outcome).Invariant (fun _ _ => True)
      fun s => Regular f iters outcome s ∧ Going f iters s := by
    refine ⟨⟨regular_initial, ?_, fun hdone => ?_⟩, fun h _ hstep =>
      ⟨h.1.step hends (moves_of_step hstep), h.2.step h.1 hok (moves_of_step hstep)⟩⟩
    · intro _ hpending
      cases hpending
    · rcases hstart with ha | rfl
      · change (if a.Reaches then Pc.loop 1 else Pc.done) = Pc.done at hdone
        rw [if_pos ha] at hdone
        cases hdone
      · rfl
  exact (hinv.holds h).2

/-- **The thread gets from the condition of the loop to its return.** -/
theorem exists_finish (hends : Ends f iters outcome) (hok : ∀ k < iters.toNat, outcome k = .ok)
    (hstart : a.Reaches ∨ iters = 0) (n : ℕ) :
    ∀ {s id}, (thread f a iters outcome).Reachable s → s.pc = .loop id →
      iters.toNat - s.calls.length = n →
      ∃ t, (thread f a iters outcome).RunIf (fun _ _ => True) s t ∧ t.pc = .done := by
  induction n with
  | zero =>
      intro s id hs hpc hn
      have hval := ((regular_of_reachable hends hs).loop id hpc).1
      have hid : iters < id := UInt64.lt_iff_toNat_lt.2 (by omega)
      exact ⟨_, (Moves.finish id hpc hid).run .refl, rfl⟩
  | succ n ih =>
      intro s id hs hpc hn
      obtain ⟨hval, hlength⟩ := (regular_of_reachable hends hs).loop id hpc
      have hid : id ≤ iters := UInt64.le_iff_toNat_le.2 (by omega)
      have hfree := (going_of_reachable hends hok hstart hs).free
      have hret : ¬ f.Halts (outcome s.packets.length) := fun hhalts =>
        hhalts.ne_ok (hok s.packets.length (by omega))
      obtain ⟨t, hrun, hloop, hcalls, -, -⟩ := exists_round a hpc hid hfree hret
      obtain ⟨r, hrun', hdone⟩ := ih (hs.trans hrun) hloop (by omega)
      exact ⟨r, hrun.trans hrun', hdone⟩

/-- **If nothing fails each id is sent**: never more than `iters` invocations,
and from every reachable state on the thread returns after as many. -/
theorem exists_return (hends : Ends f iters outcome) (hok : ∀ k < iters.toNat, outcome k = .ok)
    (hstart : a.Reaches ∨ iters = 0) (hs : (thread f a iters outcome).Reachable s) :
    ∃ t, (thread f a iters outcome).RunIf (fun _ _ => True) s t ∧ t.pc = .done ∧
      t.calls.length = iters.toNat := by
  have hreturn : ∃ t, (thread f a iters outcome).RunIf (fun _ _ => True) s t ∧ t.pc = .done := by
    cases hpc : s.pc with
    | loop id => exact exists_finish hends hok hstart _ hs hpc rfl
    | call id =>
        have hlength := ((regular_of_reachable hends hs).call id hpc).2
        have hle := (regular_of_reachable hends hs).le
        have hfree := (going_of_reachable hends hok hstart hs).free
        have hret : ¬ f.Halts (outcome s.packets.length) := fun hhalts =>
          hhalts.ne_ok (hok s.packets.length (by omega))
        obtain ⟨t, hrun, hloop, -⟩ := exists_send a iters hpc hfree hret
        obtain ⟨r, hrun', hdone⟩ :=
          exists_finish hends hok hstart _ (hs.trans hrun) hloop rfl
        exact ⟨r, hrun.trans hrun', hdone⟩
    | done => exact ⟨s, .refl, hpc⟩
  obtain ⟨t, hrun, hdone⟩ := hreturn
  exact ⟨t, hrun, hdone, (going_of_reachable hends hok hstart (hs.trans hrun)).done hdone⟩

/-! ### The law -/

/-- What the law takes at the least: the thread gets to its loop, whose condition
fails at the end, unless there is nothing to send or an operation fails. -/
def Starts (a : Affinity) (iters : UInt64) (outcome : ℕ → Outcome) : Prop :=
  iters = 0 ∨ (∃ k < iters.toNat, outcome k ≠ .ok) ∨ a.Reaches ∧ iters.toNat + 1 < 2 ^ 64

/-- A thread that has returned sends no more. -/
theorem calls_of_done (hdone : s.pc = .done)
    (hrun : (thread f a iters outcome).RunIf (fun _ _ => True) s t) : t.calls = s.calls := by
  have h : t.pc = .done ∧ t.calls = s.calls := by
    refine hrun.preserves (I := fun t => t.pc = .done ∧ t.calls = s.calls) ?_ ⟨hdone, rfl⟩
    rintro s' act t' ⟨hpc, hcalls⟩ - hstep
    cases moves_of_step hstep with
    | call id hpc' | finish id hpc' | send id now hpc' => simp [hpc] at hpc'
    | completed => exact ⟨hpc, hcalls⟩
  exact h.2

/-- **The law takes as much.** -/
theorem Lawful.starts (h : Lawful f a iters outcome) : Starts a iters outcome := by
  unfold Starts
  by_contra hcontra
  rw [not_or, not_or, not_exists] at hcontra
  obtain ⟨hiters, hfails, hstart⟩ := hcontra
  have hok : ∀ k < iters.toNat, outcome k = .ok := fun k hk =>
    not_not.1 fun hfailed => hfails k ⟨hk, hfailed⟩
  by_cases ha : a.Reaches
  · -- the id after the last is 0, and is sent
    obtain ⟨s, hs, hpc, hcalls, -⟩ := exists_rounds (f := f) ha le_rfl hok
    have hlast : iters.toNat + 1 = 2 ^ 64 := by
      have := iters.toNat_lt
      have hfull : ¬ iters.toNat + 1 < 2 ^ 64 := fun hroom => hstart ⟨ha, hroom⟩
      omega
    rw [hlast] at hpc
    have hcall : Moves f iters outcome s { s with pc := .call 0, calls := s.calls ++ [0] } :=
      .call 0 hpc (UInt64.le_iff_toNat_le.2 (Nat.zero_le _))
    obtain ⟨act, hstep⟩ := hcall.exists_step
    have hle := (h.all hok (hs.tail hstep)).1
    rw [List.length_append, List.length_singleton] at hle
    omega
  · obtain ⟨-, t, hrun, -, hcalls⟩ := h.all hok .init
    rw [calls_of_done (if_neg ha) hrun] at hcalls
    exact hiters (UInt64.toNat_inj.1 hcalls.symm)

/-- Every failure is a negative result. -/
def SendPacket.Signals (f : SendPacket) : Prop := ∀ o, o ≠ .ok → f.Halts o

/-- **A send function that signals its failures** obeys the law as soon as the
loop is reached and ends. -/
theorem SendPacket.Signals.lawful_iff (hf : f.Signals) :
    Lawful f a iters outcome ↔ Starts a iters outcome := by
  refine ⟨Lawful.starts, fun hstarts => ?_⟩
  have hends : Ends f iters outcome := by
    rcases hstarts with rfl | ⟨k, hk, hfailed⟩ | ⟨-, hroom⟩
    · exact Or.inl (by decide)
    · exact Or.inr ⟨k, hk, hf _ hfailed⟩
    · exact Or.inl hroom
  refine ⟨fun hs => (regular_of_reachable hends hs).ids, fun hok s hs => ?_,
    fun hs k hk hfailed => ((regular_of_reachable hends hs).halted k hk (hf _ hfailed)).2⟩
  have hstart : a.Reaches ∨ iters = 0 := by
    rcases hstarts with hiters | ⟨k, hk, hfailed⟩ | ⟨ha, -⟩
    · exact Or.inr hiters
    · exact absurd (hok k hk) hfailed
    · exact Or.inl ha
  exact ⟨(regular_of_reachable hends hs).le, exists_return hends hok hstart hs⟩

/-- No result is negative. -/
def SendPacket.Hides (f : SendPacket) : Prop := ∀ o, ¬ f.Halts o

/-- **After a failure it hides** the thread does not send the next id. -/
theorem Lawful.not_le (h : Lawful f a iters outcome) (hf : f.Hides) (ha : a.Reaches) {k : ℕ}
    (hk : k < iters.toNat) (hok : ∀ j < k, outcome j = .ok) (hfailed : outcome k ≠ .ok) :
    ¬ UInt64.ofNat (k + 1) + 1 ≤ iters := by
  intro hnext
  obtain ⟨s, hs, hpc, hcalls, hpackets, hfree⟩ := exists_rounds (f := f) ha hk.le hok
  have hid : UInt64.ofNat (k + 1) ≤ iters := by
    have := iters.toNat_lt
    rw [UInt64.le_iff_toNat_le, UInt64.toNat_ofNat']
    omega
  obtain ⟨t, hrun, hloop, hcalls', hpackets', -⟩ :=
    exists_round a hpc hid hfree (hf (outcome s.packets.length))
  have hcall : Moves f iters outcome t { t with
      pc := .call (UInt64.ofNat (k + 1) + 1)
      calls := t.calls ++ [UInt64.ofNat (k + 1) + 1] } := .call _ hloop hnext
  obtain ⟨act, hstep⟩ := hcall.exists_step
  have ht : (thread f a iters outcome).Reachable t := hs.trans hrun
  have hle := h.last (ht.tail hstep) k (by show k < t.packets.length; omega) hfailed
  rw [List.length_append, List.length_singleton] at hle
  omega

/-- So the first failure is at the last id, or the ids never end. -/
theorem Lawful.exists_not_le (h : Lawful f a iters outcome) (hf : f.Hides) (ha : a.Reaches) {k : ℕ}
    (hk : k < iters.toNat) (hfailed : outcome k ≠ .ok) :
    ∃ j ≤ k, ¬ UInt64.ofNat (j + 1) + 1 ≤ iters := by
  have hexists : ∃ j, outcome j ≠ .ok := ⟨k, hfailed⟩
  have hle := Nat.find_min' hexists hfailed
  exact ⟨Nat.find hexists, hle, h.not_le hf ha (by omega)
    (fun j hj => not_not.1 (Nat.find_min hexists hj)) (Nat.find_spec hexists)⟩

/-- **The law in a function that hides its failures**: its ids end, and no
operation before the last one fails. -/
theorem Lawful.hidden (h : Lawful f a iters outcome) (hf : f.Hides) (ha : a.Reaches) :
    iters.toNat + 1 < 2 ^ 64 ∧ ∀ k, k + 1 < iters.toNat → outcome k = .ok := by
  have hroom : iters.toNat + 1 < 2 ^ 64 := by
    rcases h.starts with rfl | ⟨k, hk, hfailed⟩ | ⟨-, hroom⟩
    · decide
    · obtain ⟨j, -, hj⟩ := h.exists_not_le hf ha hk hfailed
      rw [UInt64.le_iff_toNat_le] at hj
      have := (UInt64.ofNat (j + 1) + 1).toNat_lt
      omega
    · exact hroom
  refine ⟨hroom, fun k hk => not_not.1 fun hfailed => ?_⟩
  obtain ⟨j, hjk, hj⟩ := h.exists_not_le hf ha (by omega) hfailed
  have hval : UInt64.ofNat (j + 1) + 1 = UInt64.ofNat (j + 2) := (UInt64.ofNat_add (j + 1) 1).symm
  rw [hval, UInt64.le_iff_toNat_le, UInt64.toNat_ofNat'] at hj
  omega

/-- A thread that does not get to its loop stays as it is. -/
theorem eq_initial_of_not_reaches (ha : ¬ a.Reaches)
    (hs : (thread f a iters outcome).Reachable s) : s = initial a := by
  refine System.RunIf.preserves (I := (· = initial a)) hs ?_ rfl
  rintro _ act t rfl - hstep
  have hdone : (initial a).pc = .done := if_neg ha
  cases moves_of_step hstep with
  | call id hpc | finish id hpc | send id now hpc => simp [hdone] at hpc
  | completed hposted => cases hposted

/-- It obeys the law if there is nothing to send, or if something fails. -/
theorem Starts.lawful_of_not_reaches (h : Starts a iters outcome) (ha : ¬ a.Reaches) :
    Lawful f a iters outcome := by
  refine ⟨fun hs => ?_, fun hok s hs => ?_, fun hs k hk => ?_⟩
  · rw [eq_initial_of_not_reaches ha hs]
    rfl
  · rcases h with rfl | ⟨k, hk, hfailed⟩ | ⟨ha', -⟩
    · rw [eq_initial_of_not_reaches ha hs]
      exact ⟨le_rfl, initial a, .refl, if_neg ha, rfl⟩
    · exact absurd (hok k hk) hfailed
    · exact absurd ha' ha
  · rw [eq_initial_of_not_reaches ha hs] at hk
    exact absurd hk (Nat.not_lt_zero k)

/-- **A send function that hides its failures** obeys the law only if besides no
operation before the last one fails. -/
theorem SendPacket.Hides.lawful_iff (hf : f.Hides) :
    Lawful f a iters outcome ↔ Starts a iters outcome ∧ (a.Reaches →
      iters.toNat + 1 < 2 ^ 64 ∧ ∀ k, k + 1 < iters.toNat → outcome k = .ok) := by
  refine ⟨fun h => ⟨h.starts, h.hidden hf⟩, ?_⟩
  rintro ⟨hstarts, h⟩
  by_cases ha : a.Reaches
  · obtain ⟨hroom, hok⟩ := h ha
    have hends : Ends f iters outcome := Or.inl hroom
    refine ⟨fun hs => (regular_of_reachable hends hs).ids, fun hall s hs =>
      ⟨(regular_of_reachable hends hs).le, exists_return hends hall (Or.inl ha) hs⟩,
      fun hs k hk hfailed => ?_⟩
    have hle := (regular_of_reachable hends hs).le
    have hlast : ¬ k + 1 < iters.toNat := fun hlt => hfailed (hok k hlt)
    omega
  · exact hstarts.lawful_of_not_reaches ha

end Sender
end DetBypass
