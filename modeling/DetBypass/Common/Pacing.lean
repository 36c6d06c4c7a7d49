/-
# The pace of the sending thread

The loop of `thread_send_packets` with its waits, over the thread of
`Common/Sender.lean`: `get_time_ns` is read when an iteration starts and again after
the send function has returned, and what is left of the interval is spent in
`pp_sleep`, in a busy loop up to a millisecond and in `nanosleep` above.  A sleep may
last longer than asked for; a signal ends a `nanosleep` early.

Every step takes place at a time that only goes forward, and the thread reads a
64-bit clock of unknown origin.  `starts` and `sends` are history: the times at which
the iterations started and the payloads were written.

Without such a signal the starts are an interval apart, however long the sends take
and whether or not the clock wraps (`paced_of_reachable`).
-/

import DetBypass.Common.Sender
import DetBypass.Lib.Spaced

namespace DetBypass
namespace Pacing

open Lib Sender

/-- Where the thread stands besides its place in the loop: in the iteration up to the
return of the send function, at the second reading, before the busy loop of
`pp_sleep`, in it, or in `nanosleep` until a time. -/
inductive Phase
  | awake
  | sent
  | spin (ns : UInt64)
  | spinning (ns start : UInt64)
  | nap (wake : ℕ)

structure State where
  thread : Sender.State
  phase : Phase
  /-- `__start`. -/
  start : UInt64
  now : ℕ
  starts : List ℕ
  sends : List ℕ

/-- The duration of a `struct timespec`. -/
def timespec (tvSec tvNsec : UInt64) : ℕ := tvSec.toNat * 1000000000 + tvNsec.toNat

/-- `pp_sleep`, called at a time. -/
def ppSleep (ns : UInt64) (now : ℕ) : Phase :=
  if ns ≤ 0 then .awake
  else if ns ≤ 1000000 then .spin ns
  else .nap (now + timespec (ns / 1000000000) (ns % 1000000000))

/-- One scheduler choice: time passes, the thread goes on, the completion of a posted
send is handled, or a signal ends a sleep. -/
inductive Action
  | wait (d : ℕ)
  | thread
  | completed
  | interrupt

/-- The thread after a step of the loop or of the send function: an iteration starts,
the send function returns, or the thread does. -/
def State.goOn (s : State) (origin : ℕ) (t : Sender.State) : State :=
  match s.thread.pc, t.pc with
  | .loop _, .call _ =>
    { s with thread := t, start := clock origin s.now, starts := s.starts ++ [s.now] }
  | .call _, .loop _ => { s with thread := t, phase := .sent, sends := s.sends ++ [s.now] }
  | .call _, _ => { s with thread := t, sends := s.sends ++ [s.now] }
  | _, _ => { s with thread := t }

/-- One step. -/
def step (f : SendPacket) (iters interval : UInt64) (outcome : ℕ → Outcome) (origin : ℕ)
    (s : State) : Action → Option State
  | .wait d => some { s with now := s.now + d }
  | .thread =>
    match s.phase with
    | .awake =>
      (Sender.step f iters outcome s.thread (.thread (clock origin s.now))).map (s.goOn origin)
    | .sent =>
      let elapsed := clock origin s.now - s.start
      some { s with phase := if elapsed < interval then ppSleep (interval - elapsed) s.now
        else .awake }
    | .spin ns => some { s with phase := .spinning ns (clock origin s.now) }
    | .spinning ns start =>
      some { s with phase := if clock origin s.now - start < ns then .spinning ns start
        else .awake }
    | .nap wake => if wake ≤ s.now then some { s with phase := .awake } else none
  | .completed =>
    (Sender.step f iters outcome s.thread .completed).map fun t => { s with thread := t }
  | .interrupt =>
    match s.phase with
    | .nap _ => some { s with phase := .awake }
    | _ => none

/-- The thread before its loop. -/
def initial (a : Affinity) : State where
  thread := Sender.initial a
  phase := .awake
  start := 0
  now := 0
  starts := []
  sends := []

/-- The runs of the sending thread in time. -/
def threadSendPackets (f : SendPacket) (a : Affinity) (iters interval : UInt64)
    (outcome : ℕ → Outcome) (origin : ℕ) : System State Action :=
  ⟨initial a, step f iters interval outcome origin⟩

/-- No signal comes in a sleep. -/
def Uninterrupted (_ : State) : Action → Prop
  | .interrupt => False
  | _ => True

instance (s : State) : DecidablePred (Uninterrupted s) := fun act =>
  match act with
  | .interrupt => inferInstanceAs (Decidable False)
  | .wait _ | .thread | .completed => inferInstanceAs (Decidable True)

variable {f : SendPacket} {a : Affinity} {iters interval : UInt64} {outcome : ℕ → Outcome}
  {origin : ℕ} {s t : State} {act : Action}

/-! ### The thread without its waits -/

/-- A step is one of the thread, or leaves the thread where it is. -/
theorem thread_of_step (h : step f iters interval outcome origin s act = some t) :
    t.thread = s.thread ∨ ∃ act, Sender.step f iters outcome s.thread act = some t.thread := by
  have hgoOn (u : Sender.State) : (s.goOn origin u).thread = u := by
    unfold State.goOn
    split <;> rfl
  cases act with
  | wait d => cases h; exact Or.inl rfl
  | thread =>
      simp only [step] at h
      split at h
      · obtain ⟨u, hu, rfl⟩ := Option.map_eq_some_iff.1 h
        exact Or.inr ⟨_, (hgoOn u).symm ▸ hu⟩
      · cases h; exact Or.inl rfl
      · cases h; exact Or.inl rfl
      · cases h; exact Or.inl rfl
      · split at h <;> cases h
        exact Or.inl rfl
  | completed =>
      simp only [step] at h
      obtain ⟨u, hu, rfl⟩ := Option.map_eq_some_iff.1 h
      exact Or.inr ⟨_, hu⟩
  | interrupt =>
      simp only [step] at h
      split at h <;> cases h
      exact Or.inl rfl

/-- **Without its waits a run is one of the sending thread.** -/
theorem reachable_thread
    (h : (threadSendPackets f a iters interval outcome origin).Reachable s) :
    (Sender.thread f a iters outcome).Reachable s.thread := by
  refine System.Invariant.holds (S := threadSendPackets f a iters interval outcome origin)
    (g := fun _ _ => True)
    (I := fun s => (Sender.thread f a iters outcome).Reachable s.thread) ⟨.init, ?_⟩ h
  intro s act t hs _ hstep
  rcases thread_of_step hstep with he | ⟨act, hstep⟩
  · exact he ▸ hs
  · exact hs.tail hstep

/-! ### One step -/

/-- What a step does. -/
inductive Moves (f : SendPacket) (iters interval : UInt64) (outcome : ℕ → Outcome) (origin : ℕ)
    (s : State) : State → Prop
  | wait (d : ℕ) : Moves f iters interval outcome origin s { s with now := s.now + d }
  | start (id : UInt64) (hphase : s.phase = .awake) (hpc : s.thread.pc = .loop id) :
      Moves f iters interval outcome origin s
        { s with
          thread := { s.thread with pc := .call id, calls := s.thread.calls ++ [id] }
          start := clock origin s.now
          starts := s.starts ++ [s.now] }
  | finish (hphase : s.phase = .awake) :
      Moves f iters interval outcome origin s { s with thread := { s.thread with pc := .done } }
  | send (id : UInt64) (u : Sender.State) (hphase : s.phase = .awake)
      (hpc : s.thread.pc = .call id)
      (hu : u = s.thread.send f (outcome s.thread.packets.length) id (clock origin s.now)) :
      Moves f iters interval outcome origin s
        { s with
          thread := u
          phase := if u.pc = .done then .awake else .sent
          sends := s.sends ++ [s.now] }
  | pause (hphase : s.phase = .sent) (h : clock origin s.now - s.start < interval) :
      Moves f iters interval outcome origin s
        { s with phase := ppSleep (interval - (clock origin s.now - s.start)) s.now }
  | late (hphase : s.phase = .sent) (h : interval ≤ clock origin s.now - s.start) :
      Moves f iters interval outcome origin s { s with phase := .awake }
  | spin (ns : UInt64) (hphase : s.phase = .spin ns) :
      Moves f iters interval outcome origin s
        { s with phase := .spinning ns (clock origin s.now) }
  | spinning : Moves f iters interval outcome origin s s
  | spun (ns start : UInt64) (hphase : s.phase = .spinning ns start)
      (h : ns ≤ clock origin s.now - start) :
      Moves f iters interval outcome origin s { s with phase := .awake }
  | wake (wake : ℕ) (hphase : s.phase = .nap wake) (h : wake ≤ s.now) :
      Moves f iters interval outcome origin s { s with phase := .awake }
  | completed : Moves f iters interval outcome origin s
      { s with thread := { s.thread with pending := false, posted := false } }

/-- **A step** that is no interrupt is one of these. -/
theorem moves_of_step (hact : Uninterrupted s act)
    (h : step f iters interval outcome origin s act = some t) :
    Moves f iters interval outcome origin s t := by
  cases act with
  | wait d => cases h; exact .wait d
  | thread =>
      simp only [step] at h
      split at h
      case h_1 hphase =>
        obtain ⟨u, hu, rfl⟩ := Option.map_eq_some_iff.1 h
        simp only [Sender.step] at hu
        split at hu
        case h_1 id hpc =>
          split at hu <;> cases hu
          · simp only [State.goOn, hpc]
            exact .start id hphase hpc
          · simp only [State.goOn, hpc]
            exact .finish hphase
        case h_2 id hpc =>
          split at hu <;> cases hu
          have hmoves : Moves f iters interval outcome origin s _ := .send id _ hphase hpc rfl
          by_cases hret : f.ret (outcome s.thread.packets.length) < 0
          · simpa [State.goOn, hpc, Sender.State.send, hret, hphase] using hmoves
          · simpa [State.goOn, hpc, Sender.State.send, hret] using hmoves
        case h_3 => cases hu
      case h_2 hphase =>
        cases h
        split_ifs with hlt
        · exact .pause hphase hlt
        · exact .late hphase (UInt64.not_lt.1 hlt)
      case h_3 ns hphase => cases h; exact .spin ns hphase
      case h_4 ns start hphase =>
        cases h
        split_ifs with hlt
        · rw [← hphase]
          exact .spinning
        · exact .spun ns start hphase (UInt64.not_lt.1 hlt)
      case h_5 wake hphase =>
        split at h <;> cases h
        exact .wake wake hphase ‹_›
  | completed =>
      simp only [step, Sender.step] at h
      obtain ⟨u, hu, rfl⟩ := Option.map_eq_some_iff.1 h
      split at hu <;> cases hu
      exact .completed
  | interrupt => exact hact.elim

/-! ### The starts -/

/-- Every iteration that has started is an interval old at a time. -/
def OldAt (interval : UInt64) (s : State) (time : ℕ) : Prop :=
  ∀ t ∈ s.starts, t + interval.toNat ≤ time

/-- The current iteration is the last that has started, when `__start` was read. -/
def Current (origin : ℕ) (s : State) : Prop :=
  ∃ t₀ ≤ s.now, s.start = clock origin t₀ ∧ ∀ t ∈ s.starts, t ≤ t₀

/-- What is known of the starts before the next one. -/
def Due (interval : UInt64) (origin : ℕ) (s : State) : Prop :=
  match s.phase with
  | .awake =>
    match s.thread.pc with
    | .loop _ => OldAt interval s s.now
    | .call _ => Current origin s
    | .done => True
  | .sent => Current origin s
  | .spin ns => OldAt interval s (s.now + ns.toNat)
  | .spinning ns start =>
    ∃ t₀ ≤ s.now, start = clock origin t₀ ∧ OldAt interval s (t₀ + ns.toNat)
  | .nap wake => OldAt interval s wake

/-- What the thread keeps of its starts. -/
structure Paced (interval : UInt64) (origin : ℕ) (s : State) : Prop where
  spaced : Spaced interval.toNat s.starts
  due : Due interval origin s
  loop : s.phase ≠ .awake → ∃ id, s.thread.pc = .loop id

/-- The thread is at the condition of the loop. -/
theorem due_of_oldAt (hpc : ∃ id, s.thread.pc = .loop id) (h : OldAt interval s s.now) :
    Due interval origin { s with phase := .awake } := by
  obtain ⟨id, hpc⟩ := hpc
  simp only [Due, hpc]
  exact h

/-- **`pp_sleep` lasts what it is asked to.** -/
theorem due_ppSleep {ns : UInt64} (hpc : ∃ id, s.thread.pc = .loop id)
    (h : OldAt interval s (s.now + ns.toNat)) :
    Due interval origin { s with phase := ppSleep ns s.now } := by
  unfold ppSleep
  split_ifs with hzero hshort
  · have hns : ns.toNat = 0 := Nat.le_zero.1 (UInt64.le_iff_toNat_le.1 hzero)
    rw [hns] at h
    exact due_of_oldAt hpc h
  · exact h
  · intro t ht
    have hsum : timespec (ns / 1000000000) (ns % 1000000000) = ns.toNat := by
      rw [timespec, UInt64.toNat_div, UInt64.toNat_mod]
      exact Nat.div_add_mod' ns.toNat 1000000000
    rw [hsum]
    exact h t ht

/-- Time passes. -/
theorem Due.wait (h : Due interval origin s) (d : ℕ) :
    Due interval origin { s with now := s.now + d } := by
  have hcurrent (h : Current origin s) : Current origin { s with now := s.now + d } := by
    obtain ⟨t₀, ht₀, hstart, hlast⟩ := h
    exact ⟨t₀, Nat.le_add_right_of_le ht₀, hstart, hlast⟩
  have hold {time : ℕ} (h : OldAt interval s time) {time' : ℕ} (hle : time ≤ time') :
      OldAt interval s time' := fun t ht => (h t ht).trans hle
  unfold Due at h ⊢
  cases hphase : s.phase with
  | awake =>
      simp only [hphase] at h ⊢
      cases hpc : s.thread.pc with
      | loop id =>
          simp only [hpc] at h ⊢
          exact hold h (Nat.le_add_right _ d)
      | call id =>
          simp only [hpc] at h ⊢
          exact hcurrent h
      | done => trivial
  | sent =>
      simp only [hphase] at h ⊢
      exact hcurrent h
  | spin ns =>
      simp only [hphase] at h ⊢
      exact hold h (by omega)
  | spinning ns start =>
      simp only [hphase] at h ⊢
      obtain ⟨t₀, ht₀, hstart, hlast⟩ := h
      exact ⟨t₀, Nat.le_add_right_of_le ht₀, hstart, hlast⟩
  | nap wake =>
      simp only [hphase] at h ⊢
      exact h

/-- **A step keeps it.** -/
theorem Paced.step (h : Paced interval origin s)
    (hmoves : Moves f iters interval outcome origin s t) : Paced interval origin t := by
  obtain ⟨hspaced, hdue, hloop⟩ := h
  cases hmoves with
  | wait d => exact ⟨hspaced, hdue.wait d, hloop⟩
  | start id hphase hpc =>
      simp only [Due, hphase, hpc] at hdue
      refine ⟨hspaced.concat hdue, ?_, fun hne => absurd hphase hne⟩
      simp only [Due, hphase]
      refine ⟨s.now, le_refl _, rfl, fun t ht => ?_⟩
      rcases List.mem_append.1 ht with ht | ht
      · exact Nat.le_trans (Nat.le_add_right t _) (hdue t ht)
      · exact (List.mem_singleton.1 ht).le
  | finish hphase =>
      refine ⟨hspaced, ?_, fun hne => absurd hphase hne⟩
      simp only [Due, hphase]
  | send id u hphase hpc hu =>
      simp only [Due, hphase, hpc] at hdue
      by_cases hret : f.ret (outcome s.thread.packets.length) < 0
      · have hdone : u.pc = .done := by rw [hu, Sender.State.send, if_pos hret]
        refine ⟨hspaced, ?_, fun hne => absurd (if_pos hdone) hne⟩
        simp only [Due, hdone, if_pos]
      · have hpc' : u.pc = .loop (id + 1) := by rw [hu, Sender.State.send, if_neg hret]
        have hne : u.pc ≠ .done := by rw [hpc']; simp
        refine ⟨hspaced, ?_, fun _ => ⟨_, hpc'⟩⟩
        simp only [Due, if_neg hne]
        exact hdue
  | pause hphase hlt =>
      have hpc := hloop (by rw [hphase]; simp)
      simp only [Due, hphase] at hdue
      obtain ⟨t₀, ht₀, hstart, hlast⟩ := hdue
      refine ⟨hspaced, due_ppSleep hpc fun t ht => ?_, fun _ => hpc⟩
      rw [hstart] at hlt ⊢
      have := hlast t ht
      have := add_le_of_clock_sub_lt ht₀ hlt
      omega
  | late hphase hle =>
      have hpc := hloop (by rw [hphase]; simp)
      simp only [Due, hphase] at hdue
      obtain ⟨t₀, ht₀, hstart, hlast⟩ := hdue
      rw [hstart] at hle
      refine ⟨hspaced, due_of_oldAt hpc fun t ht => ?_, fun hne => absurd rfl hne⟩
      have := hlast t ht
      have := add_le_of_le_clock_sub ht₀ hle
      omega
  | spin ns hphase =>
      have hpc := hloop (by rw [hphase]; simp)
      simp only [Due, hphase] at hdue
      exact ⟨hspaced, ⟨s.now, le_refl _, rfl, hdue⟩, fun _ => hpc⟩
  | spinning => exact ⟨hspaced, hdue, hloop⟩
  | spun ns start hphase hle =>
      have hpc := hloop (by rw [hphase]; simp)
      simp only [Due, hphase] at hdue
      obtain ⟨t₀, ht₀, rfl, hold⟩ := hdue
      refine ⟨hspaced, due_of_oldAt hpc fun t ht => ?_, fun hne => absurd rfl hne⟩
      have := hold t ht
      have := add_le_of_le_clock_sub ht₀ hle
      omega
  | wake wake hphase hle =>
      have hpc := hloop (by rw [hphase]; simp)
      simp only [Due, hphase] at hdue
      exact ⟨hspaced, due_of_oldAt hpc fun t ht => (hdue t ht).trans hle,
        fun hne => absurd rfl hne⟩
  | completed => exact ⟨hspaced, hdue, hloop⟩

/-- **What the thread keeps of its starts** holds in every run without an interrupt. -/
theorem paced_of_reachable
    (h : (threadSendPackets f a iters interval outcome origin).ReachableIf Uninterrupted s) :
    Paced interval origin s := by
  refine System.Invariant.holds ⟨⟨.nil, ?_, fun hne => absurd rfl hne⟩,
    fun h hact hstep => h.step (moves_of_step hact hstep)⟩ h
  unfold Due threadSendPackets initial Sender.initial
  split_ifs
  · exact fun t ht => absurd ht List.not_mem_nil
  · trivial

/-! ### The payloads -/

/-- What the histories say of the thread: the iterations are those of its calls, and
each payload was written after the start of its own. -/
structure Logged (f : SendPacket) (origin : ℕ) (s : State) : Prop where
  calls : s.starts.length = s.thread.calls.length
  packets : s.sends.length = s.thread.packets.length
  le_now : ∀ t ∈ s.starts ++ s.sends, t ≤ s.now
  length_le : s.sends.length ≤ s.starts.length
  loop : ∀ id, s.thread.pc = .loop id → s.starts.length = s.sends.length
  call : ∀ id, s.thread.pc = .call id → s.starts.length = s.sends.length + 1
  after : ∀ (k a t : ℕ), s.starts[k]? = some a → s.sends[k]? = some t → a ≤ t
  payload : ∀ (k t : ℕ) p, s.sends[k]? = some t → s.thread.packets[k]? = some p →
    ∃ id, p = f.payload id (clock origin t)

/-- **A step keeps it.** -/
theorem Logged.step (h : Logged f origin s)
    (hmoves : Moves f iters interval outcome origin s t) : Logged f origin t := by
  cases hmoves with
  | wait d =>
      exact ⟨h.calls, h.packets, fun t ht => Nat.le_add_right_of_le (h.le_now t ht), h.length_le,
        h.loop, h.call, h.after, h.payload⟩
  | start id hphase hpc =>
      have hlength := h.loop id hpc
      refine ⟨?_, h.packets, fun t ht => ?_, ?_, fun id' hid => ?_, fun id' _ => ?_,
        fun k a t ha ht => ?_, h.payload⟩
      · simp [h.calls]
      · simp only [List.mem_append, List.mem_singleton] at ht
        rcases ht with (ht | rfl) | ht
        · exact h.le_now t (List.mem_append_left _ ht)
        · exact le_refl _
        · exact h.le_now t (List.mem_append_right _ ht)
      · simp only [List.length_append, List.length_singleton]
        omega
      · cases hid
      · simp only [List.length_append, List.length_singleton]
        omega
      · have hk : k < s.sends.length := (List.getElem?_eq_some_iff.1 ht).1
        rw [List.getElem?_append_left (by omega)] at ha
        exact h.after k a t ha ht
  | finish hphase =>
      refine ⟨h.calls, h.packets, h.le_now, h.length_le, fun id hid => ?_, fun id hid => ?_,
        h.after, h.payload⟩
      · cases hid
      · cases hid
  | send id u hphase hpc hu =>
      have hlength := h.call id hpc
      have hpackets : u.packets = s.thread.packets ++ [f.payload id (clock origin s.now)] := by
        rw [hu, Sender.State.send]
      have hcalls : u.calls = s.thread.calls := by rw [hu, Sender.State.send]
      have hne : ∀ id', u.pc ≠ .call id' := fun id' => by
        rw [hu, Sender.State.send]
        split_ifs <;> simp
      have hk {k : ℕ} {t : ℕ} (ht : (s.sends ++ [s.now])[k]? = some t) :
          s.sends[k]? = some t ∨ k = s.sends.length ∧ t = s.now := by
        rcases Nat.lt_or_ge k s.sends.length with hlt | hge
        · exact Or.inl (by rwa [List.getElem?_append_left hlt] at ht)
        · have hk := (List.getElem?_eq_some_iff.1 ht).1
          simp only [List.length_append, List.length_singleton] at hk
          obtain rfl : k = s.sends.length := by omega
          rw [List.getElem?_concat_length] at ht
          exact Or.inr ⟨rfl, (Option.some.inj ht).symm⟩
      refine ⟨by rw [hcalls]; exact h.calls, by simp [hpackets, h.packets], fun t ht => ?_, ?_,
        fun id' hid => ?_, fun id' hid => absurd hid (hne id'), fun k a t ha ht => ?_,
        fun k t p ht hp => ?_⟩
      · simp only [List.mem_append, List.mem_singleton] at ht
        rcases ht with ht | ht | rfl
        · exact h.le_now t (List.mem_append_left _ ht)
        · exact h.le_now t (List.mem_append_right _ ht)
        · exact le_refl _
      · simp only [List.length_append, List.length_singleton]
        omega
      · simp only [List.length_append, List.length_singleton]
        exact hlength
      · rcases hk ht with ht | ⟨-, rfl⟩
        · exact h.after k a t ha ht
        · exact h.le_now a (List.mem_append_left _ (List.mem_of_getElem? ha))
      · rw [hpackets] at hp
        rcases hk ht with ht | ⟨rfl, rfl⟩
        · have hlt := (List.getElem?_eq_some_iff.1 ht).1
          rw [List.getElem?_append_left (by have := h.packets; omega)] at hp
          exact h.payload k t p ht hp
        · rw [h.packets, List.getElem?_concat_length] at hp
          exact ⟨id, (Option.some.inj hp).symm⟩
  | pause | late | spin | spinning | spun | wake | completed =>
      exact ⟨h.calls, h.packets, h.le_now, h.length_le, h.loop, h.call, h.after, h.payload⟩

/-- The log is right in every state. -/
theorem logged_of_reachable
    (h : (threadSendPackets f a iters interval outcome origin).ReachableIf Uninterrupted s) :
    Logged f origin s := by
  refine System.Invariant.holds ⟨⟨rfl, rfl, fun t ht => absurd ht List.not_mem_nil, le_refl _,
    fun id _ => rfl, fun id hid => ?_, fun k a t ha => ?_, fun k t p ht => ?_⟩,
    fun h hact hstep => h.step (moves_of_step hact hstep)⟩ h
  · unfold threadSendPackets initial Sender.initial at hid
    split_ifs at hid
  · simp [threadSendPackets, initial] at ha
  · simp [threadSendPackets, initial] at ht

end Pacing
end DetBypass
