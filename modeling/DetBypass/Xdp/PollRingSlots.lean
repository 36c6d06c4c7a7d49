/-
# The XDP-poll ring, slot by slot, with any number of producers

`xdp_main` runs on every CPU that receives, so `add_packet_to_map`
(`xdp/pingpong.c`) runs concurrently with itself, and with the one loop over
`poll_next_payload` (`xdp/pp_poll.c`).  Here a call is interrupted between its
locked sections, the slot-validity check, the slot write and the commit, each
of these being one step; the consumer is interrupted between the magic check,
the copy and the clear.

Producers are numbered without bound: `calls c` is where the call in progress
on CPU `c` stands, `idle` between calls.  `log` is history, one event for each
write, commit and drop of a producer and for each copy and clear of the
consumer.  `step_cases` is the inversion every invariant uses.
-/

import DetBypass.Xdp.PollRing
import DetBypass.Lib.History

namespace DetBypass
namespace Xdp
namespace Slot

open Lib PingpongPayload

/-- Where a call of `add_packet_to_map` stands; `payload` is the packet's. -/
inductive CallPc
  | idle
  | reserved (key : Fin packetsMapSize) (payload : PingpongPayload)
  | dropping (key : Fin packetsMapSize) (payload : PingpongPayload)
  | checked (key : Fin packetsMapSize) (payload : PingpongPayload)
  | written (key : Fin packetsMapSize) (payload : PingpongPayload)

/-- The key a call in progress holds. -/
def CallPc.key : CallPc → Option (Fin packetsMapSize)
  | .idle => none
  | .reserved key _ | .dropping key _ | .checked key _ | .written key _ => some key

/-- The slot a call found free and has not committed. -/
def CallPc.claims : CallPc → Option (Fin packetsMapSize)
  | .checked key _ | .written key _ => some key
  | _ => none

/-- The packet's payload of a call in progress. -/
def CallPc.payload : CallPc → Option PingpongPayload
  | .idle => none
  | .reserved _ p | .dropping _ p | .checked _ p | .written _ p => some p

/-- Where the loop over `poll_next_payload` stands. -/
inductive ConsumerPc
  | polling
  | copying
  | clearing
deriving DecidableEq

/-- What the parties have done; `c` is the CPU of the call. -/
inductive Event
  | wrote (c : ℕ) (key : Fin packetsMapSize) (payload : PingpongPayload)
  | committed (c : ℕ) (key : Fin packetsMapSize) (payload : PingpongPayload)
  | dropped (c : ℕ) (payload : PingpongPayload)
  | copied (key : Fin packetsMapSize) (payload : PingpongPayload)
  | cleared (key : Fin packetsMapSize)
deriving DecidableEq

/-- The map, `lock->index`, the calls in progress and the consumer. -/
structure State where
  slots : Fin packetsMapSize → PingpongPayload
  index : Fin packetsMapSize
  calls : ℕ → CallPc
  nextMapIdx : Fin packetsMapSize
  destPayload : PingpongPayload
  consumer : ConsumerPc
  log : List Event

/-- One scheduler choice. -/
inductive Action
  | call (c : ℕ) (payload : PingpongPayload)
  | producer (c : ℕ)
  | consumer

def init : State where
  slots := fun _ => .zero
  index := 0
  calls := fun _ => .idle
  nextMapIdx := 0
  destPayload := .zero
  consumer := .polling
  log := []

/-- `valid_pingpong_payload` on a slot. -/
def State.slotValid (s : State) (k : Fin packetsMapSize) : Bool :=
  validPingpongPayload (s.slots k)

/-- The next program counter of the call on CPU `c`. -/
def State.setCall (s : State) (c : ℕ) (pc : CallPc) : State :=
  { s with calls := Function.update s.calls c pc }

/-- The next contents of slot `k`. -/
def State.setSlot (s : State) (k : Fin packetsMapSize) (p : PingpongPayload) : State :=
  { s with slots := Function.update s.slots k p }

def State.record (s : State) (e : Event) : State :=
  { s with log := s.log ++ [e] }

/-- The next step of the call in progress on CPU `c`. -/
def stepProducer (s : State) (c : ℕ) : Option State :=
  match s.calls c with
  | .idle => none
  | .reserved key p =>
      if s.slotValid key then some (s.setCall c (.dropping key p))
      else some (s.setCall c (.checked key p))
  | .dropping key p =>
      some (({ s with index := key }.setCall c .idle).record (.dropped c p))
  | .checked key p =>
      some (((s.setSlot key (clearCommitBit p)).setCall c (.written key p)).record
        (.wrote c key p))
  | .written key p =>
      some (((s.setSlot key (setCommitBit (s.slots key))).setCall c .idle).record
        (.committed c key p))

/-- The next step of the loop `next = poll_next_payload (map, dest, next)`. -/
def stepConsumer (s : State) : State :=
  match s.consumer with
  | .polling => if s.slotValid s.nextMapIdx then { s with consumer := .copying } else s
  | .copying =>
      { s with destPayload := s.slots s.nextMapIdx, consumer := .clearing }.record
        (.copied s.nextMapIdx (s.slots s.nextMapIdx))
  | .clearing =>
      { s.setSlot s.nextMapIdx .zero with
        nextMapIdx := s.nextMapIdx + 1, consumer := .polling }.record (.cleared s.nextMapIdx)

/-- The first locked section of a call on CPU `c`. -/
def reserve (s : State) (c : ℕ) (p : PingpongPayload) : State :=
  { s with index := s.index + 1 }.setCall c (.reserved s.index p)

/-- One step of the ring. -/
def step (s : State) : Action → Option State
  | .call c p =>
      match s.calls c with
      | .idle => if validPingpongPayload p then some (reserve s c p) else none
      | _ => none
  | .producer c => stepProducer s c
  | .consumer => some (stepConsumer s)

/-- Any number of producers and one consumer on a fresh map. -/
def ring : System State Action := ⟨init, step⟩

section Fields

variable (s : State) (c : ℕ) (pc : CallPc) (k : Fin packetsMapSize) (p : PingpongPayload)
  (e : Event)

/-- Moving a call on leaves all but its place. -/
@[simp] theorem setCall_slots : (s.setCall c pc).slots = s.slots := rfl
@[simp] theorem setCall_index : (s.setCall c pc).index = s.index := rfl
@[simp] theorem setCall_calls : (s.setCall c pc).calls = Function.update s.calls c pc := rfl
@[simp] theorem setCall_nextMapIdx : (s.setCall c pc).nextMapIdx = s.nextMapIdx := rfl
@[simp] theorem setCall_consumer : (s.setCall c pc).consumer = s.consumer := rfl
@[simp] theorem setCall_log : (s.setCall c pc).log = s.log := rfl

/-- Writing a slot leaves all but the slots. -/
@[simp] theorem setSlot_slots : (s.setSlot k p).slots = Function.update s.slots k p := rfl
@[simp] theorem setSlot_index : (s.setSlot k p).index = s.index := rfl
@[simp] theorem setSlot_calls : (s.setSlot k p).calls = s.calls := rfl
@[simp] theorem setSlot_nextMapIdx : (s.setSlot k p).nextMapIdx = s.nextMapIdx := rfl
@[simp] theorem setSlot_consumer : (s.setSlot k p).consumer = s.consumer := rfl
@[simp] theorem setSlot_log : (s.setSlot k p).log = s.log := rfl

/-- Recording an event leaves all but the log. -/
@[simp] theorem record_slots : (s.record e).slots = s.slots := rfl
@[simp] theorem record_index : (s.record e).index = s.index := rfl
@[simp] theorem record_calls : (s.record e).calls = s.calls := rfl
@[simp] theorem record_nextMapIdx : (s.record e).nextMapIdx = s.nextMapIdx := rfl
@[simp] theorem record_consumer : (s.record e).consumer = s.consumer := rfl
@[simp] theorem record_log : (s.record e).log = s.log ++ [e] := rfl

end Fields

/-- Everything a step can do. -/
inductive Stepped (s : State) : Action → State → Prop
  | call (c : ℕ) (p : PingpongPayload) : s.calls c = .idle → p.magic = pingpongMagic →
      Stepped s (.call c p) (reserve s c p)
  | full (c : ℕ) (key : Fin packetsMapSize) (p : PingpongPayload) :
      s.calls c = .reserved key p → s.slotValid key = true →
      Stepped s (.producer c) (s.setCall c (.dropping key p))
  | free (c : ℕ) (key : Fin packetsMapSize) (p : PingpongPayload) :
      s.calls c = .reserved key p → s.slotValid key = false →
      Stepped s (.producer c) (s.setCall c (.checked key p))
  | reset (c : ℕ) (key : Fin packetsMapSize) (p : PingpongPayload) :
      s.calls c = .dropping key p →
      Stepped s (.producer c) (({ s with index := key }.setCall c .idle).record (.dropped c p))
  | write (c : ℕ) (key : Fin packetsMapSize) (p : PingpongPayload) :
      s.calls c = .checked key p →
      Stepped s (.producer c)
        (((s.setSlot key (clearCommitBit p)).setCall c (.written key p)).record (.wrote c key p))
  | commit (c : ℕ) (key : Fin packetsMapSize) (p : PingpongPayload) :
      s.calls c = .written key p →
      Stepped s (.producer c)
        (((s.setSlot key (setCommitBit (s.slots key))).setCall c .idle).record
          (.committed c key p))
  | spin : s.consumer = .polling → s.slotValid s.nextMapIdx = false →
      Stepped s .consumer s
  | found : s.consumer = .polling → s.slotValid s.nextMapIdx = true →
      Stepped s .consumer { s with consumer := .copying }
  | copy : s.consumer = .copying →
      Stepped s .consumer
        ({ s with destPayload := s.slots s.nextMapIdx, consumer := .clearing }.record
          (.copied s.nextMapIdx (s.slots s.nextMapIdx)))
  | clear : s.consumer = .clearing →
      Stepped s .consumer
        ({ s.setSlot s.nextMapIdx .zero with
            nextMapIdx := s.nextMapIdx + 1, consumer := .polling }.record
          (.cleared s.nextMapIdx))

/-- **The inversion of a step.** -/
theorem step_cases {s t : State} {a : Action} (h : step s a = some t) : Stepped s a t := by
  cases a with
  | call c p =>
      cases hc : s.calls c <;> simp only [step, hc] at h <;> try cases h
      split at h <;> cases h
      rename_i hp
      exact .call c p hc (validPingpongPayload_iff.1 hp)
  | producer c =>
      simp only [step, stepProducer] at h
      cases hc : s.calls c <;> simp only [hc] at h
      case idle => cases h
      case reserved key p =>
        split at h <;> cases h
        · exact .full c key p hc ‹_›
        · exact .free c key p hc (Bool.eq_false_iff.2 ‹_›)
      case dropping key p => cases h; exact .reset c key p hc
      case checked key p => cases h; exact .write c key p hc
      case written key p => cases h; exact .commit c key p hc
  | consumer =>
      simp only [step, stepConsumer] at h
      cases hc : s.consumer <;> simp only [hc] at h
      case polling =>
        split at h <;> cases h
        · exact .found hc ‹_›
        · exact .spin hc (Bool.eq_false_iff.2 ‹_›)
      case copying => cases h; exact .copy hc
      case clearing => cases h; exact .clear hc

/-! ### Program counters that change -/

section Calls

variable {s : State} {c c' : ℕ} {pc : CallPc} {k : Fin packetsMapSize} {p : PingpongPayload}

/-- A call moves on and holds what it held; the others do not move.  `f` is the
key, the claimed slot or the payload of a call. -/
theorem proj_update {β : Type*} {f : CallPc → β} (h : f pc = f (s.calls c)) (c' : ℕ) :
    f (Function.update s.calls c pc c') = f (s.calls c') := by
  by_cases hc : c' = c
  · subst hc
    rw [Function.update_self, h]
  · rw [Function.update_of_ne hc]

/-- A call that ends holds nothing; the others hold what they held. -/
theorem of_update_idle {β : Type*} {f : CallPc → Option β} (hf : f .idle = none) {b : β}
    (h : f (Function.update s.calls c .idle c') = some b) :
    c' ≠ c ∧ f (s.calls c') = some b := by
  by_cases hc : c' = c
  · subst hc
    rw [Function.update_self, hf] at h
    cases h
  · rw [Function.update_of_ne hc] at h
    exact ⟨hc, h⟩

/-- A call that has written is not the one that is now idle. -/
theorem written_of_update_idle
    (h : Function.update s.calls c .idle c' = .written k p) :
    c' ≠ c ∧ s.calls c' = .written k p := by
  have hne := (of_update_idle (f := CallPc.key) rfl (c := c) (by rw [h]; rfl)).1
  exact ⟨hne, by rwa [Function.update_of_ne hne] at h⟩

/-- A step of a call from and to a place other than `written` writes nothing. -/
theorem written_update_iff (h : ∀ k p, s.calls c ≠ .written k p) (h' : ∀ k p, pc ≠ .written k p) :
    Function.update s.calls c pc c' = .written k p ↔ s.calls c' = .written k p := by
  by_cases hc : c' = c
  · subst hc
    rw [Function.update_self]
    exact iff_of_false (h' k p) (h k p)
  · rw [Function.update_of_ne hc]

end Calls

/-! ### Calls that run alone -/

/-- A call that finds its slot free and is not interrupted stores its payload
there and moves the index on. -/
theorem exists_push (s : State) {c : ℕ} {p : PingpongPayload} (hc : s.calls c = .idle)
    (hp : p.magic = pingpongMagic) (hfree : s.slotValid s.index = false) :
    ∃ t, ring.RunIf (fun _ _ => True) s t ∧ t.calls = s.calls ∧ t.index = s.index + 1 ∧
      t.nextMapIdx = s.nextMapIdx ∧ t.consumer = s.consumer ∧
      t.slots = Function.update s.slots s.index p ∧
      t.log = s.log ++ [.wrote c s.index p, .committed c s.index p] := by
  let s₁ := reserve s c p
  let s₂ := s₁.setCall c (.checked s.index p)
  let s₃ := ((s₂.setSlot s.index (clearCommitBit p)).setCall c (.written s.index p)).record
    (.wrote c s.index p)
  let s₄ := ((s₃.setSlot s.index (setCommitBit (s₃.slots s.index))).setCall c .idle).record
    (.committed c s.index p)
  have hv : validPingpongPayload p = true := validPingpongPayload_iff.2 hp
  have h₁ : ring.step s (.call c p) = some s₁ := by
    simp only [ring, step, hc, hv, if_true, s₁]
  have h₂ : ring.step s₁ (.producer c) = some s₂ := by
    have hc₁ : s₁.calls c = .reserved s.index p := Function.update_self ..
    have hf₁ : s₁.slotValid s.index = false := hfree
    simp only [ring, step, stepProducer, hc₁, hf₁, Bool.false_eq_true, if_false, s₂]
  have h₃ : ring.step s₂ (.producer c) = some s₃ := by
    have hc₂ : s₂.calls c = .checked s.index p := Function.update_self ..
    simp only [ring, step, stepProducer, hc₂, s₃]
  have h₄ : ring.step s₃ (.producer c) = some s₄ := by
    have hc₃ : s₃.calls c = .written s.index p := Function.update_self ..
    simp only [ring, step, stepProducer, hc₃, s₄]
  refine ⟨s₄, (((System.RunIf.refl.tail trivial h₁).tail trivial h₂).tail trivial h₃).tail
    trivial h₄, ?_, rfl, rfl, rfl, ?_, ?_⟩
  · simp [s₄, s₃, s₂, s₁, reserve, Function.update_idem, ← hc]
  · simp [s₄, s₃, s₂, s₁, reserve, setCommitBit_clearCommitBit hp]
  · simp [s₄, s₃, s₂, s₁, reserve]

/-- CPU `c` fills `n` free slots in a row from the index on. -/
theorem exists_fill (s : State) {c : ℕ} {p : PingpongPayload} (hc : s.calls c = .idle)
    (hp : p.magic = pingpongMagic) {m : ℕ} (hm : s.index = pos packetsMapSize m) (n : ℕ)
    (hn : n ≤ packetsMapSize)
    (hfree : ∀ j < n, s.slotValid (pos packetsMapSize (m + j)) = false) :
    ∃ t, ring.RunIf (fun _ _ => True) s t ∧ t.calls = s.calls ∧
      t.index = pos packetsMapSize (m + n) ∧ t.nextMapIdx = s.nextMapIdx ∧
      t.consumer = s.consumer ∧ (∀ j < n, t.slots (pos packetsMapSize (m + j)) = p) ∧
      (∀ k, (∀ j < n, pos packetsMapSize (m + j) ≠ k) → t.slots k = s.slots k) := by
  induction n with
  | zero =>
      exact ⟨s, .refl, rfl, hm, rfl, rfl, fun j hj => absurd hj (Nat.not_lt_zero j),
        fun _ _ => rfl⟩
  | succ n ih =>
      obtain ⟨t, hrun, hcalls, hidx, hnext, hcons, hset, hkeep⟩ :=
        ih (by omega) fun j hj => hfree j (by omega)
      have hne : ∀ j < n, pos packetsMapSize (m + j) ≠ pos packetsMapSize (m + n) :=
        fun j hj he => absurd
          (pos_inj (K := m) (by omega) (by omega) (by omega) (by omega) he) (by omega)
      have hfree' : t.slotValid t.index = false := by
        rw [hidx, State.slotValid, hkeep _ hne]
        exact hfree n (Nat.lt_succ_self n)
      obtain ⟨u, hrun', hcalls', hidx', hnext', hcons', hslots, -⟩ :=
        exists_push t (hcalls ▸ hc) hp hfree'
      refine ⟨u, hrun.trans hrun', hcalls'.trans hcalls, ?_, hnext'.trans hnext,
        hcons'.trans hcons, fun j hj => ?_, fun k hk => ?_⟩
      · rw [hidx', hidx, ← pos_succ, Nat.add_assoc]
      · rw [hslots, hidx]
        rcases Nat.lt_succ_iff_lt_or_eq.1 hj with hlt | rfl
        · rw [Function.update_of_ne (hne j hlt), hset j hlt]
        · exact Function.update_self ..
      · rw [hslots, hidx, Function.update_of_ne (hk n (Nat.lt_succ_self n)).symm]
        exact hkeep k fun j hj => hk j (by omega)

end Slot
end Xdp
end DetBypass
