/-
# The XDP-poll ring, word by word

`xdp/pingpong.c` (`add_packet_to_map`) and `xdp/pp_poll.c`
(`poll_next_payload`) share the mmap'ed array map `last_payload` of
`PACKETS_MAP_SIZE` payloads.  Nothing locks a slot: the XDP program reserves an
index under `lck`, checks that the slot is free, copies the payload with the
last bit of its magic cleared and sets that bit at the end; the polling side
waits for the magic, copies the slot out and zeroes it.

This is the machine of one producer and one consumer at the grain the memory
sees.  A slot is six 8-byte words, and each of the following is one step of
`ring`: the locked section that reserves an index, the full-check, each word
store of `*old_payload = *payload`, the commit `magic |= 1`, the locked section
that takes the index back after a drop; the magic check of `BUSY_WAIT`, each
word load of `memcpy` and each word store of `memset`, in ascending order.

`accepted`, `dropped`, `copied` and `cleared` are history: no step reads them.
A dropped payload is recorded with the number of payloads that were accepted
and not yet cleared when its full-check failed.
-/

import DetBypass.Common.Payload
import DetBypass.Lib.Cyclic
import DetBypass.Lib.Transition

namespace DetBypass
namespace Xdp

open Lib PingpongPayload

/-- `PACKETS_MAP_SIZE`. -/
def packetsMapSize : ℕ := 128

instance : NeZero packetsMapSize := ⟨by decide⟩

/-- `payload->magic & 0xFFFFFFFE`: the payload as it is written to the slot. -/
def clearCommitBit (p : PingpongPayload) : PingpongPayload :=
  { p with magic := p.magic &&& 0xFFFFFFFE }

/-- `old_payload->magic |= 1`. -/
def setCommitBit (p : PingpongPayload) : PingpongPayload :=
  { p with magic := p.magic ||| 1 }

/-- Without its commit bit a magic is not valid. -/
theorem clearCommitBit_not_valid {p : PingpongPayload} (hp : p.magic = pingpongMagic) :
    (clearCommitBit p).magic ≠ pingpongMagic := by
  simp only [clearCommitBit, hp]
  decide

/-- **The commit restores the packet's payload**, bit for bit. -/
theorem setCommitBit_clearCommitBit {p : PingpongPayload} (hp : p.magic = pingpongMagic) :
    setCommitBit (clearCommitBit p) = p := by
  refine PingpongPayload.ext rfl rfl rfl ?_
  simp only [setCommitBit, clearCommitBit, hp]
  decide

/-- Only the last word differs before the commit. -/
theorem words_clearCommitBit {p : PingpongPayload} {w : Fin 6} (hw : w ≠ 5) :
    (clearCommitBit p).words w = p.words w :=
  words_magic_ne p _ hw

namespace Word

/-- Where a call of `add_packet_to_map` stands; `payload` is the packet's. -/
inductive ProducerPc
  | idle
  | reserved (key : Fin packetsMapSize) (payload : PingpongPayload)
  | dropping (key : Fin packetsMapSize) (payload : PingpongPayload) (pending : ℕ)
  | writing (key : Fin packetsMapSize) (payload : PingpongPayload) (w : Fin 6)
  | committing (key : Fin packetsMapSize) (payload : PingpongPayload)

/-- Where the loop over `poll_next_payload` stands. -/
inductive ConsumerPc
  | polling
  | copying (w : Fin 6)
  | clearing (w : Fin 6)

/-- The map, `lock->index`, `next_map_idx` and the two program counters. -/
structure State where
  slots : Fin packetsMapSize → Fin 6 → UInt64
  index : Fin packetsMapSize
  producer : ProducerPc
  nextMapIdx : Fin packetsMapSize
  destPayload : Fin 6 → UInt64
  consumer : ConsumerPc
  accepted : List PingpongPayload
  dropped : List (PingpongPayload × ℕ)
  copied : List PingpongPayload
  cleared : ℕ

/-- One scheduler choice: a packet reaches `add_packet_to_map`, or one of the
two sides takes its next step. -/
inductive Action
  | call (payload : PingpongPayload)
  | producer
  | consumer

/-- A freshly created array map is zeroed. -/
def init : State where
  slots := fun _ _ => 0
  index := 0
  producer := .idle
  nextMapIdx := 0
  destPayload := fun _ => 0
  consumer := .polling
  accepted := []
  dropped := []
  copied := []
  cleared := 0

/-- `valid_pingpong_payload` on a slot: the load of `magic` and the test. -/
def State.slotValid (s : State) (k : Fin packetsMapSize) : Bool :=
  wordMagic (s.slots k 5) == pingpongMagic

/-- The store of one word of a slot. -/
def State.store (s : State) (k : Fin packetsMapSize) (w : Fin 6) (v : UInt64) : State :=
  { s with slots := Function.update s.slots k (Function.update (s.slots k) w v) }

/-- The word after `w`, if there is one. -/
def nextWord (w : Fin 6) : Option (Fin 6) :=
  if h : w.val + 1 < 6 then some ⟨w.val + 1, h⟩ else none

/-- The first locked section of `add_packet_to_map`. -/
def reserve (s : State) (p : PingpongPayload) : State :=
  { s with index := s.index + 1, producer := .reserved s.index p }

/-- The next step of a call of `add_packet_to_map`. -/
def stepProducer (s : State) : Option State :=
  match s.producer with
  | .idle => none
  | .reserved key p =>
      if s.slotValid key then
        some { s with producer := .dropping key p (s.accepted.length - s.cleared) }
      else
        some { s with producer := .writing key p 0 }
  | .dropping key p pending =>
      some { s with index := key, producer := .idle, dropped := s.dropped ++ [(p, pending)] }
  | .writing key p w =>
      let s' := s.store key w ((clearCommitBit p).words w)
      match nextWord w with
      | some w' => some { s' with producer := .writing key p w' }
      | none => some { s' with producer := .committing key p }
  | .committing key p =>
      let v := s.slots key 5
      some { s.store key 5 (packWord (wordPhase v) (wordMagic v ||| 1)) with
        producer := .idle, accepted := s.accepted ++ [p] }

/-- The next step of the loop `next = poll_next_payload (map, dest, next)`. -/
def stepConsumer (s : State) : State :=
  match s.consumer with
  | .polling =>
      if s.slotValid s.nextMapIdx then { s with consumer := .copying 0 } else s
  | .copying w =>
      let dest := Function.update s.destPayload w (s.slots s.nextMapIdx w)
      match nextWord w with
      | some w' => { s with destPayload := dest, consumer := .copying w' }
      | none => { s with destPayload := dest, consumer := .clearing 0,
                         copied := s.copied ++ [ofWords dest] }
  | .clearing w =>
      let s' := s.store s.nextMapIdx w 0
      match nextWord w with
      | some w' => { s' with consumer := .clearing w' }
      | none => { s' with consumer := .polling, nextMapIdx := s.nextMapIdx + 1,
                          cleared := s.cleared + 1 }

/-- One step of the ring.  Only payloads that passed `valid_pingpong_payload`
reach `add_packet_to_map`, one at a time. -/
def step (s : State) : Action → Option State
  | .call p =>
      match s.producer with
      | .idle => if validPingpongPayload p then some (reserve s p) else none
      | _ => none
  | .producer => stepProducer s
  | .consumer => some (stepConsumer s)

/-- One producer and one consumer on a fresh map. -/
def ring : System State Action := ⟨init, step⟩

end Word

end Xdp
end DetBypass
