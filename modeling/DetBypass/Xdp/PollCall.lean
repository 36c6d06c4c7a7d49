/-
# A call of `add_packet_to_map` in the ring

`addPacketToMap` runs a whole call on the bytes of a packet and of the map, the
ring takes it apart into the steps that a polling thread can see.  Without such a
thread between them the steps come to the same: an idle producer, given the
payload of the packet, drops it in two steps or accepts it in eight
(`exec_dropped`, `exec_accepted`), and leaves the slots and the index that the
call leaves (`addPacketToMap_exec`).
-/

import DetBypass.Xdp.PollPacket
import DetBypass.Xdp.PollRingFifo

namespace DetBypass
namespace Xdp

open Lib Memory PingpongPayload

namespace Word

variable {s : State} {p : PingpongPayload}

/-- The six word stores, one after another. -/
theorem update_six (slot v : Fin 6 → UInt64) :
    Function.update (Function.update (Function.update (Function.update (Function.update
      (Function.update slot 0 (v 0)) 1 (v 1)) 2 (v 2)) 3 (v 3)) 4 (v 4)) 5 (v 5) = v := by
  funext w
  fin_cases w <;> rfl

/-- The index is taken and given back. -/
theorem exec_dropped (hidle : s.producer = .idle) (hp : validPingpongPayload p = true)
    (hfull : s.slotValid s.index = true) :
    ring.exec s (.call p :: List.replicate 2 .producer) =
      some { s with dropped := s.dropped ++ [(p, s.accepted.length - s.cleared)] } := by
  obtain ⟨slots, index, producer, next, dest, consumer, accepted, dropped, copied, cleared⟩ := s
  subst hidle
  have hmagic : wordMagic (slots index 5) = pingpongMagic := beq_iff_eq.1 hfull
  simp [System.exec, System.execIf, List.replicate, ring, step, stepProducer, reserve,
    State.slotValid, hp, hmagic]

/-- The check, six stores and the commit. -/
theorem exec_accepted (hidle : s.producer = .idle) (hp : validPingpongPayload p = true)
    (hfree : s.slotValid s.index = false) :
    ring.exec s (.call p :: List.replicate 8 .producer) = some { s with
      slots := Function.update s.slots s.index p.words
      index := s.index + 1
      accepted := s.accepted ++ [p] } := by
  obtain ⟨slots, index, producer, next, dest, consumer, accepted, dropped, copied, cleared⟩ := s
  subst hidle
  have hmagic : wordMagic (slots index 5) ≠ pingpongMagic := ne_of_beq_false hfree
  have hlast : packWord (clearCommitBit p).phase ((clearCommitBit p).magic ||| 1) =
      packWord p.phase p.magic :=
    congrArg (fun q : PingpongPayload => packWord q.phase q.magic)
      (setCommitBit_clearCommitBit (validPingpongPayload_iff.1 hp))
  have hsix := update_six (slots index) p.words
  rw [words_five] at hsix
  simp [System.exec, System.execIf, List.replicate, ring, step, stepProducer, nextWord,
    State.store, reserve, State.slotValid, hp, hmagic, hlast, words_clearCommitBit, hsix]

end Word

namespace Poll

variable {maps : Maps} {s : Word.State} {data : Memory} {off : ℕ}

/-- The maps are those of a state of the ring. -/
structure Maps.Holds (maps : Maps) (s : Word.State) : Prop where
  index : maps.index.toNat = s.index.val
  slots : ∀ k : Fin packetsMapSize, readPayload maps.lastPayload (48 * k) = ofWords (s.slots k)

/-- The slot of the current index, 48 bytes each. -/
theorem Maps.Holds.slot_eq (h : maps.Holds s) : slot maps.index = 48 * s.index := by
  rw [slot, h.index]

/-- The current index is one of the ring. -/
theorem Maps.Holds.index_lt (h : maps.Holds s) : maps.index.toNat < packetsMapSize :=
  h.index ▸ s.index.isLt

/-- Both tests are of the same slot. -/
theorem Maps.Holds.valid_eq (h : maps.Holds s) :
    validPingpongPayload (readPayload maps.lastPayload (slot maps.index)) =
      s.slotValid s.index := by
  rw [h.slot_eq, h.slots]
  rfl

/-- `(index + 1) % PACKETS_MAP_SIZE` of an index in the map. -/
theorem toNat_next {index : UInt32} {k : Fin packetsMapSize} (h : index.toNat = k.val) :
    ((index + 1) % UInt32.ofNat packetsMapSize).toNat = (k + 1).val := by
  have hk : k.val < 128 := k.isLt
  have hnext : (k + 1).val = (k.val + 1) % 128 := Fin.val_add k 1
  have hsum : (index + 1).toNat = (index.toNat + 1) % 2 ^ 32 := UInt32.toNat_add ..
  rw [hnext, UInt32.toNat_mod, hsum, h]
  show (k.val + 1) % 2 ^ 32 % 128 = _
  omega

/-- **A call is a run of the producer**: what it leaves in the maps is what the
ring holds when the producer is idle again, and it succeeds exactly if the payload
is accepted. -/
theorem addPacketToMap_exec (h : maps.Holds s) (hidle : s.producer = .idle)
    (hvalid : validPingpongPayload (readPayload data off) = true) :
    ∃ n t, Word.ring.exec s (.call (readPayload data off) :: List.replicate n .producer) = some t ∧
      t.producer = .idle ∧ (addPacketToMap maps data off).2.1.Holds t ∧
      t.accepted = if (addPacketToMap maps data off).1 = 0 then
        s.accepted ++ [readPayload data off] else s.accepted := by
  cases hslot : s.slotValid s.index with
  | false =>
      have hfree : maps.Free := ⟨h.index_lt, h.valid_eq.trans hslot⟩
      obtain ⟨hzero, hadded, hother⟩ := addPacketToMap_of_free hfree hvalid
      refine ⟨8, _, Word.exec_accepted hidle hvalid hslot, hidle, ⟨?_, fun k => ?_⟩,
        (if_pos hzero).symm⟩
      · unfold addPacketToMap
        rw [if_neg (Nat.not_le.2 hfree.1), if_neg (by rw [hfree.2]; decide)]
        exact toNat_next h.index
      · by_cases hk : k = s.index
        · rw [hk, ← h.slot_eq, hadded]
          show _ = ofWords (Function.update s.slots s.index _ s.index)
          rw [Function.update_self, ofWords_words]
        · have hne : k.val ≠ s.index.val := fun he => hk (Fin.ext he)
          have hsame : ofWords (Function.update s.slots s.index (readPayload data off).words k) =
              ofWords (s.slots k) := by
            rw [Function.update_of_ne hk]
          refine Eq.trans ?_ ((h.slots k).trans hsame.symm)
          refine readPayload_congr fun i hi => hother _ ?_
          rw [h.slot_eq]
          omega
  | true =>
      have hcall : addPacketToMap maps data off = (-1, maps, data) := by
        unfold addPacketToMap
        rw [if_neg (Nat.not_le.2 h.index_lt), if_pos (h.valid_eq.trans hslot)]
      rw [hcall]
      exact ⟨2, _, Word.exec_dropped hidle hvalid hslot, hidle, ⟨h.index, h.slots⟩,
        (if_neg (show ¬ (-1 : ℤ) = 0 by decide)).symm⟩

end Poll
end Xdp
end DetBypass
