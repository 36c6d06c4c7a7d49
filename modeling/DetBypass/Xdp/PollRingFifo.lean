/-
# The ring of one producer and one consumer is a FIFO queue

`Word.ring` counts: `A` payloads accepted, `K` cleared.  The invariant `Inv`
says what the slots hold in those terms.  The slots of the counts `K ≤ j < A`
hold the accepted payloads word for word, but for the words of the front slot
that `memset` has reached; the other slots are not valid; `next_map_idx` is the
slot of `K` and the producer's key the slot of `A`.  A slot stays valid until
`memset` stores its last word, which is where the magic is, and a word the
producer stores carries no valid magic before the commit: that is why neither
side ever sees the other's half of the work.

From it, in every state any interleaving reaches, the payloads copied out are a
prefix of the accepted ones, and a drop means that `PACKETS_MAP_SIZE` accepted
payloads had not been cleared (`copied_prefix_accepted`).
-/

import DetBypass.Xdp.PollRing

namespace DetBypass
namespace Xdp
namespace Word

open Lib PingpongPayload

variable {s t : State} {p : PingpongPayload} {key : Fin packetsMapSize}

/-- The words of the front slot that `memset` has not reached. -/
def State.intact (s : State) (w : Fin 6) : Prop :=
  ∀ v, s.consumer = .clearing v → v ≤ w

/-- What the producer's program counter promises: its key is the slot after the
accepted payloads, and what it has stored there is the payload without its
commit bit. -/
def ProducerInv (s : State) : Prop :=
  match s.producer with
  | .idle => s.index = pos packetsMapSize s.accepted.length
  | .reserved key p =>
      key = pos packetsMapSize s.accepted.length ∧
        s.index = pos packetsMapSize (s.accepted.length + 1) ∧ p.magic = pingpongMagic
  | .dropping key _ pending =>
      key = pos packetsMapSize s.accepted.length ∧ pending = packetsMapSize
  | .writing key p w =>
      key = pos packetsMapSize s.accepted.length ∧
        s.index = pos packetsMapSize (s.accepted.length + 1) ∧ p.magic = pingpongMagic ∧
        s.accepted.length < s.cleared + packetsMapSize ∧
        ∀ v < w, s.slots key v = (clearCommitBit p).words v
  | .committing key p =>
      key = pos packetsMapSize s.accepted.length ∧
        s.index = pos packetsMapSize (s.accepted.length + 1) ∧ p.magic = pingpongMagic ∧
        s.accepted.length < s.cleared + packetsMapSize ∧
        s.slots key = (clearCommitBit p).words

/-- What the consumer's program counter promises. -/
def ConsumerInv (s : State) : Prop :=
  match s.consumer with
  | .polling => s.copied = s.accepted.take s.cleared
  | .copying w =>
      s.copied = s.accepted.take s.cleared ∧ ∃ p, s.accepted[s.cleared]? = some p ∧
        ∀ v < w, s.destPayload v = p.words v
  | .clearing _ =>
      s.copied = s.accepted.take (s.cleared + 1) ∧ s.cleared < s.accepted.length

/-- The invariant of the ring. -/
structure Inv (s : State) : Prop where
  le : s.cleared ≤ s.accepted.length
  room : s.accepted.length ≤ s.cleared + packetsMapSize
  next : s.nextMapIdx = pos packetsMapSize s.cleared
  valid : ∀ p ∈ s.accepted, p.magic = pingpongMagic
  stored : ∀ j p, s.cleared ≤ j → s.accepted[j]? = some p → ∀ w,
    (j = s.cleared → s.intact w) → s.slots (pos packetsMapSize j) w = p.words w
  free : ∀ j, s.accepted.length ≤ j → j < s.cleared + packetsMapSize →
    s.slotValid (pos packetsMapSize j) = false
  producer : ProducerInv s
  consumer : ConsumerInv s
  drops : ∀ d ∈ s.dropped, d.2 = packetsMapSize

/-- A slot is valid by the magic in its last word. -/
theorem slotValid_iff {k : Fin packetsMapSize} :
    s.slotValid k = true ↔ wordMagic (s.slots k 5) = pingpongMagic := by
  simp [State.slotValid]

/-- A store to a slot changes its word. -/
theorem store_slots_self (s : State) (k : Fin packetsMapSize) (w : Fin 6) (v : UInt64) :
    (s.store k w v).slots k = Function.update (s.slots k) w v :=
  Function.update_self ..

/-- The other slots are left. -/
theorem store_slots_ne {k l : Fin packetsMapSize} (h : l ≠ k) (w : Fin 6) (v : UInt64) :
    (s.store k w v).slots l = s.slots l :=
  Function.update_of_ne h ..

/-- The last word is the sixth. -/
theorem nextWord_eq_none {w : Fin 6} : nextWord w = none ↔ w = 5 := by
  fin_cases w <;> decide

/-- The words before the next word are the words before this one and this one. -/
theorem lt_nextWord {w w' v : Fin 6} (h : nextWord w = some w') (hv : v < w') :
    v < w ∨ v = w := by
  simp only [nextWord] at h
  split at h
  · cases h
    rw [Fin.lt_def] at hv ⊢
    rw [Fin.ext_iff]
    simp only at hv
    omega
  · cases h

/-- Words are written in order. -/
theorem le_of_nextWord_le {w w' v : Fin 6} (h : nextWord w = some w') (hv : w' ≤ v) :
    w < v := by
  simp only [nextWord] at h
  split at h
  · cases h
    rw [Fin.le_def] at hv
    rw [Fin.lt_def]
    simp only at hv
    omega
  · cases h

/-- The slots of the accepted payloads that are not cleared are valid: the word
with the magic is the last one `memset` reaches. -/
theorem Inv.slotValid_of_lt (h : Inv s) {j : ℕ} (hj : s.cleared ≤ j)
    (hj' : j < s.accepted.length) : s.slotValid (pos packetsMapSize j) = true := by
  rw [slotValid_iff, h.stored j s.accepted[j] hj (List.getElem?_eq_getElem hj') 5
    fun _ v _ => Fin.le_last v, words_five, wordMagic_packWord]
  exact h.valid _ (List.getElem_mem hj')

/-- **A full-check fails only on a full ring.** -/
theorem Inv.full_of_slotValid (h : Inv s)
    (hv : s.slotValid (pos packetsMapSize s.accepted.length) = true) :
    s.accepted.length = s.cleared + packetsMapSize := by
  by_contra hne
  have := h.free s.accepted.length le_rfl (lt_of_le_of_ne h.room hne)
  rw [this] at hv
  cases hv

/-- On a full ring every slot is valid. -/
theorem Inv.slotValid_of_full (h : Inv s)
    (hfull : s.accepted.length = s.cleared + packetsMapSize) (k : Fin packetsMapSize) :
    s.slotValid k = true := by
  obtain ⟨j, hj, hj', rfl⟩ := exists_pos s.cleared k
  exact h.slotValid_of_lt hj (by omega)

/-- The producer's slot holds no accepted payload while it has room to write. -/
theorem pos_ne_key {K A j : ℕ} (hj : K ≤ j) (hjA : j < A) (hroom : A < K + packetsMapSize) :
    pos packetsMapSize j ≠ pos packetsMapSize A := fun h =>
  absurd (pos_inj hj (by omega) (by omega) hroom h) (by omega)

/-- The ring before the first packet. -/
theorem inv_init : Inv init where
  le := le_rfl
  room := Nat.zero_le _
  next := pos_zero.symm
  valid := by simp [init]
  stored := by simp [init]
  free j _ _ := by
    rw [Bool.eq_false_iff, Ne, slotValid_iff]
    change ¬ wordMagic 0 = pingpongMagic
    decide
  producer := pos_zero.symm
  consumer := rfl
  drops := by simp [init]

/-- What the producer relies on: its own slot, and room that only grows. -/
theorem ProducerInv.frame (h : ProducerInv s) (hpc : t.producer = s.producer)
    (hidx : t.index = s.index) (hacc : t.accepted = s.accepted) (hle : s.cleared ≤ t.cleared)
    (hslot : s.accepted.length < s.cleared + packetsMapSize →
      t.slots (pos packetsMapSize s.accepted.length) =
        s.slots (pos packetsMapSize s.accepted.length)) : ProducerInv t := by
  unfold ProducerInv at h ⊢
  rw [hpc, hidx, hacc]
  cases hs : s.producer with
  | idle => simpa only [hs] using h
  | reserved key p => simpa only [hs] using h
  | dropping key p pending => simpa only [hs] using h
  | writing key p w =>
      simp only [hs] at h ⊢
      obtain ⟨hkey, hidx, hp, hroom, hdone⟩ := h
      refine ⟨hkey, hidx, hp, by omega, fun v hv => ?_⟩
      rw [hkey, hslot hroom, ← hkey]
      exact hdone v hv
  | committing key p =>
      simp only [hs] at h ⊢
      obtain ⟨hkey, hidx, hp, hroom, hdone⟩ := h
      refine ⟨hkey, hidx, hp, by omega, ?_⟩
      rw [hkey, hslot hroom, ← hkey]
      exact hdone

/-- What the consumer relies on is kept when a payload is accepted. -/
theorem ConsumerInv.accept (h : ConsumerInv s) (hle : s.cleared ≤ s.accepted.length)
    (hpc : t.consumer = s.consumer) (hacc : t.accepted = s.accepted ++ [p])
    (hcop : t.copied = s.copied) (hclr : t.cleared = s.cleared)
    (hdest : t.destPayload = s.destPayload) : ConsumerInv t := by
  unfold ConsumerInv at h ⊢
  rw [hpc, hacc, hcop, hclr, hdest]
  cases hs : s.consumer with
  | polling =>
      simp only [hs] at h ⊢
      rw [List.take_append_of_le_length hle, h]
  | copying w =>
      simp only [hs] at h ⊢
      obtain ⟨hcop, q, hq, hdone⟩ := h
      refine ⟨by rw [List.take_append_of_le_length hle, hcop], q, ?_, hdone⟩
      rw [List.getElem?_append_left (List.getElem?_eq_some_iff.1 hq).1, hq]
  | clearing w =>
      simp only [hs] at h ⊢
      obtain ⟨hcop, hlt⟩ := h
      refine ⟨by rw [List.take_append_of_le_length hlt, hcop], ?_⟩
      rw [List.length_append]
      omega

/-! ### The producer's steps -/

/-- **Reserving a slot** keeps the ring. -/
theorem Inv.reserve (h : Inv s) (hs : s.producer = .idle) (hp : p.magic = pingpongMagic) :
    Inv (reserve s p) := by
  have hidx : s.index = pos packetsMapSize s.accepted.length := by
    simpa only [ProducerInv, hs] using h.producer
  have hidx' : s.index + 1 = pos packetsMapSize (s.accepted.length + 1) := by
    rw [pos_succ, hidx]
  exact { h with producer := ⟨hidx, hidx', hp⟩ }

/-- The full-check: on a full ring the call drops its payload, otherwise it has
room to write. -/
theorem Inv.check (h : Inv s) (hs : s.producer = .reserved key p)
    (ht : stepProducer s = some t) : Inv t := by
  obtain ⟨hkey, hidx, hp⟩ :
      key = pos packetsMapSize s.accepted.length ∧
        s.index = pos packetsMapSize (s.accepted.length + 1) ∧ p.magic = pingpongMagic := by
    simpa only [ProducerInv, hs] using h.producer
  simp only [stepProducer, hs] at ht
  split at ht <;> cases ht
  · rename_i hv
    have hfull := h.full_of_slotValid (hkey ▸ hv)
    exact { h with producer := ⟨hkey, by omega⟩ }
  · rename_i hv
    have hne : s.accepted.length ≠ s.cleared + packetsMapSize := fun hfull =>
      hv (h.slotValid_of_full hfull key)
    exact { h with producer :=
      ⟨hkey, hidx, hp, lt_of_le_of_ne h.room hne, fun v hv => absurd hv (Fin.not_lt_zero v)⟩ }

/-- The index goes back to the slot the dropped payload had reserved. -/
theorem Inv.drop (h : Inv s) {pending : ℕ} (hs : s.producer = .dropping key p pending)
    (ht : stepProducer s = some t) : Inv t := by
  obtain ⟨hkey, hpending⟩ :
      key = pos packetsMapSize s.accepted.length ∧ pending = packetsMapSize := by
    simpa only [ProducerInv, hs] using h.producer
  simp only [stepProducer, hs, Option.some.injEq] at ht
  subst ht
  refine { h with producer := hkey, drops := fun d hd => ?_ }
  rcases List.mem_append.1 hd with hd | hd
  · exact h.drops d hd
  · rw [List.mem_singleton.1 hd, hpending]

/-- A store to the producer's own slot that leaves it without a valid magic. -/
theorem Inv.store_key (h : Inv s) (hkey : key = pos packetsMapSize s.accepted.length)
    (hroom : s.accepted.length < s.cleared + packetsMapSize) {w : Fin 6} {v : UInt64}
    (hv : w = 5 → wordMagic v ≠ pingpongMagic) {pc : ProducerPc}
    (hpc : ProducerInv { s.store key w v with producer := pc }) :
    Inv { s.store key w v with producer := pc } := by
  have hne : ∀ j, s.cleared ≤ j → j < s.accepted.length → pos packetsMapSize j ≠ key :=
    fun j hj hj' => hkey ▸ pos_ne_key hj hj' hroom
  refine { h with producer := hpc, stored := fun j p hj hp w' hw' => ?_,
                  free := fun j hj hj' => ?_ }
  · have hlt : j < s.accepted.length := (List.getElem?_eq_some_iff.1 hp).1
    change (s.store key w v).slots _ _ = _
    rw [store_slots_ne (hne j hj hlt)]
    exact h.stored j p hj hp w' hw'
  · have hfree := h.free j hj hj'
    rw [Bool.eq_false_iff, Ne, slotValid_iff] at hfree ⊢
    change wordMagic ((s.store key w v).slots _ 5) ≠ _
    by_cases hk : pos packetsMapSize j = key
    · rw [hk, store_slots_self]
      by_cases hw : w = 5
      · subst hw
        rw [Function.update_self]
        exact hv rfl
      · rw [Function.update_of_ne (Ne.symm hw), ← hk]
        exact hfree
    · rw [store_slots_ne hk]
      exact hfree

/-- A word stored on the way to the next one, or to the commit. -/
theorem Inv.write (h : Inv s) {w : Fin 6} (hs : s.producer = .writing key p w)
    (ht : stepProducer s = some t) : Inv t := by
  obtain ⟨hkey, hidx, hp, hroom, hdone⟩ :
      key = pos packetsMapSize s.accepted.length ∧
        s.index = pos packetsMapSize (s.accepted.length + 1) ∧ p.magic = pingpongMagic ∧
        s.accepted.length < s.cleared + packetsMapSize ∧
        ∀ v < w, s.slots key v = (clearCommitBit p).words v := by
    simpa only [ProducerInv, hs] using h.producer
  have hmagic : w = 5 → wordMagic ((clearCommitBit p).words w) ≠ pingpongMagic := by
    rintro rfl
    rw [words_five, wordMagic_packWord]
    exact clearCommitBit_not_valid hp
  have hslot : ∀ v, v < w ∨ v = w →
      (s.store key w ((clearCommitBit p).words w)).slots key v = (clearCommitBit p).words v := by
    rw [store_slots_self]
    rintro v (hv | rfl)
    · rw [Function.update_of_ne hv.ne, hdone v hv]
    · rw [Function.update_self]
  simp only [stepProducer, hs] at ht
  split at ht <;> cases ht
  · rename_i w' hw'
    exact h.store_key hkey hroom hmagic
      ⟨hkey, hidx, hp, hroom, fun v hv => hslot v (lt_nextWord hw' hv)⟩
  · rename_i hw
    have hlast := nextWord_eq_none.1 hw
    subst hlast
    exact h.store_key hkey hroom hmagic
      ⟨hkey, hidx, hp, hroom, funext fun v => hslot v (Fin.le_last v).lt_or_eq⟩

/-- The word the commit stores is the packet's, and so is the whole slot. -/
theorem update_commit_word {slot : Fin 6 → UInt64} (hp : p.magic = pingpongMagic)
    (hslot : slot = (clearCommitBit p).words) :
    Function.update slot 5 (packWord (wordPhase (slot 5)) (wordMagic (slot 5) ||| 1)) =
      p.words := by
  have hmagic : (clearCommitBit p).magic ||| 1 = p.magic :=
    congrArg PingpongPayload.magic (setCommitBit_clearCommitBit hp)
  funext v
  by_cases hv : v = 5
  · rw [hv, Function.update_self, hslot, words_five, wordPhase_packWord, wordMagic_packWord,
      hmagic, words_five]
    rfl
  · rw [Function.update_of_ne hv, hslot, words_clearCommitBit hv]

/-- The commit accepts the payload: its slot holds it, word for word. -/
theorem Inv.commit (h : Inv s) (hs : s.producer = .committing key p)
    (ht : stepProducer s = some t) : Inv t := by
  obtain ⟨hkey, hidx, hp, hroom, hslot⟩ :
      key = pos packetsMapSize s.accepted.length ∧
        s.index = pos packetsMapSize (s.accepted.length + 1) ∧ p.magic = pingpongMagic ∧
        s.accepted.length < s.cleared + packetsMapSize ∧
        s.slots key = (clearCommitBit p).words := by
    simpa only [ProducerInv, hs] using h.producer
  simp only [stepProducer, hs, Option.some.injEq] at ht
  have hnew : t.slots key = p.words := by
    rw [← ht]
    exact (store_slots_self ..).trans (update_commit_word hp hslot)
  have hold : ∀ k, k ≠ key → t.slots k = s.slots k := by
    rw [← ht]
    exact fun k hk => store_slots_ne hk ..
  have hacc : t.accepted = s.accepted ++ [p] := by rw [← ht]
  have hlen : t.accepted.length = s.accepted.length + 1 := by rw [hacc, List.length_append]; rfl
  have hclr : t.cleared = s.cleared := by rw [← ht]; rfl
  have hcons : t.consumer = s.consumer := by rw [← ht]; rfl
  constructor
  case le => rw [hclr, hlen]; exact Nat.le_succ_of_le h.le
  case room => rw [hclr, hlen]; exact hroom
  case next => rw [hclr, ← h.next, ← ht]; rfl
  case valid =>
    intro q hq
    rw [hacc] at hq
    rcases List.mem_append.1 hq with hq | hq
    · exact h.valid q hq
    · rw [List.mem_singleton.1 hq, hp]
  case stored =>
    intro j q hj hq w hw
    rw [hclr] at hj
    rw [hacc] at hq
    rcases Nat.lt_or_ge j s.accepted.length with hlt | hge
    · rw [hold _ (hkey ▸ pos_ne_key hj hlt hroom)]
      rw [List.getElem?_append_left hlt] at hq
      exact h.stored j q hj hq w fun hjK v hv => hw (by rw [hjK, hclr]) v (by rw [hcons, hv])
    · obtain ⟨hlt, hq⟩ := List.getElem?_eq_some_iff.1 hq
      have hjA : j = s.accepted.length := by
        rw [← hacc, hlen] at hlt
        omega
      subst hjA
      rw [List.getElem_concat_length rfl] at hq
      rw [← hkey, hnew, hq]
  case free =>
    intro j hj hj'
    rw [hlen] at hj
    rw [hclr] at hj'
    have hk : pos packetsMapSize j ≠ key := fun hk => by
      have := pos_inj (by have := h.le; omega) hj' h.le hroom (hk.trans hkey)
      omega
    have hfree := h.free j (by omega) hj'
    rw [State.slotValid] at hfree ⊢
    rw [hold _ hk, hfree]
  case producer =>
    have hpc : t.producer = .idle := by rw [← ht]
    simp only [ProducerInv, hpc]
    rw [hlen, ← hidx, ← ht]
    rfl
  case consumer =>
    exact h.consumer.accept h.le hcons hacc (by rw [← ht]; rfl) hclr (by rw [← ht]; rfl)
  case drops => rw [← ht]; exact h.drops

/-- **A store of the producer** does. -/
theorem Inv.stepProducer (h : Inv s) (ht : stepProducer s = some t) : Inv t := by
  cases hs : s.producer with
  | idle => simp [Word.stepProducer, hs] at ht
  | reserved key p => exact h.check hs ht
  | dropping key p pending => exact h.drop hs ht
  | writing key p w => exact h.write hs ht
  | committing key p => exact h.commit hs ht

/-! ### The consumer's steps -/

/-- A consumer step that stores nothing and does not leave `memset` half done. -/
theorem Inv.consumer_load (h : Inv s) (hs : ∀ w, s.consumer ≠ .clearing w)
    {dest : Fin 6 → UInt64} {copied : List PingpongPayload} {pc : ConsumerPc}
    (hpc : ConsumerInv { s with destPayload := dest, copied := copied, consumer := pc }) :
    Inv { s with destPayload := dest, copied := copied, consumer := pc } :=
  { h with
    consumer := hpc
    stored := fun j p hj hp w _ =>
      h.stored j p hj hp w fun _ v hv => absurd hv (hs v) }

/-- `BUSY_WAIT`: the front slot is valid only if it holds an accepted payload. -/
theorem Inv.poll (h : Inv s) (hs : s.consumer = .polling) : Inv (stepConsumer s) := by
  have hcop : s.copied = s.accepted.take s.cleared := by
    simpa only [ConsumerInv, hs] using h.consumer
  simp only [stepConsumer, hs]
  split
  · rename_i hv
    have hlt : s.cleared < s.accepted.length := by
      by_contra hge
      have := h.free s.cleared (by omega) (Nat.lt_add_of_pos_right (by decide))
      rw [h.next, this] at hv
      cases hv
    exact h.consumer_load (by simp [hs]) ⟨hcop, s.accepted[s.cleared],
      List.getElem?_eq_getElem hlt, fun v hv => absurd hv (Fin.not_lt_zero v)⟩
  · exact h

/-- `memcpy`: after the last word the destination is the front payload. -/
theorem Inv.load (h : Inv s) {w : Fin 6} (hs : s.consumer = .copying w) :
    Inv (stepConsumer s) := by
  obtain ⟨hcop, p, hp, hdone⟩ : s.copied = s.accepted.take s.cleared ∧
      ∃ p, s.accepted[s.cleared]? = some p ∧ ∀ v < w, s.destPayload v = p.words v := by
    simpa only [ConsumerInv, hs] using h.consumer
  obtain ⟨hlt, hget⟩ := List.getElem?_eq_some_iff.1 hp
  have hword : s.slots s.nextMapIdx w = p.words w := by
    rw [h.next]
    exact h.stored _ p le_rfl hp w fun _ v hv => by rw [hs] at hv; cases hv
  have hdest : ∀ v, v < w ∨ v = w →
      Function.update s.destPayload w (s.slots s.nextMapIdx w) v = p.words v := by
    rintro v (hv | rfl)
    · rw [Function.update_of_ne hv.ne, hdone v hv]
    · rw [Function.update_self, hword]
  simp only [stepConsumer, hs]
  split
  · rename_i w' hw'
    exact h.consumer_load (by simp [hs])
      ⟨hcop, p, hp, fun v hv => hdest v (lt_nextWord hw' hv)⟩
  · rename_i hw
    have hlast := nextWord_eq_none.1 hw
    subst hlast
    have hall : Function.update s.destPayload 5 (s.slots s.nextMapIdx 5) = p.words :=
      funext fun v => hdest v (Fin.le_last v).lt_or_eq
    refine h.consumer_load (by simp [hs]) ⟨?_, hlt⟩
    rw [hall, ofWords_words, hcop, ← hget, List.take_concat_get']

/-- `memset`: the last word takes the slot out of the queue. -/
theorem Inv.clear (h : Inv s) {w : Fin 6} (hs : s.consumer = .clearing w) :
    Inv (stepConsumer s) := by
  obtain ⟨hcop, hlt⟩ : s.copied = s.accepted.take (s.cleared + 1) ∧
      s.cleared < s.accepted.length := by
    simpa only [ConsumerInv, hs] using h.consumer
  have hne : ∀ j, s.cleared < j → j < s.cleared + packetsMapSize →
      pos packetsMapSize j ≠ s.nextMapIdx := fun j hj hj' hk => by
    have := pos_inj hj.le hj' le_rfl (by omega) (hk.trans h.next)
    omega
  have hother : ∀ j, s.cleared < j → j < s.cleared + packetsMapSize →
      (s.store s.nextMapIdx w 0).slots (pos packetsMapSize j) =
        s.slots (pos packetsMapSize j) := fun j hj hj' => store_slots_ne (hne j hj hj') ..
  have hfree : ∀ j, s.accepted.length ≤ j → j < s.cleared + packetsMapSize →
      (s.store s.nextMapIdx w 0).slotValid (pos packetsMapSize j) = false := by
    intro j hj hj'
    have := h.free j hj hj'
    rw [State.slotValid] at this ⊢
    rw [hother j (by omega) hj', this]
  have hstored : ∀ j p, s.cleared < j → s.accepted[j]? = some p → ∀ v,
      (s.store s.nextMapIdx w 0).slots (pos packetsMapSize j) v = p.words v := by
    intro j p hj hp v
    have hjA := (List.getElem?_eq_some_iff.1 hp).1
    have hroom := h.room
    rw [hother j hj (by omega)]
    exact h.stored j p hj.le hp v fun hjK => absurd hjK (by omega)
  simp only [stepConsumer, hs]
  split
  · rename_i w' hw'
    refine { h with stored := fun j p hj hp v hv => ?_, free := hfree, consumer := ⟨hcop, hlt⟩,
                    producer := h.producer.frame rfl rfl rfl le_rfl fun hroom =>
                      hother _ (by omega) hroom }
    rcases Nat.eq_or_lt_of_le hj with hjK | hjK
    · subst hjK
      have hwv : w < v := le_of_nextWord_le hw' (hv rfl w' rfl)
      have hpos : pos packetsMapSize s.cleared = s.nextMapIdx := h.next.symm
      change (s.store s.nextMapIdx w 0).slots (pos packetsMapSize s.cleared) v = _
      rw [hpos, store_slots_self, Function.update_of_ne hwv.ne', ← hpos]
      refine h.stored _ p le_rfl hp v fun _ u hu => ?_
      rw [hs] at hu
      cases hu
      exact hwv.le
    · exact hstored j p hjK hp v
  · rename_i hw
    have hlast := nextWord_eq_none.1 hw
    subst hlast
    have hroom' : s.accepted.length ≤ s.cleared + 1 + packetsMapSize := by
      have := h.room
      omega
    refine { le := hlt, room := hroom', next := ?_, valid := h.valid,
             stored := fun j p hj hp v _ => hstored j p hj hp v,
             free := fun j hj hj' => ?_, consumer := hcop, drops := h.drops,
             producer := h.producer.frame rfl rfl rfl (Nat.le_succ _) fun hroom =>
               hother _ (by omega) hroom }
    · rw [pos_succ, ← h.next]
    · have hjK' : j < s.cleared + 1 + packetsMapSize := hj'
      rcases Nat.lt_or_ge j (s.cleared + packetsMapSize) with hjN | hjN
      · exact hfree j hj hjN
      · -- the slot just cleared is the one a lap ahead
        have hjK : j = s.cleared + packetsMapSize := by omega
        rw [Bool.eq_false_iff, Ne, slotValid_iff, hjK, pos_add_self, ← h.next]
        change ¬ wordMagic ((s.store s.nextMapIdx 5 0).slots s.nextMapIdx 5) = _
        rw [store_slots_self, Function.update_self]
        decide

/-- **A step of the consumer** does. -/
theorem Inv.stepConsumer (h : Inv s) : Inv (stepConsumer s) := by
  cases hs : s.consumer with
  | polling => exact h.poll hs
  | copying w => exact h.load hs
  | clearing w => exact h.clear hs

/-- Every step of either side keeps the invariant. -/
theorem inv_invariant : ring.Invariant (fun _ _ => True) Inv where
  init := inv_init
  step {s a t} h _ ht := by
    cases a with
    | call p =>
        cases hs : s.producer <;> simp only [ring, step, hs] at ht <;> try cases ht
        split at ht <;> cases ht
        rename_i hp
        exact h.reserve hs (validPingpongPayload_iff.1 hp)
    | producer => exact h.stepProducer ht
    | consumer => exact Option.some.inj ht ▸ h.stepConsumer

/-- What has been copied out is the accepted payloads up to a count. -/
theorem Inv.copied_prefix (h : Inv s) : s.copied <+: s.accepted := by
  have hc := h.consumer
  unfold ConsumerInv at hc
  cases hs : s.consumer <;> simp only [hs] at hc
  · exact hc ▸ List.take_prefix ..
  · exact hc.1 ▸ List.take_prefix ..
  · exact hc.1 ▸ List.take_prefix ..

/-- **The ring is a FIFO queue.**  In every state that any interleaving of one
producer and one consumer reaches, for every sequence of payloads: what the
consumer has copied out is a prefix of what was accepted, payload for payload;
and every drop found `PACKETS_MAP_SIZE` accepted payloads that were not
cleared. -/
theorem copied_prefix_accepted (h : ring.Reachable s) :
    s.copied <+: s.accepted ∧ ∀ d ∈ s.dropped, d.2 = packetsMapSize :=
  have hs := inv_invariant.holds h
  ⟨hs.copied_prefix, hs.drops⟩

/-- One packet through the ring, start to end: it is copied out. -/
theorem copied_prefix_accepted_one : ∃ s, ring.Reachable s ∧ s.copied = [newPingpongPayload 1] ∧
    s.copied <+: s.accepted ∧ ∀ d ∈ s.dropped, d.2 = packetsMapSize :=
  let run := Action.call (newPingpongPayload 1) ::
    (List.replicate 8 .producer ++ List.replicate 7 .consumer)
  let s := (ring.exec ring.init run).get (by decide)
  have h : ring.Reachable s := System.reachable_of_exec (Option.some_get _).symm
  ⟨s, h, by decide, copied_prefix_accepted h⟩

end Word
end Xdp
end DetBypass
