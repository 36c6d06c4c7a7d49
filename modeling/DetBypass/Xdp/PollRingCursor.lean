/-
# The cursor of the ring under several producers

`add_packet_to_map` advances `lock->index` in one locked section and, when the
unlocked check finds the slot occupied, takes it back in another; its comment
says `TODO: Fix the data race in the reset of the index`.

Two conditions on the steps keep the cursor where the consumer will look
(`CursorSafe`): a call reserves an index that no call in progress still holds,
and a call that drops takes the index back while it is still the one after its
own.  Under them the state can be counted (`Counted`): `C` payloads cleared,
`R` indices reserved and not taken back, each count `C ≤ j < R` either held by
one call in progress or committed in its slot.  So whenever no call is in
progress the valid slots are the cyclic run from `next_map_idx` to
`lock->index` (`aligned_of_reachableIf`).

Without them it fails: on a full ring two calls that reserved one after the
other and drop in the same order leave the index one slot ahead of the consumer
(`exists_misaligned`).
-/

import DetBypass.Xdp.PollRingSlots

namespace DetBypass
namespace Xdp
namespace Slot

open Lib PingpongPayload

variable {s t : State} {a : Action} {C R : ℕ} {cnt : ℕ → ℕ}

/-- The condition on a step: a reservation takes an index no call in progress
holds, and a drop takes the index back while it is one past the call's key. -/
def CursorSafe (s : State) : Action → Prop
  | .call _ _ => ∀ c, (s.calls c).key ≠ some s.index
  | .producer c => ∀ key p, s.calls c = .dropping key p → s.index = key + 1
  | .consumer => True

/-- No producer is inside `add_packet_to_map`. -/
def Quiescent (s : State) : Prop :=
  ∀ c, s.calls c = .idle

/-- The valid slots are a cyclic run starting at `next_map_idx`, and
`lock->index` is the position just after it: `next_map_idx` itself when the
ring is empty or full. -/
def Aligned (s : State) : Prop :=
  ∃ n ≤ packetsMapSize, (∀ k, s.slotValid k = true ↔ k ∈ cyclicRun s.nextMapIdx n) ∧
    s.index = s.nextMapIdx + pos packetsMapSize n ∧
    (n = 0 ∨ n = packetsMapSize → s.index = s.nextMapIdx)

/-- The ring counted: `C` payloads cleared, `R` indices reserved, the call on
CPU `c` holding the count `cnt c`. -/
structure Counted (s : State) (C R : ℕ) (cnt : ℕ → ℕ) : Prop where
  le : C ≤ R
  next : s.nextMapIdx = pos packetsMapSize C
  index : s.index = pos packetsMapSize R
  held : ∀ c k, (s.calls c).key = some k → k = pos packetsMapSize (cnt c) ∧ C ≤ cnt c ∧ cnt c < R
  distinct : ∀ c c' k, (s.calls c).key = some k → (s.calls c').key = some k → c = c'
  covered : ∀ j, C ≤ j → j < R → (∃ c k, (s.calls c).key = some k ∧ cnt c = j) ∨
    (j < C + packetsMapSize ∧ s.slotValid (pos packetsMapSize j) = true)
  valid : ∀ k, s.slotValid k = true → ∃ j, C ≤ j ∧ j < R ∧ j < C + packetsMapSize ∧
    pos packetsMapSize j = k ∧ ∀ c k', (s.calls c).key = some k' → cnt c ≠ j
  room : ∀ c k, (s.calls c).claims = some k → cnt c < C + packetsMapSize
  written : ∀ c k p, s.calls c = .written k p → s.slots k = clearCommitBit p
  magic : ∀ c p, (s.calls c).payload = some p → p.magic = pingpongMagic
  front : s.consumer ≠ .polling → s.slotValid s.nextMapIdx = true

/-- The ring before the first packet. -/
theorem counted_init : Counted init 0 0 fun _ => 0 where
  le := le_rfl
  next := pos_zero.symm
  index := pos_zero.symm
  held c k h := by cases h
  distinct c c' k h := by cases h
  covered j _ h := absurd h (Nat.not_lt_zero j)
  valid k h := absurd h (by simp [init, State.slotValid])
  room c k h := by cases h
  written c k p h := by cases h
  magic c p h := by cases h
  front h := absurd rfl h

/-- Two calls at one count are one call. -/
theorem Counted.eq_of_cnt_eq (h : Counted s C R cnt) {c c' : ℕ} {k k' : Fin packetsMapSize}
    (hc : (s.calls c).key = some k) (hc' : (s.calls c').key = some k') (he : cnt c = cnt c') :
    c = c' := by
  have hk : k = k' := by rw [(h.held c k hc).1, (h.held c' k' hc').1, he]
  exact h.distinct c c' k hc (hk ▸ hc')

/-- **The unlocked check is right about the slot.**  A slot found free has room
for the call that holds it: were it a lap ahead, the slot would be valid, or
held by another call in progress. -/
theorem Counted.room_of_free (h : Counted s C R cnt) {c : ℕ} {k : Fin packetsMapSize}
    (hc : (s.calls c).key = some k) (hfree : s.slotValid k = false) :
    cnt c < C + packetsMapSize := by
  by_contra hge
  obtain ⟨hk, -, hR⟩ := h.held c k hc
  obtain ⟨j, hj, hj', hpos⟩ := exists_pos C k
  rcases h.covered j hj (by omega) with ⟨c', k', hc', hcnt⟩ | ⟨-, hvalid⟩
  · have hk' : k' = k := by rw [(h.held c' k' hc').1, hcnt, hpos]
    have := h.distinct c c' k hc (hk' ▸ hc')
    subst this
    omega
  · rw [hpos, hfree] at hvalid
    cases hvalid

/-- A slot a call has found free is not valid. -/
theorem Counted.not_valid_of_room (h : Counted s C R cnt) {c : ℕ} {k : Fin packetsMapSize}
    (hc : (s.calls c).key = some k) (hroom : cnt c < C + packetsMapSize) :
    s.slotValid k = false := by
  rw [Bool.eq_false_iff]
  intro hv
  obtain ⟨hk, hC, -⟩ := h.held c k hc
  obtain ⟨j, hj, -, hj', hpos, hfree⟩ := h.valid k hv
  exact hfree c k hc (pos_inj hC hroom hj hj' (by rw [hpos, hk]))

/-- A step that moves no cursor, takes or gives back no key and changes the
validity of no slot. -/
theorem Counted.keep (h : Counted s C R cnt) (hnext : t.nextMapIdx = s.nextMapIdx)
    (hindex : t.index = s.index) (hkey : ∀ c, (t.calls c).key = (s.calls c).key)
    (hvalid : ∀ k, t.slotValid k = s.slotValid k)
    (room : ∀ c k, (t.calls c).claims = some k → cnt c < C + packetsMapSize)
    (written : ∀ c k p, t.calls c = .written k p → t.slots k = clearCommitBit p)
    (magic : ∀ c p, (t.calls c).payload = some p → p.magic = pingpongMagic)
    (front : t.consumer ≠ .polling → s.slotValid s.nextMapIdx = true) : Counted t C R cnt where
  le := h.le
  next := hnext.trans h.next
  index := hindex.trans h.index
  held c k hc := h.held c k (hkey c ▸ hc)
  distinct c c' k hc hc' := h.distinct c c' k (hkey c ▸ hc) (hkey c' ▸ hc')
  covered j hj hj' := by
    simp only [hkey, hvalid]
    exact h.covered j hj hj'
  valid k hk := by
    simp only [hkey]
    exact h.valid k (hvalid k ▸ hk)
  room := room
  written := written
  magic := magic
  front hc := by rw [hnext, hvalid]; exact front hc

/-- The reservation takes the next count. -/
theorem Counted.reserve (h : Counted s C R cnt) {c : ℕ} {p : PingpongPayload}
    (hc : s.calls c = .idle) (hp : p.magic = pingpongMagic)
    (hg : ∀ c, (s.calls c).key ≠ some s.index) :
    Counted (Slot.reserve s c p) C (R + 1) (Function.update cnt c R) := by
  have hcall : ∀ c', c' ≠ c → (Slot.reserve s c p).calls c' = s.calls c' := fun c' hne =>
    Function.update_of_ne hne ..
  have hself : (Slot.reserve s c p).calls c = .reserved s.index p := Function.update_self ..
  have hcnt : ∀ c' k, (s.calls c').key = some k → c' ≠ c := by
    rintro c' k hk rfl
    rw [hc] at hk
    cases hk
  constructor
  case le => exact Nat.le_succ_of_le h.le
  case next => exact h.next
  case index => exact (congrArg (· + 1) h.index).trans (pos_succ R).symm
  case held =>
    intro c' k hk
    by_cases hne : c' = c
    · subst hne
      rw [hself] at hk
      rw [Function.update_self, ← Option.some.inj hk]
      exact ⟨h.index, h.le, Nat.lt_succ_self R⟩
    · rw [hcall c' hne] at hk
      rw [Function.update_of_ne hne]
      obtain ⟨h₁, h₂, h₃⟩ := h.held c' k hk
      exact ⟨h₁, h₂, by omega⟩
  case distinct =>
    intro c' c'' k h' h''
    by_cases hne' : c' = c <;> by_cases hne'' : c'' = c
    · rw [hne', hne'']
    · subst hne'
      rw [hself] at h'
      rw [hcall c'' hne'', ← Option.some.inj h'] at h''
      exact absurd h'' (hg c'')
    · subst hne''
      rw [hself] at h''
      rw [hcall c' hne', ← Option.some.inj h''] at h'
      exact absurd h' (hg c')
    · rw [hcall c' hne'] at h'
      rw [hcall c'' hne''] at h''
      exact h.distinct c' c'' k h' h''
  case covered =>
    intro j hj hj'
    rcases Nat.eq_or_lt_of_le (Nat.lt_succ_iff.1 hj') with rfl | hlt
    · exact Or.inl ⟨c, s.index, by rw [hself]; rfl, Function.update_self ..⟩
    · rcases h.covered j hj hlt with ⟨c', k, hk, hcj⟩ | hv
      · have hne := hcnt c' k hk
        exact Or.inl ⟨c', k, by rw [hcall c' hne, hk], by rw [Function.update_of_ne hne, hcj]⟩
      · exact Or.inr hv
  case valid =>
    intro k hk
    obtain ⟨j, hj, hjR, hjN, hpos, hfree⟩ := h.valid k hk
    refine ⟨j, hj, by omega, hjN, hpos, fun c' k' hk' => ?_⟩
    by_cases hne : c' = c
    · rw [hne, Function.update_self]
      omega
    · rw [hcall c' hne] at hk'
      rw [Function.update_of_ne hne]
      exact hfree c' k' hk'
  case room =>
    intro c' k hk
    by_cases hne : c' = c
    · rw [hne, hself] at hk
      cases hk
    · rw [hcall c' hne] at hk
      rw [Function.update_of_ne hne]
      exact h.room c' k hk
  case written =>
    intro c' k q hq
    by_cases hne : c' = c
    · rw [hne, hself] at hq
      cases hq
    · rw [hcall c' hne] at hq
      exact h.written c' k q hq
  case magic =>
    intro c' q hq
    by_cases hne : c' = c
    · rw [hne, hself] at hq
      exact Option.some.inj hq ▸ hp
    · rw [hcall c' hne] at hq
      exact h.magic c' q hq
  case front => exact h.front

/-- A drop by the last call to have reserved gives its count back. -/
theorem Counted.reset (h : Counted s C R cnt) {c : ℕ} {key : Fin packetsMapSize}
    {p : PingpongPayload} (hc : s.calls c = .dropping key p) (hg : s.index = key + 1) :
    Counted (({ s with index := key }.setCall c .idle).record (.dropped c p)) C (cnt c) cnt := by
  have hck : (s.calls c).key = some key := by rw [hc]; rfl
  obtain ⟨hkey, hC, hlt⟩ := h.held c key hck
  have hpos : pos packetsMapSize R = pos packetsMapSize (cnt c + 1) := by
    rw [← h.index, hg, hkey, pos_succ]
  -- a whole lap of later reservations would hold this key again
  have hR : R = cnt c + 1 := by
    rcases Nat.eq_or_lt_of_le (Nat.succ_le_of_lt hlt) with he | hgt
    · exact he.symm
    · have hlap := add_le_of_pos_eq hpos.symm hgt
      have hN : 0 < packetsMapSize := by decide
      rcases h.covered (cnt c + packetsMapSize) (by omega) (by omega) with
        ⟨c', k', hk', hcnt⟩ | ⟨hroom, -⟩
      · have hkk : k' = key := by rw [(h.held c' k' hk').1, hcnt, pos_add_self, hkey]
        have := h.distinct c c' key hck (hkk ▸ hk')
        subst this
        omega
      · omega
  constructor
  case le => exact hC
  case next => exact h.next
  case index => exact hkey
  case held =>
    intro c' k hk
    obtain ⟨hne, hk⟩ := of_update_idle (f := CallPc.key) rfl hk
    obtain ⟨h₁, h₂, h₃⟩ := h.held c' k hk
    have : cnt c' ≠ cnt c := fun he => hne (h.eq_of_cnt_eq hk hck he)
    exact ⟨h₁, h₂, by omega⟩
  case distinct =>
    intro c' c'' k h' h''
    exact h.distinct c' c'' k (of_update_idle (f := CallPc.key) rfl h').2
      (of_update_idle (f := CallPc.key) rfl h'').2
  case covered =>
    intro j hj hj'
    rcases h.covered j hj (by omega) with ⟨c', k, hk, hcj⟩ | hv
    · have hne : c' ≠ c := by rintro rfl; omega
      refine Or.inl ⟨c', k, ?_, hcj⟩
      rw [record_calls, setCall_calls, Function.update_of_ne hne, hk]
    · exact Or.inr hv
  case valid =>
    intro k hk
    obtain ⟨j, hj, hjR, hjN, hpos, hfree⟩ := h.valid k hk
    have := hfree c key hck
    exact ⟨j, hj, by omega, hjN, hpos, fun c' k' hk' =>
      hfree c' k' (of_update_idle (f := CallPc.key) rfl hk').2⟩
  case room =>
    intro c' k hk
    exact h.room c' k (of_update_idle (f := CallPc.claims) rfl hk).2
  case written =>
    intro c' k q hq
    exact h.written c' k q (written_of_update_idle hq).2
  case magic =>
    intro c' q hq
    exact h.magic c' q (of_update_idle (f := CallPc.payload) rfl hq).2
  case front => exact h.front

/-- The slot the committing call wrote becomes valid; no other slot changes. -/
theorem Counted.commit (h : Counted s C R cnt) {c : ℕ} {key : Fin packetsMapSize}
    {p : PingpongPayload} (hc : s.calls c = .written key p) :
    Counted (((s.setSlot key (setCommitBit (s.slots key))).setCall c .idle).record
      (.committed c key p)) C R cnt := by
  have hck : (s.calls c).key = some key := by rw [hc]; rfl
  obtain ⟨hkey, hC, hlt⟩ := h.held c key hck
  have hroom : cnt c < C + packetsMapSize := h.room c key (by rw [hc]; rfl)
  have hp : p.magic = pingpongMagic := h.magic c p (by rw [hc]; rfl)
  have hslot : setCommitBit (s.slots key) = p := by
    rw [h.written c key p hc, setCommitBit_clearCommitBit hp]
  have hother : ∀ k, k ≠ key → Function.update s.slots key (setCommitBit (s.slots key)) k =
      s.slots k := fun k hk => Function.update_of_ne hk ..
  have hself : validPingpongPayload
      (Function.update s.slots key (setCommitBit (s.slots key)) key) = true := by
    rw [Function.update_self, hslot, validPingpongPayload_iff, hp]
  constructor
  case le => exact h.le
  case next => exact h.next
  case index => exact h.index
  case held =>
    intro c' k hk
    exact h.held c' k (of_update_idle (f := CallPc.key) rfl hk).2
  case distinct =>
    intro c' c'' k h' h''
    exact h.distinct c' c'' k (of_update_idle (f := CallPc.key) rfl h').2
      (of_update_idle (f := CallPc.key) rfl h'').2
  case covered =>
    intro j hj hj'
    by_cases hk : pos packetsMapSize j = key
    · by_cases hjc : j = cnt c
      · refine Or.inr ⟨hjc ▸ hroom, ?_⟩
        rw [hk]
        exact hself
      · rcases h.covered j hj hj' with ⟨c', k, hk', hcj⟩ | ⟨hjN, -⟩
        · have hne : c' ≠ c := fun he => hjc (by rw [← hcj, he])
          refine Or.inl ⟨c', k, ?_, hcj⟩
          rw [record_calls, setCall_calls, Function.update_of_ne hne]
          exact hk'
        · exact absurd (pos_inj hj hjN hC hroom (hk.trans hkey)) hjc
    · rcases h.covered j hj hj' with ⟨c', k, hk', hcj⟩ | ⟨hjN, hv⟩
      · have hne : c' ≠ c := by
          rintro rfl
          exact hk (by rw [← hcj, hkey])
        refine Or.inl ⟨c', k, ?_, hcj⟩
        rw [record_calls, setCall_calls, Function.update_of_ne hne]
        exact hk'
      · refine Or.inr ⟨hjN, ?_⟩
        change validPingpongPayload (Function.update s.slots key _ _) = true
        rw [hother _ hk]
        exact hv
  case valid =>
    intro k hk
    by_cases hkk : k = key
    · subst hkk
      refine ⟨cnt c, hC, hlt, hroom, hkey.symm, fun c' k' hk' he => ?_⟩
      obtain ⟨hne, hk'⟩ := of_update_idle (f := CallPc.key) rfl hk'
      exact hne (h.eq_of_cnt_eq hk' hck he)
    · have hk : validPingpongPayload (Function.update s.slots key _ k) = true := hk
      rw [hother k hkk] at hk
      obtain ⟨j, hj, hjR, hjN, hpos, hfree⟩ := h.valid k hk
      exact ⟨j, hj, hjR, hjN, hpos, fun c' k' hk' =>
        hfree c' k' (of_update_idle (f := CallPc.key) rfl hk').2⟩
  case room =>
    intro c' k hk
    exact h.room c' k (of_update_idle (f := CallPc.claims) rfl hk).2
  case written =>
    intro c' k q hq
    obtain ⟨hne, hq'⟩ := written_of_update_idle hq
    have hc' : s.calls c' = .written k q := hq'
    have hk : k ≠ key := by
      rintro rfl
      exact hne (h.distinct c' c k (by rw [hc']; rfl) hck)
    exact (hother k hk).trans (h.written c' k q hc')
  case magic =>
    intro c' q hq
    exact h.magic c' q (of_update_idle (f := CallPc.payload) rfl hq).2
  case front =>
    intro hcons
    change validPingpongPayload (Function.update s.slots key _ s.nextMapIdx) = true
    by_cases hk : s.nextMapIdx = key
    · rw [hk]
      exact hself
    · rw [hother _ hk]
      exact h.front hcons

/-- The consumer's clear takes the front count out of the ring. -/
theorem Counted.clear (h : Counted s C R cnt) (hs : s.consumer = .clearing) :
    Counted ({ s.setSlot s.nextMapIdx .zero with
      nextMapIdx := s.nextMapIdx + 1, consumer := .polling }.record (.cleared s.nextMapIdx))
      (C + 1) R cnt := by
  have hfront := h.front (by rw [hs]; decide)
  -- the front slot is the slot of the count `C`, and no call holds it
  obtain ⟨j, hj, hCR, hj', hpos, hfree⟩ := h.valid _ hfront
  have hjC : C = j := pos_inj le_rfl (by omega) hj hj' (by rw [hpos, h.next])
  subst hjC
  have hother : ∀ k, k ≠ s.nextMapIdx → Function.update s.slots s.nextMapIdx .zero k =
      s.slots k := fun k hk => Function.update_of_ne hk ..
  have hne : ∀ i, C < i → i < C + packetsMapSize → pos packetsMapSize i ≠ s.nextMapIdx :=
    fun i hi hi' he => absurd (pos_inj hi.le hi' le_rfl hj' (he.trans h.next)) hi.ne'
  constructor
  case le => exact hCR
  case next => exact (congrArg (· + 1) h.next).trans (pos_succ C).symm
  case index => exact h.index
  case held =>
    intro c k hk
    obtain ⟨h₁, h₂, h₃⟩ := h.held c k hk
    have := hfree c k hk
    exact ⟨h₁, by omega, h₃⟩
  case distinct => exact h.distinct
  case covered =>
    intro i hi hi'
    rcases h.covered i (by omega) hi' with hheld | ⟨hiN, hv⟩
    · exact Or.inl hheld
    · refine Or.inr ⟨by omega, ?_⟩
      change validPingpongPayload (Function.update s.slots _ _ _) = true
      rw [hother _ (hne i hi hiN)]
      exact hv
  case valid =>
    intro k hk
    have hk : validPingpongPayload (Function.update s.slots s.nextMapIdx .zero k) = true := hk
    by_cases hkk : k = s.nextMapIdx
    · rw [hkk, Function.update_self] at hk
      cases hk
    · rw [hother k hkk] at hk
      obtain ⟨i, hi, hiR, hiN, hipos, hifree⟩ := h.valid k hk
      have hiC : i ≠ C := by
        rintro rfl
        exact hkk (by rw [← hipos, h.next])
      exact ⟨i, by omega, hiR, by omega, hipos, hifree⟩
  case room =>
    intro c k hk
    have := h.room c k hk
    omega
  case written =>
    intro c k q hq
    have hq : s.calls c = .written k q := hq
    have hkk : k ≠ s.nextMapIdx := by
      rintro rfl
      have := h.not_valid_of_room (c := c) (by rw [hq]; rfl) (h.room c _ (by rw [hq]; rfl))
      rw [hfront] at this
      cases this
    exact (hother k hkk).trans (h.written c k q hq)
  case magic => exact h.magic
  case front => exact fun hcons => absurd rfl hcons

/-- The slot write leaves the slot without a valid magic, as it was. -/
theorem Counted.write (h : Counted s C R cnt) {c : ℕ} {key : Fin packetsMapSize}
    {p : PingpongPayload} (hc : s.calls c = .checked key p) :
    Counted (((s.setSlot key (clearCommitBit p)).setCall c (.written key p)).record
      (.wrote c key p)) C R cnt := by
  have hck : (s.calls c).key = some key := by rw [hc]; rfl
  have hroom : cnt c < C + packetsMapSize := h.room c key (by rw [hc]; rfl)
  have hp : p.magic = pingpongMagic := h.magic c p (by rw [hc]; rfl)
  have hother : ∀ k, k ≠ key → Function.update s.slots key (clearCommitBit p) k = s.slots k :=
    fun k hk => Function.update_of_ne hk ..
  have hvalid : ∀ k, validPingpongPayload (Function.update s.slots key (clearCommitBit p) k) =
      s.slotValid k := by
    intro k
    by_cases hk : k = key
    · rw [hk, Function.update_self, h.not_valid_of_room hck hroom, Bool.eq_false_iff, Ne,
        validPingpongPayload_iff]
      exact clearCommitBit_not_valid hp
    · rw [hother k hk]
      rfl
  refine h.keep rfl rfl (proj_update (s := s) (by rw [hc]; rfl)) hvalid (fun c' k hk => ?_)
    (fun c' k q hq => ?_) (fun c' q hq => ?_) h.front
  all_goals by_cases hne : c' = c
  · exact hne ▸ hroom
  · exact h.room c' k (by rwa [record_calls, setCall_calls, Function.update_of_ne hne] at hk)
  · rw [hne, record_calls, setCall_calls, Function.update_self] at hq
    cases hq
    exact Function.update_self ..
  · rw [record_calls, setCall_calls, Function.update_of_ne hne] at hq
    have hc' : s.calls c' = .written k q := hq
    have hk : k ≠ key := by
      rintro rfl
      exact hne (h.distinct c' c k (by rw [hc']; rfl) hck)
    exact (hother k hk).trans (h.written c' k q hc')
  · rw [hne, record_calls, setCall_calls, Function.update_self] at hq
    exact Option.some.inj hq ▸ hp
  · rw [record_calls, setCall_calls, Function.update_of_ne hne] at hq
    exact h.magic c' q hq

/-- A call whose program counter moves on with its key and its payload. -/
theorem Counted.advance (h : Counted s C R cnt) {c : ℕ} {pc : CallPc}
    (hkey : pc.key = (s.calls c).key) (hpay : pc.payload = (s.calls c).payload)
    (hclaim : ∀ k, pc.claims = some k → cnt c < C + packetsMapSize)
    (hpc : ∀ k p, pc ≠ .written k p) : Counted (s.setCall c pc) C R cnt := by
  refine h.keep rfl rfl (proj_update hkey) (fun _ => rfl) (fun c' k hk => ?_) (fun c' k q hq => ?_)
    (fun c' q hq => ?_) h.front
  all_goals by_cases hne : c' = c
  · subst hne
    exact hclaim k (by rwa [setCall_calls, Function.update_self] at hk)
  · exact h.room c' k (by rwa [setCall_calls, Function.update_of_ne hne] at hk)
  · rw [hne, setCall_calls, Function.update_self] at hq
    exact absurd hq (hpc k q)
  · exact h.written c' k q (by rwa [setCall_calls, Function.update_of_ne hne] at hq)
  · rw [hne, setCall_calls, Function.update_self, hpay] at hq
    exact h.magic c q hq
  · exact h.magic c' q (by rwa [setCall_calls, Function.update_of_ne hne] at hq)

/-- A guarded step keeps the ring counted. -/
theorem Counted.step (h : Counted s C R cnt) (hg : CursorSafe s a) (ht : step s a = some t) :
    ∃ C R cnt, Counted t C R cnt := by
  cases step_cases ht with
  | call c p hc hp => exact ⟨_, _, _, h.reserve hc hp hg⟩
  | full c key p hc _ =>
      exact ⟨_, _, _, h.advance (by rw [hc]; rfl) (by rw [hc]; rfl) (fun _ hk => by cases hk)
        fun _ _ he => by cases he⟩
  | free c key p hc hv =>
      exact ⟨_, _, _, h.advance (by rw [hc]; rfl) (by rw [hc]; rfl)
        (fun _ _ => h.room_of_free (by rw [hc]; rfl) hv) fun _ _ he => by cases he⟩
  | reset c key p hc => exact ⟨_, _, _, h.reset hc (hg key p hc)⟩
  | write c key p hc => exact ⟨_, _, _, h.write hc⟩
  | commit c key p hc => exact ⟨_, _, _, h.commit hc⟩
  | spin => exact ⟨_, _, _, h⟩
  | found _ hv =>
      exact ⟨_, _, _, h.keep rfl rfl (fun _ => rfl) (fun _ => rfl) h.room h.written h.magic
        fun _ => hv⟩
  | copy hc =>
      exact ⟨_, _, _, h.keep rfl rfl (fun _ => rfl) (fun _ => rfl) h.room h.written h.magic
        fun _ => h.front (by rw [hc]; decide)⟩
  | clear hc => exact ⟨_, _, _, h.clear hc⟩

/-- **The counts are right** in every state. -/
theorem counted_invariant :
    ring.Invariant CursorSafe fun s => ∃ C R cnt, Counted s C R cnt where
  init := ⟨0, 0, _, counted_init⟩
  step := fun ⟨_, _, _, h⟩ hg ht => h.step hg ht

/-- With no call in progress the counts from `C` to `R` are the valid slots. -/
theorem Counted.aligned (h : Counted s C R cnt) (hq : Quiescent s) : Aligned s := by
  have hcov : ∀ j, C ≤ j → j < R →
      j < C + packetsMapSize ∧ s.slotValid (pos packetsMapSize j) = true := by
    intro j hj hj'
    rcases h.covered j hj hj' with ⟨c, k, hk, -⟩ | hv
    · rw [hq c] at hk
      cases hk
    · exact hv
  have hle := h.le
  have hN : R ≤ C + packetsMapSize := by
    by_contra hgt
    have := (hcov (C + packetsMapSize) (by omega) (by omega)).1
    omega
  have hidx : s.index = s.nextMapIdx + pos packetsMapSize (R - C) := by
    rw [h.index, h.next, ← pos_add, Nat.add_sub_cancel' hle]
  refine ⟨R - C, by omega, fun k => ?_, hidx, ?_⟩
  · rw [h.next, mem_cyclicRun_pos]
    constructor
    · intro hv
      obtain ⟨j, hj, hjR, -, hpos, -⟩ := h.valid k hv
      exact ⟨j, hj, by omega, hpos⟩
    · rintro ⟨j, hj, hj', rfl⟩
      exact (hcov j hj (by omega)).2
  · rw [h.index, h.next]
    rintro (hn | hn)
    · rw [show R = C by omega]
    · rw [show R = C + packetsMapSize by omega, pos_add_self]

/-- **The cursor is where the consumer will look.**  In every run of any number
of producers and one consumer whose reservations take an index no call in
progress holds and whose drops take back an index still one past their own:
whenever no call is in progress the valid slots are the cyclic run starting at
`next_map_idx` and `lock->index` is the position just after it. -/
theorem aligned_of_reachableIf (h : ring.ReachableIf CursorSafe s) (hq : Quiescent s) :
    Aligned s := by
  obtain ⟨C, R, cnt, hs⟩ := counted_invariant.holds h
  exact hs.aligned hq

/-- One packet through the ring keeps to the conditions: one slot is valid and
the index is one. -/
theorem aligned_of_reachableIf_one :
    ∃ s, ring.ReachableIf CursorSafe s ∧ s.index = 1 ∧ Quiescent s ∧ Aligned s := by
  let p := newPingpongPayload 1
  let s₁ := reserve init 0 p
  let s₂ := s₁.setCall 0 (.checked 0 p)
  let s₃ := ((s₂.setSlot 0 (clearCommitBit p)).setCall 0 (.written 0 p)).record (.wrote 0 0 p)
  let s₄ := ((s₃.setSlot 0 (setCommitBit (s₃.slots 0))).setCall 0 .idle).record (.committed 0 0 p)
  have h₁ : ring.ReachableIf CursorSafe s₁ :=
    System.ReachableIf.init.tail (a := .call 0 p) (fun _ h => by cases h) rfl
  have h₂ : ring.ReachableIf CursorSafe s₂ :=
    h₁.tail (a := .producer 0) (fun _ _ h => by simp [s₁, reserve] at h) rfl
  have h₃ : ring.ReachableIf CursorSafe s₃ :=
    h₂.tail (a := .producer 0) (fun _ _ h => by simp [s₂] at h) rfl
  have h₄ : ring.ReachableIf CursorSafe s₄ :=
    h₃.tail (a := .producer 0) (fun _ _ h => by simp [s₃] at h) rfl
  have hq : Quiescent s₄ := fun c => by
    by_cases hc : c = 0
    · subst hc
      rfl
    · simp [s₄, s₃, s₂, s₁, reserve, Function.update_of_ne hc, init]
  exact ⟨s₄, h₄, rfl, hq, aligned_of_reachableIf h₄ hq⟩

/-- **Two drops on a full ring move the cursor.**  With all slots valid, CPU 0
reserves index `0` and CPU 1 index `1`; both find their slot occupied; CPU 0
takes the index back to `0` and then CPU 1 sets it to `1`.  No call is in
progress, the ring is full and `lock->index` is one slot past
`next_map_idx`. -/
theorem exists_misaligned :
    ∃ s, ring.Reachable s ∧ Quiescent s ∧ s.consumer = .polling ∧
      (∀ k, s.slotValid k = true) ∧ s.nextMapIdx = 0 ∧ s.index = 1 ∧ ¬ Aligned s := by
  let p := newPingpongPayload 1
  obtain ⟨t, hrun, hcalls, hidx, hnext, hcons, hset, -⟩ :=
    exists_fill init (c := 0) (p := p) rfl rfl (m := 0) pos_zero.symm packetsMapSize le_rfl
      fun _ _ => rfl
  have hfull : ∀ k, t.slotValid k = true := fun k => by
    have hk := hset k.val k.isLt
    rw [Nat.zero_add, pos_val_self] at hk
    rw [State.slotValid, hk]
    rfl
  have hidx0 : t.index = 0 := by rw [hidx, pos_add_self, pos_zero]
  have hidle : ∀ c, t.calls c = .idle := fun c => by rw [hcalls]; rfl
  let t₁ := reserve t 0 p
  let t₂ := reserve t₁ 1 p
  let t₃ := t₂.setCall 0 (.dropping 0 p)
  let t₄ := t₃.setCall 1 (.dropping 1 p)
  let t₅ := ({ t₄ with index := 0 }.setCall 0 .idle).record (.dropped 0 p)
  let t₆ := ({ t₅ with index := 1 }.setCall 1 .idle).record (.dropped 1 p)
  have h₁ : ring.step t (.call 0 p) = some t₁ := by
    simp [ring, step, hidle, t₁, p]
  have h₂ : ring.step t₁ (.call 1 p) = some t₂ := by
    simp [ring, step, hidle, t₁, t₂, p, reserve]
  have h₃ : ring.step t₂ (.producer 0) = some t₃ := by
    have hv : t₂.slotValid 0 = true := hfull 0
    simp [ring, step, stepProducer, t₂, t₁, t₃, reserve, hidx0] at hv ⊢
    simp [hv]
  have h₄ : ring.step t₃ (.producer 1) = some t₄ := by
    have hv : t₃.slotValid 1 = true := hfull 1
    simp [ring, step, stepProducer, t₂, t₁, t₃, t₄, reserve, hidx0] at hv ⊢
    simp [hv]
  have h₅ : ring.step t₄ (.producer 0) = some t₅ := by
    simp [ring, step, stepProducer, t₃, t₄, t₅]
  have h₆ : ring.step t₅ (.producer 1) = some t₆ := by
    simp [ring, step, stepProducer, t₄, t₅, t₆]
  refine ⟨t₆, hrun.trans ((((((System.RunIf.refl.tail trivial h₁).tail trivial h₂).tail
    trivial h₃).tail trivial h₄).tail trivial h₅).tail trivial h₆), fun c => ?_, hcons, hfull,
    hnext, rfl, ?_⟩
  · by_cases h0 : c = 0 <;> by_cases h1 : c = 1 <;>
      simp [t₆, t₅, t₄, t₃, t₂, t₁, reserve, h0, h1, hidle]
  · rintro ⟨n, hn, hrun, -, hfull'⟩
    obtain ⟨i, hi, hpos⟩ := (hrun (pos packetsMapSize 127)).1 (hfull _)
    have hnext' : t₆.nextMapIdx = 0 := hnext
    rw [hnext', ← pos_zero (N := packetsMapSize), ← pos_add, Nat.zero_add, pos_eq_pos_iff] at hpos
    have hN : packetsMapSize = 128 := rfl
    rw [Nat.mod_eq_of_lt (by omega), Nat.mod_eq_of_lt (by omega)] at hpos
    have h01 : t₆.index = t₆.nextMapIdx := hfull' (Or.inr (by omega))
    have hindex' : t₆.index = 1 := rfl
    rw [hindex', hnext'] at h01
    exact absurd h01 (by decide)

end Slot
end Xdp
end DetBypass
