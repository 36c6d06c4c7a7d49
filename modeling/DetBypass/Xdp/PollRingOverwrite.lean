/-
# Accepted packets under several producers

The comment over `add_packet_to_map` (`xdp/pingpong.c`) says a packet is only
overwritten when the map gets full, and the check before the write drops the
new packet then.  The check holds no lock, so the promise rests on one
condition (`ClaimSafe`): a call that finds a slot free is the only one that has
found it free and not committed it yet.

Under it a claimed slot is not valid and has one claimant (`Exclusive`), and
the history follows: a committed payload stays in its slot until the consumer
has copied and cleared it, and two writes of one slot have a clear of that slot
between them (`kept_of_reachableIf`).

Without it a call that has passed its check and is then lapped by 128
reservations overwrites the packet the last of them committed
(`exists_overwritten`).
-/

import DetBypass.Xdp.PollRingSlots

namespace DetBypass
namespace Xdp
namespace Slot

open Lib PingpongPayload

variable {s t : State} {a : Action}

/-- The condition on a step: a call finds its slot free only while no other
call has found that slot free and not committed it. -/
def ClaimSafe (s : State) : Action → Prop
  | .producer c => ∀ key p, s.calls c = .reserved key p → s.slotValid key = false →
      ∀ c', (s.calls c').claims ≠ some key
  | _ => True

/-- A payload committed to a slot stays there until the consumer clears it. -/
def CommittedKept (s : State) : Prop :=
  ∀ c k p, Since s.log (.committed c k p) (.cleared k) → s.slots k = p

/-- Whatever the consumer clears it has copied. -/
def CopiedFirst (s : State) : Prop :=
  ∀ c k p, AtEach s.log (.cleared k) fun l =>
    Since l (.committed c k p) (.cleared k) → Since l (.copied k p) (.cleared k)

/-- Two writes of one slot have a clear of that slot between them. -/
def WritesSeparated (s : State) : Prop :=
  ∀ c k p, AtEach s.log (.wrote c k p) fun l => ∀ c' p', ¬ Since l (.wrote c' k p') (.cleared k)

/-- A claimed slot is not valid and has one claimant, and the history agrees
with the slots. -/
structure Exclusive (s : State) : Prop where
  unique : ∀ c c' k, (s.calls c).claims = some k → (s.calls c').claims = some k → c = c'
  free : ∀ c k, (s.calls c).claims = some k → s.slotValid k = false
  magic : ∀ c p, (s.calls c).payload = some p → p.magic = pingpongMagic
  written : ∀ c k p, s.calls c = .written k p → s.slots k = clearCommitBit p
  front : s.consumer ≠ .polling → s.slotValid s.nextMapIdx = true
  held : ∀ c k p, Since s.log (.wrote c k p) (.cleared k) →
    s.slotValid k = true ∨ s.calls c = .written k p
  kept : ∀ c k p, Since s.log (.committed c k p) (.cleared k) →
    s.slots k = p ∧ p.magic = pingpongMagic
  copying : s.consumer = .clearing →
    Since s.log (.copied s.nextMapIdx (s.slots s.nextMapIdx)) (.cleared s.nextMapIdx)
  copied : CopiedFirst s
  separated : WritesSeparated s

/-- Before the first call no slot is claimed. -/
theorem exclusive_init : Exclusive init where
  unique c c' k h := by cases h
  free c k h := by cases h
  magic c p h := by cases h
  written c k p h := by cases h
  front h := absurd rfl h
  held c k p h := absurd h not_since_nil
  kept c k p h := absurd h not_since_nil
  copying h := by cases h
  copied c k p := atEach_nil
  separated c k p := atEach_nil

/-- The slot of a committed payload is valid. -/
theorem Exclusive.valid_of_committed (h : Exclusive s) {c : ℕ} {k : Fin packetsMapSize}
    {p : PingpongPayload} (hs : Since s.log (.committed c k p) (.cleared k)) :
    s.slotValid k = true := by
  obtain ⟨hk, hp⟩ := h.kept c k p hs
  rw [State.slotValid, hk]
  exact validPingpongPayload_iff.2 hp

/-- A claimed slot differs from a valid one. -/
theorem Exclusive.ne_of_valid (h : Exclusive s) {c : ℕ} {k l : Fin packetsMapSize}
    (hc : (s.calls c).claims = some k) (hl : s.slotValid l = true) : l ≠ k := by
  rintro rfl
  rw [h.free c l hc] at hl
  cases hl

/-- Whatever was last written to a claimed slot, the claimant wrote it. -/
theorem Exclusive.eq_written (h : Exclusive s) {c c' : ℕ} {k : Fin packetsMapSize}
    {p : PingpongPayload} (hc : (s.calls c).claims = some k)
    (hs : Since s.log (.wrote c' k p) (.cleared k)) : s.calls c = .written k p := by
  rcases h.held c' k p hs with hv | hw
  · exact absurd rfl (h.ne_of_valid hc hv)
  · have : c = c' := h.unique c c' k hc (by rw [hw]; rfl)
    exact this ▸ hw

/-- A step that stores nothing and adds nothing to the history. -/
theorem Exclusive.keep (h : Exclusive s) (hslots : t.slots = s.slots)
    (hnext : t.nextMapIdx = s.nextMapIdx) (hlog : t.log = s.log)
    (hwritten : ∀ c k p, t.calls c = .written k p ↔ s.calls c = .written k p)
    (unique : ∀ c c' k, (t.calls c).claims = some k → (t.calls c').claims = some k → c = c')
    (free : ∀ c k, (t.calls c).claims = some k → s.slotValid k = false)
    (magic : ∀ c p, (t.calls c).payload = some p → p.magic = pingpongMagic)
    (front : t.consumer ≠ .polling → s.slotValid s.nextMapIdx = true)
    (copying : t.consumer = .clearing → s.consumer = .clearing) : Exclusive t where
  unique := unique
  free c k hc := by
    rw [State.slotValid, hslots]
    exact free c k hc
  magic := magic
  written c k p hc := by
    rw [hslots]
    exact h.written c k p ((hwritten c k p).1 hc)
  front hc := by
    rw [State.slotValid, hslots, hnext]
    exact front hc
  held c k p hs := by
    rw [hlog] at hs
    rw [State.slotValid, hslots, hwritten]
    exact h.held c k p hs
  kept c k p hs := by
    rw [hlog] at hs
    rw [hslots]
    exact h.kept c k p hs
  copying hc := by
    rw [hlog, hslots, hnext]
    exact h.copying (copying hc)
  copied c k p := by
    rw [hlog]
    exact h.copied c k p
  separated c k p := by
    rw [hlog]
    exact h.separated c k p

/-- A call starts, or moves on without a claim before or after. -/
theorem Exclusive.move (h : Exclusive s) {c : ℕ} {pc : CallPc} (hs : (s.calls c).claims = none)
    (hpc : pc.claims = none)
    (hmagic : ∀ p, pc.payload = some p → p.magic = pingpongMagic) {index : Fin packetsMapSize} :
    Exclusive ({ s with index := index }.setCall c pc) := by
  have hclaims : ∀ c', (Function.update s.calls c pc c').claims = (s.calls c').claims :=
    proj_update (hpc.trans hs.symm)
  refine h.keep rfl rfl rfl (fun c' k p => written_update_iff ?_ ?_) (fun c' c'' k h' h'' => ?_)
    (fun c' k hk => ?_) (fun c' p hp => ?_) h.front id
  · intro k p he
    rw [he] at hs
    cases hs
  · rintro k p rfl
    cases hpc
  · exact h.unique c' c'' k (hclaims c' ▸ h') (hclaims c'' ▸ h'')
  · exact h.free c' k (hclaims c' ▸ hk)
  · by_cases hc : c' = c
    · subst hc
      rw [setCall_calls, Function.update_self] at hp
      exact hmagic p hp
    · rw [setCall_calls, Function.update_of_ne hc] at hp
      exact h.magic c' p hp

/-- The check passes where no other call claims the slot. -/
theorem Exclusive.claim (h : Exclusive s) {c : ℕ} {key : Fin packetsMapSize}
    {p : PingpongPayload} (hc : s.calls c = .reserved key p) (hfree : s.slotValid key = false)
    (hg : ∀ c', (s.calls c').claims ≠ some key) :
    Exclusive (s.setCall c (.checked key p)) := by
  have hself : Function.update s.calls c (.checked key p) c = .checked key p :=
    Function.update_self ..
  have hne : ∀ c', c' ≠ c → Function.update s.calls c (.checked key p) c' = s.calls c' :=
    fun c' hc' => Function.update_of_ne hc' ..
  refine h.keep rfl rfl rfl (fun c' k q => written_update_iff (by simp [hc]) (by simp))
    (fun c' c'' k h' h'' => ?_) (fun c' k hk => ?_) (fun c' q hq => ?_) h.front id
  · by_cases hc' : c' = c <;> by_cases hc'' : c'' = c
    · rw [hc', hc'']
    · subst hc'
      rw [setCall_calls, hself] at h'
      rw [setCall_calls, hne c'' hc'', ← Option.some.inj h'] at h''
      exact absurd h'' (hg c'')
    · subst hc''
      rw [setCall_calls, hself] at h''
      rw [setCall_calls, hne c' hc', ← Option.some.inj h''] at h'
      exact absurd h' (hg c')
    · rw [setCall_calls, hne c' hc'] at h'
      rw [setCall_calls, hne c'' hc''] at h''
      exact h.unique c' c'' k h' h''
  · by_cases hc' : c' = c
    · rw [setCall_calls, hc', hself] at hk
      exact Option.some.inj hk ▸ hfree
    · rw [setCall_calls, hne c' hc'] at hk
      exact h.free c' k hk
  · rw [setCall_calls, proj_update (f := CallPc.payload) (by rw [hc]; rfl)] at hq
    exact h.magic c' q hq

/-- A drop ends a call and is no event of a slot. -/
theorem Exclusive.dropped (h : Exclusive s) (c : ℕ) (p : PingpongPayload) :
    Exclusive (s.record (.dropped c p)) where
  unique := h.unique
  free := h.free
  magic := h.magic
  written := h.written
  front := h.front
  held c' k q hs := by
    rcases since_concat.1 hs with he | ⟨hs, -⟩
    · cases he
    · exact h.held c' k q hs
  kept c' k q hs := by
    rcases since_concat.1 hs with he | ⟨hs, -⟩
    · cases he
    · exact h.kept c' k q hs
  copying hc := since_concat.2 (Or.inr ⟨h.copying hc, by simp⟩)
  copied c' k q := atEach_concat.2 ⟨h.copied c' k q, by simp⟩
  separated c' k q := atEach_concat.2 ⟨h.separated c' k q, by simp⟩

/-- The claimant stores its payload without the commit bit: the slot was not
valid before and is not valid after. -/
theorem Exclusive.write (h : Exclusive s) {c : ℕ} {key : Fin packetsMapSize}
    {p : PingpongPayload} (hc : s.calls c = .checked key p) :
    Exclusive (((s.setSlot key (clearCommitBit p)).setCall c (.written key p)).record
      (.wrote c key p)) := by
  have hclaim : (s.calls c).claims = some key := by rw [hc]; rfl
  have hp : p.magic = pingpongMagic := h.magic c p (by rw [hc]; rfl)
  have hclaims : ∀ c', (Function.update s.calls c (.written key p) c').claims =
      (s.calls c').claims := proj_update hclaim.symm
  have hpayload : ∀ c', (Function.update s.calls c (.written key p) c').payload =
      (s.calls c').payload := proj_update (by rw [hc]; rfl)
  have hother : ∀ k, k ≠ key → Function.update s.slots key (clearCommitBit p) k = s.slots k :=
    fun k hk => Function.update_of_ne hk ..
  have hvalid : ∀ k, s.slotValid k = true → validPingpongPayload
      (Function.update s.slots key (clearCommitBit p) k) = true := fun k hk => by
    rw [hother k (h.ne_of_valid hclaim hk)]
    exact hk
  -- nothing written to the slot stands: the claimant has not written yet
  have hnew : ∀ c' q, ¬ Since s.log (.wrote c' key q) (.cleared key) := fun c' q hs => by
    have := h.eq_written hclaim hs
    rw [hc] at this
    cases this
  constructor
  case unique =>
    intro c' c'' k h' h''
    exact h.unique c' c'' k (hclaims c' ▸ h') (hclaims c'' ▸ h'')
  case free =>
    intro c' k hk
    have hk : (s.calls c').claims = some k := hclaims c' ▸ hk
    change validPingpongPayload (Function.update s.slots key (clearCommitBit p) k) = false
    by_cases hkk : k = key
    · rw [hkk, Function.update_self]
      exact Bool.eq_false_iff.2 fun hv =>
        clearCommitBit_not_valid hp (validPingpongPayload_iff.1 hv)
    · rw [hother k hkk]
      exact h.free c' k hk
  case magic =>
    intro c' q hq
    exact h.magic c' q (hpayload c' ▸ hq)
  case written =>
    intro c' k q hq
    change Function.update s.slots key (clearCommitBit p) k = clearCommitBit q
    by_cases hc' : c' = c
    · subst hc'
      rw [record_calls, setCall_calls, Function.update_self] at hq
      cases hq
      exact Function.update_self ..
    · rw [record_calls, setCall_calls, Function.update_of_ne hc'] at hq
      have hq' : s.calls c' = .written k q := hq
      have hk : k ≠ key := by
        rintro rfl
        exact hc' (h.unique c' c k (by rw [hq']; rfl) hclaim)
      rw [hother k hk]
      exact h.written c' k q hq'
  case front =>
    intro hcons
    exact hvalid _ (h.front hcons)
  case held =>
    intro c' k q hs
    rcases since_concat.1 hs with he | ⟨hs, -⟩
    · cases he
      exact Or.inr (Function.update_self ..)
    · rcases h.held c' k q hs with hv | hw
      · exact Or.inl (hvalid k hv)
      · have hne : c' ≠ c := by
          rintro rfl
          rw [hc] at hw
          cases hw
        exact Or.inr ((Function.update_of_ne hne ..).trans hw)
  case kept =>
    intro c' k q hs
    rcases since_concat.1 hs with he | ⟨hs, -⟩
    · cases he
    · have hk := h.ne_of_valid hclaim (h.valid_of_committed hs)
      exact ⟨(hother k hk).trans (h.kept c' k q hs).1, (h.kept c' k q hs).2⟩
  case copying =>
    intro hcons
    have hfront := h.front (by rw [show s.consumer = _ from hcons]; decide)
    change Since (s.log ++ [_]) (.copied s.nextMapIdx
      (Function.update s.slots key (clearCommitBit p) s.nextMapIdx)) (.cleared s.nextMapIdx)
    rw [hother _ (h.ne_of_valid hclaim hfront)]
    exact since_concat.2 (Or.inr ⟨h.copying hcons, by simp⟩)
  case copied =>
    intro c' k q
    exact atEach_concat.2 ⟨h.copied c' k q, by simp⟩
  case separated =>
    intro c' k q
    refine atEach_concat.2 ⟨h.separated c' k q, fun he => ?_⟩
    cases he
    exact hnew

/-- The commit makes the slot hold the packet's payload, and ends the claim. -/
theorem Exclusive.commit (h : Exclusive s) {c : ℕ} {key : Fin packetsMapSize}
    {p : PingpongPayload} (hc : s.calls c = .written key p) :
    Exclusive (((s.setSlot key (setCommitBit (s.slots key))).setCall c .idle).record
      (.committed c key p)) := by
  have hclaim : (s.calls c).claims = some key := by rw [hc]; rfl
  have hp : p.magic = pingpongMagic := h.magic c p (by rw [hc]; rfl)
  have hslot : setCommitBit (s.slots key) = p := by
    rw [h.written c key p hc, setCommitBit_clearCommitBit hp]
  rw [hslot]
  have hother : ∀ k, k ≠ key → Function.update s.slots key p k = s.slots k :=
    fun k hk => Function.update_of_ne hk ..
  have hself : validPingpongPayload (Function.update s.slots key p key) = true := by
    rw [Function.update_self, validPingpongPayload_iff, hp]
  have hvalid : ∀ k, s.slotValid k = true →
      validPingpongPayload (Function.update s.slots key p k) = true := fun k hk => by
    rw [hother k (h.ne_of_valid hclaim hk)]
    exact hk
  constructor
  case unique =>
    intro c' c'' k h' h''
    exact h.unique c' c'' k (of_update_idle (f := CallPc.claims) rfl h').2
      (of_update_idle (f := CallPc.claims) rfl h'').2
  case free =>
    intro c' k hk
    obtain ⟨hne, hk⟩ := of_update_idle (f := CallPc.claims) rfl hk
    have hkk : k ≠ key := by
      rintro rfl
      exact hne (h.unique c' c k hk hclaim)
    change validPingpongPayload (Function.update s.slots key p k) = false
    rw [hother k hkk]
    exact h.free c' k hk
  case magic =>
    intro c' q hq
    exact h.magic c' q (of_update_idle (f := CallPc.payload) rfl hq).2
  case written =>
    intro c' k q hq
    obtain ⟨hne, hq⟩ := written_of_update_idle hq
    have hq' : s.calls c' = .written k q := hq
    have hkk : k ≠ key := by
      rintro rfl
      exact hne (h.unique c' c k (by rw [hq']; rfl) hclaim)
    exact (hother k hkk).trans (h.written c' k q hq')
  case front =>
    intro hcons
    exact hvalid _ (h.front hcons)
  case held =>
    intro c' k q hs
    rcases since_concat.1 hs with he | ⟨hs, -⟩
    · cases he
    · by_cases hk : k = key
      · exact Or.inl (hk ▸ hself)
      · rcases h.held c' k q hs with hv | hw
        · exact Or.inl (hvalid k hv)
        · have hne : c' ≠ c := by
            rintro rfl
            rw [hc] at hw
            cases hw
            exact hk rfl
          exact Or.inr ((Function.update_of_ne hne ..).trans hw)
  case kept =>
    intro c' k q hs
    rcases since_concat.1 hs with he | ⟨hs, -⟩
    · cases he
      exact ⟨Function.update_self .., hp⟩
    · have hk := h.ne_of_valid hclaim (h.valid_of_committed hs)
      exact ⟨(hother k hk).trans (h.kept c' k q hs).1, (h.kept c' k q hs).2⟩
  case copying =>
    intro hcons
    have hfront := h.front (by rw [show s.consumer = _ from hcons]; decide)
    change Since (s.log ++ [_]) (.copied s.nextMapIdx
      (Function.update s.slots key p s.nextMapIdx)) (.cleared s.nextMapIdx)
    rw [hother _ (h.ne_of_valid hclaim hfront)]
    exact since_concat.2 (Or.inr ⟨h.copying hcons, by simp⟩)
  case copied =>
    intro c' k q
    exact atEach_concat.2 ⟨h.copied c' k q, by simp⟩
  case separated =>
    intro c' k q
    exact atEach_concat.2 ⟨h.separated c' k q, by simp⟩

/-- The consumer's copy changes no slot. -/
theorem Exclusive.copy (h : Exclusive s) (hs : s.consumer = .copying) :
    Exclusive ({ s with destPayload := s.slots s.nextMapIdx, consumer := .clearing }.record
      (.copied s.nextMapIdx (s.slots s.nextMapIdx))) where
  unique := h.unique
  free := h.free
  magic := h.magic
  written := h.written
  front _ := h.front (by rw [hs]; decide)
  held c k p hs := by
    rcases since_concat.1 hs with he | ⟨hs, -⟩
    · cases he
    · exact h.held c k p hs
  kept c k p hs := by
    rcases since_concat.1 hs with he | ⟨hs, -⟩
    · cases he
    · exact h.kept c k p hs
  copying _ := since_concat.2 (Or.inl rfl)
  copied c k p := atEach_concat.2 ⟨h.copied c k p, by simp⟩
  separated c k p := atEach_concat.2 ⟨h.separated c k p, by simp⟩

/-- The consumer clears a valid slot, which no call claims. -/
theorem Exclusive.clear (h : Exclusive s) (hs : s.consumer = .clearing) :
    Exclusive ({ s.setSlot s.nextMapIdx .zero with
      nextMapIdx := s.nextMapIdx + 1, consumer := .polling }.record
        (.cleared s.nextMapIdx)) := by
  have hfront := h.front (by rw [hs]; decide)
  have hother : ∀ k, k ≠ s.nextMapIdx → Function.update s.slots s.nextMapIdx .zero k =
      s.slots k := fun k hk => Function.update_of_ne hk ..
  constructor
  case unique => exact h.unique
  case free =>
    intro c k hk
    change validPingpongPayload (Function.update s.slots s.nextMapIdx .zero k) = false
    rw [hother k (h.ne_of_valid hk hfront).symm]
    exact h.free c k hk
  case magic => exact h.magic
  case written =>
    intro c k p hw
    have hw : s.calls c = .written k p := hw
    have hk := h.ne_of_valid (c := c) (k := k) (by rw [hw]; rfl) hfront
    exact (hother k hk.symm).trans (h.written c k p hw)
  case front =>
    intro hcons
    exact absurd rfl hcons
  case held =>
    intro c k p hs
    rcases since_concat.1 hs with he | ⟨hs, hk⟩
    · cases he
    · refine (h.held c k p hs).imp_left fun hv => ?_
      change validPingpongPayload (Function.update s.slots s.nextMapIdx .zero k) = true
      rw [hother k fun he => hk (he ▸ rfl)]
      exact hv
  case kept =>
    intro c k p hs
    rcases since_concat.1 hs with he | ⟨hs, hk⟩
    · cases he
    · obtain ⟨hk', hp⟩ := h.kept c k p hs
      exact ⟨(hother k fun he => hk (he ▸ rfl)).trans hk', hp⟩
  case copying =>
    intro hcons
    cases hcons
  case copied =>
    intro c k p
    refine atEach_concat.2 ⟨h.copied c k p, fun he hc => ?_⟩
    cases he
    have := h.copying hs
    rwa [(h.kept c _ p hc).1] at this
  case separated =>
    intro c k p
    exact atEach_concat.2 ⟨h.separated c k p, by simp⟩

/-- **No slot is claimed twice** in a run of safe claims. -/
theorem exclusive_invariant : ring.Invariant ClaimSafe Exclusive where
  init := exclusive_init
  step := by
    intro s a t h hg hstep
    cases step_cases hstep with
    | call c p hc hp =>
        exact h.move (by rw [hc]; rfl)
          (show CallPc.claims (.reserved s.index p) = none from rfl) fun q hq =>
          Option.some.inj hq ▸ hp
    | full c key p hc _ =>
        exact h.move (by rw [hc]; rfl) rfl fun q hq =>
          h.magic c q (by rw [hc]; exact hq)
    | free c key p hc hfree => exact h.claim hc hfree (hg key p hc hfree)
    | reset c key p hc =>
        exact (h.move (by rw [hc]; rfl) rfl fun q hq => by cases hq).dropped c p
    | write c key p hc => exact h.write hc
    | commit c key p hc => exact h.commit hc
    | spin _ _ => exact h
    | found _ hv =>
        exact h.keep rfl rfl rfl (fun _ _ _ => Iff.rfl) h.unique h.free h.magic (fun _ => hv)
          fun hc => by cases hc
    | copy hc => exact h.copy hc
    | clear hc => exact h.clear hc

/-- **An accepted packet is never overwritten.**  In every run of any number of
producers and one consumer in which a slot is found free by one call at a time:
a committed payload stays unchanged in its slot until the consumer has copied
and cleared it, and between two writes of one slot the consumer clears it. -/
theorem kept_of_reachableIf (h : ring.ReachableIf ClaimSafe s) :
    CommittedKept s ∧ CopiedFirst s ∧ WritesSeparated s := by
  have hs := exclusive_invariant.holds h
  exact ⟨fun c k p hc => (hs.kept c k p hc).1, hs.copied, hs.separated⟩

/-- One packet committed while no other call is in progress. -/
theorem kept_of_reachableIf_one :
    ∃ s, ring.ReachableIf ClaimSafe s ∧
      Since s.log (.committed 0 0 (newPingpongPayload 1)) (.cleared 0) ∧
      s.slots 0 = newPingpongPayload 1 ∧ CommittedKept s ∧ CopiedFirst s ∧ WritesSeparated s := by
  let p := newPingpongPayload 1
  let s₁ := reserve init 0 p
  let s₂ := s₁.setCall 0 (.checked 0 p)
  let s₃ := ((s₂.setSlot 0 (clearCommitBit p)).setCall 0 (.written 0 p)).record (.wrote 0 0 p)
  let s₄ := ((s₃.setSlot 0 (setCommitBit (s₃.slots 0))).setCall 0 .idle).record (.committed 0 0 p)
  have h₁ : ring.ReachableIf ClaimSafe s₁ :=
    System.ReachableIf.init.tail (a := .call 0 p) trivial rfl
  have h₂ : ring.ReachableIf ClaimSafe s₂ := by
    refine h₁.tail (a := .producer 0) (fun key q _ _ c' => ?_) rfl
    by_cases hc : c' = 0 <;> simp [s₁, reserve, init, hc, CallPc.claims]
  have h₃ : ring.ReachableIf ClaimSafe s₃ :=
    h₂.tail (a := .producer 0) (fun _ _ h => by simp [s₂] at h) rfl
  have h₄ : ring.ReachableIf ClaimSafe s₄ :=
    h₃.tail (a := .producer 0) (fun _ _ h => by simp [s₃] at h) rfl
  have hall := kept_of_reachableIf h₄
  have hsince : Since s₄.log (.committed 0 0 p) (.cleared 0) := since_concat.2 (Or.inl rfl)
  exact ⟨s₄, h₄, hsince, hall.1 0 0 p hsince, hall⟩

/-- **A lapped call overwrites an accepted packet.**  CPU 1 reserves index `0`
and finds the slot free; CPU 0 then pushes 128 packets, the last into slot `0`
again, which is still free; then CPU 1 writes.  All calls return `0`, the
consumer has cleared nothing, and the packet of CPU 0 is gone. -/
theorem exists_overwritten :
    ∃ s, ring.Reachable s ∧ ¬ CommittedKept s ∧ ¬ WritesSeparated s ∧
      ∃ l, s.log = l ++ [.wrote 0 0 (newPingpongPayload 2), .committed 0 0 (newPingpongPayload 2),
        .wrote 1 0 (newPingpongPayload 1), .committed 1 0 (newPingpongPayload 1)] := by
  let p := newPingpongPayload 1
  let q := newPingpongPayload 2
  let s₁ := reserve init 1 p
  let s₂ := s₁.setCall 1 (.checked 0 p)
  have h₁ : ring.Reachable s₁ := System.Reachable.init.tail (a := .call 1 p) rfl
  have h₂ : ring.Reachable s₂ := h₁.tail (a := .producer 1) rfl
  obtain ⟨t, hrun, hcalls, hidx, -, -, -, hkeep⟩ :=
    exists_fill s₂ (c := 0) (p := q) rfl rfl (m := 1) rfl 127 (by decide) fun _ _ => rfl
  have hidx : t.index = 0 := hidx
  have hslot : t.slots 0 = .zero := hkeep 0 fun j hj he => by
    have hN : packetsMapSize = 128 := rfl
    have := pos_inj (K := 0) (j := 0) (Nat.zero_le _) (by omega) le_rfl (by omega) he
    omega
  obtain ⟨u, hrun', hcalls', -, -, -, hslots, hlog⟩ :=
    exists_push t (c := 0) (p := q) (by rw [hcalls]; rfl) rfl (by
      rw [State.slotValid, hidx, hslot]
      rfl)
  have hc : u.calls 1 = .checked 0 p := by rw [hcalls', hcalls]; rfl
  let u₁ := ((u.setSlot 0 (clearCommitBit p)).setCall 1 (.written 0 p)).record (.wrote 1 0 p)
  let u₂ := ((u₁.setSlot 0 (setCommitBit (u₁.slots 0))).setCall 1 .idle).record (.committed 1 0 p)
  have hu₁ : ring.step u (.producer 1) = some u₁ := by
    simp only [ring, step, stepProducer, hc, u₁]
  have hu₂ : ring.step u₁ (.producer 1) = some u₂ := by
    have hc₁ : u₁.calls 1 = .written 0 p := by simp [u₁]
    simp only [ring, step, stepProducer, hc₁, u₂]
  have hlog₂ : u₂.log = t.log ++ [.wrote 0 0 q, .committed 0 0 q, .wrote 1 0 p,
      .committed 1 0 p] := by
    simp [u₂, u₁, hlog, hidx]
  refine ⟨u₂, ((h₂.trans hrun).trans hrun').trans
    ((System.RunIf.refl.tail trivial hu₁).tail trivial hu₂), fun hk => ?_, fun hw => ?_,
    t.log, hlog₂⟩
  · have h := hk 0 0 q ⟨t.log ++ [.wrote 0 0 q], [.wrote 1 0 p, .committed 1 0 p],
      by simp [hlog₂], by simp⟩
    have hp : u₂.slots 0 = p := by
      simp [u₂, u₁, setCommitBit_clearCommitBit (p := p) rfl]
    rw [hp] at h
    exact absurd (congrArg PingpongPayload.id h) (by decide)
  · exact hw 1 0 p (t.log ++ [.wrote 0 0 q, .committed 0 0 q]) [.committed 1 0 p]
      (by simp [hlog₂]) 0 q ⟨t.log, [.committed 0 0 q], by simp, by simp⟩

end Slot
end Xdp
end DetBypass
