/-
# Polls of an empty error queue

When nothing is queued `recvmsg` leaves the control buffer and its length as they
were, and `extract_send_timestamps` (`no-bypass/hwts.cpp`) reads the buffer all
the same: it returns early for every error but `EAGAIN`.  What stands there is
what the stack held before, the messages of the last poll for one.  The poll
changes nothing exactly when these bytes hold no pair of a timestamp and a packet
id (`NoPair`); then `send_ts_cnt` counts the timestamps received
(`extractPoll_eagain_iff`).
-/

import DetBypass.NoBypass.Hwts

namespace DetBypass
namespace Hwts

open Lib Memory

variable {idx : UInt32} {ts : UInt64} {s s' : SendTs} {es : List Event} {r : Recvmsg}
  {rs : List Recvmsg}

/-- The time of a timestamp. -/
def Event.val? : Event → Option UInt64
  | .timestamp val => some val
  | .packetId _ => none

/-- What the loop does with the messages of a control buffer. -/
def events (control : Memory) (controllen : ℕ) : List Event :=
  (cmsgs control controllen).filterMap Cmsg.event

/-- No timestamp and packet id go together: before a packet id stands no timestamp
other than `-1`, and nothing stands after it, unless it is `-1` itself. -/
def NoPair (es : List Event) : Prop :=
  ∀ pre id post, es = pre ++ .packetId id :: post →
    (post = [] ∨ id = -1) ∧ ∀ val, (pre.filterMap Event.val?).getLast? = some val → val = -1

/-- What is read of one packet: its timestamp and its id, in either order. -/
def IsPair (es : List Event) : Prop :=
  ∃ id val, val ≠ -1 ∧ (es = [.timestamp val, .packetId id] ∨
    es = [.packetId id, .timestamp val] ∧ id ≠ -1)

/-- The kernel wrote the buffer. -/
def Recvmsg.isReceived : Recvmsg → Bool
  | .received _ _ => true
  | .eagain _ | .failed => false

/-- The condition on a poll: a buffer the kernel did not write holds no pair, and
one it wrote holds that of one packet. -/
def Recvmsg.Clean : Recvmsg → Prop
  | .eagain control => NoPair (events control 2048)
  | .failed => True
  | .received control controllen => IsPair (events control controllen)

/-! ### The loop -/

/-- The count does not decrease. -/
theorem sendTsCnt_le_of_ok (h : extractEvents idx ts s es = .ok s') :
    s.sendTsCnt ≤ s'.sendTsCnt := by
  induction es generalizing idx ts s with
  | nil =>
      cases h
      exact Nat.le_refl _
  | cons e rest ih =>
      cases e with
      | timestamp val =>
          rw [extractEvents] at h
          split_ifs at h
          · exact Nat.le_of_succ_le (ih h)
          · exact ih h
      | packetId id =>
          rw [extractEvents] at h
          split_ifs at h
          · exact Nat.le_of_succ_le (ih h)
          · exact ih h

/-- A timestamp that was filed is counted. -/
theorem extractEvents_file_ne (id : UInt32) (val : UInt64) :
    extractEvents idx ts (s.file id val) es ≠ .ok s := fun h =>
  absurd (sendTsCnt_le_of_ok h) (Nat.not_succ_le_self _)

/-- The last timestamp, when one stands before the others. -/
theorem getLast?_val?_cons (val ts : UInt64) (pre : List Event) :
    ((Event.timestamp val :: pre).filterMap Event.val?).getLast?.getD ts =
      (pre.filterMap Event.val?).getLast?.getD val := by
  rw [List.filterMap_cons_some (show Event.val? (.timestamp val) = some val from rfl),
    List.getLast?_cons]
  rfl

/-- **When the loop changes nothing**, from any `idx` and `_ts` on. -/
theorem extractEvents_eq_iff (idx : UInt32) (ts : UInt64) (es : List Event) :
    extractEvents idx ts s es = .ok s ↔ (es ≠ [] → idx = -1) ∧
      ∀ pre id post, es = pre ++ .packetId id :: post →
        (post = [] ∨ id = -1) ∧ (pre.filterMap Event.val?).getLast?.getD ts = -1 := by
  induction es generalizing idx ts with
  | nil => exact iff_of_true rfl ⟨fun h => absurd rfl h, fun pre id post h => by simp at h⟩
  | cons e rest ih =>
      rw [imp_iff_right (List.cons_ne_nil e rest)]
      by_cases hidx : idx = -1
      case neg =>
        refine iff_of_false ?_ fun h => hidx h.1
        cases e with
        | timestamp val =>
            rw [extractEvents, if_pos hidx]
            exact extractEvents_file_ne idx val
        | packetId id =>
            rw [extractEvents, if_pos hidx]
            exact fun h => by cases h
      subst hidx
      rw [and_iff_right rfl]
      cases e with
      | timestamp val =>
          rw [extractEvents, if_neg (not_not.2 rfl), ih, and_iff_right fun _ => rfl]
          constructor
          · rintro h pre id post he
            obtain ⟨-, he⟩ | ⟨pre, rfl, rfl⟩ := List.cons_eq_append_iff.1 he
            · cases he
            · rw [getLast?_val?_cons]
              exact h pre id post rfl
          · rintro h pre id post rfl
            have hsplit := h (.timestamp val :: pre) id post rfl
            rwa [getLast?_val?_cons] at hsplit
      | packetId d =>
          rw [extractEvents, if_neg (not_not.2 rfl)]
          by_cases hts : ts = -1
          case neg =>
            rw [if_pos hts]
            exact iff_of_false (extractEvents_file_ne d ts) fun h => hts (h [] d rest rfl).2
          rw [if_neg (not_not.2 hts), ih]
          constructor
          · rintro ⟨hd, h⟩ pre id post he
            obtain ⟨rfl, he⟩ | ⟨pre, rfl, rfl⟩ := List.cons_eq_append_iff.1 he
            · cases he
              exact ⟨or_iff_not_imp_left.2 hd, hts⟩
            · exact h pre id post rfl
          · intro h
            refine ⟨or_iff_not_imp_left.1 (h [] d rest rfl).1, fun pre id post he => ?_⟩
            exact h (.packetId d :: pre) id post (by rw [he]; rfl)

/-- A buffer without a pair changes nothing, and only such a buffer. -/
theorem extractSendTimestamps_eq_iff (control : Memory) (controllen : ℕ) (s : SendTs) :
    extractSendTimestamps (cmsgs control controllen) s = .ok s ↔
      NoPair (events control controllen) := by
  unfold extractSendTimestamps NoPair
  rw [extractLoop_eq, extractEvents_eq_iff, and_iff_right fun _ => rfl]
  refine forall_congr' fun pre => forall_congr' fun id => forall_congr' fun post =>
    imp_congr_right fun _ => and_congr_right fun _ => ?_
  cases (pre.filterMap Event.val?).getLast? with
  | none => simp
  | some val => simp

/-- One packet's messages are counted once. -/
theorem exists_of_isPair {control : Memory} {controllen : ℕ}
    (h : IsPair (events control controllen)) (s : SendTs) :
    ∃ s', extractSendTimestamps (cmsgs control controllen) s = .ok s' ∧
      s'.sendTsCnt = s.sendTsCnt + 1 := by
  obtain ⟨id, val, hval, he | ⟨he, hid⟩⟩ := h
  · refine ⟨s.file id val, ?_, rfl⟩
    rw [extractSendTimestamps, extractLoop_eq, ← events, he]
    simp [extractEvents, hval]
  · refine ⟨s.file id val, ?_, rfl⟩
    rw [extractSendTimestamps, extractLoop_eq, ← events, he]
    simp [extractEvents, hid]

/-- **A run of polls** counts the timestamps received, if every poll is clean. -/
theorem exists_of_clean (h : ∀ r ∈ rs, r.Clean) (s : SendTs) :
    ∃ s', rs.foldlM extractPoll s = .ok s' ∧
      s'.sendTsCnt = s.sendTsCnt + rs.countP Recvmsg.isReceived := by
  induction rs generalizing s with
  | nil => exact ⟨s, rfl, rfl⟩
  | cons r rs ih =>
      obtain ⟨s₁, hpoll, hcnt⟩ : ∃ s₁, extractPoll s r = .ok s₁ ∧
          s₁.sendTsCnt = s.sendTsCnt + if r.isReceived then 1 else 0 := by
        have hclean := h r (List.mem_cons_self ..)
        cases r with
        | eagain control => exact ⟨s, (extractSendTimestamps_eq_iff control 2048 s).2 hclean, rfl⟩
        | failed => exact ⟨s, rfl, rfl⟩
        | received control controllen => exact exists_of_isPair hclean s
      obtain ⟨s', hrun, hcnt'⟩ := ih (fun r' hr' => h r' (List.mem_cons_of_mem _ hr')) s₁
      refine ⟨s', ?_, ?_⟩
      · rw [List.foldlM_cons, hpoll]
        exact hrun
      · rw [hcnt', hcnt, List.countP_cons]
        omega

/-- **When a poll of an empty queue changes nothing.**  For every state and every
content of the buffer, if and only if no timestamp and packet id in it go
together; and in a run of polls that are all clean `send_ts_cnt` grows by the
number of timestamps received. -/
theorem extractPoll_eagain_iff (s : SendTs) (control : Memory) :
    (extractPoll s (.eagain control) = .ok s ↔ NoPair (events control 2048)) ∧
      ∀ rs : List Recvmsg, (∀ r ∈ rs, r.Clean) → ∃ s', rs.foldlM extractPoll s = .ok s' ∧
        s'.sendTsCnt = s.sendTsCnt + rs.countP Recvmsg.isReceived :=
  ⟨extractSendTimestamps_eq_iff control 2048 s, fun _ h => exists_of_clean h s⟩

/-- The messages of packet 3, which left at 1.000000005 s, and zeros after them. -/
def staleControl : Memory := fun i =>
  ([64, 0, 0, 0, 0, 0, 0, 0, 1, 0, 0, 0, 37, 0, 0, 0] ++ List.replicate 32 0 ++
    [1, 0, 0, 0, 0, 0, 0, 0, 5, 0, 0, 0, 0, 0, 0, 0] ++
    [48, 0, 0, 0, 0, 0, 0, 0, 0, 0, 0, 0, 11, 0, 0, 0] ++
    [42, 0, 0, 0, 4, 0, 0, 0, 0, 0, 0, 0, 3, 0, 0, 0] : List UInt8).getD i 0

/-- The old pair is found at both lengths. -/
theorem events_staleControl :
    events staleControl 112 = [.timestamp 1000000005, .packetId 3] ∧
      events staleControl 2048 = [.timestamp 1000000005, .packetId 3] := by
  constructor
  · rw [events, cmsgs, if_neg (by decide),
      chain_of_some (show cmsgNxthdr staleControl 112 0 = some 64 by decide +kernel),
      chain_of_none (show cmsgNxthdr staleControl 112 64 = none by decide +kernel)]
    decide +kernel
  · rw [events, cmsgs, if_neg (by decide),
      chain_of_some (show cmsgNxthdr staleControl 2048 0 = some 64 by decide +kernel),
      chain_of_some (show cmsgNxthdr staleControl 2048 64 = some 112 by decide +kernel),
      chain_of_none (show cmsgNxthdr staleControl 2048 112 = none by decide +kernel)]
    decide +kernel

/-- **A timestamp counted twice.**  It is received, and the next poll finds the
queue empty and the messages still on the stack. -/
theorem exists_eagain_counted :
    ∃ s₁ s₂, extractPoll ⟨fun _ => 0, 0⟩ (.received staleControl 112) = .ok s₁ ∧
      s₁.sendTsCnt = 1 ∧ extractPoll s₁ (.eagain staleControl) = .ok s₂ ∧
      s₂.sendTsCnt = 2 ∧ s₂ ≠ s₁ := by
  obtain ⟨hreceived, hstale⟩ := events_staleControl
  let s₁ : SendTs := SendTs.file ⟨fun _ => 0, 0⟩ 3 1000000005
  refine ⟨s₁, s₁.file 3 1000000005, ?_, rfl, ?_, rfl, fun he => ?_⟩
  · rw [extractPoll, extractSendTimestamps, extractLoop_eq, ← events, hreceived]
    rfl
  · rw [extractPoll, extractSendTimestamps, extractLoop_eq, ← events, hstale]
    rfl
  · exact absurd (congrArg SendTs.sendTsCnt he) (by decide)

end Hwts
end DetBypass
