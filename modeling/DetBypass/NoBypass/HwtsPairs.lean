/-
# Which timestamps are filed under their packet

A timestamp and a packet id may come in either order.  The loop of
`extract_send_timestamps` (`no-bypass/hwts.cpp`) forgets `idx` when it has filed a
pair, and `_ts` never: after a pair whose timestamp came first `_ts` is the
timestamp of the last pair (`Pair.stale`), and a packet id that comes first is
filed with it.  Its own timestamp then stands in `_ts` for the next one.

So every timestamp is filed under its own packet exactly when the pairs with the
id first come before those with the timestamp first, or happen to have the
timestamp of the pair before (`filed_iff`).  The sentinel of `idx` is the id
`2^32 - 1`, which is not filed when it comes first.
-/

import DetBypass.NoBypass.Hwts
import Mathlib.Data.List.Induction

namespace DetBypass
namespace Hwts

/-- The two messages about one packet. -/
structure Pair where
  id : UInt32
  ts : UInt64
  idFirst : Bool
deriving DecidableEq

namespace Pair

/-- The messages in the order they come. -/
def events (p : Pair) : List Event :=
  if p.idFirst then [.packetId p.id, .timestamp p.ts] else [.timestamp p.ts, .packetId p.id]

/-- What the loop has in `_ts` after a pair. -/
def next (ts : UInt64) (p : Pair) : UInt64 :=
  if p.idFirst = true ∧ ts = -1 ∧ p.id ≠ -1 then -1 else p.ts

/-- What the loop has filed after a pair. -/
def file (ts : UInt64) (s : SendTs) (p : Pair) : SendTs :=
  if p.idFirst = false then s.file p.id p.ts
  else if ts ≠ -1 then s.file p.id ts
  else if p.id ≠ -1 then s.file p.id p.ts
  else s

/-- The pair is filed under its id with its own timestamp. -/
def FilesOwn (ts : UInt64) (p : Pair) : Prop :=
  p.idFirst = true → if ts = -1 then p.id ≠ -1 else p.ts = ts

/-- What the loop has in `_ts` after pairs. -/
def stale (pairs : List Pair) : UInt64 := pairs.foldl next (-1)

end Pair

open Pair

variable {ts : UInt64} {s s' : SendTs} {p : Pair} {pairs : List Pair} {n : ℕ}

/-- Every pair is filed in `s'`, and nothing else since `s`. -/
structure Filed (pairs : List Pair) (s s' : SendTs) : Prop where
  own : ∀ p ∈ pairs, s'.sendTs p.id.toNat = p.ts
  others : ∀ n, (∀ p ∈ pairs, p.id.toNat ≠ n) → s'.sendTs n = s.sendTs n
  cnt : s'.sendTsCnt = s.sendTsCnt + pairs.length

/-! ### The loop over pairs -/

/-- The loop after pairs. -/
def fileAll (ts : UInt64) (s : SendTs) : List Pair → SendTs
  | [] => s
  | p :: pairs => fileAll (p.next ts) (p.file ts s) pairs

/-- **One pair.**  The loop has no packet id again after it. -/
theorem extractEvents_pair (hts : p.ts ≠ -1) (rest : List Event) :
    extractEvents (-1) ts s (p.events ++ rest) =
      extractEvents (-1) (p.next ts) (p.file ts s) rest := by
  unfold Pair.events Pair.next Pair.file
  by_cases hfirst : p.idFirst = true
  · by_cases hstale : ts = -1
    · by_cases hid : p.id = -1
      · simp [extractEvents, hfirst, hstale, hid]
      · simp [extractEvents, hfirst, hstale, hid]
    · simp [extractEvents, hfirst, hstale]
  · simp [extractEvents, hfirst, hts]

/-- The loop files pair after pair. -/
theorem extractEvents_pairs (hts : ∀ p ∈ pairs, p.ts ≠ -1) :
    extractEvents (-1) ts s (pairs.flatMap Pair.events) = .ok (fileAll ts s pairs) := by
  induction pairs generalizing ts s with
  | nil => rfl
  | cons p pairs ih =>
      rw [List.flatMap_cons, extractEvents_pair (hts p (List.mem_cons_self ..)),
        ih fun q hq => hts q (List.mem_cons_of_mem _ hq)]
      rfl

/-- A pair leaves the other ids. -/
theorem Pair.file_sendTs_of_ne (hn : p.id.toNat ≠ n) : (p.file ts s).sendTs n = s.sendTs n := by
  unfold Pair.file
  split_ifs <;> first | rfl | exact Function.update_of_ne (Ne.symm hn) ..

/-- A pair counts for one at most. -/
theorem Pair.file_sendTsCnt_le : (p.file ts s).sendTsCnt ≤ s.sendTsCnt + 1 := by
  unfold Pair.file
  split_ifs <;> simp [SendTs.file]

/-- No other entry changes. -/
theorem fileAll_sendTs_of_ne (hn : ∀ p ∈ pairs, p.id.toNat ≠ n) :
    (fileAll ts s pairs).sendTs n = s.sendTs n := by
  induction pairs generalizing ts s with
  | nil => rfl
  | cons p pairs ih =>
      rw [fileAll, ih fun q hq => hn q (List.mem_cons_of_mem _ hq),
        Pair.file_sendTs_of_ne (hn p (List.mem_cons_self ..))]

/-- So no more are counted than come. -/
theorem fileAll_sendTsCnt_le (ts : UInt64) (s : SendTs) (pairs : List Pair) :
    (fileAll ts s pairs).sendTsCnt ≤ s.sendTsCnt + pairs.length := by
  induction pairs generalizing ts s with
  | nil => exact Nat.le_refl _
  | cons p pairs ih =>
      have hrest := ih (p.next ts) (p.file ts s)
      have hone : (p.file ts s).sendTsCnt ≤ s.sendTsCnt + 1 := Pair.file_sendTsCnt_le
      rw [fileAll, List.length_cons]
      omega

/-- Every pair is filed with its own timestamp, from `_ts` on. -/
def AllFilesOwn (ts : UInt64) : List Pair → Prop
  | [] => True
  | p :: pairs => p.FilesOwn ts ∧ AllFilesOwn (p.next ts) pairs

/-- A pair that files its own time does only that. -/
theorem Pair.FilesOwn.file_eq (h : p.FilesOwn ts) : p.file ts s = s.file p.id p.ts := by
  unfold Pair.file
  by_cases hfirst : p.idFirst = true
  · have hown := h hfirst
    by_cases hstale : ts = -1
    · rw [if_pos hstale] at hown
      simp [hfirst, hstale, hown]
    · rw [if_neg hstale] at hown
      simp [hfirst, hstale, hown]
  · simp [hfirst]

/-- A pair that is not filed with its own timestamp is not filed, or with
another. -/
theorem Pair.file_of_not (h : ¬ p.FilesOwn ts) :
    (p.file ts s).sendTsCnt = s.sendTsCnt ∨ (p.file ts s).sendTs p.id.toNat ≠ p.ts := by
  obtain ⟨hfirst, hown⟩ := Classical.not_imp.1 h
  unfold Pair.file
  by_cases hstale : ts = -1
  · rw [if_pos hstale, not_not] at hown
    exact Or.inl (by simp [hfirst, hstale, hown])
  · rw [if_neg hstale] at hown
    refine Or.inr ?_
    simpa [hfirst, hstale, SendTs.file] using Ne.symm hown

/-- **Pairs are filed** when each is filed with its own timestamp. -/
theorem filed_fileAll_iff (hids : (pairs.map Pair.id).Nodup) :
    Filed pairs s (fileAll ts s pairs) ↔ AllFilesOwn ts pairs := by
  induction pairs generalizing ts s with
  | nil => exact iff_of_true ⟨fun p hp => absurd hp List.not_mem_nil, fun n _ => rfl, rfl⟩ trivial
  | cons p pairs ih =>
      obtain ⟨hp, hids⟩ := List.nodup_cons.1 hids
      -- no later pair has the id of this one
      have hother : ∀ q ∈ pairs, q.id.toNat ≠ p.id.toNat := fun q hq he =>
        hp (List.mem_map.2 ⟨q, hq, UInt32.toNat_inj.1 he⟩)
      have hfinal : (fileAll ts s (p :: pairs)).sendTs p.id.toNat =
          (p.file ts s).sendTs p.id.toNat := fileAll_sendTs_of_ne hother
      by_cases hown : p.FilesOwn ts
      · rw [AllFilesOwn, and_iff_right hown, ← @ih (p.next ts) (p.file ts s) hids]
        have hfile := hown.file_eq (s := s)
        have hcnt : (p.file ts s).sendTsCnt = s.sendTsCnt + 1 := by rw [hfile]; rfl
        constructor
        · intro h
          refine ⟨fun q hq => h.own q (List.mem_cons_of_mem _ hq),
            fun n hn => fileAll_sendTs_of_ne hn, ?_⟩
          have hall := h.cnt
          rw [fileAll, List.length_cons] at hall
          omega
        · intro h
          refine ⟨fun q hq => ?_, fun n hn => fileAll_sendTs_of_ne hn, ?_⟩
          · rcases List.mem_cons.1 hq with rfl | hq
            · rw [hfinal, hfile]
              exact Function.update_self ..
            · exact h.own q hq
          · have hall := h.cnt
            rw [fileAll, List.length_cons]
            omega
      · refine iff_of_false (fun h => ?_) fun h => hown h.1
        rcases p.file_of_not (s := s) hown with hcnt | hval
        · have hall := h.cnt
          have hle := fileAll_sendTsCnt_le (p.next ts) (p.file ts s) pairs
          rw [fileAll, List.length_cons] at hall
          omega
        · exact hval (hfinal ▸ h.own p (List.mem_cons_self ..))

/-! ### In terms of the order -/

/-- A pair with the id first has the timestamp of the pair before it, if any before
has the timestamp first, and otherwise another id than the sentinel. -/
def OwnTimes (pairs : List Pair) : Prop :=
  ∀ pre p post, pairs = pre ++ p :: post → p.idFirst = true →
    ((∃ q ∈ pre, q.idFirst = false) → pre.getLast?.map Pair.ts = some p.ts) ∧
    ((∀ q ∈ pre, q.idFirst = true) → p.id ≠ -1)

/-- The stale time, with one pair more. -/
theorem Pair.stale_concat (pairs : List Pair) (p : Pair) :
    stale (pairs ++ [p]) = p.next (stale pairs) := by
  unfold stale
  rw [List.foldl_append, List.foldl_cons, List.foldl_nil]

/-- All file their own, with one pair more. -/
theorem allFilesOwn_concat (ts : UInt64) (pairs : List Pair) (p : Pair) :
    AllFilesOwn ts (pairs ++ [p]) ↔ AllFilesOwn ts pairs ∧ p.FilesOwn (pairs.foldl next ts) := by
  induction pairs generalizing ts with
  | nil => exact and_comm
  | cons q pairs ih => rw [List.cons_append, AllFilesOwn, AllFilesOwn, ih, and_assoc]; rfl

/-- The condition on the pairs, with one more. -/
theorem ownTimes_concat (pairs : List Pair) (p : Pair) :
    OwnTimes (pairs ++ [p]) ↔ OwnTimes pairs ∧ (p.idFirst = true →
      ((∃ q ∈ pairs, q.idFirst = false) → pairs.getLast?.map Pair.ts = some p.ts) ∧
      ((∀ q ∈ pairs, q.idFirst = true) → p.id ≠ -1)) := by
  constructor
  · intro h
    refine ⟨fun pre q post he => h pre q (post ++ [p]) ?_, h pairs p [] rfl⟩
    rw [he, List.append_assoc, List.cons_append]
  · rintro ⟨hall, hlast⟩ pre q post he
    rcases List.eq_nil_or_concat post with rfl | ⟨post, r, rfl⟩
    · obtain ⟨rfl, hq⟩ := List.append_inj' he rfl
      cases hq
      exact hlast
    · rw [List.concat_eq_append, ← List.cons_append, ← List.append_assoc] at he
      exact hall pre q post (List.append_inj' he rfl).1

/-- After pairs `_ts` is the timestamp of the last one if some timestamp came
first, and nothing otherwise, when every pair is filed with its own. -/
theorem Pair.stale_eq (hts : ∀ p ∈ pairs, p.ts ≠ -1) (hown : AllFilesOwn (-1) pairs) :
    (∀ q ∈ pairs, q.idFirst = true) ∧ stale pairs = -1 ∨
      (∃ q ∈ pairs, q.idFirst = false) ∧ stale pairs ≠ -1 ∧
        pairs.getLast?.map Pair.ts = some (stale pairs) := by
  induction pairs using List.reverseRecOn with
  | nil => exact Or.inl ⟨fun q hq => absurd hq List.not_mem_nil, rfl⟩
  | append_singleton pairs p ih =>
      obtain ⟨hown, hp⟩ := (allFilesOwn_concat ..).1 hown
      have hmem : p ∈ pairs ++ [p] := List.mem_append_right _ (List.mem_singleton_self p)
      have hlast : (pairs ++ [p]).getLast?.map Pair.ts = some p.ts := by
        rw [List.getLast?_concat, Option.map_some]
      rw [stale_concat, hlast]
      rcases ih (fun q hq => hts q (List.mem_append_left _ hq)) hown with
        ⟨hall, hstale⟩ | ⟨⟨q, hq, hfirst⟩, hstale, -⟩
      · by_cases hfirst : p.idFirst = true
        · have hid := hp hfirst
          rw [← stale, hstale, if_pos rfl] at hid
          refine Or.inl ⟨fun q hq => ?_, if_pos ⟨hfirst, hstale, hid⟩⟩
          rcases List.mem_append.1 hq with hq | hq
          · exact hall q hq
          · rw [List.mem_singleton.1 hq]
            exact hfirst
        · have hnext : p.next (stale pairs) = p.ts := if_neg fun h => hfirst h.1
          rw [hnext]
          exact Or.inr ⟨⟨p, hmem, Bool.eq_false_iff.2 hfirst⟩, hts p hmem, rfl⟩
      · have hnext : p.next (stale pairs) = p.ts := if_neg fun h => hstale h.2.1
        rw [hnext]
        exact Or.inr ⟨⟨q, List.mem_append_left _ hq, hfirst⟩, hts p hmem, rfl⟩

/-- **The order decides** whether every pair is filed with its own timestamp. -/
theorem allFilesOwn_iff (hts : ∀ p ∈ pairs, p.ts ≠ -1) :
    AllFilesOwn (-1) pairs ↔ OwnTimes pairs := by
  induction pairs using List.reverseRecOn with
  | nil => exact iff_of_true trivial fun pre p post he => by simp at he
  | append_singleton pairs p ih =>
      have hts' : ∀ q ∈ pairs, q.ts ≠ -1 := fun q hq => hts q (List.mem_append_left _ hq)
      rw [allFilesOwn_concat, ownTimes_concat, ← ih hts']
      refine and_congr_right fun hown => imp_congr_right fun hfirst => ?_
      rw [← stale]
      rcases Pair.stale_eq hts' hown with ⟨hall, hstale⟩ | ⟨⟨q, hq, hfalse⟩, hstale, hlast⟩
      · rw [if_pos hstale, imp_iff_right hall]
        exact (and_iff_right fun ⟨q, hq, hfalse⟩ => by
          cases hfalse.symm.trans (hall q hq)).symm
      · rw [if_neg hstale, hlast, Option.some.injEq, imp_iff_right ⟨q, hq, hfalse⟩, eq_comm]
        exact (and_iff_left fun hall => by cases hfalse.symm.trans (hall q hq)).symm

/-- **When transmit timestamps are filed under their own packet.**  For messages
that hold pairs with different ids, among any others: if and only if no pair with
the id first follows one with the timestamp first, unless it has the timestamp of
the pair before it (and the id is not the sentinel). -/
theorem filed_iff {msgs : List Cmsg}
    (hmsgs : msgs.filterMap Cmsg.event = pairs.flatMap Pair.events)
    (hids : (pairs.map Pair.id).Nodup) (hts : ∀ p ∈ pairs, p.ts ≠ -1) (s : SendTs) :
    (∃ s', extractSendTimestamps msgs s = .ok s' ∧ Filed pairs s s') ↔ OwnTimes pairs := by
  rw [extractSendTimestamps, extractLoop_eq, hmsgs, extractEvents_pairs hts,
    ← allFilesOwn_iff hts, ← filed_fileAll_iff (s := s) hids]
  constructor
  · rintro ⟨s', hok, hfiled⟩
    cases hok
    exact hfiled
  · exact fun hfiled => ⟨_, rfl, hfiled⟩

/-- A timestamp message. -/
def timestampMsg (val : UInt64) : Cmsg := ⟨solSocket, soTimestamping, val, 0, 0⟩

/-- The message with the id of a packet. -/
def packetIdMsg (id : UInt32) : Cmsg := ⟨solIp, ipRecverr, 0, soEeOriginTimestamping, id⟩

/-- Packet 0 with its id first, an error of another origin, and packet 1 with its
timestamp first. -/
theorem filed_iff_ordered :
    ∃ s', extractSendTimestamps [packetIdMsg 0, timestampMsg 5, ⟨solIp, ipRecverr, 0, 2, 9⟩,
        timestampMsg 7, packetIdMsg 1] ⟨fun _ => 0, 0⟩ = .ok s' ∧
      Filed [⟨0, 5, true⟩, ⟨1, 7, false⟩] ⟨fun _ => 0, 0⟩ s' := by
  refine (filed_iff (by decide) (by decide) (by decide) _).2 fun pre p post he hfirst => ?_
  obtain ⟨rfl, hhead⟩ | ⟨pre, rfl, htail⟩ := List.cons_eq_append_iff.1 he
  · cases hhead
    exact ⟨fun ⟨q, hq, _⟩ => absurd hq List.not_mem_nil, fun _ => by decide⟩
  · obtain ⟨rfl, hhead⟩ | ⟨pre, rfl, hnil⟩ := List.cons_eq_append_iff.1 htail
    · cases hhead
      cases hfirst
    · simp at hnil

/-- **A timestamp filed under another packet.**  Packet 0 comes with its timestamp
first and packet 1 with its id first: 5, the time of packet 0, is filed for both. -/
theorem exists_not_filed :
    let msgs := [timestampMsg 5, packetIdMsg 0, packetIdMsg 1, timestampMsg 7]
    let pairs : List Pair := [⟨0, 5, false⟩, ⟨1, 7, true⟩]
    msgs.filterMap Cmsg.event = pairs.flatMap Pair.events ∧ (pairs.map Pair.id).Nodup ∧
      (∃ s', extractSendTimestamps msgs ⟨fun _ => 0, 0⟩ = .ok s' ∧ s'.sendTs 1 = 5) ∧
      ¬ ∃ s', extractSendTimestamps msgs ⟨fun _ => 0, 0⟩ = .ok s' ∧
        Filed pairs ⟨fun _ => 0, 0⟩ s' := by
  have hrun : extractSendTimestamps [timestampMsg 5, packetIdMsg 0, packetIdMsg 1,
      timestampMsg 7] ⟨fun _ => 0, 0⟩ = .ok ((SendTs.file ⟨fun _ => 0, 0⟩ 0 5).file 1 5) := rfl
  refine ⟨by decide, by decide, ⟨_, hrun, rfl⟩, ?_⟩
  rintro ⟨s', hok, hfiled⟩
  cases hrun.symm.trans hok
  exact absurd (hfiled.own ⟨1, 7, true⟩ (by decide)) (by decide)

end Hwts
end DetBypass
