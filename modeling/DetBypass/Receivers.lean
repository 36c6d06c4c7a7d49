/-
# The three receiving loops

`start_server` and `start_client` of `no-bypass/main.c` and `receive_packets` of
`xdp/pp_pure.c`, while no call fails and nothing interrupts them:
`while (last < iters)` a datagram is received and handled, and
`last = max (last, payload->id)`.  Two of them keep `last` in a `uint64_t` and
stop at the first id that is not below `iters`; `start_client` of `no-bypass`
keeps it in a `uint32_t`, so an id of `2^32` or more is lost by the assignment.
-/

import DetBypass.Common.Payload
import DetBypass.Lib.Loop

namespace DetBypass
namespace Receiver

open Lib

/-- What `recvfrom` left in the buffer, and the readings of the clock while it is
handled. -/
structure Datagram where
  payload : PingpongPayload
  t₁ : UInt64
  t₂ : UInt64

/-- A receiving loop: what it sends or writes for a datagram, and the value of
its progress variable after an assignment. -/
structure Loop where
  handle : Datagram → PingpongPayload
  assign : UInt64 → UInt64

/-- The progress variable, and what has been sent or written. -/
structure State where
  last : UInt64
  handled : List PingpongPayload

variable {f : Loop} {iters : UInt64} {ds : List Datagram}

/-- The body of the loop. -/
def Loop.body (f : Loop) (s : State) (d : Datagram) : State where
  last := f.assign (max s.last d.payload.id)
  handled := s.handled ++ [f.handle d]

/-- The loop, after some datagrams have arrived. -/
def Loop.run (f : Loop) (iters : UInt64) (ds : List Datagram) : State :=
  whileLoop (fun s => decide (s.last < iters)) f.body ⟨0, []⟩ ds

/-- `start_server` of `no-bypass/main.c`: the payload is sent back. -/
def NoBypass.startServer : Loop where
  handle d := (d.payload.setTs 1 d.t₁).setTs 2 d.t₂
  assign v := v

/-- `start_client` of `no-bypass/main.c`; `last_idx` is a `uint32_t`. -/
def NoBypass.startClient : Loop where
  handle d := d.payload.setTs 3 d.t₁
  assign v := v.toUInt32.toUInt64

/-- `receive_packets` of `xdp/pp_pure.c`; `ts[3]` is set by the XDP program. -/
def PpPure.receivePackets : Loop where
  handle d := d.payload
  assign v := v

/-- The datagrams up to and including the first whose id is not below `iters`. -/
def due (iters : UInt64) (ds : List Datagram) : List Datagram :=
  upTo (fun d => decide (iters ≤ d.payload.id)) ds

/-- The latest id of some datagrams. -/
def latest (ds : List Datagram) : UInt64 := maxId (ds.map Datagram.payload)

/-- At any time those that were due have been handled, and the progress variable
is the latest of their ids. -/
def Loop.StopsAtLast (f : Loop) (iters : UInt64) (ds : List Datagram) : Prop :=
  ∀ ds', ds' <+: ds →
    f.run iters ds' = ⟨latest (due iters ds'), (due iters ds').map f.handle⟩

/-! ### The latest id -/

/-- The latest id, with one datagram more. -/
theorem latest_concat (ds : List Datagram) (d : Datagram) :
    latest (ds ++ [d]) = max (latest ds) d.payload.id := by
  rw [latest, List.map_append, List.map_singleton, maxId_concat, latest]

/-- No id is later. -/
theorem id_le_latest {d : Datagram} (hd : d ∈ ds) : d.payload.id ≤ latest ds :=
  le_maxId (List.mem_map_of_mem hd)

/-- Before the last id, and only then, the latest id is below `iters`. -/
theorem latest_lt_iff (hiters : iters ≠ 0) :
    latest ds < iters ↔ ∀ d ∈ ds, decide (iters ≤ d.payload.id) = false := by
  constructor
  · intro hlt d hd
    refine decide_eq_false fun hle => ?_
    exact absurd (UInt64.le_trans hle (id_le_latest hd)) (UInt64.not_le.2 hlt)
  · intro h
    refine UInt64.not_le.1 fun hle => ?_
    obtain ⟨p, hp, hid⟩ := exists_le_id hiters hle
    obtain ⟨d, hd, rfl⟩ := List.mem_map.1 hp
    exact absurd hid (of_decide_eq_false (h d hd))

/-! ### The loops -/

/-- The body over some datagrams, when no assignment loses their latest id. -/
theorem foldl_body (h : ∀ l, l <+: ds → l ≠ [] → f.assign (latest l) = latest l) :
    ds.foldl f.body ⟨0, []⟩ = ⟨latest ds, ds.map f.handle⟩ := by
  induction ds using List.reverseRecOn with
  | nil => rfl
  | append_singleton ds d ih =>
      have hlast := h (ds ++ [d]) List.prefix_rfl (List.concat_ne_nil d ds)
      rw [List.foldl_append, List.foldl_cons, List.foldl_nil,
        ih fun l hl => h l (hl.trans (List.prefix_append ds [d])), Loop.body,
        ← latest_concat, hlast, List.map_append, List.map_singleton]

/-- A loop that loses no latest id before the last one handles what is due. -/
theorem run_eq (hiters : iters = 0 → ds = [])
    (h : ∀ l, l <+: due iters ds → l ≠ [] → f.assign (latest l) = latest l) :
    f.run iters ds = ⟨latest (due iters ds), (due iters ds).map f.handle⟩ := by
  by_cases hzero : iters = 0
  · rw [hiters hzero]
    rfl
  · rw [← foldl_body h]
    refine whileLoop_eq_foldl_upTo fun l hl => ?_
    rw [foldl_body fun l' hl' => h l' (hl'.trans hl), decide_eq_true_iff]
    exact latest_lt_iff hzero

/-- If the loop is in order before and after a datagram that it handles, the
assignment lost nothing. -/
theorem assign_latest {d : Datagram}
    (h : f.run iters ds = ⟨latest ds, ds.map f.handle⟩)
    (h' : f.run iters (ds ++ [d]) = ⟨latest (ds ++ [d]), (ds ++ [d]).map f.handle⟩) :
    f.assign (latest (ds ++ [d])) = latest (ds ++ [d]) := by
  have hstep := whileLoop_concat (fun s => decide (s.last < iters)) f.body ⟨0, []⟩ ds d
  change f.run iters (ds ++ [d]) = _ at hstep
  rw [show whileLoop _ _ _ ds = f.run iters ds from rfl, h, h'] at hstep
  split_ifs at hstep
  · rw [latest_concat]
    exact (congrArg State.last hstep).symm.trans (latest_concat ds d)
  · have hlength := congrArg (fun s => s.handled.length) hstep
    simp at hlength

/-- **A loop stops at the last id** exactly if no assignment before that loses
the latest id; with `iters` zero it handles nothing. -/
theorem stopsAtLast_iff : f.StopsAtLast iters ds ↔ (iters = 0 → ds = []) ∧
    ∀ l, l <+: due iters ds → l ≠ [] → f.assign (latest l) = latest l := by
  constructor
  · intro h
    refine ⟨?_, fun l hl hne => ?_⟩
    · rintro rfl
      cases ds with
      | nil => rfl
      | cons d ds =>
          -- the loop is not entered, and the first datagram is due
          have hrun := congrArg (fun s => s.handled.length) (h [d] ⟨ds, rfl⟩)
          exact absurd hrun (by simp [Loop.run, whileLoop, due, upTo])
    · obtain ⟨l, d, rfl⟩ := (List.eq_nil_or_concat' l).resolve_left hne
      have hdue {l' : List Datagram} (hl' : l' <+: due iters ds) :
          f.run iters l' = ⟨latest l', l'.map f.handle⟩ := by
        have hrun := h l' (hl'.trans (upTo_isPrefix _ ds))
        rwa [due, upTo_of_isPrefix hl'] at hrun
      exact assign_latest (hdue ((List.prefix_append l [d]).trans hl)) (hdue hl)
  · rintro ⟨hiters, h⟩ ds' hds'
    refine run_eq (fun hzero => ?_) fun l hl => h l (hl.trans (upTo_mono hds'))
    rw [hiters hzero] at hds'
    exact List.prefix_nil.1 hds'

/-- A `uint32_t` keeps the latest id at every time exactly if all are below
`2^32`. -/
theorem latest_toUInt32_iff :
    (∀ l, l <+: ds → l ≠ [] → (latest l).toUInt32.toUInt64 = latest l) ↔
      ∀ d ∈ ds, d.payload.id.toNat < 2 ^ 32 := by
  have hfits (v : UInt64) : v.toUInt32.toUInt64 = v ↔ v.toNat < 2 ^ 32 := by
    rw [← UInt64.toNat_inj, UInt32.toNat_toUInt64, UInt64.toNat_toUInt32]
    omega
  simp only [hfits]
  constructor
  · intro h d hd
    have hlatest := h ds List.prefix_rfl (List.ne_nil_of_mem hd)
    exact Nat.lt_of_le_of_lt (UInt64.le_iff_toNat_le.1 (id_le_latest hd)) hlatest
  · intro h l hl _
    rcases exists_id_eq_maxId (l.map Datagram.payload) with hzero | ⟨p, hp, hid⟩
    · rw [latest, hzero]
      decide
    · obtain ⟨d, hd, rfl⟩ := List.mem_map.1 hp
      rw [latest, ← hid]
      exact h d (hl.subset hd)

/-- **When the receiving loops stop at the last id.**  For every `iters` and all
datagrams: the server and `receive_packets` unless `iters` is zero, where they
handle nothing; the client if also no id up to the last is `2^32` or more. -/
theorem receivers_stopsAtLast_iff (iters : UInt64) (ds : List Datagram) :
    (NoBypass.startServer.StopsAtLast iters ds ↔ (iters = 0 → ds = [])) ∧
    (PpPure.receivePackets.StopsAtLast iters ds ↔ (iters = 0 → ds = [])) ∧
    (NoBypass.startClient.StopsAtLast iters ds ↔ (iters = 0 → ds = []) ∧
      ∀ d ∈ due iters ds, d.payload.id.toNat < 2 ^ 32) := by
  refine ⟨?_, ?_, ?_⟩
  · rw [stopsAtLast_iff]
    exact and_iff_left fun _ _ _ => rfl
  · rw [stopsAtLast_iff]
    exact and_iff_left fun _ _ _ => rfl
  · rw [stopsAtLast_iff]
    exact and_congr_right fun _ => latest_toUInt32_iff

/-- A datagram with an id. -/
def datagram (id : UInt64) : Datagram := ⟨newPingpongPayload id, 0, 0⟩

/-- **A loop that goes on after the last id.**  The datagram with the id `2^32` is
the last of `2^32`; the client forgets it and handles the next one too. -/
theorem exists_not_stopsAtLast :
    (due 0x100000000 [datagram 0x100000000, datagram 1]).length = 1 ∧
      (NoBypass.startServer.run 0x100000000 [datagram 0x100000000, datagram 1]).handled.length = 1 ∧
      (NoBypass.startClient.run 0x100000000 [datagram 0x100000000, datagram 1]).handled.length = 2 ∧
      (NoBypass.startClient.run 0x100000000 [datagram 0x100000000, datagram 1]).last = 1 ∧
      ¬ NoBypass.startClient.StopsAtLast 0x100000000 [datagram 0x100000000, datagram 1] := by
  refine ⟨by decide, by decide, by decide, by decide, fun h => ?_⟩
  have hlast := congrArg State.last (h _ List.prefix_rfl)
  exact absurd hlast (by decide)

end Receiver
end DetBypass
