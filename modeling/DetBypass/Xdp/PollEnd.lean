/-
# Whether the polling pingpong ends

Nothing in `pp_poll` is sent twice and nothing times out: the loop of the client ends at a
record with the last id, so it waits for one pong.  `Alive` says where that pong, or the
ping it answers, can be: still to be sent, on the way to a server that has not left its
loop, in its ring, in its hands, on the way back, in the ring of the client, in its hands.

Wherever it is, the two hosts can go on to take it to the client, and once it is nowhere
no run ends the loop, other than by Ctrl-C (`canEnd_iff_alive`).  So the client can always
end as long as the network loses nothing and no call of `sendto` fails, whatever is
repeated, delayed and reordered (`canEnd_of_reliable`).  The server is started for at
least as many packets as the client; with fewer it could leave its loop at an earlier one.
-/

import DetBypass.Lib.LeadsTo
import DetBypass.Xdp.PollRounds

namespace DetBypass
namespace Xdp
namespace Poll

open Lib

/-- Nobody stops the client. -/
def Uninterrupted (_ : State) : Action → Prop
  | .interrupt => False
  | _ => True

/-- The loop of the client has ended at its condition. -/
def Ended (s : State) : Prop := s.client.pc = .done

/-- The client has the last pong: it has recorded it, or it is in its ring or its hands. -/
def HasPong (n : UInt64) (s : State) : Prop :=
  n ≤ s.client.currentId ∨ (∃ p ∈ s.ring .client, p.id = n) ∨
    (s.client.pc = .check ∨ s.client.pc = .handle) ∧ s.client.bufPayload.id = n

/-- Or it is on its way. -/
def PongComes (n : UInt64) (s : State) : Prop :=
  HasPong n s ∨ ∃ p ∈ s.net .client, p.id = n

/-- The server is in its loop. -/
def Up (s : State) : Prop := s.server.pc ≠ .done ∧ s.server.pc ≠ .failed

/-- The server has the last ping: in its hands, or in its ring. -/
def HasPing (n : UInt64) (s : State) : Prop :=
  (s.server.pc = .handle ∨ s.server.pc = .reply) ∧ s.server.bufPayload.id = n ∨
    Up s ∧ ∃ p ∈ s.ring .server, p.id = n

/-- Or it is on its way. -/
def PingComes (n : UInt64) (s : State) : Prop :=
  HasPing n s ∨ Up s ∧ ∃ p ∈ s.net .server, p.id = n

/-- Or the sending thread will get to it. -/
def Unsent (n : UInt64) (s : State) : Prop :=
  Up s ∧ ∃ id ≤ n.toNat, s.client.senderPc = .writing id ∨ s.client.senderPc = .sending id

/-- The last round can go on to its end. -/
def Alive (n : UInt64) (s : State) : Prop := PongComes n s ∨ PingComes n s ∨ Unsent n s

variable {iters : Build → UInt64} {s t : State} {p : PingpongPayload} {a : Action}
  {n m : UInt64}

/-! ### The packets and the loops -/

/-- A ping on its way is valid and has phase 0. -/
theorem State.IsPing.phase (h : s.IsPing p) : p.phase = 0 ∧ validPingpongPayload p = true := by
  obtain ⟨m, -, rfl⟩ := h
  exact ⟨rfl, rfl⟩

/-- A pong is valid and has phase 2. -/
theorem Sound.pong_phase (h : Sound n s) (hp : s.IsPong p) :
    p.phase = 2 ∧ validPingpongPayload p = true := by
  obtain ⟨v, hv, rfl⟩ := hp
  exact ⟨rfl, (h.served v hv).1.phase.2⟩

/-- No ping has an id above the last. -/
theorem Sound.ping_id_le (h : Sound n s) (hp : s.IsPing p) : p.id ≤ n := by
  obtain ⟨m, hm, rfl⟩ := hp
  exact (h.sends m hm).2.1

/-- Nor has a pong. -/
theorem Sound.pong_id_le (h : Sound n s) (hp : s.IsPong p) : p.id ≤ n := by
  obtain ⟨v, hv, rfl⟩ := hp
  rw [pong_id]
  exact h.ping_id_le (h.served v hv).1

/-- What a record makes of `current_id`. -/
theorem le_currentId_iff {x y : UInt64} : n ≤ max x y ↔ n ≤ x ∨ n ≤ y := by
  show (n ≤ if x ≤ y then y else x) ↔ _
  split_ifs with hle
  · exact ⟨Or.inr, fun h => h.elim (fun h => UInt64.le_trans h hle) id⟩
  · exact ⟨Or.inl, fun h => h.elim id fun h =>
      UInt64.le_trans h (UInt64.le_of_lt (UInt64.not_le.1 hle))⟩

/-- Where the loops stand, in a run of a client for `n` packets that nobody stops and a
server for `m`. -/
structure Steady (n m : UInt64) (s : State) : Prop where
  running : s.client.globalExit = false ∧ s.client.pc ≠ .exited
  below : s.client.pc = .poll ∨ s.client.pc = .check ∨ s.client.pc = .handle →
    s.client.currentId < n
  packet : ∀ id, s.client.senderPc = .sending id →
    id ≤ n.toNat ∧ s.client.packet.id = UInt64.ofNat id
  serving : 0 < m → s.server.pc = .loop ∨ s.server.pc = .poll ∨ s.server.pc = .handle →
    s.server.currentId < m
  replying : 0 < m → s.server.pc = .reply → m ≤ s.server.currentId → s.server.bufPayload.id = n

/-- The hosts before they start. -/
theorem steady_initial (n m : UInt64) : Steady n m initial where
  running := ⟨rfl, ClientPc.noConfusion⟩
  below he := by rcases he with he | he | he <;> cases he
  packet _ he := SenderPc.noConfusion he
  serving hm _ := hm
  replying _ he := ServerPc.noConfusion he

/-- A step of the client's threads. -/
theorem Steady.stepClient (h : Steady n m s) (hquiet : Uninterrupted s a)
    (hstep : stepClient n s a = some t) : Steady n m t := by
  cases a <;> simp only [Poll.stepClient, reduceCtorEq] at hstep
  case write now =>
    split at hstep <;> try cases hstep
    rename_i id hpc
    split at hstep <;> cases hstep
    rename_i hguard
    exact { h with packet := fun id' he => SenderPc.sending.inj he ▸ ⟨hguard.1, rfl⟩ }
  case send ret =>
    split at hstep <;> try cases hstep
    split at hstep <;> cases hstep
    · exact { h with packet := fun _ he => SenderPc.noConfusion he }
    · exact { h with packet := fun _ he => SenderPc.noConfusion he }
  case clientLoop =>
    split at hstep <;> cases hstep
    have hrunning := h.running.1
    refine { h with running := ⟨hrunning, ?_⟩, below := fun he => ?_ }
    · rw [hrunning]
      split_ifs <;> simp_all
    · by_cases hlt : s.client.currentId < n
      · exact hlt
      · rw [if_pos hlt] at he
        rcases he with he | he | he <;> cases he
  case clientPoll =>
    split at hstep <;> cases hstep
    rename_i hpc _
    exact { h with
      running := ⟨h.running.1, ClientPc.noConfusion⟩
      below := fun _ => h.below (Or.inl hpc) }
  case clientPollExit slot =>
    split at hstep <;> cases hstep
    rename_i hpc
    rw [h.running.1] at hpc
    exact absurd hpc.2.1 Bool.false_ne_true
  case clientCheck =>
    split at hstep <;> cases hstep
    rename_i hpc
    refine { h with running := ⟨h.running.1, ?_⟩, below := fun _ => h.below (Or.inr (Or.inl hpc)) }
    rw [h.running.1]
    exact ClientPc.noConfusion
  case record now =>
    split at hstep <;> try cases hstep
    have hloop : ClientPc.loop = .poll ∨ ClientPc.loop = .check ∨ ClientPc.loop = .handle → False :=
      fun he => by rcases he with he | he | he <;> cases he
    split at hstep
    · cases hstep
      exact { h with
        running := ⟨h.running.1, ClientPc.noConfusion⟩
        below := fun he => (hloop he).elim }
    · split at hstep <;> cases hstep
      exact { h with
        running := ⟨h.running.1, ClientPc.noConfusion⟩
        below := fun he => (hloop he).elim }
  case interrupt => exact hquiet.elim

/-- A step of the server. -/
theorem Steady.stepServer (h : Steady n m s) (hsound : Sound n s) (hle : n ≤ m)
    (hstep : stepServer m s a = some t) : Steady n m t := by
  cases a <;> simp only [Poll.stepServer, reduceCtorEq] at hstep
  case serverLoop =>
    split at hstep <;> cases hstep
    rename_i hpc
    refine { h with
      serving := fun hm _ => h.serving hm (Or.inl hpc)
      replying := fun _ he => ?_ }
    split_ifs at he
  case serverPoll =>
    split at hstep <;> cases hstep
    rename_i hpc _
    exact { h with
      serving := fun hm _ => h.serving hm (Or.inr (Or.inl hpc))
      replying := fun _ he => ServerPc.noConfusion he }
  case serve t₁ t₂ =>
    split at hstep <;> try cases hstep
    rename_i hpc
    split at hstep
    · cases hstep
      exact { h with
        serving := fun _ he => by rcases he with he | he | he <;> cases he
        replying := fun _ he => ServerPc.noConfusion he }
    · split at hstep <;> cases hstep
      refine { h with
        serving := fun _ he => by rcases he with he | he | he <;> cases he
        replying := fun hm _ hmax => ?_ }
      have hid := hsound.ping_id_le (hsound.handling hpc)
      rcases le_currentId_iff.1 hmax with hmax | hmax
      · exact absurd (h.serving hm (Or.inr (Or.inr hpc))) (UInt64.not_lt.2 hmax)
      · exact UInt64.le_antisymm hid (UInt64.le_trans hle hmax)
  case reply ret =>
    split at hstep <;> try cases hstep
    split at hstep <;> cases hstep
    · exact { h with
        serving := fun _ he => by rcases he with he | he | he <;> cases he
        replying := fun _ he => ServerPc.noConfusion he }
    · refine { h with
        serving := fun _ he => ?_
        replying := fun _ he => ?_ }
      · by_cases hend : m ≤ s.server.currentId
        · rw [if_pos hend] at he
          rcases he with he | he | he <;> cases he
        · exact UInt64.not_le.1 hend
      · split_ifs at he

/-- A step of the network. -/
theorem Steady.stepNet (h : Steady n m s) (hstep : stepNet s a = some t) : Steady n m t := by
  cases a <;> simp only [Poll.stepNet, reduceCtorEq] at hstep
  case deliver dest packet again =>
    split at hstep <;> cases hstep
    exact { h with }
  case lose dest packet =>
    split at hstep <;> cases hstep
    exact { h with }

/-- **The invariants** of a run that nobody stops. -/
theorem steady_of_reachable (hle : iters .client ≤ iters .server)
    (h : (exchange iters).ReachableIf Uninterrupted s) :
    Sound (iters .client) s ∧ Steady (iters .client) (iters .server) s := by
  refine System.Invariant.holds
    (I := fun s => Sound (iters .client) s ∧ Steady (iters .client) (iters .server) s)
    ⟨⟨sound_initial _, steady_initial _ _⟩, ?_⟩ h
  rintro s a t ⟨hsound, hsteady⟩ hquiet hstep
  refine ⟨sound_invariant.step hsound trivial hstep, ?_⟩
  rcases step_cases hstep with hstep | hstep | hstep
  · exact hsteady.stepClient hquiet hstep
  · exact hsteady.stepServer hsound hle hstep
  · exact hsteady.stepNet hstep

/-! ### The last packet moves on -/

/-- Nobody stops the client, no packet is lost, and no call of `sendto` fails. -/
def Reliable (_ : State) : Action → Prop
  | .interrupt | .lose .. => False
  | .send ret | .reply ret => 0 ≤ ret
  | _ => True

instance (s : State) : DecidablePred (Reliable s) := fun a =>
  match a with
  | .interrupt | .lose .. => inferInstanceAs (Decidable False)
  | .send ret | .reply ret => inferInstanceAs (Decidable (0 ≤ ret))
  | .write .. | .clientLoop | .clientPoll | .clientPollExit .. | .clientCheck | .record ..
  | .serverLoop | .serverPoll | .serve .. | .deliver .. => inferInstanceAs (Decidable True)

/-- A run without losses is one without Ctrl-C. -/
theorem Reliable.uninterrupted (h : Reliable s a) : Uninterrupted s a := by
  cases a with
  | interrupt => exact h
  | _ => trivial

/-- A client with no packet in its hands. -/
theorem HasPong.of_waiting (h : HasPong n t)
    (hpc : t.client.pc ≠ .check ∧ t.client.pc ≠ .handle) :
    n ≤ t.client.currentId ∨ ∃ p ∈ t.ring .client, p.id = n := by
  rcases h with hcur | hring | ⟨hhand | hhand, -⟩
  · exact Or.inl hcur
  · exact Or.inr hring
  · exact absurd hhand hpc.1
  · exact absurd hhand hpc.2

/-- What the client has stays with it until it is recorded. -/
theorem HasPong.stepClient (h : HasPong n s) (hsound : Sound n s) (hsteady : Steady n m s)
    (hquiet : Uninterrupted s a) (hstep : stepClient n s a = some t) : HasPong n t := by
  cases a <;> simp only [Poll.stepClient, reduceCtorEq] at hstep
  case write now =>
    split at hstep <;> try cases hstep
    split at hstep <;> cases hstep
    exact h
  case send ret =>
    split at hstep <;> try cases hstep
    split at hstep <;> cases hstep
    · exact h
    · exact h
  case clientLoop =>
    split at hstep <;> cases hstep
    rename_i hpc
    exact (h.of_waiting (by simp [hpc])).imp id Or.inl
  case clientPoll =>
    split at hstep <;> cases hstep
    rename_i p rest hpc hring
    rcases h.of_waiting (by simp [hpc]) with hcur | ⟨q, hq, hid⟩
    · exact Or.inl hcur
    · rw [hring] at hq
      rcases List.mem_cons.1 hq with rfl | hq
      · exact Or.inr (Or.inr ⟨Or.inl rfl, hid⟩)
      · exact Or.inr (Or.inl ⟨q, by simpa using hq, hid⟩)
  case clientPollExit slot =>
    split at hstep <;> cases hstep
    rename_i hpc
    rw [hsteady.running.1] at hpc
    exact absurd hpc.2.1 Bool.false_ne_true
  case clientCheck =>
    split at hstep <;> cases hstep
    refine Or.imp_right (Or.imp_right fun hhand => ⟨?_, hhand.2⟩) h
    rw [hsteady.running.1]
    exact Or.inr rfl
  case record now =>
    split at hstep <;> try cases hstep
    rename_i hpc
    have hphase := (hsound.pong_phase (hsound.polled (Or.inr hpc))).1
    rw [if_neg (not_not.2 hphase)] at hstep
    split at hstep <;> cases hstep
    rcases h with hcur | hring | ⟨-, hid⟩
    · exact Or.inl (le_currentId_iff.2 (Or.inl hcur))
    · exact Or.inr (Or.inl hring)
    · exact Or.inl (le_currentId_iff.2 (Or.inr (hid ▸ UInt64.le_refl _)))
  case interrupt => exact hquiet.elim

/-- A server leaves its loop only with the last pong on its way. -/
theorem up_of_stepServer (hsound : Sound n s) (hsteady : Steady n m s) (hpos : 0 < m)
    (hreliable : Reliable s a) (hstep : stepServer m s a = some t) :
    Up t ∨ ∃ p ∈ t.net .client, p.id = n := by
  cases a <;> simp only [Poll.stepServer, reduceCtorEq] at hstep
  case serverLoop =>
    split at hstep <;> cases hstep
    rename_i hpc
    simp [Up, hsteady.serving hpos (Or.inl hpc)]
  case serverPoll =>
    split at hstep <;> cases hstep
    exact Or.inl ⟨ServerPc.noConfusion, ServerPc.noConfusion⟩
  case serve t₁ t₂ =>
    split at hstep <;> try cases hstep
    rename_i hpc
    rw [if_neg (not_not.2 (hsound.handling hpc).phase.1)] at hstep
    split at hstep <;> cases hstep
    exact Or.inl ⟨ServerPc.noConfusion, ServerPc.noConfusion⟩
  case reply ret =>
    split at hstep <;> try cases hstep
    rename_i hpc
    rw [if_neg (not_lt.2 (show 0 ≤ ret from hreliable))] at hstep
    cases hstep
    by_cases hend : m ≤ s.server.currentId
    · exact Or.inr ⟨s.server.bufPayload, by simp, hsteady.replying hpos hpc hend⟩
    · exact Or.inl (by simp [Up, hend])

/-- What the server has stays with it until it is answered. -/
theorem HasPing.stepServer (h : HasPing n s) (hsound : Sound n s) (hsteady : Steady n m s)
    (hpos : 0 < m) (hreliable : Reliable s a) (hstep : stepServer m s a = some t) :
    HasPing n t ∨ ∃ p ∈ t.net .client, p.id = n := by
  have hnext (hring : ∃ p ∈ t.ring .server, p.id = n) :
      HasPing n t ∨ ∃ p ∈ t.net .client, p.id = n :=
    (up_of_stepServer hsound hsteady hpos hreliable hstep).imp_left fun hup =>
      Or.inr ⟨hup, hring⟩
  cases a <;> simp only [Poll.stepServer, reduceCtorEq] at hstep
  case serverLoop =>
    split at hstep <;> cases hstep
    rename_i hpc
    rcases h with ⟨hhand | hhand, -⟩ | ⟨hup, hring⟩
    · exact ServerPc.noConfusion (hpc.symm.trans hhand)
    · exact ServerPc.noConfusion (hpc.symm.trans hhand)
    · exact hnext hring
  case serverPoll =>
    split at hstep <;> cases hstep
    rename_i p rest hpc hring
    rcases h with ⟨hhand | hhand, -⟩ | ⟨hup, q, hq, hid⟩
    · exact ServerPc.noConfusion (hpc.symm.trans hhand)
    · exact ServerPc.noConfusion (hpc.symm.trans hhand)
    · rw [hring] at hq
      rcases List.mem_cons.1 hq with rfl | hq
      · exact Or.inl (Or.inl ⟨Or.inl rfl, hid⟩)
      · exact hnext ⟨q, by simpa using hq, hid⟩
  case serve t₁ t₂ =>
    split at hstep <;> try cases hstep
    rename_i hpc
    rw [if_neg (not_not.2 (hsound.handling hpc).phase.1)] at hstep
    split at hstep <;> cases hstep
    rcases h with ⟨-, hid⟩ | ⟨hup, hring⟩
    · exact Or.inl (Or.inl ⟨Or.inr rfl, hid⟩)
    · exact hnext hring
  case reply ret =>
    split at hstep <;> try cases hstep
    rw [if_neg (not_lt.2 (show 0 ≤ ret from hreliable))] at hstep
    cases hstep
    rcases h with ⟨-, hid⟩ | ⟨hup, hring⟩
    · exact Or.inr ⟨s.server.bufPayload, by simp, hid⟩
    · exact hnext hring

/-! ### The last pong -/

/-- How far the client is from the next packet of its ring. -/
def clientRank : ClientPc → ℕ
  | .check => 3
  | .handle => 2
  | .loop => 1
  | _ => 0

/-- **A client that has the last pong ends.** -/
theorem ended_of_hasPong (hle : iters .client ≤ iters .server) :
    (exchange iters).LeadsTo Uninterrupted (HasPong (iters .client)) Ended := by
  refine System.LeadsTo.of_variant
    (fun s => 4 * (s.ring .client).length + clientRank s.client.pc) fun s hs hpong => ?_
  obtain ⟨hsound, hsteady⟩ := steady_of_reachable hle hs
  cases hpc : s.client.pc with
  | done => exact Or.inl hpc
  | exited => exact absurd hpc hsteady.running.2
  | loop =>
      have hstep : step iters s .clientLoop = some _ := if_pos hpc
      refine Or.inr ⟨.clientLoop, _, trivial, hstep, ?_⟩
      by_cases hlt : s.client.currentId < iters .client
      · exact Or.inr ⟨hpong.stepClient (a := .clientLoop) hsound hsteady trivial hstep,
          by simp [hlt, hsteady.running.1, clientRank]⟩
      · exact Or.inl (by simp [Ended, hlt])
  | poll =>
      obtain ⟨p, rest, hring⟩ : ∃ p rest, s.ring .client = p :: rest := by
        rcases hpong.of_waiting (by simp [hpc]) with hcur | ⟨p, hp, -⟩
        · exact absurd (hsteady.below (Or.inl hpc)) (UInt64.not_lt.2 hcur)
        · exact List.exists_cons_of_ne_nil (List.ne_nil_of_mem hp)
      have hstep : step iters s .clientPoll = some { s with
          client := { s.client with bufPayload := p, pc := .check }
          ring := Function.update s.ring .client rest } := by
        simp only [step, stepClient, hpc, hring]
      refine Or.inr ⟨.clientPoll, _, trivial, hstep,
        Or.inr ⟨hpong.stepClient (a := .clientPoll) hsound hsteady trivial hstep, ?_⟩⟩
      simp [hring, clientRank]
      omega
  | check =>
      have hstep : step iters s .clientCheck = some { s with
          client := { s.client with pc := .handle } } := by
        simp [step, stepClient, hpc, hsteady.running.1]
      exact Or.inr ⟨.clientCheck, _, trivial, hstep,
        Or.inr ⟨hpong.stepClient (a := .clientCheck) hsound hsteady trivial hstep,
          by simp [clientRank]⟩⟩
  | handle =>
      have hphase : s.client.bufPayload.phase = 2 :=
        (hsound.pong_phase (hsound.polled (Or.inr hpc))).1
      have hstep : step iters s (.record s.client.clock) = some { s with
          client := { s.client with
            bufPayload := s.client.bufPayload.setTs 3 s.client.clock, pc := .loop
            currentId := max s.client.currentId s.client.bufPayload.id
            written := s.client.written ++ [s.client.bufPayload.setTs 3 s.client.clock] } } := by
        simp [step, stepClient, hpc, hphase, PingpongPayload.setTs_id]
      exact Or.inr ⟨.record s.client.clock, _, trivial, hstep,
        Or.inr ⟨hpong.stepClient (a := .record s.client.clock) hsound hsteady trivial hstep,
          by simp [clientRank]⟩⟩

/-- It comes to the client. -/
theorem hasPong_of_pongComes (hle : iters .client ≤ iters .server) :
    (exchange iters).LeadsTo Uninterrupted (PongComes (iters .client))
      (HasPong (iters .client)) := by
  refine System.LeadsTo.or (System.LeadsTo.of_imp fun _ h => h)
    (System.LeadsTo.of_step fun s hs hnet => ?_)
  obtain ⟨hsound, -⟩ := steady_of_reachable hle hs
  obtain ⟨p, hp, hid⟩ := hnet
  have hvalid := (hsound.pong_phase (hsound.net .client p hp)).2
  have hstep : step iters s (.deliver .client p true) = some { s with
      ring := Function.update s.ring .client (s.ring .client ++ [p]) } := by
    simp [step, stepNet, hp, hvalid]
  exact ⟨.deliver .client p true, _, trivial, hstep, Or.inr (Or.inl ⟨p, by simp, hid⟩)⟩

/-! ### The last ping -/

/-- How far the server is from the next packet of its ring. -/
def serverRank : ServerPc → ℕ
  | .handle => 3
  | .reply => 2
  | .loop => 1
  | _ => 0

/-- **A server that has the last ping sends the pong.** -/
theorem pongComes_of_hasPing (hle : iters .client ≤ iters .server) (hpos : 0 < iters .server) :
    (exchange iters).LeadsTo Uninterrupted (HasPing (iters .client))
      (PongComes (iters .client)) := by
  refine System.LeadsTo.of_variant
    (fun s => 4 * (s.ring .server).length + serverRank s.server.pc) fun s hs hping => Or.inr ?_
  obtain ⟨hsound, hsteady⟩ := steady_of_reachable hle hs
  have hup : s.server.pc ≠ .done ∧ s.server.pc ≠ .failed := by
    rcases hping with ⟨hpc | hpc, -⟩ | ⟨hup, -⟩
    · simp [hpc]
    · simp [hpc]
    · exact hup
  have hgoes {a : Action} {t : State} (hreliable : Reliable s a)
      (hstep : stepServer (iters .server) s a = some t)
      (hdown : HasPing (iters .client) t → 4 * (t.ring .server).length + serverRank t.server.pc <
        4 * (s.ring .server).length + serverRank s.server.pc) :
      PongComes (iters .client) t ∨ HasPing (iters .client) t ∧
        4 * (t.ring .server).length + serverRank t.server.pc <
          4 * (s.ring .server).length + serverRank s.server.pc :=
    (hping.stepServer hsound hsteady hpos hreliable hstep).elim
      (fun hhas => Or.inr ⟨hhas, hdown hhas⟩) fun hnet => Or.inl (Or.inr hnet)
  cases hpc : s.server.pc with
  | done => exact absurd hpc hup.1
  | failed => exact absurd hpc hup.2
  | loop =>
      have hstep : stepServer (iters .server) s .serverLoop = some { s with
          server := { s.server with pc := .poll } } := by
        simp [stepServer, hpc, hsteady.serving hpos (Or.inl hpc)]
      exact ⟨.serverLoop, _, trivial, hstep,
        hpc ▸ hgoes (a := .serverLoop) trivial hstep fun _ => by simp [hpc, serverRank]⟩
  | poll =>
      obtain ⟨p, rest, hring⟩ : ∃ p rest, s.ring .server = p :: rest := by
        rcases hping with ⟨hhand | hhand, -⟩ | ⟨-, p, hp, -⟩
        · exact ServerPc.noConfusion (hpc.symm.trans hhand)
        · exact ServerPc.noConfusion (hpc.symm.trans hhand)
        · exact List.exists_cons_of_ne_nil (List.ne_nil_of_mem hp)
      have hstep : stepServer (iters .server) s .serverPoll = some { s with
          server := { s.server with bufPayload := p, pc := .handle }
          ring := Function.update s.ring .server rest } := by
        simp only [stepServer, hpc, hring]
      refine ⟨.serverPoll, _, trivial, hstep,
        hpc ▸ hgoes (a := .serverPoll) trivial hstep fun _ => ?_⟩
      simp [hpc, hring, serverRank]
      omega
  | handle =>
      have hphase : s.server.bufPayload.phase = 0 := (hsound.handling hpc).phase.1
      have hstep : stepServer (iters .server) s (.serve s.server.clock s.server.clock) =
          some { s with server := { s.server with
            bufPayload := Served.pong ⟨s.server.bufPayload, s.server.clock, s.server.clock⟩
            pc := .reply
            currentId := max s.server.currentId s.server.bufPayload.id
            served := s.server.served ++
              [⟨s.server.bufPayload, s.server.clock, s.server.clock⟩] } } := by
        simp [stepServer, hpc, hphase]
      exact ⟨.serve s.server.clock s.server.clock, _, trivial, hstep,
        hpc ▸ hgoes (a := .serve s.server.clock s.server.clock) trivial hstep fun _ => by
          simp [hpc, serverRank]⟩
  | reply =>
      have hstep : stepServer (iters .server) s (.reply 0) = some { s with
          server := { s.server with
            pc := if iters .server ≤ s.server.currentId then .done else .loop }
          net := Function.update s.net .client (s.net .client ++ [s.server.bufPayload]) } := by
        simp [stepServer, hpc]
      refine ⟨.reply 0, _, trivial, hstep,
        hpc ▸ hgoes (a := .reply 0) (le_refl 0) hstep fun _ => ?_⟩
      rw [hpc]
      by_cases hend : iters .server ≤ s.server.currentId <;> simp [hend, serverRank]

/-- It comes to the server. -/
theorem hasPing_of_pingComes (hle : iters .client ≤ iters .server) :
    (exchange iters).LeadsTo Uninterrupted (PingComes (iters .client))
      (HasPing (iters .client)) := by
  refine System.LeadsTo.or (System.LeadsTo.of_imp fun _ h => h)
    (System.LeadsTo.of_step fun s hs hnet => ?_)
  obtain ⟨hsound, -⟩ := steady_of_reachable hle hs
  obtain ⟨hup, p, hp, hid⟩ := hnet
  have hvalid := (hsound.net .server p hp).phase.2
  have hstep : step iters s (.deliver .server p true) = some { s with
      ring := Function.update s.ring .server (s.ring .server ++ [p]) } := by
    simp [step, stepNet, hp, hvalid]
  exact ⟨.deliver .server p true, _, trivial, hstep, Or.inr ⟨hup, p, by simp, hid⟩⟩

/-- How far the sending thread is from its last ping. -/
def senderRank (n : UInt64) : SenderPc → ℕ
  | .writing id => 2 * (n.toNat + 1 - id) + 1
  | .sending id => 2 * (n.toNat + 1 - id)
  | .stopped => 0

/-- **The sending thread gets to the last ping.** -/
theorem pingComes_of_unsent (hle : iters .client ≤ iters .server) :
    (exchange iters).LeadsTo Uninterrupted (Unsent (iters .client))
      (PingComes (iters .client)) := by
  refine System.LeadsTo.of_variant (fun s => senderRank (iters .client) s.client.senderPc)
    fun s hs hunsent => Or.inr ?_
  obtain ⟨hsound, hsteady⟩ := steady_of_reachable hle hs
  obtain ⟨hup, id, hid, hpc | hpc⟩ := hunsent
  · have hstep : step iters s (.write s.client.clock) = some { s with
        client := { s.client with
          packet := ping (UInt64.ofNat id) s.client.clock, senderPc := .sending id
          sends := s.client.sends ++ [(UInt64.ofNat id, s.client.clock)] } } := by
      simp [step, stepClient, hpc, hid]
    exact ⟨.write s.client.clock, _, trivial, hstep,
      Or.inr ⟨⟨hup, id, hid, Or.inr rfl⟩, by simp [hpc, senderRank]⟩⟩
  · have hstep : step iters s (.send 0) = some { s with
        client := { s.client with senderPc := .writing (id + 1) }
        net := Function.update s.net .server (s.net .server ++ [s.client.packet]) } := by
      simp [step, stepClient, hpc]
    refine ⟨.send 0, _, trivial, hstep, ?_⟩
    by_cases hlast : id = (iters .client).toNat
    · have hpacket : s.client.packet.id = iters .client := by
        rw [(hsteady.packet id hpc).2, hlast, UInt64.ofNat_toNat]
      exact Or.inl (Or.inr ⟨hup, s.client.packet, by simp, hpacket⟩)
    · refine Or.inr ⟨⟨hup, id + 1, by omega, Or.inl rfl⟩, ?_⟩
      simp [hpc, senderRank]
      omega

/-- A client that is to send nothing has nothing to wait for. -/
theorem hasPong_of_not_pos (h : ¬ 0 < n) (s : State) : HasPong n s :=
  Or.inl (UInt64.le_trans (UInt64.not_lt.1 h) (UInt64.le_iff_toNat_le.2 (Nat.zero_le _)))

/-- **While the last round is alive it can go on to its end.** -/
theorem ended_of_alive (hle : iters .client ≤ iters .server) :
    (exchange iters).LeadsTo Uninterrupted (Alive (iters .client)) Ended := by
  have hpong : (exchange iters).LeadsTo Uninterrupted (PongComes (iters .client)) Ended :=
    (hasPong_of_pongComes hle).trans (ended_of_hasPong hle)
  by_cases hpos : 0 < iters .server
  · have hping : (exchange iters).LeadsTo Uninterrupted (PingComes (iters .client)) Ended :=
      ((hasPing_of_pingComes hle).trans (pongComes_of_hasPing hle hpos)).trans hpong
    exact hpong.or (hping.or ((pingComes_of_unsent hle).trans hping))
  · exact (System.LeadsTo.of_imp fun s _ => hasPong_of_not_pos
      (fun hclient => hpos (UInt64.lt_of_lt_of_le hclient hle)) s).trans (ended_of_hasPong hle)

/-! ### What is lost stays lost -/

/-- A step of `start_client` changes only what the client has. -/
theorem Alive.of_client (h : Alive n t) (hserver : t.server = s.server) (hnet : t.net = s.net)
    (hring : t.ring .server = s.ring .server) (hsender : t.client.senderPc = s.client.senderPc)
    (hpong : HasPong n t → HasPong n s) : Alive n s := by
  refine h.imp (Or.imp hpong ?_) (Or.imp (Or.imp ?_ ?_) ?_)
  · rw [hnet]
    exact id
  · rw [HasPing, HasPing, Up, Up, hserver, hring]
    exact id
  · rw [Up, Up, hserver, hnet]
    exact id
  · rw [Unsent, Unsent, Up, Up, hserver, hsender]
    exact id

/-- A step of `start_server` before the reply changes only what the server has. -/
theorem Alive.of_server (h : Alive n t) (hclient : t.client = s.client) (hnet : t.net = s.net)
    (hring : t.ring .client = s.ring .client) (hup : Up t → Up s)
    (hping : HasPing n t → HasPing n s) : Alive n s := by
  refine h.imp (Or.imp ?_ ?_) (Or.imp (Or.imp hping ?_) ?_)
  · rw [HasPong, HasPong, hclient, hring]
    exact id
  · rw [hnet]
    exact id
  · rw [hnet]
    exact And.imp_left hup
  · rw [Unsent, Unsent, hclient]
    exact And.imp_left hup

/-- The client's threads bring nothing back. -/
theorem Alive.of_stepClient (h : Alive n t) (hsound : Sound n s) (hsteady : Steady n m s)
    (hstep : stepClient n s a = some t) : Alive n s := by
  have hkeep (hcur : n ≤ s.client.currentId ∨ ∃ p ∈ s.ring .client, p.id = n) : HasPong n s :=
    hcur.imp id Or.inl
  cases a <;> simp only [Poll.stepClient, reduceCtorEq] at hstep
  case write now =>
    split at hstep <;> try cases hstep
    rename_i id hpc
    split at hstep <;> cases hstep
    refine h.imp_right (Or.imp_right ?_)
    rintro ⟨hup, id', hid, hpc' | hpc'⟩
    · cases hpc'
    · cases hpc'
      exact ⟨hup, id, hid, Or.inl hpc⟩
  case send ret =>
    split at hstep <;> try cases hstep
    rename_i id hpc
    split at hstep <;> cases hstep
    · refine h.imp_right (Or.imp_right ?_)
      rintro ⟨-, id', -, hpc' | hpc'⟩ <;> cases hpc'
    · have hunsent (hup : Up s) : Unsent n s := ⟨hup, id, (hsteady.packet id hpc).1, Or.inr hpc⟩
      rcases h with (hpong | hnet) | (hping | ⟨hup, -⟩) | ⟨hup, -⟩
      · exact Or.inl (Or.inl hpong)
      · exact Or.inl (Or.inr (by simpa using hnet))
      · exact Or.inr (Or.inl (Or.inl hping))
      · exact Or.inr (Or.inr (hunsent hup))
      · exact Or.inr (Or.inr (hunsent hup))
  case clientLoop =>
    split at hstep <;> cases hstep
    refine h.of_client rfl rfl rfl rfl fun hpong => hkeep (hpong.of_waiting ?_)
    constructor <;> dsimp only <;> split_ifs <;> simp
  case clientPoll =>
    split at hstep <;> cases hstep
    rename_i p rest _ hring
    refine h.of_client rfl rfl (by simp) rfl ?_
    rintro (hcur | ⟨q, hq, hid⟩ | ⟨-, hid⟩)
    · exact Or.inl hcur
    · exact hkeep (Or.inr ⟨q, hring ▸ List.mem_cons_of_mem _ (by simpa using hq), hid⟩)
    · exact hkeep (Or.inr ⟨p, hring ▸ List.mem_cons_self .., hid⟩)
  case clientPollExit slot =>
    split at hstep <;> cases hstep
    exact h.of_client rfl rfl rfl rfl fun hpong => hkeep (hpong.of_waiting (by simp))
  case clientCheck =>
    split at hstep <;> cases hstep
    rename_i hpc
    exact h.of_client rfl rfl rfl rfl (Or.imp_right (Or.imp_right fun hhand =>
      ⟨Or.inl hpc, hhand.2⟩))
  case record now =>
    split at hstep <;> try cases hstep
    rename_i hpc
    split at hstep
    · cases hstep
      exact h.of_client rfl rfl rfl rfl fun hpong => hkeep (hpong.of_waiting (by simp))
    · split at hstep <;> cases hstep
      refine h.of_client rfl rfl rfl rfl fun hpong => ?_
      rcases hpong.of_waiting (by simp) with hcur | hring
      · rcases le_currentId_iff.1 hcur with hcur | hid
        · exact Or.inl hcur
        · have hle := hsound.pong_id_le (hsound.polled (Or.inr hpc))
          exact Or.inr (Or.inr ⟨Or.inr hpc, UInt64.le_antisymm hle hid⟩)
      · exact hkeep (Or.inr hring)
  case interrupt =>
    cases hstep
    exact h

/-- Nor does the server. -/
theorem Alive.of_stepServer (h : Alive n t) (hstep : stepServer m s a = some t) : Alive n s := by
  have hup {pc : ServerPc} (hpc : s.server.pc = pc) (hne : pc ≠ .done ∧ pc ≠ .failed) : Up s := by
    rw [Up, hpc]
    exact hne
  cases a <;> simp only [Poll.stepServer, reduceCtorEq] at hstep
  case serverLoop =>
    split at hstep <;> cases hstep
    rename_i hpc
    refine h.of_server rfl rfl rfl (fun _ => hup hpc (by simp)) ?_
    rintro (⟨hhand | hhand, -⟩ | ⟨-, hring⟩)
    · split_ifs at hhand
    · split_ifs at hhand
    · exact Or.inr ⟨hup hpc (by simp), hring⟩
  case serverPoll =>
    split at hstep <;> cases hstep
    rename_i p rest hpc hring
    have hup := hup hpc (by simp)
    refine h.of_server rfl rfl (by simp) (fun _ => hup) ?_
    rintro (⟨-, hid⟩ | ⟨-, q, hq, hid⟩)
    · exact Or.inr ⟨hup, p, hring ▸ List.mem_cons_self .., hid⟩
    · exact Or.inr ⟨hup, q, hring ▸ List.mem_cons_of_mem _ (by simpa using hq), hid⟩
  case serve t₁ t₂ =>
    split at hstep <;> try cases hstep
    rename_i hpc
    have hup := hup hpc (by simp)
    split at hstep
    · cases hstep
      refine h.of_server rfl rfl rfl (fun _ => hup) ?_
      rintro (⟨hhand | hhand, -⟩ | ⟨-, hring⟩)
      · cases hhand
      · cases hhand
      · exact Or.inr ⟨hup, hring⟩
    · split at hstep <;> cases hstep
      refine h.of_server rfl rfl rfl (fun _ => hup) ?_
      exact Or.imp (fun hhand => ⟨Or.inl hpc, hhand.2⟩) fun hring => ⟨hup, hring.2⟩
  case reply ret =>
    split at hstep <;> try cases hstep
    rename_i hpc
    have hup := hup hpc (by simp)
    have hwaits {pc : ServerPc} (hne : pc ≠ .handle ∧ pc ≠ .reply)
        (h : HasPing n { s with server := { s.server with pc := pc } }) : HasPing n s := by
      rcases h with ⟨hhand, -⟩ | ⟨-, hring⟩
      · exact (hhand.elim hne.1 hne.2).elim
      · exact Or.inr ⟨hup, hring⟩
    split at hstep <;> cases hstep
    · exact h.of_server rfl rfl rfl (fun _ => hup) (hwaits (by simp))
    · have hnext : (if m ≤ s.server.currentId then ServerPc.done else .loop) ≠ .handle ∧
          (if m ≤ s.server.currentId then ServerPc.done else .loop) ≠ .reply := by
        split_ifs <;> simp
      rcases h with (hpong | ⟨q, hq, hid⟩) | (hping | ⟨-, hnet⟩) | ⟨-, hsender⟩
      · exact Or.inl (Or.inl hpong)
      · simp only [Function.update_self, List.mem_append, List.mem_singleton] at hq
        rcases hq with hq | rfl
        · exact Or.inl (Or.inr ⟨q, hq, hid⟩)
        · exact Or.inr (Or.inl (Or.inl (Or.inl ⟨Or.inr hpc, hid⟩)))
      · exact Or.inr (Or.inl (Or.inl (hwaits hnext hping)))
      · exact Or.inr (Or.inl (Or.inr ⟨hup, by simpa using hnet⟩))
      · exact Or.inr (Or.inr ⟨hup, hsender⟩)

/-- Packets that only move between the net and the rings of the hosts. -/
theorem Alive.of_moves (h : Alive n t) (hclient : t.client = s.client)
    (hserver : t.server = s.server)
    (hnet : ∀ dest, ∀ p ∈ t.net dest, p ∈ s.net dest ∨ p ∈ s.ring dest)
    (hring : ∀ dest, ∀ p ∈ t.ring dest, p ∈ s.net dest ∨ p ∈ s.ring dest) : Alive n s := by
  have hup : Up t → Up s := by
    rw [Up, Up, hserver]
    exact id
  have hpong {p : PingpongPayload} (hp : p ∈ s.net .client ∨ p ∈ s.ring .client)
      (hid : p.id = n) : Alive n s :=
    hp.elim (fun hp => Or.inl (Or.inr ⟨p, hp, hid⟩))
      fun hp => Or.inl (Or.inl (Or.inr (Or.inl ⟨p, hp, hid⟩)))
  have hping {p : PingpongPayload} (hup' : Up t) (hp : p ∈ s.net .server ∨ p ∈ s.ring .server)
      (hid : p.id = n) : Alive n s :=
    hp.elim (fun hp => Or.inr (Or.inl (Or.inr ⟨hup hup', p, hp, hid⟩)))
      fun hp => Or.inr (Or.inl (Or.inl (Or.inr ⟨hup hup', p, hp, hid⟩)))
  rcases h with ((hcur | ⟨p, hp, hid⟩ | hhand) | ⟨p, hp, hid⟩) |
    ((hhand | ⟨hup', p, hp, hid⟩) | ⟨hup', p, hp, hid⟩) | ⟨hup', hsender⟩
  · exact Or.inl (Or.inl (Or.inl (hclient ▸ hcur)))
  · exact hpong (hring .client p hp) hid
  · exact Or.inl (Or.inl (Or.inr (Or.inr (hclient ▸ hhand))))
  · exact hpong (hnet .client p hp) hid
  · exact Or.inr (Or.inl (Or.inl (Or.inl (hserver ▸ hhand))))
  · exact hping hup' (hring .server p hp) hid
  · exact hping hup' (hnet .server p hp) hid
  · exact Or.inr (Or.inr ⟨hup hup', hclient ▸ hsender⟩)

/-- Nor does the network. -/
theorem Alive.of_stepNet (h : Alive n t) (hstep : stepNet s a = some t) : Alive n s := by
  cases a <;> simp only [Poll.stepNet, reduceCtorEq] at hstep
  case deliver d packet again =>
    split at hstep <;> cases hstep
    rename_i hmem
    refine h.of_moves rfl rfl ?_ ?_
    · dsimp only
      split_ifs
      · exact fun _ _ hp => Or.inl hp
      · exact forall_mem_update (fun _ _ hp => Or.inl hp) fun p hp =>
          Or.inl (List.mem_of_mem_erase hp)
    · dsimp only
      split_ifs
      · refine forall_mem_update (fun _ _ hp => Or.inr hp) fun p hp => ?_
        rcases List.mem_append.1 hp with hp | hp
        · exact Or.inr hp
        · exact Or.inl (List.mem_singleton.1 hp ▸ hmem)
      · exact fun _ _ hp => Or.inr hp
  case lose d packet =>
    split at hstep <;> cases hstep
    exact h.of_moves rfl rfl
      (forall_mem_update (fun _ _ hp => Or.inl hp) fun p hp => Or.inl (List.mem_of_mem_erase hp))
      fun _ _ hp => Or.inr hp

/-- **The client can end exactly while the last round is alive.** -/
theorem canEnd_iff_alive (hle : iters .client ≤ iters .server)
    (h : (exchange iters).ReachableIf Uninterrupted s) :
    (exchange iters).CanReach Uninterrupted Ended s ↔ Alive (iters .client) s := by
  constructor
  · intro hend
    refine hend.of_step_back h (fun t ht hdone => ?_) fun {s a t} hs hquiet hstep halive => ?_
    · exact Or.inl (Or.inl (Or.inl ((steady_of_reachable hle ht).1.left hdone)))
    · obtain ⟨hsound, hsteady⟩ := steady_of_reachable hle hs
      rcases step_cases hstep with hstep | hstep | hstep
      · exact halive.of_stepClient hsound hsteady hstep
      · exact halive.of_stepServer hstep
      · exact halive.of_stepNet hstep
  · exact ended_of_alive hle s h

instance (s : State) : DecidablePred (Uninterrupted s) := fun a =>
  match a with
  | .interrupt => inferInstanceAs (Decidable False)
  | .write .. | .send .. | .clientLoop | .clientPoll | .clientPollExit .. | .clientCheck
  | .record .. | .serverLoop | .serverPoll | .serve .. | .reply .. | .deliver ..
  | .lose .. => inferInstanceAs (Decidable True)

/-- The one ping is lost. -/
theorem exists_not_canEnd : ∃ s, s.client.pc = .poll ∧ s.server.pc = .poll ∧
    ¬ (exchange fun _ => 1).CanReach Uninterrupted Ended s := by
  have hexec : ((exchange fun _ => 1).execIf Uninterrupted initial [.write 5, .send 1024,
      .clientLoop, .serverLoop, .lose .server (ping 1 5)]).map
      (fun s => (s.client.pc, s.server.pc, s.client.senderPc, s.client.currentId,
        s.net .server ++ (s.net .client ++ (s.ring .server ++ s.ring .client)))) =
      some (.poll, .poll, .writing 2, 0, []) := by
    decide +kernel
  obtain ⟨s, hs, he⟩ := Option.map_eq_some_iff.1 hexec
  simp only [Prod.mk.injEq, List.append_eq_nil_iff] at he
  obtain ⟨hclient, hserver, hsender, hcur, hnet, hnet', hring, hring'⟩ := he
  refine ⟨s, hclient, hserver, fun hend => ?_⟩
  rcases (canEnd_iff_alive (UInt64.le_refl 1) (System.runIf_of_execIf hs)).1 hend with hpong |
    hping | ⟨-, id, hid, hpc⟩
  · simp [PongComes, HasPong, hcur, hnet', hring', hclient] at hpong
  · simp [PingComes, HasPing, hnet, hring, hserver] at hping
  · rw [hsender] at hpc
    rcases hpc with hpc | hpc
    · obtain rfl := SenderPc.writing.inj hpc
      exact absurd hid (by decide)
    · cases hpc

/-! ### Without losses -/

/-- **The client does not lose the last round.** -/
theorem Alive.stepClient (h : Alive n s) (hsound : Sound n s) (hsteady : Steady n m s)
    (hreliable : Reliable s a) (hstep : stepClient n s a = some t) : Alive n t := by
  have hpong (hpong : HasPong n s) : HasPong n t :=
    hpong.stepClient hsound hsteady hreliable.uninterrupted hstep
  cases a <;> simp only [Poll.stepClient, reduceCtorEq] at hstep
  case write now =>
    split at hstep <;> try cases hstep
    rename_i id hpc
    split at hstep <;> cases hstep
    refine h.imp_right (Or.imp_right ?_)
    rintro ⟨hup, id', hid, hpc' | hpc'⟩
    · obtain rfl := SenderPc.writing.inj (hpc.symm.trans hpc')
      exact ⟨hup, id, hid, Or.inr rfl⟩
    · exact SenderPc.noConfusion (hpc.symm.trans hpc')
  case send ret =>
    split at hstep <;> try cases hstep
    rename_i id hpc
    rw [if_neg (not_lt.2 (show 0 ≤ ret from hreliable))] at hstep
    cases hstep
    rcases h with (hpong | hnet) | (hping | ⟨hup, q, hq, hid⟩) | ⟨hup, id', hid, hpc' | hpc'⟩
    · exact Or.inl (Or.inl hpong)
    · exact Or.inl (Or.inr (by simpa using hnet))
    · exact Or.inr (Or.inl (Or.inl hping))
    · exact Or.inr (Or.inl (Or.inr ⟨hup, q, by simp [hq], hid⟩))
    · exact SenderPc.noConfusion (hpc.symm.trans hpc')
    · obtain rfl := SenderPc.sending.inj (hpc.symm.trans hpc')
      by_cases hlast : id = n.toNat
      · have hpacket : s.client.packet.id = n := by
          rw [(hsteady.packet id hpc).2, hlast, UInt64.ofNat_toNat]
        exact Or.inr (Or.inl (Or.inr ⟨hup, s.client.packet, by simp, hpacket⟩))
      · exact Or.inr (Or.inr ⟨hup, id + 1, by omega, Or.inl rfl⟩)
  case clientPoll =>
    split at hstep <;> cases hstep
    exact h.of_client rfl rfl (by simp) rfl hpong
  case record now =>
    split at hstep <;> try cases hstep
    split at hstep
    · cases hstep
      exact h.of_client rfl rfl rfl rfl hpong
    · split at hstep <;> cases hstep
      exact h.of_client rfl rfl rfl rfl hpong
  case interrupt => exact hreliable.elim
  all_goals
    split at hstep <;> cases hstep
    exact h.of_client rfl rfl rfl rfl hpong

/-- What a step of the server leaves of the packets of others. -/
theorem stepServer_frame (hstep : stepServer m s a = some t) :
    t.client = s.client ∧ t.net .server = s.net .server ∧ t.ring .client = s.ring .client ∧
      ∀ p ∈ s.net .client, p ∈ t.net .client := by
  cases a <;> simp only [Poll.stepServer, reduceCtorEq] at hstep
  case serverLoop =>
    split at hstep <;> cases hstep
    exact ⟨rfl, rfl, rfl, fun _ hp => hp⟩
  case serverPoll =>
    split at hstep <;> cases hstep
    exact ⟨rfl, rfl, by simp, fun _ hp => hp⟩
  case serve t₁ t₂ =>
    split at hstep <;> try cases hstep
    split at hstep
    · cases hstep
      exact ⟨rfl, rfl, rfl, fun _ hp => hp⟩
    · split at hstep <;> cases hstep
      exact ⟨rfl, rfl, rfl, fun _ hp => hp⟩
  case reply ret =>
    split at hstep <;> try cases hstep
    split at hstep <;> cases hstep
    · exact ⟨rfl, rfl, rfl, fun _ hp => hp⟩
    · exact ⟨rfl, by simp, rfl, fun p hp => by simp [hp]⟩

/-- **Nor does the server.** -/
theorem Alive.stepServer (h : Alive n s) (hsound : Sound n s) (hsteady : Steady n m s)
    (hpos : 0 < m) (hreliable : Reliable s a) (hstep : stepServer m s a = some t) :
    Alive n t := by
  obtain ⟨hclient, hserver, hring, hnet⟩ := stepServer_frame hstep
  have hup := up_of_stepServer hsound hsteady hpos hreliable hstep
  rcases h with (hpong | ⟨p, hp, hid⟩) | (hping | ⟨-, hcomes⟩) | ⟨-, hunsent⟩
  · rw [HasPong, ← hclient, ← hring] at hpong
    exact Or.inl (Or.inl hpong)
  · exact Or.inl (Or.inr ⟨p, hnet p hp, hid⟩)
  · rcases hping.stepServer hsound hsteady hpos hreliable hstep with hping | hpong
    · exact Or.inr (Or.inl (Or.inl hping))
    · exact Or.inl (Or.inr hpong)
  · rcases hup with hup | hpong
    · exact Or.inr (Or.inl (Or.inr ⟨hup, hserver ▸ hcomes⟩))
    · exact Or.inl (Or.inr hpong)
  · rcases hup with hup | hpong
    · exact Or.inr (Or.inr ⟨hup, hclient ▸ hunsent⟩)
    · exact Or.inl (Or.inr hpong)

/-- A packet on its way passes the filter of `xdp_main`. -/
theorem Sound.valid (h : Sound n s) {dest : Build} (hp : p ∈ s.net dest) :
    validPingpongPayload p = true := by
  have hexpected := h.net dest p hp
  cases dest with
  | server => exact (State.IsPing.phase hexpected).2
  | client => exact (h.pong_phase hexpected).2

/-- **Nor does the network**, if it is reliable. -/
theorem Alive.stepNet (h : Alive n s) (hsound : Sound n s) (hreliable : Reliable s a)
    (hstep : stepNet s a = some t) : Alive n t := by
  cases a <;> simp only [Poll.stepNet, reduceCtorEq] at hstep
  case deliver d packet again =>
    split at hstep <;> cases hstep
    rename_i hmem
    rw [if_pos (hsound.valid hmem)]
    refine h.of_moves rfl rfl (fun dest p hp => ?_) fun dest p hp => ?_
    · by_cases hd : dest = d
      · subst hd
        by_cases hpacket : p = packet
        · exact Or.inr (by simp [hpacket])
        · refine Or.inl ?_
          cases again <;> simp [hp, List.mem_erase_of_ne hpacket]
      · refine Or.inl ?_
        cases again <;> simp [hp, Function.update_of_ne hd]
    · refine Or.inr ?_
      by_cases hd : dest = d
      · subst hd
        simp [hp]
      · simpa [Function.update_of_ne hd] using hp
  case lose => exact hreliable.elim

/-- In such a run the last round stays alive. -/
theorem alive_of_reliable (hle : iters .client ≤ iters .server)
    (h : (exchange iters).ReachableIf Reliable s) : Alive (iters .client) s := by
  by_cases hpos : 0 < iters .client
  · have hone : 1 ≤ (iters .client).toNat := UInt64.lt_iff_toNat_lt.1 hpos
    have hall : (exchange iters).ReachableIf Uninterrupted s ∧ Alive (iters .client) s := by
      refine h.preserves
        (I := fun s => (exchange iters).ReachableIf Uninterrupted s ∧ Alive (iters .client) s) ?_
        ⟨System.ReachableIf.init, Or.inr (Or.inr
          ⟨⟨ServerPc.noConfusion, ServerPc.noConfusion⟩, 1, hone, Or.inl rfl⟩)⟩
      rintro s a t ⟨hs, halive⟩ hreliable hstep
      refine ⟨hs.tail hreliable.uninterrupted hstep, ?_⟩
      obtain ⟨hsound, hsteady⟩ := steady_of_reachable hle hs
      rcases step_cases hstep with hstep | hstep | hstep
      · exact halive.stepClient hsound hsteady hreliable hstep
      · exact halive.stepServer hsound hsteady (UInt64.lt_of_lt_of_le hpos hle) hreliable hstep
      · exact halive.stepNet hsound hreliable hstep
    exact hall.2
  · exact Or.inl (Or.inl (hasPong_of_not_pos hpos s))

/-- **If nothing is lost** and no call fails, the client can always go on to its end,
whatever the network repeats, delays and reorders. -/
theorem canEnd_of_reliable (hle : iters .client ≤ iters .server)
    (h : (exchange iters).ReachableIf Reliable s) :
    (exchange iters).CanReach Uninterrupted Ended s :=
  ended_of_alive hle s (System.RunIf.mono (fun _ _ => Reliable.uninterrupted) h)
    (alive_of_reliable hle h)

/-- Two copies of a ping have come to the server. -/
theorem exists_canEnd : ∃ s, s.server.pc = .handle ∧ (s.ring .server).length = 1 ∧
    (exchange fun _ => 1).CanReach Uninterrupted Ended s := by
  have hexec : ((exchange fun _ => 1).execIf Reliable initial [.write 5, .send 1024, .serverLoop,
      .deliver .server (ping 1 5) true, .deliver .server (ping 1 5) false, .serverPoll]).map
      (fun s => (s.server.pc, (s.ring .server).length)) = some (.handle, 1) := by
    decide +kernel
  obtain ⟨s, hs, he⟩ := Option.map_eq_some_iff.1 hexec
  obtain ⟨hpc, hlength⟩ := Prod.mk.inj he
  exact ⟨s, hpc, hlength, canEnd_of_reliable (UInt64.le_refl 1) (System.runIf_of_execIf hs)⟩

end Poll
end Xdp
end DetBypass
