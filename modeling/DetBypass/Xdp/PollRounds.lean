/-
# What the polling client records

The network of `PollExchange` loses, repeats and reorders, and both hosts reuse
their buffers.  `Sound` is what holds of every packet wherever it is: on the way
to the server, and in its ring, is a ping the client sent with the reading it
took; on the way back, a pong of a ping the server handled with the two readings
it took (`State.Expected`).  Each step moves packets, so it keeps `Sound` by
what it does to its two places.

Without repetition each id is in one place: `State.places` lists the packets, and
every move keeps the tally of an id or lowers it (`Single`).
-/

import DetBypass.Xdp.PollExchange
import DetBypass.Lib.Tally

namespace DetBypass
namespace Xdp
namespace Poll

open Lib

variable {iters : Build → UInt64} {s t : State} {p : PingpongPayload} {a : Action}

/-- A step is one of the client, of the server or of the network. -/
theorem step_cases (hstep : step iters s a = some t) :
    stepClient (iters .client) s a = some t ∨ stepServer (iters .server) s a = some t ∨
      stepNet s a = some t := by
  cases a with
  | deliver | lose => exact Or.inr (Or.inr hstep)
  | serverLoop | serverPoll | serve | reply => exact Or.inr (Or.inl hstep)
  | _ => exact Or.inl hstep

/-- A ping the client sent, with the reading of the clock it took. -/
def State.IsPing (s : State) (p : PingpongPayload) : Prop :=
  ∃ m ∈ s.client.sends, p = ping m.1 m.2

/-- The pong of a ping that the server handled, with the two readings it took. -/
def State.IsPong (s : State) (p : PingpongPayload) : Prop :=
  ∃ v ∈ s.server.served, p = v.pong

/-- What may be on the way to a host. -/
def State.Expected (s : State) : Build → PingpongPayload → Prop
  | .server => s.IsPing
  | .client => s.IsPong

/-- The next id to be sent. -/
def State.nextId (s : State) : ℕ :=
  match s.client.senderPc with
  | .writing id => id
  | .sending id => id + 1
  | .stopped => 2 ^ 64

/-- What holds of every packet. -/
structure Sound (iters : UInt64) (s : State) : Prop where
  sends : ∀ m ∈ s.client.sends, 1 ≤ m.1 ∧ m.1 ≤ iters ∧ m.2 ≤ s.client.clock
  unsent : ∀ m ∈ s.client.sends, m.1.toNat < s.nextId
  nodup : (s.client.sends.map Prod.fst).Nodup
  next : ∀ id, s.client.senderPc = .writing id → 1 ≤ id
  sending : ∀ id, s.client.senderPc = .sending id → s.IsPing s.client.packet
  net : ∀ dest, ∀ p ∈ s.net dest, s.Expected dest p
  ring : ∀ dest, ∀ p ∈ s.ring dest, s.Expected dest p
  handling : s.server.pc = .handle → s.IsPing s.server.bufPayload
  served : ∀ v ∈ s.server.served, s.IsPing v.ping ∧ v.t₁ ≤ v.t₂
  replying : s.server.pc = .reply → s.IsPong s.server.bufPayload
  polled : s.client.pc = .check ∨ s.client.pc = .handle → s.IsPong s.client.bufPayload
  written : ∀ w ∈ s.client.written, ∃ p now, s.IsPong p ∧ w = p.setTs 3 now ∧ p.ts 0 ≤ now
  current : s.client.currentId = maxId s.client.written
  left : s.client.pc = .done → iters ≤ s.client.currentId

/-! ### Pings and pongs -/

/-- The id of a ping. -/
@[simp] theorem ping_id (id t : UInt64) : (ping id t).id = id := rfl

/-- Its send time is `ts[0]`. -/
@[simp] theorem ping_ts (id t : UInt64) : (ping id t).ts 0 = t :=
  PingpongPayload.setTs_ts ..

/-- A pong keeps the id. -/
theorem pong_id (v : Served) : v.pong.id = v.ping.id := rfl

/-- And the send time, and adds the two readings of the server. -/
theorem pong_ts (v : Served) :
    v.pong.ts 0 = v.ping.ts 0 ∧ v.pong.ts 1 = v.t₁ ∧ v.pong.ts 2 = v.t₂ := by
  show ((v.ping.setTs 1 v.t₁).setTs 2 v.t₂).ts 0 = _ ∧
    ((v.ping.setTs 1 v.t₁).setTs 2 v.t₂).ts 1 = _ ∧ ((v.ping.setTs 1 v.t₁).setTs 2 v.t₂).ts 2 = _
  refine ⟨?_, ?_, PingpongPayload.setTs_ts ..⟩
  · rw [PingpongPayload.setTs_ts_ne (by decide), PingpongPayload.setTs_ts_ne (by decide)]
  · rw [PingpongPayload.setTs_ts_ne (by decide), PingpongPayload.setTs_ts]

/-- What was sent stays sent. -/
theorem State.IsPing.mono (h : s.IsPing p) (hsub : s.client.sends ⊆ t.client.sends) :
    t.IsPing p := by
  obtain ⟨m, hm, rfl⟩ := h
  exact ⟨m, hsub hm, rfl⟩

/-- What was served stays served. -/
theorem State.IsPong.mono (h : s.IsPong p) (hsub : s.server.served ⊆ t.server.served) :
    t.IsPong p := by
  obtain ⟨v, hv, rfl⟩ := h
  exact ⟨v, hsub hv, rfl⟩

/-- What is expected stays so as the histories grow. -/
theorem State.Expected.mono {dest : Build} (h : s.Expected dest p)
    (hsends : s.client.sends ⊆ t.client.sends) (hserved : s.server.served ⊆ t.server.served) :
    t.Expected dest p := by
  cases dest with
  | server => exact State.IsPing.mono h hsends
  | client => exact State.IsPong.mono h hserved

/-- The packets of one host change. -/
theorem forall_mem_update {f : Build → List PingpongPayload}
    {P : Build → PingpongPayload → Prop} (h : ∀ dest, ∀ p ∈ f dest, P dest p) {d : Build}
    {l : List PingpongPayload} (hl : ∀ p ∈ l, P d p) :
    ∀ dest, ∀ p ∈ Function.update f d l dest, P dest p := by
  intro dest p hp
  by_cases hd : dest = d
  · subst hd
    rw [Function.update_self] at hp
    exact hl p hp
  · rw [Function.update_of_ne hd] at hp
    exact h dest p hp

/-- The reading in a pong is not ahead of the clock. -/
theorem Sound.pong_clock {n : UInt64} (h : Sound n s) (hp : s.IsPong p) :
    p.ts 0 ≤ s.client.clock := by
  obtain ⟨v, hv, rfl⟩ := hp
  obtain ⟨⟨m, hm, hping⟩, -⟩ := h.served v hv
  rw [(pong_ts v).1, hping, ping_ts]
  exact (h.sends m hm).2.2

/-! ### One step -/

section Steps

variable {n : UInt64}

/-- The client writes a ping. -/
theorem Sound.write (h : Sound n s) {id : ℕ} {now : UInt64}
    (hpc : s.client.senderPc = .writing id) (hid : id ≤ n.toNat) (hnow : s.client.clock ≤ now) :
    Sound n { s with client := { s.client with
      packet := ping (UInt64.ofNat id) now, clock := now, senderPc := .sending id
      sends := s.client.sends ++ [(UInt64.ofNat id, now)] } } := by
  have hone := h.next id hpc
  have hlt := n.toNat_lt
  have hval : (UInt64.ofNat id).toNat = id := by
    rw [UInt64.toNat_ofNat']
    omega
  have hsub : s.client.sends ⊆ s.client.sends ++ [(UInt64.ofNat id, now)] :=
    List.subset_append_left ..
  have hunsent : ∀ m ∈ s.client.sends, m.1.toNat < id := fun m hm => by
    have := h.unsent m hm
    rwa [State.nextId, hpc] at this
  constructor
  case sends =>
    intro m hm
    rcases List.mem_append.1 hm with hm | hm
    · obtain ⟨hlo, hhi, hclock⟩ := h.sends m hm
      exact ⟨hlo, hhi, UInt64.le_trans hclock hnow⟩
    · obtain rfl := List.mem_singleton.1 hm
      refine ⟨?_, ?_, UInt64.le_refl _⟩
      · rw [UInt64.le_iff_toNat_le, hval]
        exact hone
      · rw [UInt64.le_iff_toNat_le, hval]
        exact hid
  case unsent =>
    intro m hm
    show m.1.toNat < id + 1
    rcases List.mem_append.1 hm with hm | hm
    · exact Nat.lt_succ_of_lt (hunsent m hm)
    · rw [List.mem_singleton.1 hm, hval]
      exact Nat.lt_succ_self id
  case nodup =>
    show ((s.client.sends ++ [(UInt64.ofNat id, now)]).map Prod.fst).Nodup
    rw [List.map_append, List.map_cons, List.map_nil]
    refine h.nodup.append (List.nodup_singleton _) fun x hx hx' => ?_
    obtain ⟨m, hm, rfl⟩ := List.mem_map.1 hx
    have := hunsent m hm
    rw [List.mem_singleton.1 hx', hval] at this
    exact Nat.lt_irrefl id this
  case next => exact fun _ he => SenderPc.noConfusion he
  case sending =>
    intro _ _
    exact ⟨_, List.mem_append_right _ (List.mem_singleton_self _), rfl⟩
  case net => exact fun dest p hp => (h.net dest p hp).mono hsub (List.Subset.refl _)
  case ring => exact fun dest p hp => (h.ring dest p hp).mono hsub (List.Subset.refl _)
  case handling => exact fun he => (h.handling he).mono hsub
  case served => exact fun v hv => ⟨(h.served v hv).1.mono hsub, (h.served v hv).2⟩
  case replying => exact h.replying
  case polled => exact h.polled
  case written => exact h.written
  case current => exact h.current
  case left => exact h.left

/-- The client hands the ping to the network. -/
theorem Sound.send (h : Sound n s) {id : ℕ} (hpc : s.client.senderPc = .sending id) :
    Sound n { s with
      client := { s.client with senderPc := .writing (id + 1) }
      net := Function.update s.net .server (s.net .server ++ [s.client.packet]) } where
  sends := h.sends
  unsent m hm := by
    have := h.unsent m hm
    rwa [State.nextId, hpc] at this
  nodup := h.nodup
  next id' he := by
    obtain rfl := SenderPc.writing.inj he
    omega
  sending _ he := SenderPc.noConfusion he
  net := forall_mem_update h.net fun p hp => by
    rcases List.mem_append.1 hp with hp | hp
    · exact h.net _ p hp
    · exact List.mem_singleton.1 hp ▸ h.sending id hpc
  ring := h.ring
  handling := h.handling
  served := h.served
  replying := h.replying
  polled := h.polled
  written := h.written
  current := h.current
  left := h.left

/-- The client takes a pong out of its ring. -/
theorem Sound.clientPoll (h : Sound n s) {rest : List PingpongPayload}
    (hring : s.ring .client = p :: rest) :
    Sound n { s with
      client := { s.client with bufPayload := p, pc := .check }
      ring := Function.update s.ring .client rest } where
  sends := h.sends
  unsent := h.unsent
  nodup := h.nodup
  next := h.next
  sending := h.sending
  net := h.net
  ring := forall_mem_update h.ring fun p' hp =>
    h.ring _ p' (hring ▸ List.mem_cons_of_mem _ hp)
  handling := h.handling
  served := h.served
  replying := h.replying
  polled _ := h.ring .client p (hring ▸ List.mem_cons_self ..)
  written := h.written
  current := h.current
  left he := ClientPc.noConfusion he

/-- The client writes the record of a pong. -/
theorem Sound.record (h : Sound n s) {now : UInt64} (hpc : s.client.pc = .handle)
    (hnow : s.client.clock ≤ now) :
    Sound n { s with client := { s.client with
      bufPayload := s.client.bufPayload.setTs 3 now, clock := now, pc := .loop
      currentId := max s.client.currentId (s.client.bufPayload.setTs 3 now).id
      written := s.client.written ++ [s.client.bufPayload.setTs 3 now] } } where
  sends m hm := by
    obtain ⟨hlo, hhi, hclock⟩ := h.sends m hm
    exact ⟨hlo, hhi, UInt64.le_trans hclock hnow⟩
  unsent := h.unsent
  nodup := h.nodup
  next := h.next
  sending := h.sending
  net := h.net
  ring := h.ring
  handling := h.handling
  served := h.served
  replying := h.replying
  polled he := by rcases he with he | he <;> cases he
  written w hw := by
    rcases List.mem_append.1 hw with hw | hw
    · exact h.written w hw
    · obtain rfl := List.mem_singleton.1 hw
      have hpong := h.polled (Or.inr hpc)
      exact ⟨_, now, hpong, rfl, UInt64.le_trans (h.pong_clock hpong) hnow⟩
  current := by
    show max s.client.currentId _ = maxId (s.client.written ++ [_])
    rw [maxId_concat, h.current]
  left he := ClientPc.noConfusion he

/-- The client goes on without handling a packet. -/
theorem Sound.clientPc (h : Sound n s) (pc : ClientPc) (slot : PingpongPayload) (exit : Bool)
    (hpolled : pc = .check ∨ pc = .handle → s.IsPong slot)
    (hleft : pc = .done → n ≤ s.client.currentId) :
    Sound n { s with client := { s.client with
      bufPayload := slot, pc := pc, globalExit := exit } } :=
  { h with polled := hpolled, left := hleft }

/-- The server takes a ping out of its ring. -/
theorem Sound.serverPoll (h : Sound n s) {rest : List PingpongPayload}
    (hring : s.ring .server = p :: rest) :
    Sound n { s with
      server := { s.server with bufPayload := p, pc := .handle }
      ring := Function.update s.ring .server rest } where
  sends := h.sends
  unsent := h.unsent
  nodup := h.nodup
  next := h.next
  sending := h.sending
  net := h.net
  ring := forall_mem_update h.ring fun p' hp =>
    h.ring _ p' (hring ▸ List.mem_cons_of_mem _ hp)
  handling _ := h.ring .server p (hring ▸ List.mem_cons_self ..)
  served := h.served
  replying he := ServerPc.noConfusion he
  polled := h.polled
  written := h.written
  current := h.current
  left := h.left

/-- The server makes the pong of a ping. -/
theorem Sound.serve (h : Sound n s) {t₁ t₂ : UInt64} (hpc : s.server.pc = .handle)
    (hle : t₁ ≤ t₂) (id : UInt64) :
    Sound n { s with server := { s.server with
      bufPayload := Served.pong ⟨s.server.bufPayload, t₁, t₂⟩, clock := t₂, pc := .reply
      currentId := id, served := s.server.served ++ [⟨s.server.bufPayload, t₁, t₂⟩] } } := by
  have hsub : s.server.served ⊆ s.server.served ++ [⟨s.server.bufPayload, t₁, t₂⟩] :=
    List.subset_append_left ..
  constructor
  case sends => exact h.sends
  case unsent => exact h.unsent
  case nodup => exact h.nodup
  case next => exact h.next
  case sending => exact h.sending
  case net => exact fun dest p hp => (h.net dest p hp).mono (List.Subset.refl _) hsub
  case ring => exact fun dest p hp => (h.ring dest p hp).mono (List.Subset.refl _) hsub
  case handling => exact fun he => ServerPc.noConfusion he
  case served =>
    intro v hv
    rcases List.mem_append.1 hv with hv | hv
    · exact h.served v hv
    · obtain rfl := List.mem_singleton.1 hv
      exact ⟨h.handling hpc, hle⟩
  case replying =>
    exact fun _ => ⟨_, List.mem_append_right _ (List.mem_singleton_self _), rfl⟩
  case polled => exact fun he => (h.polled he).mono hsub
  case written =>
    intro w hw
    obtain ⟨p, now, hpong, hw, hnow⟩ := h.written w hw
    exact ⟨p, now, hpong.mono hsub, hw, hnow⟩
  case current => exact h.current
  case left => exact h.left

/-- The server hands the pong to the network. -/
theorem Sound.reply (h : Sound n s) (hpc : s.server.pc = .reply) {pc : ServerPc}
    (hnext : pc ≠ .handle ∧ pc ≠ .reply) :
    Sound n { s with
      server := { s.server with pc := pc }
      net := Function.update s.net .client (s.net .client ++ [s.server.bufPayload]) } where
  sends := h.sends
  unsent := h.unsent
  nodup := h.nodup
  next := h.next
  sending := h.sending
  net := forall_mem_update h.net fun p hp => by
    rcases List.mem_append.1 hp with hp | hp
    · exact h.net _ p hp
    · exact List.mem_singleton.1 hp ▸ h.replying hpc
  ring := h.ring
  handling he := absurd he hnext.1
  served := h.served
  replying he := absurd he hnext.2
  polled := h.polled
  written := h.written
  current := h.current
  left := h.left

/-- The server goes on without handling a packet. -/
theorem Sound.serverPc (h : Sound n s) {pc : ServerPc} (hnext : pc ≠ .handle ∧ pc ≠ .reply) :
    Sound n { s with server := { s.server with pc := pc } } :=
  { h with
    handling := fun he => absurd he hnext.1
    replying := fun he => absurd he hnext.2 }

/-- The network delivers a packet. -/
theorem Sound.deliver (h : Sound n s) {dest : Build} (hp : p ∈ s.net dest) (again : Bool) :
    Sound n { s with
      net := if again then s.net else Function.update s.net dest ((s.net dest).erase p)
      ring := if validPingpongPayload p then
        Function.update s.ring dest (s.ring dest ++ [p]) else s.ring } := by
  have hnet : ∀ dest', ∀ p' ∈ (if again then s.net
      else Function.update s.net dest ((s.net dest).erase p)) dest', s.Expected dest' p' := by
    split_ifs
    · exact h.net
    · exact forall_mem_update h.net fun p' hp' => h.net dest p' (List.mem_of_mem_erase hp')
  have hring : ∀ dest', ∀ p' ∈ (if validPingpongPayload p then
      Function.update s.ring dest (s.ring dest ++ [p]) else s.ring) dest', s.Expected dest' p' := by
    split_ifs
    · refine forall_mem_update h.ring fun p' hp' => ?_
      rcases List.mem_append.1 hp' with hp' | hp'
      · exact h.ring dest p' hp'
      · exact List.mem_singleton.1 hp' ▸ h.net dest p hp
    · exact h.ring
  exact { h with net := hnet, ring := hring }

/-- The network loses a packet. -/
theorem Sound.lose (h : Sound n s) (dest : Build) (p : PingpongPayload) :
    Sound n { s with net := Function.update s.net dest ((s.net dest).erase p) } :=
  { h with
    net := forall_mem_update h.net fun p' hp' =>
      h.net dest p' (List.mem_of_mem_erase hp') }

end Steps

/-- Before the first packet nothing is on its way. -/
theorem sound_initial (n : UInt64) : Sound n initial where
  sends _ hm := by cases hm
  unsent _ hm := by cases hm
  nodup := List.nodup_nil
  next id he := (SenderPc.writing.inj he).le
  sending _ he := SenderPc.noConfusion he
  net _ _ hp := by cases hp
  ring _ _ hp := by cases hp
  handling he := ServerPc.noConfusion he
  served _ hv := by cases hv
  replying he := ServerPc.noConfusion he
  polled he := by rcases he with he | he <;> cases he
  written _ hw := by cases hw
  current := rfl
  left he := ClientPc.noConfusion he

/-- A step of the client's threads. -/
theorem Sound.stepClient {n : UInt64} (h : Sound n s) (hstep : stepClient n s a = some t) :
    Sound n t := by
  cases a <;> simp only [Poll.stepClient, reduceCtorEq] at hstep
  case write now =>
    split at hstep <;> try cases hstep
    rename_i id hpc
    split at hstep <;> cases hstep
    rename_i hguard
    exact h.write hpc hguard.1 hguard.2
  case send ret =>
    split at hstep <;> try cases hstep
    rename_i id hpc
    split at hstep <;> cases hstep
    · exact { h with
        unsent := fun m _ => m.1.toNat_lt
        next := fun _ he => SenderPc.noConfusion he
        sending := fun _ he => SenderPc.noConfusion he }
    · exact h.send hpc
  case clientLoop =>
    split at hstep <;> cases hstep
    refine h.clientPc _ _ _ (fun he => ?_) fun he => ?_
    · split_ifs at he <;> simp at he
    · split_ifs at he with hlt
      exact UInt64.not_lt.1 hlt
  case clientPoll =>
    split at hstep <;> cases hstep
    rename_i hring
    exact h.clientPoll hring
  case clientPollExit slot =>
    split at hstep <;> cases hstep
    exact h.clientPc _ _ _ (fun he => by rcases he with he | he <;> cases he)
      fun he => ClientPc.noConfusion he
  case clientCheck =>
    split at hstep <;> cases hstep
    rename_i hpc
    refine h.clientPc _ _ _ (fun _ => h.polled (Or.inl hpc)) fun he => ?_
    split_ifs at he
  case record now =>
    split at hstep <;> try cases hstep
    rename_i hpc
    split at hstep
    · cases hstep
      exact h.clientPc _ _ _ (fun he => by rcases he with he | he <;> cases he)
        fun he => ClientPc.noConfusion he
    · split at hstep <;> cases hstep
      rename_i hnow
      exact h.record hpc hnow
  case interrupt =>
    cases hstep
    exact h.clientPc _ _ _ h.polled h.left

/-- A step of the server. -/
theorem Sound.stepServer {n m : UInt64} (h : Sound n s) (hstep : stepServer m s a = some t) :
    Sound n t := by
  cases a <;> simp only [Poll.stepServer, reduceCtorEq] at hstep
  case serverLoop =>
    split at hstep <;> cases hstep
    refine h.serverPc ?_
    split_ifs <;> exact ⟨ServerPc.noConfusion, ServerPc.noConfusion⟩
  case serverPoll =>
    split at hstep <;> cases hstep
    rename_i hring
    exact h.serverPoll hring
  case serve t₁ t₂ =>
    split at hstep <;> try cases hstep
    rename_i hpc
    split at hstep
    · cases hstep
      exact h.serverPc ⟨ServerPc.noConfusion, ServerPc.noConfusion⟩
    · split at hstep <;> cases hstep
      rename_i hclock
      exact h.serve hpc hclock.2 _
  case reply ret =>
    split at hstep <;> try cases hstep
    rename_i hpc
    split at hstep <;> cases hstep
    · exact h.serverPc ⟨ServerPc.noConfusion, ServerPc.noConfusion⟩
    · refine h.reply hpc ?_
      split_ifs <;> exact ⟨ServerPc.noConfusion, ServerPc.noConfusion⟩

/-- A step of the network. -/
theorem Sound.stepNet {n : UInt64} (h : Sound n s) (hstep : stepNet s a = some t) : Sound n t := by
  cases a <;> simp only [Poll.stepNet, reduceCtorEq] at hstep
  case deliver dest packet again =>
    split at hstep <;> cases hstep
    rename_i hmem
    exact h.deliver hmem again
  case lose dest packet =>
    split at hstep <;> cases hstep
    exact h.lose dest packet

/-- **Every packet stays what it is**, whatever the network does. -/
theorem sound_invariant : (exchange iters).Invariant (fun _ _ => True) (Sound (iters .client)) where
  init := sound_initial _
  step := by
    intro s a t h _ hstep
    rcases step_cases hstep with hstep | hstep | hstep
    · exact h.stepClient hstep
    · exact h.stepServer hstep
    · exact h.stepNet hstep

/-! ### Without repetition -/

/-- The ping that the sending thread is about to hand over. -/
def State.packets (s : State) : List PingpongPayload :=
  match s.client.senderPc with
  | .sending _ => [s.client.packet]
  | _ => []

/-- The packet that `start_server` handles. -/
def State.serving (s : State) : List PingpongPayload :=
  if s.server.pc = .handle ∨ s.server.pc = .reply then [s.server.bufPayload] else []

/-- The packet that `start_client` handles. -/
def State.recording (s : State) : List PingpongPayload :=
  if s.client.pc = .check ∨ s.client.pc = .handle then [s.client.bufPayload] else []

/-- Where a packet can be, and the records. -/
def State.places (s : State) : List PingpongPayload :=
  s.packets ++ (s.net .server ++ (s.ring .server ++ (s.serving ++
    (s.net .client ++ (s.ring .client ++ (s.recording ++ s.client.written))))))

/-- Each id is in one place, and none that is still to be sent. -/
structure Single (s : State) : Prop where
  once : ∀ x, tally PingpongPayload.id s.places x ≤ 1
  fresh : ∀ x : UInt64, s.nextId ≤ x.toNat → tally PingpongPayload.id s.places x = 0

/-- The copies of an id, place by place. -/
theorem tally_places (s : State) (x : UInt64) : tally PingpongPayload.id s.places x =
    tally PingpongPayload.id s.packets x + tally PingpongPayload.id (s.net .server) x +
      tally PingpongPayload.id (s.ring .server) x + tally PingpongPayload.id s.serving x +
      tally PingpongPayload.id (s.net .client) x + tally PingpongPayload.id (s.ring .client) x +
      tally PingpongPayload.id s.recording x + tally PingpongPayload.id s.client.written x := by
  unfold State.places
  simp only [tally_append]
  omega

/-- A step that only moves packets, or loses them. -/
theorem Single.move (h : Single s)
    (hle : ∀ x, tally PingpongPayload.id t.places x ≤ tally PingpongPayload.id s.places x)
    (hnext : t.nextId = s.nextId ∨ t.nextId = 2 ^ 64) : Single t where
  once x := (hle x).trans (h.once x)
  fresh x hx := by
    have hlt := x.toNat_lt
    have hx' : s.nextId ≤ x.toNat := by omega
    exact Nat.le_zero.1 ((hle x).trans (h.fresh x hx').le)

/-- The client writes a ping with the next id. -/
theorem Single.write (h : Single s) {id : ℕ} {now : UInt64} {n : UInt64}
    (hpc : s.client.senderPc = .writing id) (hid : id ≤ n.toNat) :
    Single { s with client := { s.client with
      packet := ping (UInt64.ofNat id) now, clock := now, senderPc := .sending id
      sends := s.client.sends ++ [(UInt64.ofNat id, now)] } } := by
  have hlt := n.toNat_lt
  have hval : (UInt64.ofNat id).toNat = id := by
    rw [UInt64.toNat_ofNat']
    omega
  have hnext : s.nextId = id := by simp [State.nextId, hpc]
  set t : State := { s with client := { s.client with
    packet := ping (UInt64.ofNat id) now, clock := now, senderPc := .sending id
    sends := s.client.sends ++ [(UInt64.ofNat id, now)] } }
  have hnone : s.packets = [] := by simp [State.packets, hpc]
  have hsome : t.packets = [ping (UInt64.ofNat id) now] := rfl
  have htally : ∀ x, tally PingpongPayload.id t.places x =
      tally PingpongPayload.id s.places x + if UInt64.ofNat id = x then 1 else 0 := fun x => by
    have hs := tally_places s x
    have ht := tally_places t x
    rw [hnone, tally_nil] at hs
    rw [hsome, tally_cons, tally_nil, ping_id] at ht
    rw [hs, ht]
    show _ + tally PingpongPayload.id (s.net .server) x +
      tally PingpongPayload.id (s.ring .server) x + tally PingpongPayload.id s.serving x +
      tally PingpongPayload.id (s.net .client) x + tally PingpongPayload.id (s.ring .client) x +
      tally PingpongPayload.id s.recording x + tally PingpongPayload.id s.client.written x = _
    omega
  constructor
  case once =>
    intro x
    rw [htally]
    split_ifs with hx
    · rw [h.fresh x (by rw [hnext, ← hx, hval])]
    · exact h.once x
  case fresh =>
    intro x hx
    have hx : id + 1 ≤ x.toNat := hx
    have hne : UInt64.ofNat id ≠ x := by
      rintro rfl
      omega
    rw [htally, if_neg hne, h.fresh x (by omega)]

/-- Before the first packet there is no copy. -/
theorem single_initial : Single initial where
  once x := by
    show 0 ≤ 1
    omega
  fresh _ _ := rfl

/-- A step of the client's threads. -/
theorem Single.stepClient {n : UInt64} (h : Single s) (hstep : stepClient n s a = some t) :
    Single t := by
  cases a <;> simp only [Poll.stepClient, reduceCtorEq] at hstep
  case write now =>
    split at hstep <;> try cases hstep
    rename_i id hpc
    split at hstep <;> cases hstep
    rename_i hle
    exact h.write hpc hle.1
  case send ret =>
    split at hstep <;> try cases hstep
    rename_i id hpc
    split at hstep <;> cases hstep
    · refine h.move (fun x => ?_) (Or.inr rfl)
      simp [tally_places, State.packets, State.serving, State.recording, hpc]
    · refine h.move (fun x => ?_) (Or.inl (by simp [State.nextId, hpc]))
      simp [tally_places, State.packets, State.serving, State.recording, hpc]
      omega
  case clientLoop =>
    split at hstep <;> cases hstep
    rename_i hpc
    refine h.move (fun x => ?_) (Or.inl rfl)
    simp only [tally_places, State.packets, State.serving, State.recording, hpc]
    split_ifs <;> simp_all
  case clientPoll =>
    split at hstep <;> cases hstep
    rename_i hpc hring
    refine h.move (fun x => ?_) (Or.inl rfl)
    simp [tally_places, State.packets, State.serving, State.recording, hpc, hring]
    omega
  case clientPollExit slot =>
    split at hstep <;> cases hstep
    rename_i hpc
    refine h.move (fun x => ?_) (Or.inl rfl)
    simp [tally_places, State.packets, State.serving, State.recording, hpc]
  case clientCheck =>
    split at hstep <;> cases hstep
    rename_i hpc
    refine h.move (fun x => ?_) (Or.inl rfl)
    cases s.client.globalExit <;>
      simp [tally_places, State.packets, State.serving, State.recording, hpc]
  case record now =>
    split at hstep <;> try cases hstep
    rename_i hpc
    split at hstep
    · cases hstep
      refine h.move (fun x => ?_) (Or.inl rfl)
      simp [tally_places, State.packets, State.serving, State.recording, hpc]
    · split at hstep <;> cases hstep
      refine h.move (fun x => ?_) (Or.inl rfl)
      simp [tally_places, State.packets, State.serving, State.recording, hpc]
      rw [PingpongPayload.setTs_id]
      omega
  case interrupt =>
    cases hstep
    exact h.move (fun x => le_rfl) (Or.inl rfl)

/-- A step of the server. -/
theorem Single.stepServer {n : UInt64} (h : Single s) (hstep : stepServer n s a = some t) :
    Single t := by
  cases a <;> simp only [Poll.stepServer, reduceCtorEq] at hstep
  case serverLoop =>
    split at hstep <;> cases hstep
    rename_i hpc
    refine h.move (fun x => ?_) (Or.inl rfl)
    by_cases hlt : s.server.currentId < n <;>
      simp [tally_places, State.packets, State.serving, State.recording, hpc, hlt]
  case serverPoll =>
    split at hstep <;> cases hstep
    rename_i hpc hring
    refine h.move (fun x => ?_) (Or.inl rfl)
    simp [tally_places, State.packets, State.serving, State.recording, hpc, hring]
    omega
  case serve t₁ t₂ =>
    split at hstep <;> try cases hstep
    rename_i hpc
    split at hstep
    · cases hstep
      refine h.move (fun x => ?_) (Or.inl rfl)
      simp [tally_places, State.packets, State.serving, State.recording, hpc]
    · split at hstep <;> cases hstep
      refine h.move (fun x => ?_) (Or.inl rfl)
      simp [tally_places, State.packets, State.serving, State.recording, hpc]
      rw [pong_id]
  case reply ret =>
    split at hstep <;> try cases hstep
    rename_i hpc
    split at hstep <;> cases hstep
    · refine h.move (fun x => ?_) (Or.inl rfl)
      simp [tally_places, State.packets, State.serving, State.recording, hpc]
    · refine h.move (fun x => ?_) (Or.inl rfl)
      by_cases hle : n ≤ s.server.currentId <;>
        simp [tally_places, State.packets, State.serving, State.recording, hpc, hle] <;> omega

/-- A step of a network that does not repeat packets. -/
theorem Single.stepNet (h : Single s) (hguard : NoRepeat s a) (hstep : stepNet s a = some t) :
    Single t := by
  cases a <;> simp only [Poll.stepNet, reduceCtorEq] at hstep
  case deliver dest packet again =>
    split at hstep <;> cases hstep
    rename_i hmem
    obtain rfl : again = false := hguard
    refine h.move (fun x => ?_) (Or.inl rfl)
    have herase := tally_erase (f := PingpongPayload.id) (b := x) hmem
    cases dest <;> by_cases hvalid : validPingpongPayload packet = true <;>
      simp [tally_places, State.packets, State.serving, State.recording, hvalid] <;> omega
  case lose dest packet =>
    split at hstep <;> cases hstep
    rename_i hmem
    refine h.move (fun x => ?_) (Or.inl rfl)
    have herase := tally_erase (f := PingpongPayload.id) (b := x) hmem
    cases dest <;>
      simp [tally_places, State.packets, State.serving, State.recording] <;> omega

/-- **Without repetition no id is in two places.** -/
theorem single_invariant : (exchange iters).Invariant NoRepeat Single where
  init := single_initial
  step := by
    intro s a t h hguard hstep
    rcases step_cases hstep with hstep | hstep | hstep
    · exact h.stepClient hstep
    · exact h.stepServer hstep
    · exact h.stepNet hguard hstep

/-- Without repetition no two records have the same id. -/
theorem Single.nodup (h : Single s) : (s.client.written.map PingpongPayload.id).Nodup := by
  refine nodup_map_of_tally_le_one fun x => ?_
  have hone := h.once x
  rw [tally_places] at hone
  omega

/-- **The polling exchange.**  In every run, every payload that the client
records has an id the client sent, phase 2, in `ts[0]` the reading the client
took when it sent that id, in `ts[1]` and `ts[2]` the readings the server took,
in this order, for a copy of that ping, and in `ts[3]` a reading not before
`ts[0]`; it sends each id once.  If the network repeats no packet, no id is
recorded twice.  The loop of the client ends other than by `global_exit` only
after a record with an id of at least `iters`. -/
theorem records_of_reachable (hiters : iters .client ≠ 0) (h : (exchange iters).Reachable s) :
    (∀ w ∈ s.client.written, 1 ≤ w.id ∧ w.id ≤ iters .client ∧ w.phase = 2 ∧
      (w.id, w.ts 0) ∈ s.client.sends ∧
      (∃ v ∈ s.server.served, v.ping = ping w.id (w.ts 0) ∧
        w.ts 1 = v.t₁ ∧ w.ts 2 = v.t₂ ∧ v.t₁ ≤ v.t₂) ∧
      w.ts 0 ≤ w.ts 3) ∧
    (s.client.sends.map Prod.fst).Nodup ∧
    ((exchange iters).ReachableIf NoRepeat s →
      (s.client.written.map PingpongPayload.id).Nodup) ∧
    (s.client.pc = .done → ∃ w ∈ s.client.written, iters .client ≤ w.id) := by
  have hsound := sound_invariant.holds h
  refine ⟨fun w hw => ?_, hsound.nodup,
    fun hsingle => (single_invariant.holds hsingle).nodup, fun hpc => ?_⟩
  · obtain ⟨p, now, ⟨v, hv, rfl⟩, rfl, hnow⟩ := hsound.written w hw
    obtain ⟨⟨m, hm, hping⟩, hle⟩ := hsound.served v hv
    obtain ⟨hlo, hhi, -⟩ := hsound.sends m hm
    obtain ⟨h₀, h₁, h₂⟩ := pong_ts v
    have hid : (v.pong.setTs 3 now).id = m.1 := by
      rw [PingpongPayload.setTs_id, pong_id, hping, ping_id]
    have hts : ∀ i, i ≠ 3 → (v.pong.setTs 3 now).ts i = v.pong.ts i := fun i hi =>
      PingpongPayload.setTs_ts_ne hi ..
    have hts₀ : (v.pong.setTs 3 now).ts 0 = m.2 := by
      rw [hts 0 (by decide), h₀, hping, ping_ts]
    rw [hid, hts₀]
    refine ⟨hlo, hhi, rfl, hm, ⟨v, hv, hping, ?_, ?_, hle⟩, ?_⟩
    · rw [hts 1 (by decide), h₁]
    · rw [hts 2 (by decide), h₂]
    · rw [PingpongPayload.setTs_ts, ← hts₀, hts 0 (by decide)]
      exact hnow
  · exact exists_le_id hiters (hsound.current ▸ hsound.left hpc)

/-- One ping and its pong. -/
theorem records_of_reachable_one : ∃ s, (exchange fun _ => 1).Reachable s ∧
    s.client.pc = .done ∧ s.client.written.length = 1 ∧
    ∃ w ∈ s.client.written, (1 : UInt64) ≤ w.id := by
  let p := ping 1 5
  let v : Served := ⟨p, 70, 71⟩
  have hrun : ((exchange fun _ => 1).exec initial [.write 5, .send 1024, .clientLoop, .serverLoop,
      .deliver .server p false, .serverPoll, .serve 70 71, .reply 1024,
      .deliver .client v.pong false, .clientPoll, .clientCheck, .record 20, .clientLoop]).map
      (fun s => (s.client.pc, s.client.written.length)) = some (.done, 1) := by
    decide +kernel
  obtain ⟨s, hs, he⟩ := Option.map_eq_some_iff.1 hrun
  obtain ⟨hpc, hlength⟩ := Prod.mk.inj he
  have hreach := System.reachable_of_exec hs
  exact ⟨s, hreach, hpc, hlength, (records_of_reachable (by decide) hreach).2.2.2 hpc⟩

end Poll
end Xdp
end DetBypass
