/-
# The exchange before the measurement

`exchange_data` of `common/net.c`, called by client and server with a buffer of
`packet_size` bytes each: the client sends its bytes and waits for those of the
server, which answers the first datagram it receives.  The datagrams are UDP: one
may be lost, repeated or late, and one that reaches a host without an open socket
is dropped.  Other hosts may send to the port too.  A call of the socket API that
fails ends the function.

Nothing is sent twice, and no wait has an end.  So among the two alone a host that
returns 0 has the bytes of the other (`exchanged_of_reachable`), but both can
return only as long as the one datagram on which they wait is still under way
(`finishes_iff_alive`): whatever is lost is lost for good, a request that comes
before the server has bound its socket included.  Where nothing is, they always can
(`alive_of_reliable`).
-/

import DetBypass.Common.Payload
import DetBypass.Lib.LeadsTo
import Mathlib.Data.List.OfFn

namespace DetBypass
namespace Exchange

open Lib

/-- The host a datagram comes from: one of the two, or another. -/
inductive Source
  | peer (host : Build)
  | other
deriving DecidableEq

structure Datagram where
  source : Source
  bytes : List UInt8
deriving DecidableEq

/-- Where a host stands: before `bind`, at `sendto` with its destination, at
`recvfrom`, or after the return of 0 or of -1. -/
inductive Pc
  | start
  | sending (dest : Source)
  | receiving
  | returned
  | failed
deriving DecidableEq

/-- The socket of a host is open. -/
def Pc.Open : Pc → Prop
  | .sending _ | .receiving => True
  | .start | .returned | .failed => False

instance : DecidablePred Pc.Open := fun pc =>
  match pc with
  | .sending _ | .receiving => inferInstanceAs (Decidable True)
  | .start | .returned | .failed => inferInstanceAs (Decidable False)

variable {n : ℕ}

/-- A host and the queue of its socket. -/
structure Host (n : ℕ) where
  pc : Pc
  outBuffer : Fin n → UInt8
  queue : List Datagram

/-- The two hosts, and what is on the way to each. -/
structure State (n : ℕ) where
  host : Build → Host n
  net : Build → List Datagram

/-- `memset (out_buffer, 0, packet_size)`. -/
def Host.memset (h : Host n) : Host n := { h with outBuffer := fun _ => 0 }

/-- The store of `recvfrom (sock, out_buffer, packet_size, …)`. -/
def Host.store (h : Host n) (bytes : List UInt8) : Host n :=
  { h with outBuffer := fun i => bytes.getD i (h.outBuffer i) }

/-- One scheduler choice: a call with its result, or a datagram at some place on
the way to a host is delivered or lost, or one from elsewhere arrives. -/
inductive Action
  | bind (host : Build) (ret : ℤ)
  | sendto (host : Build) (ret : ℤ)
  | recvfrom (host : Build) (ret : ℤ)
  | deliver (dest : Build) (k : ℕ) (again : Bool)
  | lose (dest : Build) (k : ℕ)
  | foreign (dest : Build) (bytes : List UInt8)

/-- The state of one host changes. -/
def State.set (s : State n) (b : Build) (h : Host n) : State n :=
  { s with host := Function.update s.host b h }

/-- A datagram arrives at a host. -/
def State.arrive (s : State n) (b : Build) (d : Datagram) : State n :=
  if (s.host b).pc.Open then s.set b { s.host b with queue := (s.host b).queue ++ [d] } else s

/-- The datagrams on the way to a host change. -/
def State.setNet (s : State n) (b : Build) (ds : List Datagram) : State n :=
  { s with net := Function.update s.net b ds }

/-- A datagram is sent. -/
def State.send (s : State n) (dest : Source) (d : Datagram) : State n :=
  match dest with
  | .peer b => s.setNet b (s.net b ++ [d])
  | .other => s

/-- One step of `exchange_data` on a host, or of the network. -/
def step (buffer : Build → Fin n → UInt8) (s : State n) : Action → Option (State n)
  | .bind b ret =>
    if (s.host b).pc = .start then
      if ret < 0 then some (s.set b { s.host b with pc := .failed })
      else match b with
        | .client => some (s.set b { s.host b with pc := .sending (.peer .server) })
        | .server => some (s.set b { (s.host b).memset with pc := .receiving })
    else none
  | .sendto b ret =>
    match (s.host b).pc with
    | .sending dest =>
      if ret < 0 then some (s.set b { s.host b with pc := .failed })
      else
        let s := s.send dest ⟨.peer b, List.ofFn (buffer b)⟩
        match b with
        | .client => some (s.set b { (s.host b).memset with pc := .receiving })
        | .server => some (s.set b { s.host b with pc := .returned })
    | _ => none
  | .recvfrom b ret =>
    if (s.host b).pc = .receiving then
      if ret < 0 then some (s.set b { s.host b with pc := .failed })
      else match (s.host b).queue with
        | d :: rest =>
          let h := { (s.host b).store d.bytes with queue := rest }
          match b with
          | .client => some (s.set b { h with pc := .returned })
          | .server => some (s.set b { h with pc := .sending d.source })
        | [] => none
    else none
  | .deliver b k again =>
    match (s.net b)[k]? with
    | some d =>
      some ((if again then s else s.setNet b ((s.net b).eraseIdx k)).arrive b d)
    | none => none
  | .lose b k =>
    if k < (s.net b).length then some (s.setNet b ((s.net b).eraseIdx k)) else none
  | .foreign b bytes => some (s.arrive b ⟨.other, bytes⟩)

/-- Before both calls; the buffers are not initialised. -/
def initial (garbage : Build → Fin n → UInt8) : State n where
  host b := ⟨.start, garbage b, []⟩
  net _ := []

/-- The runs of the two calls with their buffers. -/
def exchangeData (buffer garbage : Build → Fin n → UInt8) : System (State n) Action :=
  ⟨initial garbage, step buffer⟩

/-- No other host sends to the port. -/
def Alone (_ : State n) : Action → Prop
  | .foreign .. => False
  | _ => True

/-- Nor does a call fail. -/
def Quiet (_ : State n) : Action → Prop
  | .foreign .. => False
  | .bind _ ret | .sendto _ ret | .recvfrom _ ret => 0 ≤ ret
  | _ => True

instance (s : State n) : DecidablePred (Alone s) := fun a =>
  match a with
  | .foreign .. => inferInstanceAs (Decidable False)
  | .bind .. | .sendto .. | .recvfrom .. | .deliver .. | .lose .. =>
    inferInstanceAs (Decidable True)

instance (s : State n) : DecidablePred (Quiet s) := fun a =>
  match a with
  | .foreign .. => inferInstanceAs (Decidable False)
  | .bind _ ret | .sendto _ ret | .recvfrom _ ret => inferInstanceAs (Decidable (0 ≤ ret))
  | .deliver .. | .lose .. => inferInstanceAs (Decidable True)

variable {buffer garbage : Build → Fin n → UInt8} {s t : State n} {a : Action} {b : Build}

/-- A host that is set. -/
@[simp] theorem set_host_self (s : State n) (b : Build) (h : Host n) :
    (s.set b h).host b = h := by
  simp [State.set]

/-- The other host is left. -/
theorem set_host_of_ne {b b' : Build} (hb : b' ≠ b) (s : State n) (h : Host n) :
    (s.set b h).host b' = s.host b' := by
  simp [State.set, hb]

@[simp] theorem set_client_server (s : State n) (h : Host n) :
    (s.set .client h).host .server = s.host .server :=
  set_host_of_ne (by decide) s h

@[simp] theorem set_server_client (s : State n) (h : Host n) :
    (s.set .server h).host .client = s.host .client :=
  set_host_of_ne (by decide) s h

@[simp] theorem set_net (s : State n) (b : Build) (h : Host n) : (s.set b h).net = s.net := rfl

@[simp] theorem setNet_host (s : State n) (b : Build) (ds : List Datagram) :
    (s.setNet b ds).host = s.host := rfl

/-- The datagrams on the way to a host, once set. -/
@[simp] theorem setNet_net_self (s : State n) (b : Build) (ds : List Datagram) :
    (s.setNet b ds).net b = ds := by
  simp [State.setNet]

/-- Those to the other host are left. -/
theorem setNet_net_of_ne {b b' : Build} (hb : b' ≠ b) (s : State n) (ds : List Datagram) :
    (s.setNet b ds).net b' = s.net b' := by
  simp [State.setNet, hb]

/-- A datagram is appended to those on the way. -/
@[simp] theorem send_peer (s : State n) (b : Build) (d : Datagram) :
    s.send (.peer b) d = s.setNet b (s.net b ++ [d]) := rfl

/-! ### What a host has received -/

/-- The client is past its `sendto`. -/
def State.Sent (s : State n) : Prop :=
  (s.host .client).pc ≠ .start ∧ ∀ dest, (s.host .client).pc ≠ .sending dest

/-- On the way to a host or in its queue. -/
def State.Toward (s : State n) (b : Build) (d : Datagram) : Prop :=
  d ∈ s.net b ∨ d ∈ (s.host b).queue

/-- The datagrams are the two messages, and what a host has received is the buffer of
the other. -/
structure Consistent (buffer : Build → Fin n → UInt8) (s : State n) : Prop where
  request : ∀ d, s.Toward .server d → d = ⟨.peer .client, List.ofFn (buffer .client)⟩ ∧ s.Sent
  reply : ∀ d, s.Toward .client d →
    d = ⟨.peer .server, List.ofFn (buffer .server)⟩ ∧ (s.host .server).pc = .returned
  clientSending : ∀ dest, (s.host .client).pc = .sending dest → dest = .peer .server
  clientReturned : (s.host .client).pc = .returned →
    (s.host .client).outBuffer = buffer .server ∧ (s.host .server).pc = .returned
  serverSending : ∀ dest, (s.host .server).pc = .sending dest →
    dest = .peer .client ∧ (s.host .server).outBuffer = buffer .client ∧ s.Sent
  serverReturned : (s.host .server).pc = .returned →
    (s.host .server).outBuffer = buffer .client ∧ s.Sent

/-- The bytes of the whole buffer are stored over what was there. -/
theorem store_ofFn (h : Host n) (data : Fin n → UInt8) :
    (h.store (List.ofFn data)).outBuffer = data := by
  funext i
  simp [Host.store]

/-- A datagram that arrives was on the way. -/
theorem toward_of_arrive {b' : Build} {d d' : Datagram} (h : (s.arrive b d).Toward b' d') :
    s.Toward b' d' ∨ b' = b ∧ d' = d := by
  unfold State.arrive at h
  split_ifs at h
  · by_cases hb : b' = b
    · subst hb
      rcases h with h | h
      · exact Or.inl (Or.inl h)
      · simp only [State.set, Function.update_self, List.mem_append, List.mem_singleton] at h
        exact h.imp Or.inr fun hd => ⟨rfl, hd⟩
    · refine Or.inl (h.imp id fun h => ?_)
      simpa only [State.set, Function.update_of_ne hb] using h
  · exact Or.inl h

/-- What a host does is not changed by what arrives. -/
theorem arrive_host (s : State n) (b : Build) (d : Datagram) (b' : Build) :
    ((s.arrive b d).host b').pc = (s.host b').pc ∧
      ((s.arrive b d).host b').outBuffer = (s.host b').outBuffer := by
  unfold State.arrive
  split_ifs
  · by_cases hb : b' = b
    · subst hb
      simp [State.set]
    · simp [State.set, Function.update_of_ne hb]
  · exact ⟨rfl, rfl⟩

/-- One that is on the way after a removal was before. -/
theorem toward_of_eraseIdx {b' : Build} {d : Datagram} {k : ℕ}
    (h : (s.setNet b ((s.net b).eraseIdx k)).Toward b' d) : s.Toward b' d := by
  refine h.imp (fun h => ?_) id
  by_cases hb : b' = b
  · subst hb
    rw [setNet_net_self] at h
    exact List.mem_of_mem_eraseIdx h
  · rwa [setNet_net_of_ne hb] at h

/-- A delivery, whether or not a copy stays on the way. -/
theorem deliver_moves {k : ℕ} {again : Bool} {d : Datagram} (hd : (s.net b)[k]? = some d)
    (ht : t = (if again then s else s.setNet b ((s.net b).eraseIdx k)).arrive b d) :
    (∀ b, (t.host b).pc = (s.host b).pc ∧ (t.host b).outBuffer = (s.host b).outBuffer) ∧
      ∀ b d, t.Toward b d → s.Toward b d := by
  subst ht
  refine ⟨fun b' => ?_, fun b' d' hd' => ?_⟩
  · obtain ⟨hpc, hout⟩ :=
      arrive_host (if again then s else s.setNet b ((s.net b).eraseIdx k)) b d b'
    rw [hpc, hout]
    cases again <;> exact ⟨rfl, rfl⟩
  · rcases toward_of_arrive hd' with hd' | ⟨rfl, rfl⟩
    · cases again
      · exact toward_of_eraseIdx hd'
      · exact hd'
    · exact Or.inl (List.mem_of_getElem? hd)

/-- Nothing new is on the way, and the hosts stand where they stood. -/
theorem Consistent.of_toward (h : Consistent buffer s)
    (hhost : ∀ b, (t.host b).pc = (s.host b).pc ∧ (t.host b).outBuffer = (s.host b).outBuffer)
    (htoward : ∀ b d, t.Toward b d → s.Toward b d) : Consistent buffer t := by
  have hsent : t.Sent = s.Sent := by simp only [State.Sent, (hhost .client).1]
  refine ⟨fun d hd => ?_, fun d hd => ?_, ?_, ?_, ?_, ?_⟩
  · exact hsent ▸ h.request d (htoward _ _ hd)
  · exact (hhost .server).1 ▸ h.reply d (htoward _ _ hd)
  · exact (hhost .client).1 ▸ h.clientSending
  · rw [(hhost .client).1, (hhost .client).2, (hhost .server).1]
    exact h.clientReturned
  · rw [(hhost .server).1, (hhost .server).2, hsent]
    exact h.serverSending
  · rw [(hhost .server).1, (hhost .server).2, hsent]
    exact h.serverReturned

/-- The client goes on, or ends, without a datagram. -/
theorem Consistent.client (h : Consistent buffer s) {client : Host n}
    (hqueue : ∀ d ∈ client.queue, d ∈ (s.host .client).queue)
    (hsent : s.Sent → (s.set .client client).Sent)
    (hsending : ∀ dest, client.pc = .sending dest → dest = .peer .server)
    (hreturned : client.pc = .returned →
      client.outBuffer = buffer .server ∧ (s.host .server).pc = .returned) :
    Consistent buffer (s.set .client client) := by
  have hserver := set_client_server s client
  have hclient := set_host_self s .client client
  refine ⟨fun d hd => ?_, fun d hd => ?_, ?_, ?_, fun dest hdest => ?_, fun hpc => ?_⟩
  · simp only [State.Toward, hserver] at hd
    exact (h.request d hd).imp id hsent
  · simp only [State.Toward, hclient] at hd
    rw [hserver]
    exact h.reply d (hd.imp id (hqueue d))
  · rwa [hclient]
  · rwa [hclient, hserver]
  · rw [hserver] at hdest ⊢
    exact (h.serverSending dest hdest).imp id (And.imp id hsent)
  · rw [hserver] at hpc ⊢
    exact (h.serverReturned hpc).imp id hsent

/-- The server goes on, or ends, before its answer. -/
theorem Consistent.server (h : Consistent buffer s) {server : Host n}
    (hpc : (s.host .server).pc ≠ .returned)
    (hqueue : ∀ d ∈ server.queue, d ∈ (s.host .server).queue)
    (hsending : ∀ dest, server.pc = .sending dest →
      dest = .peer .client ∧ server.outBuffer = buffer .client ∧ s.Sent)
    (hreturned : server.pc ≠ .returned) :
    Consistent buffer (s.set .server server) := by
  have hclient := set_server_client s server
  have hserver := set_host_self s .server server
  have hsent : (s.set .server server).Sent = s.Sent := by simp only [State.Sent, hclient]
  refine ⟨fun d hd => ?_, fun d hd => ?_, ?_, fun hc => ?_, ?_, ?_⟩
  · simp only [State.Toward, hserver] at hd
    rw [hsent]
    exact h.request d (hd.imp id (hqueue d))
  · simp only [State.Toward, hclient] at hd
    exact absurd (h.reply d hd).2 hpc
  · rw [hclient]
    exact h.clientSending
  · rw [hclient] at hc
    exact absurd (h.clientReturned hc).2 hpc
  · rwa [hserver, hsent]
  · rw [hserver]
    exact fun hr => absurd hr hreturned

/-- The request is sent. -/
theorem Consistent.sendRequest (h : Consistent buffer s)
    (hpc : (s.host .client).pc = .sending (.peer .server)) :
    Consistent buffer ((s.send (.peer .server) ⟨.peer .client, List.ofFn (buffer .client)⟩).set
      .client { (s.host .client).memset with pc := .receiving }) := by
  -- before the request nothing is under way, and the server has not answered
  have hnot : ¬ s.Sent := fun hsent => hsent.2 _ hpc
  have hserver : (s.host .server).pc ≠ .returned := fun hr => hnot (h.serverReturned hr).2
  refine ⟨fun d hd => ⟨?_, by simp [State.Sent]⟩, fun d hd => ?_, by simp, by simp,
    fun dest hdest => ?_, fun hr => ?_⟩
  · simp only [State.Toward, set_net, send_peer, setNet_net_self, List.mem_append,
      List.mem_singleton, set_client_server, setNet_host] at hd
    rcases hd with (hd | hd) | hd
    · exact (h.request d (Or.inl hd)).1
    · exact hd
    · exact (h.request d (Or.inr hd)).1
  · simp only [State.Toward, set_net, send_peer, set_host_self,
      setNet_net_of_ne (show Build.client ≠ .server by decide)] at hd
    exact absurd (h.reply d hd).2 hserver
  · rw [set_client_server, send_peer, setNet_host] at hdest
    exact absurd (h.serverSending dest hdest).2.2 hnot
  · rw [set_client_server, send_peer, setNet_host] at hr
    exact absurd hr hserver

/-- The reply is sent. -/
theorem Consistent.sendReply (h : Consistent buffer s)
    (hpc : (s.host .server).pc = .sending (.peer .client)) :
    Consistent buffer ((s.send (.peer .client) ⟨.peer .server, List.ofFn (buffer .server)⟩).set
      .server { s.host .server with pc := .returned }) := by
  obtain ⟨-, hout, hsent⟩ := h.serverSending _ hpc
  have hsent' : ((s.send (.peer .client) ⟨.peer .server, List.ofFn (buffer .server)⟩).set
      .server { s.host .server with pc := .returned }).Sent := by
    simpa [State.Sent] using hsent
  refine ⟨fun d hd => ⟨?_, hsent'⟩, fun d hd => ⟨?_, by simp⟩, by simpa using h.clientSending,
    fun hr => ?_, by simp, fun _ => ⟨by simpa using hout, hsent'⟩⟩
  · simp only [State.Toward, set_net, send_peer, set_host_self,
      setNet_net_of_ne (show Build.server ≠ .client by decide)] at hd
    exact (h.request d hd).1
  · simp only [State.Toward, set_net, send_peer, setNet_net_self, List.mem_append,
      List.mem_singleton, set_server_client, setNet_host] at hd
    rcases hd with (hd | hd) | hd
    · exact (h.reply d (Or.inl hd)).1
    · exact hd
    · exact (h.reply d (Or.inr hd)).1
  · rw [set_server_client, send_peer, setNet_host] at hr
    exact absurd ((h.clientReturned hr).2.symm.trans hpc) (by decide)

/-- **A step of the two alone keeps it.** -/
theorem Consistent.step (h : Consistent buffer s) (halone : Alone s a)
    (hstep : Exchange.step buffer s a = some t) : Consistent buffer t := by
  cases a with
  | bind b ret =>
      simp only [Exchange.step] at hstep
      split_ifs at hstep with hpc hret
      · cases hstep
        cases b with
        | client => exact h.client (fun d hd => hd) (fun hs => absurd hpc hs.1) (by simp) (by simp)
        | server => exact h.server (by simp [hpc]) (fun d hd => hd) (by simp) (by simp)
      · cases b with
        | client =>
            cases hstep
            exact h.client (fun d hd => hd) (fun hs => absurd hpc hs.1) (by simp) (by simp)
        | server =>
            cases hstep
            exact h.server (by simp [hpc]) (fun d hd => hd) (by simp) (by simp)
  | sendto b ret =>
      simp only [Exchange.step] at hstep
      split at hstep
      case h_2 => cases hstep
      rename_i dest hpc
      split_ifs at hstep with hret
      · cases hstep
        cases b with
        | client =>
            exact h.client (fun d hd => hd) (fun hs => absurd hpc (hs.2 _)) (by simp) (by simp)
        | server => exact h.server (by simp [hpc]) (fun d hd => hd) (by simp) (by simp)
      · cases b with
        | client =>
            obtain rfl := h.clientSending _ hpc
            cases hstep
            exact h.sendRequest hpc
        | server =>
            obtain ⟨rfl, -, -⟩ := h.serverSending _ hpc
            cases hstep
            exact h.sendReply hpc
  | recvfrom b ret =>
      simp only [Exchange.step] at hstep
      split_ifs at hstep with hpc hret
      · cases hstep
        cases b with
        | client =>
            exact h.client (fun d hd => hd) (fun _ => by simp [State.Sent]) (by simp) (by simp)
        | server => exact h.server (by simp [hpc]) (fun d hd => hd) (by simp) (by simp)
      · split at hstep
        case h_2 => cases hstep
        rename_i d rest hqueue
        have hd : d ∈ (s.host b).queue := hqueue ▸ List.mem_cons_self ..
        have hrest : ∀ d ∈ rest, d ∈ (s.host b).queue := fun d hd =>
          hqueue ▸ List.mem_cons_of_mem _ hd
        cases b with
        | client =>
            obtain ⟨rfl, hserver⟩ := h.reply d (Or.inr hd)
            cases hstep
            exact h.client hrest (fun _ => by simp [State.Sent]) (by simp)
              fun _ => ⟨store_ofFn _ _, hserver⟩
        | server =>
            obtain ⟨rfl, hsent⟩ := h.request d (Or.inr hd)
            cases hstep
            exact h.server (by simp [hpc]) hrest
              (fun dest hdest => ⟨(Pc.sending.inj hdest).symm, store_ofFn _ _, hsent⟩) (by simp)
  | deliver b k again =>
      simp only [Exchange.step] at hstep
      split at hstep <;> cases hstep
      rename_i d hd
      obtain ⟨hhost, htoward⟩ := deliver_moves hd rfl
      exact h.of_toward hhost htoward
  | lose b k =>
      simp only [Exchange.step] at hstep
      split_ifs at hstep
      cases hstep
      exact h.of_toward (fun b => ⟨rfl, rfl⟩) fun b' d hd => toward_of_eraseIdx hd
  | foreign b bytes => exact halone.elim

/-- Nothing is there before the first step. -/
theorem consistent_initial : Consistent buffer (initial garbage) := by
  refine ⟨fun d hd => ?_, fun d hd => ?_, ?_, ?_, ?_, ?_⟩
  · simp [State.Toward, initial] at hd
  · simp [State.Toward, initial] at hd
  all_goals simp [initial]

/-- **What the two have received**, in every run of the two alone. -/
theorem consistent_of_reachable (h : (exchangeData buffer garbage).ReachableIf Alone s) :
    Consistent buffer s :=
  System.Invariant.holds ⟨consistent_initial, fun h halone hstep => h.step halone hstep⟩ h

/-- **A host that returns 0 has the bytes of the other.**  The client returns 0 only
if the server does, and then each has the other's. -/
theorem exchanged_of_reachable (h : (exchangeData buffer garbage).ReachableIf Alone s) :
    ((s.host .server).pc = .returned → (s.host .server).outBuffer = buffer .client) ∧
      ((s.host .client).pc = .returned → (s.host .server).pc = .returned ∧
        (s.host .client).outBuffer = buffer .server ∧
        (s.host .server).outBuffer = buffer .client) := by
  have hall := consistent_of_reachable h
  refine ⟨fun hr => (hall.serverReturned hr).1, fun hr => ?_⟩
  obtain ⟨hout, hserver⟩ := hall.clientReturned hr
  exact ⟨hserver, hout, (hall.serverReturned hserver).1⟩

/-- A run in which both return, one of the datagrams being repeated. -/
theorem exists_returned (buffer garbage : Build → Fin n → UInt8) : ∃ s,
    (exchangeData buffer garbage).ReachableIf Alone s ∧ ∀ b, (s.host b).pc = .returned := by
  have hexec : ((exchangeData buffer garbage).execIf Alone (initial garbage)
      [.bind .server 0, .bind .client 0, .sendto .client 1, .deliver .server 0 false,
        .recvfrom .server 1, .sendto .server 1, .deliver .client 0 true,
        .recvfrom .client 1]).map (fun s => ((s.host .server).pc, (s.host .client).pc)) =
      some (.returned, .returned) := rfl
  obtain ⟨s, hs, hpc⟩ := Option.map_eq_some_iff.1 hexec
  obtain ⟨hserver, hclient⟩ := Prod.mk.inj hpc
  refine ⟨s, System.runIf_of_execIf hs, fun b => ?_⟩
  cases b
  · exact hserver
  · exact hclient

/-- Each host returns with the byte of the other. -/
theorem exists_exchanged : ∃ s : State 1,
    (s.host .client).outBuffer 0 = 7 ∧ (s.host .server).outBuffer 0 = 5 := by
  obtain ⟨s, hs, hpc⟩ := exists_returned (n := 1) (fun b _ => if b = .server then 7 else 5)
    fun _ _ => 255
  obtain ⟨-, hclient, hserver⟩ := (exchanged_of_reachable hs).2 (hpc .client)
  exact ⟨s, by rw [hclient]; rfl, by rw [hserver]; rfl⟩

/-- The other of the two hosts. -/
def peer : Build → Build
  | .server => .client
  | .client => .server

/-- A host that has returned holds the bytes of the other. -/
theorem outBuffer_of_returned (h : (exchangeData buffer garbage).ReachableIf Alone s)
    (hb : (s.host b).pc = .returned) : (s.host b).outBuffer = buffer (peer b) := by
  have hall := consistent_of_reachable h
  cases b with
  | server => exact (hall.serverReturned hb).1
  | client => exact (hall.clientReturned hb).1

/-! ### When both can return -/

/-- The exchange can go on to its end: the request is to be sent or under way to a
server that waits for it, or the reply is to be sent or under way, or the client has
returned. -/
def Alive (s : State n) : Prop :=
  ¬ s.Sent ∨
    (s.host .client).pc = .receiving ∧
      (((s.host .server).pc = .start ∨ (s.host .server).pc = .receiving) ∧
          (∃ d, s.Toward .server d) ∨
        (s.host .server).pc = .sending (.peer .client) ∨
        (s.host .server).pc = .returned ∧ ∃ d, s.Toward .client d) ∨
    (s.host .client).pc = .returned

/-- Both have returned 0. -/
def Finished (s : State n) : Prop := ∀ b, (s.host b).pc = .returned

/-- A run without failures goes on to the end of both calls. -/
def CanFinish (buffer garbage : Build → Fin n → UInt8) (s : State n) : Prop :=
  ∃ t, (exchangeData buffer garbage).RunIf Quiet s t ∧ Finished t

/-- No call has failed. -/
def Unfailed (s : State n) : Prop := ∀ b, (s.host b).pc ≠ .failed

/-- Where no call fails, no other host sends either. -/
theorem Quiet.alone (h : Quiet s a) : Alone s a := by
  cases a with
  | foreign => exact h
  | _ => trivial

/-- A host that is set to a state that has not failed. -/
theorem Unfailed.set (h : Unfailed s) {host : Host n} (hpc : host.pc ≠ .failed) :
    Unfailed (s.set b host) := fun b' => by
  by_cases hb : b' = b
  · subst hb
    rwa [set_host_self]
  · rw [set_host_of_ne hb]
    exact h b'

/-- **No host fails in a step** in which no call does. -/
theorem Unfailed.step (h : Unfailed s) (hquiet : Quiet s a)
    (hstep : Exchange.step buffer s a = some t) : Unfailed t := by
  cases a with
  | bind b ret =>
      simp only [Exchange.step, if_neg (not_lt.2 (show 0 ≤ ret from hquiet))] at hstep
      split_ifs at hstep
      cases b <;> cases hstep <;> exact h.set (by simp)
  | sendto b ret =>
      simp only [Exchange.step, if_neg (not_lt.2 (show 0 ≤ ret from hquiet))] at hstep
      split at hstep
      case h_2 => cases hstep
      rename_i dest hpc
      have hsend : Unfailed (s.send dest ⟨.peer b, List.ofFn (buffer b)⟩) := by
        cases dest <;> exact h
      cases b <;> cases hstep <;> exact hsend.set (by simp)
  | recvfrom b ret =>
      simp only [Exchange.step, if_neg (not_lt.2 (show 0 ≤ ret from hquiet))] at hstep
      split_ifs at hstep
      split at hstep
      case h_2 => cases hstep
      cases b <;> cases hstep <;> exact h.set (by simp)
  | deliver b k again =>
      simp only [Exchange.step] at hstep
      split at hstep <;> cases hstep
      rename_i d hd
      exact fun b' => ((deliver_moves hd rfl).1 b').1 ▸ h b'
  | lose b k =>
      simp only [Exchange.step] at hstep
      split_ifs at hstep
      cases hstep
      exact h
  | foreign b bytes => exact hquiet.elim

/-- Nothing new is under way: what can go on could before. -/
theorem alive_of_toward (hhost : ∀ b, (t.host b).pc = (s.host b).pc)
    (htoward : ∀ b d, t.Toward b d → s.Toward b d) (h : Alive t) : Alive s := by
  unfold Alive State.Sent at h
  simp only [hhost] at h
  rcases h with hsent | ⟨hclient, hserver⟩ | hclient
  · exact Or.inl hsent
  · refine Or.inr (Or.inl ⟨hclient, ?_⟩)
    rcases hserver with ⟨hpc, d, hd⟩ | hpc | ⟨hpc, d, hd⟩
    · exact Or.inl ⟨hpc, d, htoward _ d hd⟩
    · exact Or.inr (Or.inl hpc)
    · exact Or.inr (Or.inr ⟨hpc, d, htoward _ d hd⟩)
  · exact Or.inr (Or.inr hclient)

/-- A step of the server alone, from a state from which it could be reached. -/
theorem alive_of_server {server : Host n}
    (hserver : ((server.pc = .start ∨ server.pc = .receiving) ∧
          (∃ d, (s.set .server server).Toward .server d) ∨
        server.pc = .sending (.peer .client) ∨
        server.pc = .returned ∧ ∃ d, (s.set .server server).Toward .client d) →
      (s.host .client).pc = .receiving → Alive s)
    (h : Alive (s.set .server server)) : Alive s := by
  unfold Alive State.Sent at h
  simp only [set_server_client, set_host_self] at h
  rcases h with hsent | ⟨hclient, hgoes⟩ | hclient
  · exact Or.inl hsent
  · exact hserver hgoes hclient
  · exact Or.inr (Or.inr hclient)

/-- **What is lost stays lost**: no step brings the exchange back to life. -/
theorem alive_of_step (hall : Consistent buffer s) (hquiet : Quiet s a)
    (hstep : Exchange.step buffer s a = some t) (h : Alive t) : Alive s := by
  cases a with
  | bind b ret =>
      simp only [Exchange.step, if_neg (not_lt.2 (show 0 ≤ ret from hquiet))] at hstep
      split_ifs at hstep with hpc
      cases b with
      | client => exact Or.inl fun hsent => hsent.1 hpc
      | server =>
          cases hstep
          refine alive_of_server
            (fun hgoes hclient => Or.inr (Or.inl ⟨hclient, Or.inl ⟨Or.inl hpc, ?_⟩⟩)) h
          rcases hgoes with ⟨-, d, hd⟩ | hpc' | ⟨hpc', -⟩
          · refine ⟨d, ?_⟩
            simpa [State.Toward, Host.memset] using hd
          · simp at hpc'
          · simp at hpc'
  | sendto b ret =>
      simp only [Exchange.step, if_neg (not_lt.2 (show 0 ≤ ret from hquiet))] at hstep
      split at hstep
      case h_2 => cases hstep
      rename_i dest hpc
      cases b with
      | client => exact Or.inl fun hsent => hsent.2 _ hpc
      | server =>
          obtain ⟨rfl, -, -⟩ := hall.serverSending _ hpc
          cases hstep
          have hclient : Alive (s.setNet .client (s.net .client ++
              [⟨.peer .server, List.ofFn (buffer .server)⟩])) :=
            alive_of_server (fun _ hclient => Or.inr (Or.inl ⟨hclient, Or.inr (Or.inl hpc)⟩)) h
          rcases hclient with hsent | ⟨hclient, -⟩ | hclient
          · exact Or.inl hsent
          · exact Or.inr (Or.inl ⟨hclient, Or.inr (Or.inl hpc)⟩)
          · exact Or.inr (Or.inr hclient)
  | recvfrom b ret =>
      simp only [Exchange.step, if_neg (not_lt.2 (show 0 ≤ ret from hquiet))] at hstep
      split_ifs at hstep with hpc
      split at hstep
      case h_2 => cases hstep
      rename_i d rest hqueue
      have hd : s.Toward b d := Or.inr (hqueue ▸ List.mem_cons_self ..)
      cases b with
      | client => exact Or.inr (Or.inl ⟨hpc, Or.inr (Or.inr ⟨(hall.reply d hd).2, d, hd⟩)⟩)
      | server =>
          cases hstep
          exact alive_of_server (fun _ hclient =>
            Or.inr (Or.inl ⟨hclient, Or.inl ⟨Or.inr hpc, d, hd⟩⟩)) h
  | deliver b k again =>
      simp only [Exchange.step] at hstep
      split at hstep <;> cases hstep
      rename_i d hd
      obtain ⟨hhost, htoward⟩ := deliver_moves hd rfl
      exact alive_of_toward (fun b => (hhost b).1) htoward h
  | lose b k =>
      simp only [Exchange.step] at hstep
      split_ifs at hstep
      cases hstep
      exact alive_of_toward (t := s.setNet b ((s.net b).eraseIdx k)) (fun b => rfl)
        (fun b d hd => toward_of_eraseIdx hd) h
  | foreign b bytes => exact hquiet.elim

/-- A step of a run to the end. -/
theorem CanFinish.of_step (hquiet : Quiet s a) (hstep : Exchange.step buffer s a = some t)
    (h : CanFinish buffer garbage t) : CanFinish buffer garbage s :=
  System.CanReach.of_step hquiet hstep h

/-- The client receives the reply. -/
theorem canFinish_of_reply {d : Datagram} (hclient : (s.host .client).pc = .receiving)
    (hserver : (s.host .server).pc = .returned) (hd : s.Toward .client d) :
    CanFinish buffer garbage s := by
  have hqueued {s : State n} (hclient : (s.host .client).pc = .receiving)
      (hserver : (s.host .server).pc = .returned) (hne : (s.host .client).queue ≠ []) :
      CanFinish buffer garbage s := by
    obtain ⟨d, rest, hqueue⟩ := List.exists_cons_of_ne_nil hne
    refine CanFinish.of_step (a := .recvfrom .client 0) (le_refl 0)
      (by simp only [Exchange.step, hclient, hqueue]; rfl) ⟨_, .refl, fun b => ?_⟩
    cases b
    · simpa using hserver
    · simp
  rcases hd with hd | hd
  · obtain ⟨k, hk⟩ := List.getElem?_of_mem hd
    refine CanFinish.of_step (a := .deliver .client k true) trivial
      (by simp only [Exchange.step, hk]; rfl) (hqueued ?_ ?_ ?_)
    · exact (arrive_host s .client d .client).1.trans hclient
    · exact (arrive_host s .client d .server).1.trans hserver
    · simp [State.arrive, hclient, Pc.Open]
  · exact hqueued hclient hserver (List.ne_nil_of_mem hd)

/-- The server answers. -/
theorem canFinish_of_answer (hclient : (s.host .client).pc = .receiving)
    (hserver : (s.host .server).pc = .sending (.peer .client)) : CanFinish buffer garbage s := by
  refine CanFinish.of_step (a := .sendto .server 0) (le_refl 0)
    (by simp only [Exchange.step, hserver]; rfl)
    (canFinish_of_reply (d := ⟨.peer .server, List.ofFn (buffer .server)⟩) ?_ ?_ ?_)
  · simpa using hclient
  · simp
  · simp [State.Toward]

/-- The server receives the request. -/
theorem canFinish_of_request {d : Datagram} (hall : Consistent buffer s)
    (hclient : (s.host .client).pc = .receiving) (hserver : (s.host .server).pc = .receiving)
    (hd : s.Toward .server d) : CanFinish buffer garbage s := by
  have hqueued {s : State n} (hall : Consistent buffer s)
      (hclient : (s.host .client).pc = .receiving) (hserver : (s.host .server).pc = .receiving)
      (hne : (s.host .server).queue ≠ []) : CanFinish buffer garbage s := by
    obtain ⟨d, rest, hqueue⟩ := List.exists_cons_of_ne_nil hne
    obtain ⟨rfl, -⟩ := hall.request d (Or.inr (hqueue ▸ List.mem_cons_self ..))
    refine CanFinish.of_step (a := .recvfrom .server 0) (le_refl 0)
      (by simp only [Exchange.step, hserver, hqueue]; rfl) (canFinish_of_answer ?_ ?_)
    · simpa using hclient
    · simp
  rcases hd with hd | hd
  · obtain ⟨k, hk⟩ := List.getElem?_of_mem hd
    have hstep : Exchange.step buffer s (.deliver .server k true) = some (s.arrive .server d) := by
      simp only [Exchange.step, hk]
      rfl
    refine CanFinish.of_step (a := .deliver .server k true) trivial hstep
      (hqueued (hall.step (a := .deliver .server k true) trivial hstep) ?_ ?_ ?_)
    · exact (arrive_host s .server d .client).1.trans hclient
    · exact (arrive_host s .server d .server).1.trans hserver
    · simp [State.arrive, hserver, Pc.Open]
  · exact hqueued hall hclient hserver (List.ne_nil_of_mem hd)

/-- The same, if the server is still to bind its socket. -/
theorem canFinish_of_toward {d : Datagram} (hall : Consistent buffer s)
    (hclient : (s.host .client).pc = .receiving)
    (hserver : (s.host .server).pc = .start ∨ (s.host .server).pc = .receiving)
    (hd : s.Toward .server d) : CanFinish buffer garbage s := by
  rcases hserver with hstart | hserver
  · have hstep : Exchange.step buffer s (.bind .server 0) =
        some (s.set .server { (s.host .server).memset with pc := .receiving }) := by
      simp only [Exchange.step, hstart]
      rfl
    refine CanFinish.of_step (a := .bind .server 0) (le_refl 0) hstep
      (canFinish_of_request (d := d) (hall.step (a := .bind .server 0) trivial hstep) ?_ ?_ ?_)
    · simpa using hclient
    · simp
    · simpa [State.Toward, Host.memset] using hd
  · exact canFinish_of_request hall hclient hserver hd

/-- Before the request is sent the server has not answered. -/
theorem server_of_not_sent (hall : Consistent buffer s) (hunfailed : Unfailed s)
    (hsent : ¬ s.Sent) : (s.host .server).pc = .start ∨ (s.host .server).pc = .receiving := by
  cases hpc : (s.host .server).pc with
  | start => exact Or.inl rfl
  | receiving => exact Or.inr rfl
  | sending dest => exact absurd (hall.serverSending dest hpc).2.2 hsent
  | returned => exact absurd (hall.serverReturned hpc).2 hsent
  | failed => exact absurd hpc (hunfailed .server)

/-- Before the request is sent. -/
theorem canFinish_of_not_sent (hall : Consistent buffer s) (hunfailed : Unfailed s)
    (hsent : ¬ s.Sent) : CanFinish buffer garbage s := by
  have hsending {s : State n} (hall : Consistent buffer s) (hunfailed : Unfailed s)
      (hpc : (s.host .client).pc = .sending (.peer .server)) : CanFinish buffer garbage s := by
    have hsent : ¬ s.Sent := fun hsent => hsent.2 _ hpc
    have hstep : Exchange.step buffer s (.sendto .client 0) =
        some ((s.send (.peer .server) ⟨.peer .client, List.ofFn (buffer .client)⟩).set
          .client { (s.host .client).memset with pc := .receiving }) := by
      simp only [Exchange.step, hpc]
      rfl
    refine CanFinish.of_step (a := .sendto .client 0) (le_refl 0) hstep
      (canFinish_of_toward (d := ⟨.peer .client, List.ofFn (buffer .client)⟩)
        (hall.step (a := .sendto .client 0) trivial hstep) ?_ ?_ ?_)
    · simp
    · simpa using server_of_not_sent hall hunfailed hsent
    · simp [State.Toward]
  by_cases hstart : (s.host .client).pc = .start
  · have hstep : Exchange.step buffer s (.bind .client 0) =
        some (s.set .client { s.host .client with pc := .sending (.peer .server) }) := by
      simp only [Exchange.step, hstart]
      rfl
    exact CanFinish.of_step (a := .bind .client 0) (le_refl 0) hstep
      (hsending (hall.step (a := .bind .client 0) trivial hstep)
        (hunfailed.step (a := .bind .client 0) (le_refl 0) hstep) (by simp))
  · obtain ⟨dest, hdest⟩ : ∃ dest, (s.host .client).pc = .sending dest := by
      by_contra hnone
      exact hsent ⟨hstart, fun dest hdest => hnone ⟨dest, hdest⟩⟩
    obtain rfl := hall.clientSending dest hdest
    exact hsending hall hunfailed hdest

/-- An exchange that is not alive cannot finish. -/
theorem alive_of_canFinish (h : (exchangeData buffer garbage).ReachableIf Quiet s)
    (hfinish : CanFinish buffer garbage s) : Alive s :=
  System.CanReach.of_step_back hfinish h (fun _ _ hfinished => Or.inr (Or.inr (hfinished .client)))
    fun hs hquiet hstep =>
      alive_of_step (consistent_of_reachable (System.RunIf.mono (fun _ _ => Quiet.alone) hs))
        hquiet hstep

/-- One that is alive goes on to the end. -/
theorem canFinish_of_alive (hall : Consistent buffer s) (hunfailed : Unfailed s) (h : Alive s) :
    CanFinish buffer garbage s := by
  rcases h with hsent | ⟨hclient, hserver⟩ | hclient
  · exact canFinish_of_not_sent hall hunfailed hsent
  · rcases hserver with ⟨hserver, d, hd⟩ | hserver | ⟨hserver, d, hd⟩
    · exact canFinish_of_toward hall hclient hserver hd
    · exact canFinish_of_answer hclient hserver
    · exact canFinish_of_reply hclient hserver hd
  · refine ⟨s, .refl, fun b => ?_⟩
    cases b
    · exact (hall.clientReturned hclient).2
    · exact hclient

/-- So no host ever fails. -/
theorem unfailed_of_reachable (h : (exchangeData buffer garbage).ReachableIf Quiet s) :
    Unfailed s :=
  System.Invariant.holds
    ⟨fun b => by simp [exchangeData, initial], fun h hquiet hstep => h.step hquiet hstep⟩ h

/-- **The exchange can finish exactly while it is alive**: nothing is sent twice, so
after the loss of the one datagram that a host waits for no run ends it. -/
theorem finishes_iff_alive (h : (exchangeData buffer garbage).ReachableIf Quiet s) :
    CanFinish buffer garbage s ↔ Alive s := by
  have hall := consistent_of_reachable (System.RunIf.mono (fun _ _ => Quiet.alone) h)
  exact ⟨alive_of_canFinish h, canFinish_of_alive hall (unfailed_of_reachable h)⟩

/-- The request comes before the server has bound its socket. -/
theorem exists_not_canFinish : ∃ s : State 1,
    (∀ b, (s.host b).pc ≠ .failed) ∧ ¬ CanFinish (fun _ _ => 7) (fun _ _ => 0) s := by
  have hexec : ((exchangeData (n := 1) (fun _ _ => 7) fun _ _ => 0).execIf Quiet
      (initial fun _ _ => 0)
      [.bind .client 0, .sendto .client 1, .deliver .server 0 false]).map
      (fun s => ((s.host .client).pc, (s.host .server).pc, (s.host .server).queue,
        s.net .server)) = some (.receiving, .start, [], []) := rfl
  obtain ⟨s, hs, he⟩ := Option.map_eq_some_iff.1 hexec
  simp only [Prod.mk.injEq] at he
  obtain ⟨hclient, hserver, hqueue, hnet⟩ := he
  refine ⟨s, fun b => ?_, fun hfinish => ?_⟩
  · cases b <;> simp [hclient, hserver]
  · rcases (finishes_iff_alive (System.runIf_of_execIf hs)).1 hfinish with
      hsent | ⟨-, ⟨-, d, hd⟩ | hpc | ⟨hpc, -⟩⟩ | hpc
    · exact hsent ⟨by simp [hclient], by simp [hclient]⟩
    · simp [State.Toward, hqueue, hnet] at hd
    · simp [hserver] at hpc
    · simp [hserver] at hpc
    · simp [hclient] at hpc

/-- No call fails, no other host sends, and no datagram is lost or comes to a host that
has not bound its socket yet. -/
def Reliable (s : State n) : Action → Prop
  | .foreign .. | .lose .. => False
  | .bind _ ret | .sendto _ ret | .recvfrom _ ret => 0 ≤ ret
  | .deliver b .. => (s.host b).pc ≠ .start

instance (s : State n) : DecidablePred (Reliable s) := fun a =>
  match a with
  | .foreign .. | .lose .. => inferInstanceAs (Decidable False)
  | .bind _ ret | .sendto _ ret | .recvfrom _ ret => inferInstanceAs (Decidable (0 ≤ ret))
  | .deliver b .. => inferInstanceAs (Decidable ((s.host b).pc ≠ .start))

/-- Where nothing is lost, no call fails. -/
theorem Reliable.quiet (h : Reliable s a) : Quiet s a := by
  cases a with
  | deliver => trivial
  | lose => exact h.elim
  | _ => exact h

/-- A datagram on the way to a host still is after a delivery, to another host or to its
own open socket. -/
theorem exists_toward_of_deliver {b' : Build} {k : ℕ} {again : Bool} {d : Datagram}
    (hopen : b' = b → (s.host b).pc.Open) (h : ∃ d, s.Toward b' d) :
    ∃ d', ((if again then s else s.setNet b ((s.net b).eraseIdx k)).arrive b d).Toward b' d' := by
  by_cases hb : b' = b
  · subst hb
    refine ⟨d, Or.inr ?_⟩
    cases again <;> simp [State.arrive, hopen rfl]
  · obtain ⟨d', hd'⟩ := h
    refine ⟨d', ?_⟩
    have hnet : ∀ ds, (s.setNet b ds).Toward b' d' := fun ds =>
      hd'.imp (fun hd' => by rwa [setNet_net_of_ne hb]) id
    have harrive : ∀ {s : State n}, s.Toward b' d' → (s.arrive b d).Toward b' d' := by
      intro s hd'
      unfold State.arrive
      split_ifs
      · exact hd'.imp id fun hd' => by rwa [set_host_of_ne hb]
      · exact hd'
    cases again
    · exact harrive (hnet _)
    · exact harrive hd'

/-- **A reliable step keeps the exchange alive**: a delivery either reaches the host that
waits or is one that has returned and needs no more. -/
theorem Alive.step (h : Alive s) (hall : Consistent buffer s) (hunfailed : Unfailed s)
    (hreliable : Reliable s a) (hstep : Exchange.step buffer s a = some t) : Alive t := by
  cases a with
  | bind b ret =>
      simp only [Exchange.step, if_neg (not_lt.2 (show 0 ≤ ret from hreliable))] at hstep
      split_ifs at hstep with hpc
      cases b with
      | client =>
          cases hstep
          exact Or.inl fun hsent => hsent.2 (.peer .server) (by simp)
      | server =>
          cases hstep
          rcases h with hsent | ⟨hclient, ⟨-, d, hd⟩ | hpc' | ⟨hpc', -⟩⟩ | hclient
          · exact Or.inl (by simpa [State.Sent] using hsent)
          · refine Or.inr (Or.inl ⟨by simpa using hclient, Or.inl ⟨Or.inr (by simp), d, ?_⟩⟩)
            simpa [State.Toward, Host.memset] using hd
          · rw [hpc] at hpc'
            cases hpc'
          · rw [hpc] at hpc'
            cases hpc'
          · exact Or.inr (Or.inr (by simpa using hclient))
  | sendto b ret =>
      simp only [Exchange.step, if_neg (not_lt.2 (show 0 ≤ ret from hreliable))] at hstep
      split at hstep
      case h_2 => cases hstep
      rename_i dest hpc
      cases b with
      | client =>
          obtain rfl := hall.clientSending dest hpc
          have hserver := server_of_not_sent hall hunfailed fun hsent => hsent.2 _ hpc
          cases hstep
          refine Or.inr (Or.inl ⟨by simp, Or.inl ⟨by simpa using hserver,
            ⟨.peer .client, List.ofFn (buffer .client)⟩, ?_⟩⟩)
          simp [State.Toward]
      | server =>
          obtain ⟨rfl, -, hsent⟩ := hall.serverSending dest hpc
          cases hstep
          rcases h with hnot | ⟨hclient, -⟩ | hclient
          · exact absurd hsent hnot
          · refine Or.inr (Or.inl ⟨by simpa using hclient, Or.inr (Or.inr ⟨by simp,
              ⟨.peer .server, List.ofFn (buffer .server)⟩, ?_⟩)⟩)
            simp [State.Toward]
          · exact Or.inr (Or.inr (by simpa using hclient))
  | recvfrom b ret =>
      simp only [Exchange.step, if_neg (not_lt.2 (show 0 ≤ ret from hreliable))] at hstep
      split_ifs at hstep with hpc
      split at hstep
      case h_2 => cases hstep
      rename_i d rest hqueue
      cases b with
      | client =>
          cases hstep
          exact Or.inr (Or.inr (by simp))
      | server =>
          obtain ⟨rfl, hsent⟩ := hall.request d (Or.inr (hqueue ▸ List.mem_cons_self ..))
          cases hstep
          rcases h with hnot | ⟨hclient, -⟩ | hclient
          · exact absurd hsent hnot
          · exact Or.inr (Or.inl ⟨by simpa using hclient, Or.inr (Or.inl (by simp))⟩)
          · exact Or.inr (Or.inr (by simpa using hclient))
  | deliver b k again =>
      simp only [Exchange.step] at hstep
      split at hstep <;> cases hstep
      rename_i d hd
      have hmoves := deliver_moves hd
        (rfl : (if again then s else s.setNet b ((s.net b).eraseIdx k)).arrive b d = _)
      have hhost := fun b' => (hmoves.1 b').1
      unfold Alive State.Sent
      simp only [hhost]
      rcases h with hsent | ⟨hclient, hgoes⟩ | hclient
      · exact Or.inl hsent
      · refine Or.inr (Or.inl ⟨hclient, ?_⟩)
        rcases hgoes with ⟨hpc, hd'⟩ | hpc | ⟨hpc, hd'⟩
        · refine Or.inl ⟨hpc, exists_toward_of_deliver (fun hb => ?_) hd'⟩
          subst hb
          rw [hpc.resolve_left hreliable]
          trivial
        · exact Or.inr (Or.inl hpc)
        · refine Or.inr (Or.inr ⟨hpc, exists_toward_of_deliver (fun hb => ?_) hd'⟩)
          subst hb
          rw [hclient]
          trivial
      · exact Or.inr (Or.inr hclient)
  | lose b k => exact hreliable.elim
  | foreign b bytes => exact hreliable.elim

/-- Such a run keeps the exchange alive. -/
theorem alive_of_reliable (h : (exchangeData buffer garbage).ReachableIf Reliable s) :
    Alive s := by
  have hall : Consistent buffer s ∧ Unfailed s ∧ Alive s := by
    refine System.Invariant.holds (I := fun s => Consistent buffer s ∧ Unfailed s ∧ Alive s)
      ⟨⟨consistent_of_reachable System.ReachableIf.init, fun b => by simp [exchangeData, initial],
        Or.inl fun hsent => hsent.1 rfl⟩, ?_⟩ h
    rintro s a t ⟨hs, hunfailed, halive⟩ hreliable hstep
    exact ⟨hs.step hreliable.quiet.alone hstep, hunfailed.step hreliable.quiet hstep,
      halive.step hs hunfailed hreliable hstep⟩
  exact hall.2.2

/-- **If nothing is lost** and the server is up before the request comes, every run goes
on to the end, whatever is repeated and however late. -/
theorem canFinish_of_reliable (h : (exchangeData buffer garbage).ReachableIf Reliable s) :
    CanFinish buffer garbage s := by
  have hquiet := System.RunIf.mono (fun _ _ => Reliable.quiet) h
  have hall := consistent_of_reachable (System.RunIf.mono (fun _ _ => Quiet.alone) hquiet)
  exact canFinish_of_alive hall (unfailed_of_reachable hquiet) (alive_of_reliable h)

/-- The request has come to the server once more, after its return. -/
theorem exists_canFinish : ∃ s : State 1, (s.host .client).pc = .receiving ∧
    (s.host .server).pc = .returned ∧ CanFinish (fun _ _ => 7) (fun _ _ => 0) s := by
  have hexec : ((exchangeData (n := 1) (fun _ _ => 7) fun _ _ => 0).execIf Reliable
      (initial fun _ _ => 0) [.bind .server 0, .bind .client 0, .sendto .client 1,
        .deliver .server 0 true, .recvfrom .server 1, .sendto .server 1,
        .deliver .server 0 false]).map
      (fun s => ((s.host .client).pc, (s.host .server).pc)) = some (.receiving, .returned) := rfl
  obtain ⟨s, hs, he⟩ := Option.map_eq_some_iff.1 hexec
  obtain ⟨hclient, hserver⟩ := Prod.mk.inj he
  exact ⟨s, hclient, hserver, canFinish_of_reliable (System.runIf_of_execIf hs)⟩

end Exchange
end DetBypass
