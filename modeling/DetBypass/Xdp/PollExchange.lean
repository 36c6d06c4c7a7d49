/-
# The polling pingpong between two hosts

`xdp/pp_poll.c`: the sending thread of the client (`send_packet` under
`thread_send_packets`), `start_client` and `start_server`, and the network
between them, which may lose, repeat and reorder packets.  On each host
`xdp_main` puts the packets it accepts in the ring and `poll_next_payload` takes
them out in order, as `copied_prefix_accepted` shows of the words in memory; a
packet that `add_packet_to_map` drops is one more that is lost.

The sending thread is interrupted between the write of its packet and `sendto`,
`start_client` at the loop condition, around `poll_next_payload` and before the
payload is handled, `start_server` at the loop condition, after
`poll_next_payload` and before `sendto`.  No other thread touches the buffers in
between.  The readings of `get_time_ns` on a host never go back.  The loop
counter of the sending thread is a natural number, as no run sends `2 ^ 64`
packets.  The server never sets `global_exit`.

`sends`, `served` and `written` are history: the ids the client sent with their
reading of the clock, the pings the server handled with its two readings, and
the payloads given to `persistence->write`.
-/

import DetBypass.Lib.Transition
import DetBypass.Common.Payload

namespace DetBypass
namespace Xdp
namespace Poll

open Lib

/-- Where the sending thread stands with the packet `id`. -/
inductive SenderPc
  | writing (id : ℕ)
  | sending (id : ℕ)
  | stopped
deriving DecidableEq

/-- Where `start_client` stands: at the loop condition, in `poll_next_payload`,
at the test of `global_exit` after it, at the payload; or the loop was left
because `current_id` is not below `iters`, or because of `global_exit`. -/
inductive ClientPc
  | loop
  | poll
  | check
  | handle
  | done
  | exited
deriving DecidableEq

/-- Where `start_server` stands: at the loop condition, in `poll_next_payload`,
at the payload, at the reply; or it left the loop, or returned at an error. -/
inductive ServerPc
  | loop
  | poll
  | handle
  | reply
  | done
  | failed
deriving DecidableEq

/-- A ping the server handled and its two readings of the clock. -/
structure Served where
  ping : PingpongPayload
  t₁ : UInt64
  t₂ : UInt64
deriving DecidableEq

structure Client where
  packet : PingpongPayload
  senderPc : SenderPc
  bufPayload : PingpongPayload
  currentId : UInt64
  pc : ClientPc
  clock : UInt64
  globalExit : Bool
  sends : List (UInt64 × UInt64)
  written : List PingpongPayload

structure Server where
  bufPayload : PingpongPayload
  currentId : UInt64
  pc : ServerPc
  clock : UInt64
  served : List Served

/-- The hosts, the packets on the way to each and those in its ring. -/
structure State where
  client : Client
  server : Server
  net : Build → List PingpongPayload
  ring : Build → List PingpongPayload

/-- The payload `send_packet` writes. -/
def ping (id t : UInt64) : PingpongPayload := (newPingpongPayload id).setTs 0 t

/-- The payload `start_server` sends back. -/
def Served.pong (v : Served) : PingpongPayload :=
  { (v.ping.setTs 1 v.t₁).setTs 2 v.t₂ with phase := 2 }

/-- One scheduler choice.  `deliver` with `again` keeps a copy on the way. -/
inductive Action
  | write (t : UInt64)
  | send (ret : ℤ)
  | clientLoop
  | clientPoll
  | clientPollExit (slot : PingpongPayload)
  | clientCheck
  | record (now : UInt64)
  | interrupt
  | serverLoop
  | serverPoll
  | serve (t₁ t₂ : UInt64)
  | reply (ret : ℤ)
  | deliver (dest : Build) (packet : PingpongPayload) (again : Bool)
  | lose (dest : Build) (packet : PingpongPayload)

/-- One step of the client's threads. -/
def stepClient (iters : UInt64) (s : State) : Action → Option State
  | .write t =>
    match s.client.senderPc with
    | .writing id =>
      if id ≤ iters.toNat ∧ s.client.clock ≤ t then
        some { s with client := { s.client with
          packet := ping (UInt64.ofNat id) t, clock := t, senderPc := .sending id
          sends := s.client.sends ++ [(UInt64.ofNat id, t)] } }
      else none
    | _ => none
  | .send ret =>
    match s.client.senderPc with
    | .sending id =>
      if ret < 0 then some { s with client := { s.client with senderPc := .stopped } }
      else some { s with
        client := { s.client with senderPc := .writing (id + 1) }
        net := Function.update s.net .server (s.net .server ++ [s.client.packet]) }
    | _ => none
  | .clientLoop =>
    if s.client.pc = .loop then
      some { s with client := { s.client with
        pc := if ¬ s.client.currentId < iters then .done
          else if s.client.globalExit then .exited else .poll } }
    else none
  | .clientPoll =>
    match s.client.pc, s.ring .client with
    | .poll, packet :: rest =>
      some { s with
        client := { s.client with bufPayload := packet, pc := .check }
        ring := Function.update s.ring .client rest }
    | _, _ => none
  | .clientPollExit slot =>
    -- whatever the slot holds is copied, and the test of `global_exit` ends the loop
    if s.client.pc = .poll ∧ s.client.globalExit = true ∧ s.ring .client = [] then
      some { s with client := { s.client with bufPayload := slot, pc := .exited } }
    else none
  | .clientCheck =>
    if s.client.pc = .check then
      some { s with client := { s.client with
        pc := if s.client.globalExit then .exited else .handle } }
    else none
  | .record now =>
    if s.client.pc = .handle then
      if s.client.bufPayload.phase ≠ 2 then
        some { s with client := { s.client with pc := .loop } }
      else if s.client.clock ≤ now then
        let payload := s.client.bufPayload.setTs 3 now
        some { s with client := { s.client with
          bufPayload := payload, clock := now, pc := .loop
          currentId := max s.client.currentId payload.id
          written := s.client.written ++ [payload] } }
      else none
    else none
  | .interrupt => some { s with client := { s.client with globalExit := true } }
  | _ => none

/-- One step of the server. -/
def stepServer (iters : UInt64) (s : State) : Action → Option State
  | .serverLoop =>
    if s.server.pc = .loop then
      some { s with server := { s.server with
        pc := if s.server.currentId < iters then .poll else .done } }
    else none
  | .serverPoll =>
    match s.server.pc, s.ring .server with
    | .poll, packet :: rest =>
      some { s with
        server := { s.server with bufPayload := packet, pc := .handle }
        ring := Function.update s.ring .server rest }
    | _, _ => none
  | .serve t₁ t₂ =>
    if s.server.pc = .handle then
      if s.server.bufPayload.phase ≠ 0 then
        some { s with server := { s.server with pc := .failed } }
      else if s.server.clock ≤ t₁ ∧ t₁ ≤ t₂ then
        let served : Served := ⟨s.server.bufPayload, t₁, t₂⟩
        some { s with server := { s.server with
          bufPayload := served.pong, clock := t₂, pc := .reply
          currentId := max s.server.currentId s.server.bufPayload.id
          served := s.server.served ++ [served] } }
      else none
    else none
  | .reply ret =>
    if s.server.pc = .reply then
      if ret < 0 then some { s with server := { s.server with pc := .failed } }
      else some { s with
        server := { s.server with
          pc := if iters ≤ s.server.currentId then .done else .loop }
        net := Function.update s.net .client (s.net .client ++ [s.server.bufPayload]) }
    else none
  | _ => none

/-- One step of the network and `xdp_main`. -/
def stepNet (s : State) : Action → Option State
  | .deliver dest packet again =>
    if packet ∈ s.net dest then
      some { s with
        net := if again then s.net else Function.update s.net dest ((s.net dest).erase packet)
        ring := if validPingpongPayload packet then
          Function.update s.ring dest (s.ring dest ++ [packet]) else s.ring }
    else none
  | .lose dest packet =>
    if packet ∈ s.net dest then
      some { s with net := Function.update s.net dest ((s.net dest).erase packet) }
    else none
  | _ => none

/-- One step of a thread or the network. -/
def step (iters : Build → UInt64) (s : State) (a : Action) : Option State :=
  match a with
  | .deliver .. | .lose .. => stepNet s a
  | .serverLoop | .serverPoll | .serve .. | .reply .. => stepServer (iters .server) s a
  | _ => stepClient (iters .client) s a

/-- The hosts when both have started, with nothing sent. -/
def initial : State where
  client := {
    packet := .zero, senderPc := .writing 1, bufPayload := .zero, currentId := 0
    pc := .loop, clock := 0, globalExit := false, sends := [], written := [] }
  server := { bufPayload := .zero, currentId := 0, pc := .loop, clock := 0, served := [] }
  net := fun _ => []
  ring := fun _ => []

/-- The runs for a number of iterations on each host. -/
def exchange (iters : Build → UInt64) : System State Action := ⟨initial, step iters⟩

/-- The network does not repeat packets. -/
def NoRepeat (_ : State) : Action → Prop
  | .deliver _ _ again => again = false
  | _ => True

end Poll
end Xdp
end DetBypass
