/-
# The RC pingpong

`rdma/rc_pingpong.c`, the client and the server and the connection between
them.  Each host has one `send_buf`, one `recv_buf` for all its posted receives,
and one completion queue; at most one send and `RECEIVE_DEPTH` receives are
outstanding, and a work request is outstanding until its completion is polled.
A posted send reads `send_buf` at some point between its post and its
completion; messages arrive in order, each at a posted receive.

The main thread of a host is interrupted at the loop condition, at
`ibv_start_poll` and `ibv_next_poll`, and at each call of `parse_single_wc`; the
sending thread of the client between the write of `send_buf` and the post.  The
readings of `get_time_ns` on a host never go back; the completion timestamps are
those of the HCA.

`Wc.msg` and the fields of `Host` from `posted` on are history: the message a
completion is for, the messages in `send_buf` at each post, those sent and those
that arrived, the receive completions handled, the sends of the client with the
reading of the clock, and the payloads given to `persistence->write`.
-/

import DetBypass.Lib.Transition
import DetBypass.Common.Payload

namespace DetBypass
namespace Rdma
namespace Rc

open Lib

/-- `RECEIVE_DEPTH`. -/
def receiveDepth : ℕ := 500

/-- `PINGPONG_RECV_WRID`. -/
def pingpongRecvWrid : ℕ := 1

/-- `PINGPONG_SEND_WRID`. -/
def pingpongSendWrid : ℕ := 2

/-- The fields of the current completion of `ibv_cq_ex`. -/
structure Wc where
  wrId : ℕ
  success : Bool
  ts : UInt64
  msg : Option PingpongPayload
deriving DecidableEq

/-- The send queue has room for one: what has become of it. -/
inductive Send
  | posted
  | transmitted
  | completed
deriving DecidableEq

/-- Where the main thread stands: at the loop condition, at the first poll, at
the first completion, at the second poll, at the second completion, or after the
loop. -/
inductive Pc
  | loop
  | startPoll
  | first (wc : Wc)
  | nextPoll
  | second (wc : Wc)
  | done
  | failed
deriving DecidableEq

/-- Where the sending thread of the client stands with the packet `id`. -/
inductive SenderPc
  | writing (id : UInt64)
  | posting (id t : UInt64)
deriving DecidableEq

/-- A receive completion that was handled: its message, its timestamp and the
reading of the clock. -/
structure Receipt where
  msg : PingpongPayload
  ts : UInt64
  now : UInt64
deriving DecidableEq

structure Host where
  sendBuf : PingpongPayload
  recvBuf : PingpongPayload
  recvPosted : ℕ
  send : Option Send
  cq : List Wc
  availableRecv : ℤ
  recvCount : UInt64
  pc : Pc
  senderPc : SenderPc
  clock : UInt64
  posted : List PingpongPayload
  transmitted : List PingpongPayload
  received : List PingpongPayload
  handled : List Receipt
  sends : List (UInt64 × UInt64)
  written : List PingpongPayload

/-- `pp_post_send` of `send_buf`: 1 when a send is outstanding. -/
def ppPostSend (h : Host) : ℤ × Host :=
  if h.send = none then (0, { h with send := some .posted, posted := h.posted ++ [h.sendBuf] })
  else (1, h)

/-- The receives outstanding. -/
def Host.outstandingRecv (h : Host) : ℕ :=
  h.recvPosted + h.cq.countP fun wc => wc.wrId = pingpongRecvWrid

/-- `pp_post_recv`: posts until `RECEIVE_DEPTH` receives are outstanding, and
returns how many it posted. -/
def ppPostRecv (h : Host) (n : ℤ) : ℤ × Host :=
  let i := min n.toNat (receiveDepth - h.outstandingRecv)
  (i, { h with recvPosted := h.recvPosted + i })

/-- The payload of the client. -/
def ping (id t : UInt64) : PingpongPayload := (newPingpongPayload id).setTs 1 t

/-- The reply of the server to the message it copies. -/
def echo (msg : PingpongPayload) (ts now : UInt64) : PingpongPayload :=
  (msg.setTs 1 ts).setTs 2 now

/-- What the client writes for the message it received. -/
def record (msg : PingpongPayload) (now : UInt64) : PingpongPayload := msg.setTs 3 now

/-- The part of `parse_single_wc` for a receive completion that depends on the
build. -/
def handleRecv (build : Build) (now : UInt64) (h : Host) (wc : Wc) : Host :=
  match build with
  | .server => (ppPostSend { h with sendBuf := echo h.recvBuf wc.ts now }).2
  | .client =>
    { h with recvBuf := record h.recvBuf now, written := h.written ++ [record h.recvBuf now] }

/-- `parse_single_wc`, with the reading of the clock. -/
def parseSingleWc (build : Build) (now : UInt64) (h : Host) (wc : Wc) : ℤ × Host :=
  if wc.success = false then (1, h)
  else if wc.wrId = pingpongSendWrid then (0, h)
  else if wc.wrId = pingpongRecvWrid then
    let h := handleRecv build now { h with
      clock := now
      handled := h.handled ++ wc.msg.toList.map fun msg => ⟨msg, wc.ts, now⟩ } wc
    let available := h.availableRecv - 1
    if available ≤ 1 then
      let (n, h) := ppPostRecv h (receiveDepth - available)
      (if available + n < receiveDepth then 1 else 0, { h with availableRecv := available + n })
    else (0, { h with availableRecv := available })
  else (1, h)

/-- The completion that a poll makes current leaves the queues. -/
def pollWc (h : Host) (wc : Wc) (rest : List Wc) : Host :=
  { h with cq := rest, send := if wc.wrId = pingpongSendWrid then none else h.send }

/-- The choices on one host: its threads, and what its HCA does by itself. -/
inductive HostAction
  | loop
  | startPoll
  | pollError
  | nextPoll
  | parse (now : UInt64)
  | write (t : UInt64)
  | post
  | complete (ts : UInt64) (success : Bool)

/-- One step of a host. -/
def stepHost (build : Build) (iters : UInt64) (h : Host) : HostAction → Option Host
  | .loop =>
    if h.pc = .loop then
      some { h with pc := if h.recvCount < iters then .startPoll else .done }
    else none
  | .startPoll =>
    match h.pc, h.cq with
    | .startPoll, wc :: rest => some { pollWc h wc rest with pc := .first wc }
    | _, _ => none
  | .pollError =>
    if h.pc = .startPoll ∨ h.pc = .nextPoll then some { h with pc := .failed } else none
  | .nextPoll =>
    match h.pc, h.cq with
    | .nextPoll, [] => some { h with pc := .loop }
    | .nextPoll, wc :: rest => some { pollWc h wc rest with pc := .second wc }
    | _, _ => none
  | .parse now =>
    if h.clock ≤ now then
      match h.pc with
      | .first wc =>
        let (ret, h) := parseSingleWc build now h wc
        some (if ret ≠ 0 then { h with pc := .failed }
          else { h with recvCount := h.recvCount + 1, pc := .nextPoll })
      | .second wc =>
        let (ret, h) := parseSingleWc build now h wc
        some (if ret ≠ 0 then { h with pc := .failed }
          else { h with recvCount := h.recvCount + 1, pc := .loop })
      | _ => none
    else none
  | .write t =>
    match h.senderPc with
    | .writing id =>
      if build = .client ∧ id ≤ iters ∧ h.clock ≤ t then
        some { h with sendBuf := ping id t, clock := t, senderPc := .posting id t }
      else none
    | _ => none
  | .post =>
    match h.senderPc with
    | .posting id t =>
      let (ret, h) := ppPostSend h
      some { h with
        sends := if ret = 0 then h.sends ++ [(id, t)] else h.sends
        senderPc := .writing (id + 1) }
    | _ => none
  | .complete ts success =>
    if h.send = some .transmitted then
      some { h with
        send := some .completed, cq := h.cq ++ [⟨pingpongSendWrid, success, ts, none⟩] }
    else none

/-- The host at the other end. -/
def peer : Build → Build
  | .server => .client
  | .client => .server

/-- Both hosts, and the messages on the way to each. -/
structure State where
  host : Build → Host
  inbox : Build → List PingpongPayload

/-- One scheduler choice. -/
inductive Action
  | host (build : Build) (a : HostAction)
  | transmit (build : Build)
  | arrive (build : Build) (ts : UInt64)

/-- One step of a host or of the connection. -/
def step (iters : Build → UInt64) (s : State) : Action → Option State
  | .host build a =>
    (stepHost build (iters build) (s.host build) a).map fun h =>
      { s with host := Function.update s.host build h }
  | .transmit build =>
    let h := s.host build
    if h.send = some .posted then
      some {
        host := Function.update s.host build { h with
          send := some .transmitted, transmitted := h.transmitted ++ [h.sendBuf] }
        inbox := Function.update s.inbox (peer build) (s.inbox (peer build) ++ [h.sendBuf]) }
    else none
  | .arrive build ts =>
    let h := s.host build
    match s.inbox build with
    | msg :: rest =>
      if 0 < h.recvPosted then
        some {
          host := Function.update s.host build { h with
            recvBuf := msg, recvPosted := h.recvPosted - 1
            received := h.received ++ [msg]
            cq := h.cq ++ [⟨pingpongRecvWrid, true, ts, some msg⟩] }
          inbox := Function.update s.inbox build rest }
      else none
    | [] => none

/-- A host before the loop, `RECEIVE_DEPTH` receives posted. -/
def initialHost : Host where
  sendBuf := .zero
  recvBuf := .zero
  recvPosted := receiveDepth
  send := none
  cq := []
  availableRecv := receiveDepth
  recvCount := 0
  pc := .loop
  senderPc := .writing 1
  clock := 0
  posted := []
  transmitted := []
  received := []
  handled := []
  sends := []
  written := []

/-- The runs for a number of iterations on each host. -/
def rc (iters : Build → UInt64) : System State Action :=
  ⟨⟨fun _ => initialHost, fun _ => []⟩, step iters⟩

end Rc
end Rdma
end DetBypass
