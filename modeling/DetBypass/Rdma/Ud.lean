/-
# The UD pingpong

`rdma/ud_pingpong.c`, client and server build: the receive and send work
requests, the completions, and the threads that post and handle them.  The HCA
may at any time fill the buffer of any posted receive, or finish any posted
send, and queue a completion; `ibv_poll_cq` takes the first two at most.  Posts
and completions may fail, a post with the value of `ret` in the step.

The main thread is interrupted at the loop condition, each poll, each completion
and the update of `recv_idx`; in the client also inside `parse_single_wc`, between
the reading in `ts[3]`, the call of `persistence_agent->write` and the post of the
buffer.  There the sending thread is interrupted after the wait, after the write of
`send_buf` and after the post.

`Wc.datagram`, `handled` and `written` are history: what a receive completion is
for, the datagrams of the receive completions handled, and the payloads given to
`persistence_agent->write`.
-/

import DetBypass.Lib.Transition
import DetBypass.Common.Payload
import DetBypass.Common.Bitset

namespace DetBypass
namespace Rdma
namespace Ud

open Lib

/-- `QUEUE_SIZE`. -/
def queueSize : ℕ := 128

/-- `PINGPONG_SEND_WRID`. -/
def pingpongSendWrid : ℕ := 0

/-- `PINGPONG_RECV_WRID`. -/
def pingpongRecvWrid : ℕ := queueSize

/-- The index of a send is one of the queue. -/
theorem sendIdx_lt {wrId : ℕ} (h : wrId < pingpongSendWrid + queueSize) :
    wrId - pingpongSendWrid < queueSize := by
  have hsend : pingpongSendWrid = 0 := rfl
  omega

/-- So is the index of a receive. -/
theorem recvIdx_lt {wrId : ℕ} (h : ¬ pingpongRecvWrid + queueSize ≤ wrId) :
    wrId - pingpongRecvWrid < queueSize := by
  have hqueue : queueSize = 128 := rfl
  omega

/-- A posted `ibv_recv_wr` and its receive buffer. -/
structure RecvWr where
  wrId : ℕ
  buffer : Fin queueSize
deriving DecidableEq

/-- A posted `ibv_send_wr` and its buffer: a receive buffer or `send_buf`. -/
structure SendWr where
  wrId : ℕ
  buffer : Option (Fin queueSize)
deriving DecidableEq

/-- The fields of `ibv_wc` that are read. -/
structure Wc where
  wrId : ℕ
  success : Bool
  datagram : Option PingpongPayload
deriving DecidableEq

/-- Where the main thread stands: at the loop condition, the poll, a completion,
in the client before the write of a record or the post of its buffer, at the update
of `recv_idx`, in the wait of `parse_single_wc`, after the loop, or after a
failure. -/
inductive Pc
  | loop
  | poll
  | handle
  | write (queueIdx : Fin queueSize)
  | repost (queueIdx : Fin queueSize)
  | update (queueIdx : Fin queueSize)
  | spin
  | done
  | failed
deriving DecidableEq

/-- Where the sending thread stands with the packet `id`. -/
inductive SenderPc
  | waiting (id : UInt64)
  | writing (id : UInt64)
  | posting (id : UInt64)
  | stopped
deriving DecidableEq

structure State where
  pendingSend : Bitset queueSize
  sendPayload : PingpongPayload
  recvPayloads : Fin queueSize → PingpongPayload
  recvQueue : List RecvWr
  sendQueue : List SendWr
  cq : List Wc
  wc : List Wc
  recvIdx : UInt64
  pc : Pc
  senderPc : SenderPc
  globalExit : Bool
  handled : List PingpongPayload
  written : List PingpongPayload

/-- `pp_post_recv`. -/
def ppPostRecv (s : State) (queueIdx : Fin queueSize) (ret : ℤ) : ℤ × State :=
  if ret ≠ 0 then (1, s)
  else (0, { s with recvQueue := s.recvQueue ++ [⟨pingpongRecvWrid + queueIdx, queueIdx⟩] })

/-- `pp_post_send`; no index stands for -1. -/
def ppPostSend (s : State) (buffer queueIdx : Option (Fin queueSize)) (ret : ℤ) : ℤ × State :=
  let idx := queueIdx.getD ⟨0, by decide⟩
  let s := { s with pendingSend := s.pendingSend.set idx }
  (ret, if ret = 0 then { s with sendQueue := s.sendQueue ++ [⟨pingpongSendWrid + idx, buffer⟩] }
    else s)

/-- `parse_single_wc`, with the two readings of the clock and the result of the
post: no value when the wait never ends.  A pong in the client is only stamped here;
`writeRecord` and `repost` are the rest of the function. -/
def parseSingleWc (build : Build) (t₁ t₂ : UInt64) (ret : ℤ) (s : State) (wc : Wc) :
    Option ℤ × State :=
  if wc.success = false then (some 1, s)
  else if hknown : pingpongRecvWrid + queueSize ≤ wc.wrId then (some 1, s)
  else if hsend : wc.wrId < pingpongSendWrid + queueSize then
    let queueIdx : Fin queueSize := ⟨wc.wrId - pingpongSendWrid, sendIdx_lt hsend⟩
    let s := { s with pendingSend := s.pendingSend.clear queueIdx }
    match build with
    | .server =>
      let (failed, s) := ppPostRecv s queueIdx ret
      (if failed ≠ 0 then some 1 else some 0, s)
    | .client => (some 0, s)
  else
    let queueIdx : Fin queueSize := ⟨wc.wrId - pingpongRecvWrid, recvIdx_lt hknown⟩
    let s := { s with handled := s.handled ++ wc.datagram.toList }
    match build with
    | .server =>
      if s.pendingSend.test queueIdx ≠ 0 then (none, s)
      else
        let payload := ((s.recvPayloads queueIdx).setTs 1 t₁).setTs 2 t₂
        let s := { s with recvPayloads := Function.update s.recvPayloads queueIdx payload }
        let (failed, s) := ppPostSend s (some queueIdx) (some queueIdx) ret
        (if failed ≠ 0 then some 1 else some 0, s)
    | .client =>
      let payload := (s.recvPayloads queueIdx).setTs 3 t₂
      (some 0, { s with recvPayloads := Function.update s.recvPayloads queueIdx payload })

/-- Where the main thread goes on with the completions it has polled. -/
def nextPc (wc : List Wc) : Pc := if wc = [] then .loop else .handle

/-- `persistence_agent->write` of the payload in the buffer. -/
def writeRecord (s : State) (queueIdx : Fin queueSize) : State :=
  { s with written := s.written ++ [s.recvPayloads queueIdx], pc := .repost queueIdx }

/-- The post of the buffer at the end of `parse_single_wc`. -/
def repost (ret : ℤ) (s : State) (queueIdx : Fin queueSize) : State :=
  let (failed, s) := ppPostRecv s queueIdx ret
  if failed ≠ 0 then { s with pc := .failed }
  else { s with wc := s.wc.tail, pc := .update queueIdx }

/-- The body of the loop over the polled completions, up to the update of
`recv_idx`, or to the write of the client. -/
def handleWc (build : Build) (t₁ t₂ : UInt64) (ret : ℤ) (s : State) (wc : Wc) (rest : List Wc) :
    State :=
  match parseSingleWc build t₁ t₂ ret s wc with
  | (none, s) => { s with pc := .spin }
  | (some failed, s) =>
    if failed ≠ 0 then { s with pc := .failed }
    else if h : pingpongRecvWrid ≤ wc.wrId ∧ wc.wrId - pingpongRecvWrid < queueSize then
      match build with
      | .server => { s with wc := rest, pc := .update ⟨wc.wrId - pingpongRecvWrid, h.2⟩ }
      | .client => { s with pc := .write ⟨wc.wrId - pingpongRecvWrid, h.2⟩ }
    else { s with wc := rest, pc := nextPc rest }

/-- The next step of `thread_send_packets` with `pp_send_single_packet`. -/
def stepSender (iters t : UInt64) (ret : ℤ) (s : State) : Option State :=
  match s.senderPc with
  | .waiting id =>
    if id ≤ iters ∧ s.pendingSend.test ⟨0, by decide⟩ = 0 then
      some { s with senderPc := .writing id }
    else none
  | .writing id =>
    some { s with sendPayload := (newPingpongPayload id).setTs 0 t, senderPc := .posting id }
  | .posting id =>
    let (failed, s) := ppPostSend s none none ret
    some { s with senderPc := if failed < 0 then .stopped else .waiting (id + 1) }
  | .stopped => none

/-- One scheduler choice. -/
inductive Action
  | loop
  | poll (n : ℕ)
  | pollError
  | parse (t₁ t₂ : UInt64) (ret : ℤ)
  | write
  | repost (ret : ℤ)
  | update
  | sender (t : UInt64) (ret : ℤ)
  | interrupt
  | received (wr : RecvWr) (success : Bool) (datagram : PingpongPayload)
  | sent (wr : SendWr) (success : Bool)

/-- One step of the program or the HCA. -/
def step (build : Build) (iters : UInt64) (s : State) : Action → Option State
  | .loop =>
    if s.pc = .loop then
      some { s with pc := if s.recvIdx < iters ∧ s.globalExit = false then .poll else .done }
    else none
  | .poll n =>
    if s.pc = .poll ∧ n ≤ 2 ∧ n ≤ s.cq.length then
      some { s with
        cq := s.cq.drop n
        wc := s.cq.take n
        pc := if s.globalExit then .done else if n = 0 then .poll else .handle }
    else none
  | .pollError => if s.pc = .poll then some { s with pc := .failed } else none
  | .parse t₁ t₂ ret =>
    match s.pc, s.wc with
    | .handle, wc :: rest => some (handleWc build t₁ t₂ ret s wc rest)
    | _, _ => none
  | .write =>
    match build, s.pc with
    | .client, .write queueIdx => some (writeRecord s queueIdx)
    | _, _ => none
  | .repost ret =>
    match build, s.pc with
    | .client, .repost queueIdx => some (repost ret s queueIdx)
    | _, _ => none
  | .update =>
    match s.pc with
    | .update queueIdx =>
      some { s with recvIdx := max s.recvIdx (s.recvPayloads queueIdx).id, pc := nextPc s.wc }
    | _ => none
  | .sender t ret => if build = .client then stepSender iters t ret s else none
  | .interrupt => some { s with globalExit := true }
  | .received wr success datagram =>
    if wr ∈ s.recvQueue then
      some { s with
        recvQueue := s.recvQueue.erase wr
        recvPayloads := Function.update s.recvPayloads wr.buffer datagram
        cq := s.cq ++ [⟨wr.wrId, success, some datagram⟩] }
    else none
  | .sent wr success =>
    if wr ∈ s.sendQueue then
      some { s with
        sendQueue := s.sendQueue.erase wr
        cq := s.cq ++ [⟨wr.wrId, success, none⟩] }
    else none

/-- The context before the loop, all receives posted. -/
def initial : State where
  pendingSend := .init queueSize
  sendPayload := .zero
  recvPayloads := fun _ => .zero
  recvQueue := (List.finRange queueSize).map fun queueIdx : Fin queueSize =>
    ⟨pingpongRecvWrid + queueIdx, queueIdx⟩
  sendQueue := []
  cq := []
  wc := []
  recvIdx := 0
  pc := .loop
  senderPc := .waiting 1
  globalExit := false
  handled := []
  written := []

/-- The runs of a build for a number of iterations. -/
def ud (build : Build) (iters : UInt64) : System State Action := ⟨initial, step build iters⟩

end Ud
end Rdma
end DetBypass
