/-
# The transmit timestamps of `hwts`

`no-bypass/hwts.cpp`: the two functions `extract_send_timestamps`.  The kernel
returns the time at which a packet left in two control messages, the timestamp
and the id of the packet, and the loop over the messages keeps in `idx` and `_ts`
what it has seen of a pair, both all ones while there is nothing.

The control buffer is the memory from `msg_control` on, little-endian, and
`CMSG_FIRSTHDR` and `CMSG_NXTHDR` are those of the C library.  `send_ts` is
memory, an index past its end writes past it, and `send_ts_cnt` is a natural
number, as no run brings a 64-bit counter to its end.
-/

import DetBypass.Lib.Memory
import Mathlib.Logic.Function.Basic

namespace DetBypass
namespace Hwts

open Lib Memory

/-- `SOL_SOCKET`. -/
def solSocket : UInt32 := 1

/-- `SO_TIMESTAMPING`. -/
def soTimestamping : UInt32 := 37

/-- `SOL_IP`. -/
def solIp : UInt32 := 0

/-- `IP_RECVERR`. -/
def ipRecverr : UInt32 := 11

/-- `SO_EE_ORIGIN_TIMESTAMPING`. -/
def soEeOriginTimestamping : UInt8 := 4

/-- `struct cmsghdr`, and its data as the two branches of the loop read them: the
third `struct timespec` in nanoseconds, and `struct sock_extended_err`. -/
structure Cmsg where
  level : UInt32
  type : UInt32
  val : UInt64
  eeOrigin : UInt8
  eeData : UInt32
deriving DecidableEq

/-- The control message at `a`. -/
def readCmsg (m : Memory) (a : ℕ) : Cmsg where
  level := UInt32.ofNat (load m (a + 8) 4)
  type := UInt32.ofNat (load m (a + 12) 4)
  val := UInt64.ofNat (load m (a + 16 + 32) 8) * 1000000000 +
    UInt64.ofNat (load m (a + 16 + 40) 8)
  eeOrigin := UInt8.ofNat (load m (a + 16 + 4) 1)
  eeData := UInt32.ofNat (load m (a + 16 + 12) 4)

/-- `CMSG_ALIGN`. -/
def cmsgAlign (len : ℕ) : ℕ := (len + 7) / 8 * 8

/-- `CMSG_NXTHDR` of the message at `a`: `none` when its length is no length, or
leaves no room for another header. -/
def cmsgNxthdr (m : Memory) (controllen a : ℕ) : Option ℕ :=
  let len := load m a 8
  let needed := 16 + (cmsgAlign len - len)
  if len < 16 then none
  else if controllen - a < needed ∨ controllen - a - needed < len then none
  else some (a + cmsgAlign len)

/-- The next header lies further on, within the buffer. -/
theorem lt_of_cmsgNxthdr {m : Memory} {controllen a b : ℕ}
    (h : cmsgNxthdr m controllen a = some b) : a < b ∧ b ≤ controllen := by
  unfold cmsgNxthdr cmsgAlign at h
  dsimp only at h
  split_ifs at h
  rw [Option.some.injEq] at h
  omega

/-- The messages of a control buffer, from `CMSG_FIRSTHDR` on. -/
def cmsgs (m : Memory) (controllen : ℕ) : List Cmsg :=
  if controllen < 16 then []
  else (chain (cmsgNxthdr m controllen) controllen (fun _ _ => lt_of_cmsgNxthdr) 0).map
    (readCmsg m)

/-- `send_ts` and `send_ts_cnt`. -/
structure SendTs where
  sendTs : ℕ → UInt64
  sendTsCnt : ℕ

/-- `send_ts[idx] = val`, counted. -/
def SendTs.file (s : SendTs) (idx : UInt32) (val : UInt64) : SendTs where
  sendTs := Function.update s.sendTs idx.toNat val
  sendTsCnt := s.sendTsCnt + 1

/-- The loop of `extract_send_timestamps`, from `idx` and `_ts` on. -/
def extractLoop (idx : UInt32) (ts : UInt64) (s : SendTs) : List Cmsg → Except String SendTs
  | [] => .ok s
  | cmsg :: rest =>
    if cmsg.level = solSocket ∧ cmsg.type = soTimestamping then
      if idx ≠ -1 then extractLoop (-1) ts (s.file idx cmsg.val) rest
      else extractLoop idx cmsg.val s rest
    else if cmsg.level = solIp ∧ cmsg.type = ipRecverr then
      if cmsg.eeOrigin ≠ soEeOriginTimestamping then extractLoop idx ts s rest
      else if idx ≠ -1 then .error "Received two packet ids but no timestamp"
      else if ts ≠ -1 then extractLoop (-1) ts (s.file cmsg.eeData ts) rest
      else extractLoop cmsg.eeData ts s rest
    else extractLoop idx ts s rest

/-- `extract_send_timestamps (msghdr *)`. -/
def extractSendTimestamps (msgs : List Cmsg) (s : SendTs) : Except String SendTs :=
  extractLoop (-1) (-1) s msgs

/-- What `recvmsg` did: nothing was queued and the control buffer, of 2048 bytes,
is as it was; another error; or the kernel wrote the buffer. -/
inductive Recvmsg
  | eagain (control : Memory)
  | failed
  | received (control : Memory) (controllen : ℕ)

/-- `extract_send_timestamps (int, sockaddr_in *)`. -/
def extractPoll (s : SendTs) : Recvmsg → Except String SendTs
  | .failed => .ok s
  | .eagain control => extractSendTimestamps (cmsgs control 2048) s
  | .received control controllen => extractSendTimestamps (cmsgs control controllen) s

/-! ### What the loop reads of the messages -/

/-- A control message the loop acts on: a timestamp, or the id of a packet. -/
inductive Event
  | timestamp (val : UInt64)
  | packetId (id : UInt32)
deriving DecidableEq

/-- The branch of the loop that a message takes. -/
def Cmsg.event (cmsg : Cmsg) : Option Event :=
  if cmsg.level = solSocket ∧ cmsg.type = soTimestamping then some (.timestamp cmsg.val)
  else if cmsg.level = solIp ∧ cmsg.type = ipRecverr ∧ cmsg.eeOrigin = soEeOriginTimestamping then
    some (.packetId cmsg.eeData)
  else none

/-- The loop over events. -/
def extractEvents (idx : UInt32) (ts : UInt64) (s : SendTs) : List Event → Except String SendTs
  | [] => .ok s
  | .timestamp val :: rest =>
    if idx ≠ -1 then extractEvents (-1) ts (s.file idx val) rest
    else extractEvents idx val s rest
  | .packetId id :: rest =>
    if idx ≠ -1 then .error "Received two packet ids but no timestamp"
    else if ts ≠ -1 then extractEvents (-1) ts (s.file id ts) rest
    else extractEvents id ts s rest

/-- **The loop acts on the events**, and on no other message. -/
theorem extractLoop_eq (idx : UInt32) (ts : UInt64) (s : SendTs) (msgs : List Cmsg) :
    extractLoop idx ts s msgs = extractEvents idx ts s (msgs.filterMap Cmsg.event) := by
  induction msgs generalizing idx ts s with
  | nil => rfl
  | cons cmsg rest ih =>
      rw [extractLoop]
      by_cases hts : cmsg.level = solSocket ∧ cmsg.type = soTimestamping
      · have hevent : cmsg.event = some (.timestamp cmsg.val) := if_pos hts
        rw [if_pos hts, List.filterMap_cons_some hevent, extractEvents, ih, ih]
      · rw [if_neg hts]
        by_cases herr : cmsg.level = solIp ∧ cmsg.type = ipRecverr
        · rw [if_pos herr]
          by_cases horigin : cmsg.eeOrigin = soEeOriginTimestamping
          · have hevent : cmsg.event = some (.packetId cmsg.eeData) := by
              unfold Cmsg.event
              rw [if_neg hts, if_pos ⟨herr.1, herr.2, horigin⟩]
            rw [if_neg (not_not.2 horigin), List.filterMap_cons_some hevent, extractEvents, ih, ih]
          · have hevent : cmsg.event = none := by
              unfold Cmsg.event
              rw [if_neg hts, if_neg fun h => horigin h.2.2]
            rw [if_pos horigin, List.filterMap_cons_none hevent, ih]
        · have hevent : cmsg.event = none := by
            unfold Cmsg.event
            rw [if_neg hts, if_neg fun h => herr ⟨h.1, h.2.1⟩]
          rw [if_neg herr, List.filterMap_cons_none hevent, ih]

end Hwts
end DetBypass
