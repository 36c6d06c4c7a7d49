/-
# The messages of the RC pingpong

The hosts of `rdma/rc_pingpong.c` use one `send_buf` for every send and one
`recv_buf` for every receive.  `NotOverwritten` is the order of steps in which
one buffer is enough: a message arrives when the one before has been handled,
and `send_buf` is written when no posted send has still to read it.  Then every
message is read as it was posted and handled as it arrived (`Local`), and the
connection keeps the order (`Joint.net`).

A post that finds a send outstanding fails and its message is not sent.  With
`room` the condition also excludes that: then the server replies to every ping
and the client sends the ids 1, 2, … (`Role`).
-/

import DetBypass.Rdma.Rc
import DetBypass.Lib.Tally

namespace DetBypass
namespace Rdma
namespace Rc

open Lib

variable {room : Prop} {iters : Build → UInt64} {s t : State} {h h' : Host} {build : Build}
  {wc : Wc} {msg : PingpongPayload} {now n : UInt64} {a : HostAction} {rest : List Wc}

/-- The message a posted send has still to read. -/
def Host.toRead (h : Host) : List PingpongPayload :=
  if h.send = some .posted then [h.sendBuf] else []

/-- The completion that is being handled. -/
def Pc.current : Pc → List Wc
  | .first wc | .second wc => [wc]
  | _ => []

/-- At a poll there is no completion at hand. -/
theorem Pc.current_of_poll {pc : Pc} (hpc : pc = .startPoll ∨ pc = .nextPoll) :
    pc.current = [] := by
  rcases hpc with rfl | rfl <;> rfl

/-- The messages that arrived and have not been handled. -/
def Host.unhandled (h : Host) : List PingpongPayload :=
  (h.pc.current ++ h.cq).filterMap Wc.msg

/-- The packet of the sending thread. -/
def SenderPc.id : SenderPc → UInt64
  | .writing id | .posting id _ => id

/-- A host overwrites no message it has still to send, and with `room` it posts
only to an empty send queue. -/
def KeepsSend (room : Prop) (build : Build) (h : Host) : HostAction → Prop
  | .parse _ => build = .server → (∃ wc ∈ h.pc.current, wc.wrId = pingpongRecvWrid) →
      h.send ≠ some .posted ∧ (room → h.send = none)
  | .write _ => h.send ≠ some .posted
  | .post => room → h.send = none
  | _ => True

instance [Decidable room] (build : Build) (h : Host) :
    (a : HostAction) → Decidable (KeepsSend room build h a)
  | .parse _ => inferInstanceAs (Decidable (build = .server →
      (∃ wc ∈ h.pc.current, wc.wrId = pingpongRecvWrid) →
        h.send ≠ some .posted ∧ (room → h.send = none)))
  | .write _ => inferInstanceAs (Decidable (h.send ≠ some .posted))
  | .post => inferInstanceAs (Decidable (room → h.send = none))
  | .loop | .startPoll | .pollError | .nextPoll | .complete _ _ => .isTrue trivial

/-- The condition on a step: no message in a shared buffer is overwritten, and
with `room` every post finds the send queue empty. -/
def NotOverwritten (room : Prop) (s : State) : Action → Prop
  | .host build a => KeepsSend room build (s.host build) a
  | .transmit _ => True
  | .arrive build _ => (s.host build).unhandled = []

instance [Decidable room] (s : State) : (a : Action) → Decidable (NotOverwritten room s a)
  | .host build a => inferInstanceAs (Decidable (KeepsSend room build (s.host build) a))
  | .transmit _ => .isTrue trivial
  | .arrive build _ => inferInstanceAs (Decidable ((s.host build).unhandled = []))

/-- The completion of a send, or of a receive with its message. -/
def Wc.Wf (wc : Wc) : Prop :=
  wc.wrId = pingpongSendWrid ∧ wc.msg = none ∨
    wc.wrId = pingpongRecvWrid ∧ wc.success = true ∧ wc.msg ≠ none

/-- Every message is read as it was posted and handled as it arrived. -/
structure Local (h : Host) : Prop where
  reads : h.posted = h.transmitted ++ h.toRead
  receipts : h.received = h.handled.map Receipt.msg ++ h.unhandled
  buffer : h.unhandled = [] ∨ h.unhandled = [h.recvBuf]
  wcs : ∀ wc ∈ h.pc.current ++ h.cq, wc.Wf
  sentOnce : tally Wc.wrId h.cq pingpongSendWrid ≤ 1
  sentDone : 0 < tally Wc.wrId h.cq pingpongSendWrid → h.send = some .completed

/-- The server posts echoes of messages it handled, with `room` of all. -/
structure ServerRole (room : Prop) (h : Host) : Prop where
  echoes : ∃ replied, replied.Sublist h.handled ∧ (room → replied = h.handled) ∧
    h.posted = replied.map fun r => echo r.msg r.ts r.now
  sender : h.senderPc = .writing 1

/-- The client posts pings, with `room` those of 1, 2, …, and writes each message
it handles. -/
structure ClientRole (room : Prop) (h : Host) : Prop where
  records : h.written = h.handled.map fun r => record r.msg r.now
  pings : h.posted = h.sends.map fun e => ping e.1 e.2
  ids : room → ∀ k e, h.sends[k]? = some e → e.1 = UInt64.ofNat (k + 1)
  next : room → h.senderPc.id = UInt64.ofNat (h.sends.length + 1)
  posting : ∀ id t, h.senderPc = .posting id t → h.sendBuf = ping id t ∧ t ≤ h.clock
  clock : ∀ e ∈ h.sends, e.2 ≤ h.clock

/-- What a host does in its build. -/
def Role (room : Prop) : Build → Host → Prop
  | .server, h => ServerRole room h
  | .client, h => ClientRole room h

/-! ### Spec lemmas of the functions -/

/-- With no send outstanding it posts. -/
theorem ppPostSend_of_none (hsend : h.send = none) :
    ppPostSend h = (0, { h with send := some .posted, posted := h.posted ++ [h.sendBuf] }) := by
  rw [ppPostSend, if_pos hsend]

/-- Else it fails and changes nothing. -/
theorem ppPostSend_of_ne (hsend : h.send ≠ none) : ppPostSend h = (1, h) := by
  rw [ppPostSend, if_neg hsend]

/-- The completion of a send changes nothing. -/
theorem parseSingleWc_send (build : Build) (now : UInt64) (h : Host)
    (hid : wc.wrId = pingpongSendWrid) : (parseSingleWc build now h wc).2 = h := by
  rw [parseSingleWc]
  split
  · rfl
  · rfl

/-- The completion of a receive is handled, and receives may be posted. -/
theorem parseSingleWc_recv (build : Build) (now : UInt64) (h : Host)
    (hid : wc.wrId = pingpongRecvWrid) (hsuccess : wc.success = true) (hmsg : wc.msg = some msg) :
    ∃ recvPosted availableRecv, (parseSingleWc build now h wc).2 =
      { handleRecv build now { h with
          clock := now, handled := h.handled ++ [⟨msg, wc.ts, now⟩] } wc with
        recvPosted := recvPosted, availableRecv := availableRecv } := by
  have hne : ¬ pingpongRecvWrid = pingpongSendWrid := by decide
  simp only [parseSingleWc, hsuccess, Bool.true_eq_false, if_false, hid, hne, if_true, hmsg,
    Option.toList_some, List.map_cons, List.map_nil]
  split
  · exact ⟨_, _, rfl⟩
  · exact ⟨_, _, rfl⟩

/-- The host after a receive completion with the message in `recv_buf`. -/
def afterRecv (build : Build) (now ts : UInt64) (h : Host) : Host :=
  match build with
  | .server => (ppPostSend { h with
      sendBuf := echo h.recvBuf ts now
      clock := now, handled := h.handled ++ [⟨h.recvBuf, ts, now⟩] }).2
  | .client => { h with
      recvBuf := record h.recvBuf now, written := h.written ++ [record h.recvBuf now]
      clock := now, handled := h.handled ++ [⟨h.recvBuf, ts, now⟩] }

/-- The server replies when the send queue is empty. -/
theorem afterRecv_server (now ts : UInt64) (h : Host) :
    h.send = none ∧ afterRecv .server now ts h = { h with
        sendBuf := echo h.recvBuf ts now, send := some .posted
        posted := h.posted ++ [echo h.recvBuf ts now]
        clock := now, handled := h.handled ++ [⟨h.recvBuf, ts, now⟩] } ∨
      h.send ≠ none ∧ afterRecv .server now ts h = { h with
        sendBuf := echo h.recvBuf ts now
        clock := now, handled := h.handled ++ [⟨h.recvBuf, ts, now⟩] } := by
  by_cases hsend : h.send = none
  · exact Or.inl ⟨hsend, by simp only [afterRecv, ppPostSend, hsend, if_true]⟩
  · exact Or.inr ⟨hsend, by simp only [afterRecv, ppPostSend, hsend, if_false]⟩

/-- What handling a receive adds to the history. -/
theorem afterRecv_history (build : Build) (now ts : UInt64) (h : Host) :
    (afterRecv build now ts h).transmitted = h.transmitted ∧
      (afterRecv build now ts h).received = h.received ∧
      (afterRecv build now ts h).sends = h.sends ∧
      (afterRecv build now ts h).handled = h.handled ++ [⟨h.recvBuf, ts, now⟩] := by
  cases build with
  | server =>
      rcases afterRecv_server now ts h with ⟨-, he⟩ | ⟨-, he⟩ <;>
        · rw [he]
          exact ⟨rfl, rfl, rfl, rfl⟩
  | client => exact ⟨rfl, rfl, rfl, rfl⟩

/-- A completion that is handled, and counted unless it fails. -/
theorem stepHost_parse (hstep : stepHost build n h (.parse now) = some h') :
    h.clock ≤ now ∧ ∃ wc, h.pc.current = [wc] ∧ h.pc ≠ .failed ∧
      ((parseSingleWc build now h wc).1 ≠ 0 ∧
          h' = { (parseSingleWc build now h wc).2 with pc := .failed } ∨
        (parseSingleWc build now h wc).1 = 0 ∧ ∃ pc, pc.current = [] ∧ pc ≠ .done ∧
          h' = { (parseSingleWc build now h wc).2 with
            recvCount := (parseSingleWc build now h wc).2.recvCount + 1, pc := pc }) := by
  simp only [stepHost] at hstep
  split at hstep
  case isFalse => cases hstep
  rename_i hclock
  refine ⟨hclock, ?_⟩
  split at hstep <;> cases hstep
  all_goals
    rename_i wc hpc
    rw [hpc]
    refine ⟨wc, rfl, Pc.noConfusion, ?_⟩
    split
    · rename_i hfailed
      exact Or.inl ⟨hfailed, rfl⟩
  · rename_i hok
    exact Or.inr ⟨not_not.1 hok, .nextPoll, rfl, Pc.noConfusion, rfl⟩
  · rename_i hok
    exact Or.inr ⟨not_not.1 hok, .loop, rfl, Pc.noConfusion, rfl⟩

/-- **What handling a completion does**, when its message is still in
`recv_buf`. -/
theorem Local.parse_cases (hl : Local h) (hstep : stepHost build n h (.parse now) = some h') :
    h.clock ≤ now ∧ ∃ pc recvCount recvPosted availableRecv, pc.current = [] ∧
      (h.unhandled = h.cq.filterMap Wc.msg ∧ h' = { h with pc := pc, recvCount := recvCount } ∨
        ∃ ts, h.unhandled = [h.recvBuf] ∧ h.cq.filterMap Wc.msg = [] ∧
          (∃ wc ∈ h.pc.current, wc.wrId = pingpongRecvWrid) ∧
          h' = { afterRecv build now ts h with
            pc := pc, recvCount := recvCount
            recvPosted := recvPosted, availableRecv := availableRecv }) := by
  obtain ⟨hclock, wc, pc, recvCount, hcurrent, hpc, rfl⟩ : h.clock ≤ now ∧
      ∃ wc pc recvCount, h.pc.current = [wc] ∧ pc.current = [] ∧
        h' = { (parseSingleWc build now h wc).2 with pc := pc, recvCount := recvCount } := by
    obtain ⟨hclock, wc, hcurrent, -, ⟨-, rfl⟩ | ⟨-, pc, hnone, -, rfl⟩⟩ := stepHost_parse hstep
    · exact ⟨hclock, wc, .failed, _, hcurrent, rfl, rfl⟩
    · exact ⟨hclock, wc, pc, _, hcurrent, hnone, rfl⟩
  refine ⟨hclock, pc, recvCount, ?_⟩
  rcases hl.wcs wc (by simp [hcurrent]) with ⟨hid, hmsg⟩ | ⟨hid, hsuccess, hmsg⟩
  · refine ⟨0, 0, hpc, Or.inl ⟨?_, ?_⟩⟩
    · simp [Host.unhandled, hcurrent, hmsg]
    · rw [parseSingleWc_send build now h hid]
  · obtain ⟨msg, hmsg⟩ := Option.ne_none_iff_exists'.1 hmsg
    have hunhandled : h.unhandled = msg :: h.cq.filterMap Wc.msg := by
      simp [Host.unhandled, hcurrent, hmsg]
    have hbuffer := hl.buffer
    rw [hunhandled] at hbuffer
    obtain ⟨rfl, hnil⟩ := List.cons.inj (hbuffer.resolve_left (List.cons_ne_nil _ _))
    obtain ⟨recvPosted, availableRecv, hparse⟩ :=
      parseSingleWc_recv build now h hid hsuccess hmsg
    refine ⟨recvPosted, availableRecv, hpc,
      Or.inr ⟨wc.ts, by rw [hunhandled, hnil], hnil, ⟨wc, by simp [hcurrent], hid⟩, ?_⟩⟩
    rw [hparse]
    cases build <;> rfl

/-- What a step of a host does, but for handling a completion. -/
inductive HostStep (build : Build) (n : UInt64) (h : Host) : HostAction → Host → Prop
  | loop (hpc : h.pc = .loop) : HostStep build n h .loop { h with
      pc := if h.recvCount < n then .startPoll else .done }
  | startPoll (wc : Wc) (rest : List Wc) (hpc : h.pc = .startPoll) (hcq : h.cq = wc :: rest) :
      HostStep build n h .startPoll { pollWc h wc rest with pc := .first wc }
  | pollError (hpc : h.pc = .startPoll ∨ h.pc = .nextPoll) :
      HostStep build n h .pollError { h with pc := .failed }
  | nextPoll (wc : Wc) (rest : List Wc) (hpc : h.pc = .nextPoll) (hcq : h.cq = wc :: rest) :
      HostStep build n h .nextPoll { pollWc h wc rest with pc := .second wc }
  | endPoll (hpc : h.pc = .nextPoll) (hcq : h.cq = []) :
      HostStep build n h .nextPoll { h with pc := .loop }
  | parse {now : UInt64} {h' : Host} (hstep : stepHost build n h (.parse now) = some h') :
      HostStep build n h (.parse now) h'
  | write (id t : UInt64) (hid : h.senderPc = .writing id) (hbuild : build = .client)
      (hle : id ≤ n) (hclock : h.clock ≤ t) : HostStep build n h (.write t) { h with
        sendBuf := ping id t, clock := t, senderPc := .posting id t }
  | post (id t : UInt64) (hid : h.senderPc = .posting id t) (hsend : h.send = none) :
      HostStep build n h .post { h with
        send := some .posted, posted := h.posted ++ [h.sendBuf], sends := h.sends ++ [(id, t)]
        senderPc := .writing (id + 1) }
  | postFailed (id t : UInt64) (hid : h.senderPc = .posting id t) (hsend : h.send ≠ none) :
      HostStep build n h .post { h with senderPc := .writing (id + 1) }
  | complete (ts : UInt64) (success : Bool) (hsend : h.send = some .transmitted) :
      HostStep build n h (.complete ts success) { h with
        send := some .completed, cq := h.cq ++ [⟨pingpongSendWrid, success, ts, none⟩] }

/-- **A step of a host** is one of these. -/
theorem hostStep_of_stepHost (hstep : stepHost build n h a = some h') :
    HostStep build n h a h' := by
  cases a with
  | parse now => exact .parse hstep
  | loop =>
      simp only [stepHost] at hstep
      split at hstep <;> cases hstep
      exact .loop ‹_›
  | startPoll =>
      simp only [stepHost] at hstep
      split at hstep <;> cases hstep
      exact .startPoll _ _ ‹_› ‹_›
  | pollError =>
      simp only [stepHost] at hstep
      split at hstep <;> cases hstep
      exact .pollError ‹_›
  | nextPoll =>
      simp only [stepHost] at hstep
      split at hstep <;> cases hstep
      · exact .endPoll ‹_› ‹_›
      · exact .nextPoll _ _ ‹_› ‹_›
  | write t =>
      simp only [stepHost] at hstep
      split at hstep
      case h_2 => cases hstep
      rename_i id hid
      split at hstep <;> cases hstep
      rename_i hwrite
      exact .write id t hid hwrite.1 hwrite.2.1 hwrite.2.2
  | post =>
      simp only [stepHost] at hstep
      split at hstep
      case h_2 => cases hstep
      rename_i id t hid
      by_cases hsend : h.send = none
      · rw [ppPostSend_of_none hsend] at hstep
        simp only [if_true] at hstep
        cases hstep
        exact .post id t hid hsend
      · -- the sending thread goes on also when the post fails
        rw [ppPostSend_of_ne hsend] at hstep
        cases hstep
        exact .postFailed id t hid hsend
  | complete ts success =>
      simp only [stepHost] at hstep
      split at hstep <;> cases hstep
      exact .complete ts success ‹_›

/-! ### The steps of a host -/

/-- A step that handles no message and writes no buffer. -/
theorem Local.keep (hl : Local h) (hposted : h'.posted = h.posted)
    (htransmitted : h'.transmitted = h.transmitted) (htoRead : h'.toRead = h.toRead)
    (hreceived : h'.received = h.received) (hhandled : h'.handled = h.handled)
    (hunhandled : h'.unhandled = h.unhandled) (hrecvBuf : h'.recvBuf = h.recvBuf)
    (hwcs : ∀ wc ∈ h'.pc.current ++ h'.cq, wc.Wf)
    (hsentOnce : tally Wc.wrId h'.cq pingpongSendWrid ≤ 1)
    (hsentDone : 0 < tally Wc.wrId h'.cq pingpongSendWrid → h'.send = some .completed) :
    Local h' where
  reads := by rw [hposted, htransmitted, htoRead, hl.reads]
  receipts := by rw [hreceived, hhandled, hunhandled, hl.receipts]
  buffer := by
    rw [hunhandled, hrecvBuf]
    exact hl.buffer
  wcs := hwcs
  sentOnce := hsentOnce
  sentDone := hsentDone

/-- A step that leaves these fields leaves the role. -/
theorem Role.keep (hr : Role room build h) (hposted : h'.posted = h.posted)
    (hhandled : h'.handled = h.handled) (hwritten : h'.written = h.written)
    (hsends : h'.sends = h.sends) (hsender : h'.senderPc = h.senderPc)
    (hsendBuf : h'.sendBuf = h.sendBuf) (hclock : h'.clock = h.clock) : Role room build h' := by
  cases build with
  | server => exact ⟨by rw [hposted, hhandled]; exact hr.echoes, hsender.trans hr.sender⟩
  | client =>
      constructor
      case records => rw [hwritten, hhandled, hr.records]
      case pings => rw [hposted, hsends, hr.pings]
      case ids => exact fun hroom k e he => hr.ids hroom k e (hsends ▸ he)
      case next => exact fun hroom => by rw [hsender, hsends, hr.next hroom]
      case posting =>
        intro id t hid
        rw [hsendBuf, hclock]
        exact hr.posting id t (hsender ▸ hid)
      case clock =>
        rw [hsends, hclock]
        exact hr.clock

/-- A step that moves the main thread while it handles nothing. -/
theorem Local.setPc (hl : Local h) {pc : Pc} (hcurrent : pc.current = h.pc.current) :
    Local { h with pc := pc } :=
  hl.keep rfl rfl rfl rfl rfl (by rw [Host.unhandled, hcurrent, Host.unhandled]) rfl
    (by rw [hcurrent]; exact hl.wcs) hl.sentOnce hl.sentDone

/-- A completion is made current. -/
theorem Local.poll (hl : Local h) (hcq : h.cq = wc :: rest) (hcurrent : h.pc.current = [])
    {pc : Pc} (hpc : pc.current = [wc]) : Local { pollWc h wc rest with pc := pc } := by
  have honce := hl.sentOnce
  have hdone := hl.sentDone
  rw [hcq, tally_cons] at honce hdone
  refine hl.keep rfl rfl ?_ rfl rfl ?_ rfl ?_ ?_ ?_
  · simp only [Host.toRead, pollWc]
    split
    · rename_i hid
      have hcompleted : h.send = some .completed := hdone (by rw [if_pos hid]; omega)
      rw [hcompleted, if_neg (by decide), if_neg (by decide)]
    · rfl
  · simp only [Host.unhandled, hpc, hcurrent, hcq, pollWc, List.nil_append, List.singleton_append]
  · intro wc' hwc'
    refine hl.wcs wc' ?_
    rwa [hcurrent, hcq, List.nil_append, ← List.singleton_append, ← hpc]
  · exact (Nat.le_add_right _ _).trans honce
  · intro hpos
    have hid : wc.wrId ≠ pingpongSendWrid := fun hid => by
      rw [if_pos hid] at honce
      exact absurd hpos (by dsimp only [pollWc]; omega)
    simp only [pollWc, if_neg hid]
    exact hdone (hpos.trans_le (Nat.le_add_right _ _))

/-- No completion of a send is queued while none is outstanding. -/
theorem Local.tally_eq_zero (hl : Local h) (hsend : h.send ≠ some .completed) :
    tally Wc.wrId h.cq pingpongSendWrid = 0 :=
  Nat.eq_zero_of_not_pos fun hpos => hsend (hl.sentDone hpos)

/-- Nothing of `send_buf` has still to be read. -/
theorem Host.toRead_of_ne (hsend : h.send ≠ some .posted) : h.toRead = [] := by
  rw [Host.toRead, if_neg hsend]

/-- A message is handled. -/
theorem Local.afterRecv (hl : Local h) (hsend : build = .server → h.send ≠ some .posted)
    (hunhandled : h.unhandled = [h.recvBuf]) (hcq : h.cq.filterMap Wc.msg = []) (now ts : UInt64)
    {pc : Pc} (hpc : pc.current = []) (recvCount : UInt64) (recvPosted : ℕ) (availableRecv : ℤ) :
    Local { afterRecv build now ts h with
      pc := pc, recvCount := recvCount, recvPosted := recvPosted
      availableRecv := availableRecv } := by
  have hreceipts := hl.receipts
  have hreads := hl.reads
  rw [hunhandled] at hreceipts
  have hwcs : ∀ wc ∈ pc.current ++ h.cq, wc.Wf := by
    rw [hpc]
    exact fun wc hwc => hl.wcs wc (List.mem_append_right _ hwc)
  cases build with
  | server =>
      rw [Host.toRead_of_ne (hsend rfl), List.append_nil] at hreads
      rcases afterRecv_server now ts h with ⟨hnone, he⟩ | ⟨-, he⟩
      · have hzero := hl.tally_eq_zero (by rw [hnone]; decide)
        rw [he]
        constructor
        case reads => simp [Host.toRead, hreads]
        case receipts => simp [Host.unhandled, hpc, hcq, hreceipts]
        case buffer => exact Or.inl (by simp [Host.unhandled, hpc, hcq])
        case wcs => exact hwcs
        case sentOnce => exact hl.sentOnce
        case sentDone => exact fun hpos => absurd (hzero ▸ hpos) (Nat.lt_irrefl 0)
      · rw [he]
        constructor
        case reads => simp [Host.toRead, hsend rfl, hreads]
        case receipts => simp [Host.unhandled, hpc, hcq, hreceipts]
        case buffer => exact Or.inl (by simp [Host.unhandled, hpc, hcq])
        case wcs => exact hwcs
        case sentOnce => exact hl.sentOnce
        case sentDone => exact hl.sentDone
  | client =>
      constructor
      case reads => exact hreads
      case receipts => simp [Rc.afterRecv, Host.unhandled, hpc, hcq, hreceipts]
      case buffer => exact Or.inl (by simp [Rc.afterRecv, Host.unhandled, hpc, hcq])
      case wcs => exact hwcs
      case sentOnce => exact hl.sentOnce
      case sentDone => exact hl.sentDone

/-- The reply of the server, or the record of the client. -/
theorem Role.afterRecv (hr : Role room build h) (hroom : build = .server → room → h.send = none)
    {now : UInt64} (hclock : h.clock ≤ now) (ts : UInt64) (pc : Pc) (recvCount : UInt64)
    (recvPosted : ℕ) (availableRecv : ℤ) :
    Role room build { afterRecv build now ts h with
      pc := pc, recvCount := recvCount, recvPosted := recvPosted
      availableRecv := availableRecv } := by
  cases build with
  | server =>
      obtain ⟨replied, hsub, hall, hposted⟩ := hr.echoes
      rcases afterRecv_server now ts h with ⟨-, he⟩ | ⟨hne, he⟩
      · rw [he]
        refine ⟨⟨replied ++ [⟨h.recvBuf, ts, now⟩], hsub.append (List.Sublist.refl _),
          fun hr => by rw [hall hr], ?_⟩, hr.sender⟩
        simp [hposted]
      · rw [he]
        exact ⟨⟨replied, hsub.trans (List.sublist_append_left _ _),
          fun hr => absurd (hroom rfl hr) hne, hposted⟩, hr.sender⟩
  | client =>
      constructor
      case records => simp [Rc.afterRecv, hr.records]
      case pings => exact hr.pings
      case ids => exact hr.ids
      case next => exact hr.next
      case posting =>
        intro id t hid
        obtain ⟨hbuf, ht⟩ := hr.posting id t hid
        exact ⟨hbuf, UInt64.le_trans ht hclock⟩
      case clock => exact fun e he => UInt64.le_trans (hr.clock e he) hclock

/-- The client writes the next ping to `send_buf`. -/
theorem ClientRole.write (hr : ClientRole room h) {id t : UInt64}
    (hid : h.senderPc = .writing id) (ht : h.clock ≤ t) :
    ClientRole room { h with
      sendBuf := ping id t, clock := t, senderPc := .posting id t } where
  records := hr.records
  pings := hr.pings
  ids := hr.ids
  next hroom := by
    have hnext := hr.next hroom
    rw [hid] at hnext
    exact hnext
  posting id' t' hid' := by
    cases hid'
    exact ⟨rfl, UInt64.le_refl t⟩
  clock e he := UInt64.le_trans (hr.clock e he) ht

/-- The client posts the ping in `send_buf`. -/
theorem ClientRole.post (hr : ClientRole room h) {id t : UInt64}
    (hid : h.senderPc = .posting id t) (send : Option Send) :
    ClientRole room { h with
      send := send, posted := h.posted ++ [h.sendBuf], sends := h.sends ++ [(id, t)]
      senderPc := .writing (id + 1) } := by
  obtain ⟨hbuf, ht⟩ := hr.posting id t hid
  have hnext : room → id = UInt64.ofNat (h.sends.length + 1) := fun hroom => by
    rw [← hr.next hroom, hid]
    rfl
  constructor
  case records => exact hr.records
  case pings => simp [hr.pings, hbuf]
  case ids =>
    intro hroom k e hk
    rcases Nat.lt_trichotomy k h.sends.length with hlt | rfl | hgt
    · rw [List.getElem?_append_left hlt] at hk
      exact hr.ids hroom k e hk
    · rw [List.getElem?_concat_length] at hk
      cases hk
      exact hnext hroom
    · rw [List.getElem?_eq_none (by rw [List.length_append, List.length_singleton]; omega)] at hk
      cases hk
  case next =>
    intro hroom
    rw [List.length_append, List.length_singleton, UInt64.ofNat_add, ← hnext hroom]
    rfl
  case posting => exact fun _ _ hid' => SenderPc.noConfusion hid'
  case clock =>
    intro e hmem
    rcases List.mem_append.1 hmem with hmem | hmem
    · exact hr.clock e hmem
    · rwa [List.mem_singleton.1 hmem]

/-- A post that fails leaves the host as it is, but for the sending thread. -/
theorem ClientRole.postFailed (hr : ClientRole room h) (hroom : ¬ room) (id : UInt64) :
    ClientRole room { h with senderPc := .writing id } where
  records := hr.records
  pings := hr.pings
  ids hr' := absurd hr' hroom
  next hr' := absurd hr' hroom
  posting _ _ hid := SenderPc.noConfusion hid
  clock := hr.clock

/-- A message is posted. -/
theorem Local.post (hl : Local h) (hsend : h.send = none) (sends : List (UInt64 × UInt64))
    (senderPc : SenderPc) :
    Local { h with
      send := some .posted, posted := h.posted ++ [h.sendBuf], sends := sends
      senderPc := senderPc } := by
  have hzero := hl.tally_eq_zero (by rw [hsend]; decide)
  have hreads := hl.reads
  rw [Host.toRead_of_ne (by rw [hsend]; decide), List.append_nil] at hreads
  constructor
  case reads => simp [Host.toRead, hreads]
  case receipts => exact hl.receipts
  case buffer => exact hl.buffer
  case wcs => exact hl.wcs
  case sentOnce => exact hl.sentOnce
  case sentDone => exact fun hpos => absurd (hzero ▸ hpos) (Nat.lt_irrefl 0)

/-- **A step of a host** keeps what it has sent and received apart. -/
theorem Local.step (hl : Local h) (hr : Role room build h) (hg : KeepsSend room build h a)
    (hstep : stepHost build n h a = some h') :
    Local h' ∧ Role room build h' ∧ h'.transmitted = h.transmitted ∧ h'.received = h.received := by
  cases hostStep_of_stepHost hstep with
  | loop hpc =>
      refine ⟨hl.setPc ?_, hr.keep rfl rfl rfl rfl rfl rfl rfl, rfl, rfl⟩
      rw [hpc]
      split <;> rfl
  | startPoll wc rest hpc hcq | nextPoll wc rest hpc hcq =>
      exact ⟨hl.poll hcq (by rw [hpc]; rfl) rfl, hr.keep rfl rfl rfl rfl rfl rfl rfl, rfl, rfl⟩
  | pollError hpc =>
      exact ⟨hl.setPc (Pc.current_of_poll hpc).symm, hr.keep rfl rfl rfl rfl rfl rfl rfl, rfl, rfl⟩
  | endPoll hpc =>
      exact ⟨hl.setPc (by rw [hpc]; rfl), hr.keep rfl rfl rfl rfl rfl rfl rfl, rfl, rfl⟩
  | @parse now _ hstep =>
      obtain ⟨hclock, pc, recvCount, recvPosted, availableRecv, hpc, ⟨hcq, rfl⟩ |
        ⟨ts, hunhandled, hcq, hrecv, rfl⟩⟩ := hl.parse_cases hstep
      · refine ⟨hl.keep rfl rfl rfl rfl rfl ?_ rfl ?_ hl.sentOnce hl.sentDone,
          hr.keep rfl rfl rfl rfl rfl rfl rfl, rfl, rfl⟩
        · rw [hcq, Host.unhandled, hpc]
          rfl
        · rw [hpc]
          exact fun wc hwc => hl.wcs wc (List.mem_append_right _ hwc)
      · refine ⟨hl.afterRecv (fun hb => (hg hb hrecv).1) hunhandled hcq now ts hpc recvCount
            recvPosted availableRecv,
          hr.afterRecv (fun hb => (hg hb hrecv).2) hclock ts pc recvCount recvPosted availableRecv,
          (afterRecv_history build now ts h).1, (afterRecv_history build now ts h).2.1⟩
  | write id t hid hbuild hle hclock =>
      subst hbuild
      refine ⟨hl.keep rfl rfl ?_ rfl rfl rfl rfl hl.wcs hl.sentOnce hl.sentDone,
        ClientRole.write hr hid hclock, rfl, rfl⟩
      rw [Host.toRead_of_ne (h := h) hg]
      exact if_neg hg
  | post id t hid hsend =>
      cases build with
      | server => exact SenderPc.noConfusion (hid.symm.trans hr.sender)
      | client => exact ⟨hl.post hsend _ _, ClientRole.post hr hid _, rfl, rfl⟩
  | postFailed id t hid hsend =>
      cases build with
      | server => exact SenderPc.noConfusion (hid.symm.trans hr.sender)
      | client =>
          exact ⟨hl.keep rfl rfl rfl rfl rfl rfl rfl hl.wcs hl.sentOnce hl.sentDone,
            ClientRole.postFailed hr (fun hroom => hsend (hg hroom)) _, rfl, rfl⟩
  | complete ts success hsend =>
      have hzero := hl.tally_eq_zero (by rw [hsend]; decide)
      refine ⟨hl.keep rfl rfl ?_ rfl rfl ?_ rfl ?_ ?_ fun _ => rfl,
        hr.keep rfl rfl rfl rfl rfl rfl rfl, rfl, rfl⟩
      · simp [Host.toRead, hsend]
      · simp [Host.unhandled]
      · intro wc hwc
        rw [← List.append_assoc] at hwc
        rcases List.mem_append.1 hwc with hwc | hwc
        · exact hl.wcs wc hwc
        · rw [List.mem_singleton.1 hwc]
          exact Or.inl ⟨rfl, rfl⟩
      · simp [hzero]

/-! ### The steps of the connection -/

/-- The HCA reads `send_buf`. -/
theorem Local.transmit (hl : Local h) (hsend : h.send = some .posted) :
    Local { h with
      send := some .transmitted, transmitted := h.transmitted ++ [h.sendBuf] } := by
  have hzero := hl.tally_eq_zero (by rw [hsend]; decide)
  have hreads := hl.reads
  rw [Host.toRead, if_pos hsend] at hreads
  constructor
  case reads => simp [Host.toRead, hreads]
  case receipts => exact hl.receipts
  case buffer => exact hl.buffer
  case wcs => exact hl.wcs
  case sentOnce => exact hl.sentOnce
  case sentDone => exact fun hpos => absurd (hzero ▸ hpos) (Nat.lt_irrefl 0)

/-- A message arrives when the one before has been handled. -/
theorem Local.arrive (hl : Local h) (hunhandled : h.unhandled = []) (msg : PingpongPayload)
    (ts : UInt64) (recvPosted : ℕ) :
    Local { h with
      recvBuf := msg, recvPosted := recvPosted, received := h.received ++ [msg]
      cq := h.cq ++ [⟨pingpongRecvWrid, true, ts, some msg⟩] } := by
  have hreceipts := hl.receipts
  have hafter : Host.unhandled { h with
      recvBuf := msg, recvPosted := recvPosted, received := h.received ++ [msg]
      cq := h.cq ++ [⟨pingpongRecvWrid, true, ts, some msg⟩] } = h.unhandled ++ [msg] := by
    simp [Host.unhandled]
  have hne : pingpongRecvWrid ≠ pingpongSendWrid := by decide
  constructor
  case reads => exact hl.reads
  case receipts => rw [hafter, hreceipts, hunhandled, List.append_nil, List.nil_append]
  case buffer => exact Or.inr (by rw [hafter, hunhandled, List.nil_append])
  case wcs =>
    intro wc hwc
    rw [← List.append_assoc] at hwc
    rcases List.mem_append.1 hwc with hwc | hwc
    · exact hl.wcs wc hwc
    · rw [List.mem_singleton.1 hwc]
      exact Or.inr ⟨rfl, rfl, Option.some_ne_none _⟩
  case sentOnce => simpa [hne] using hl.sentOnce
  case sentDone => simpa [hne] using hl.sentDone

/-! ### Runs -/

/-- Both hosts keep their messages apart, and the connection their order. -/
structure Joint (room : Prop) (s : State) : Prop where
  hosts : ∀ build, Local (s.host build)
  roles : ∀ build, Role room build (s.host build)
  net : ∀ build, (s.host (peer build)).transmitted = (s.host build).received ++ s.inbox build

/-- A host before its loop. -/
theorem local_initialHost : Local initialHost :=
  ⟨rfl, rfl, Or.inl rfl, fun _ hwc => absurd hwc List.not_mem_nil, Nat.zero_le _,
    fun hpos => absurd hpos (Nat.lt_irrefl 0)⟩

/-- A host before its loop, in its role. -/
theorem role_initialHost (build : Build) : Role room build initialHost := by
  cases build with
  | server => exact ⟨⟨[], List.Sublist.refl _, fun _ => rfl, rfl⟩, rfl⟩
  | client =>
      refine ⟨rfl, rfl, ?_, fun _ => rfl, ?_, ?_⟩
      · exact fun _ _ _ he => by cases he
      · exact fun _ _ hid => SenderPc.noConfusion hid
      · exact fun _ he => absurd he List.not_mem_nil

/-- What a step does: a host moves, or the connection takes a message from one or
hands one to it. -/
inductive RcStep (iters : Build → UInt64) (s : State) : Action → State → Prop
  | host {build : Build} {a : HostAction} {h : Host}
      (hhost : stepHost build (iters build) (s.host build) a = some h) :
      RcStep iters s (.host build a) { s with host := Function.update s.host build h }
  | transmit {build : Build} (hsend : (s.host build).send = some .posted) :
      RcStep iters s (.transmit build) {
        host := Function.update s.host build { s.host build with
          send := some .transmitted
          transmitted := (s.host build).transmitted ++ [(s.host build).sendBuf] }
        inbox := Function.update s.inbox (peer build)
          (s.inbox (peer build) ++ [(s.host build).sendBuf]) }
  | arrive {build : Build} {ts : UInt64} {msg : PingpongPayload} {rest : List PingpongPayload}
      (hinbox : s.inbox build = msg :: rest) (hposted : 0 < (s.host build).recvPosted) :
      RcStep iters s (.arrive build ts) {
        host := Function.update s.host build { s.host build with
          recvBuf := msg, recvPosted := (s.host build).recvPosted - 1
          received := (s.host build).received ++ [msg]
          cq := (s.host build).cq ++ [⟨pingpongRecvWrid, true, ts, some msg⟩] }
        inbox := Function.update s.inbox build rest }

/-- **A step** is one of these. -/
theorem rcStep_of_step {a : Action} (hstep : (rc iters).step s a = some t) :
    RcStep iters s a t := by
  cases a with
  | host build a =>
      obtain ⟨h, hhost, rfl⟩ := Option.map_eq_some_iff.1 hstep
      exact .host hhost
  | transmit build =>
      simp only [rc, step] at hstep
      split at hstep <;> cases hstep
      exact .transmit ‹_›
  | arrive build ts =>
      simp only [rc, step] at hstep
      split at hstep
      case h_2 => cases hstep
      rename_i msg rest hinbox
      split at hstep <;> cases hstep
      exact .arrive hinbox ‹_›

/-- What holds of both hosts after one has moved. -/
theorem forall_update {host : Build → Host} {P : Build → Host → Prop}
    (hall : ∀ build, P build (host build)) (hone : P build h) (other : Build) :
    P other (Function.update host build h other) := by
  by_cases hb : other = build
  · subst hb
    rwa [Function.update_self]
  · rw [Function.update_of_ne hb]
    exact hall other

/-- **Messages are kept apart and in order** while none is overwritten. -/
theorem joint_invariant : (rc iters).Invariant (NotOverwritten room) (Joint room) where
  init := ⟨fun _ => local_initialHost, role_initialHost, fun _ => rfl⟩
  step := by
    intro s a t hj hg hstep
    cases rcStep_of_step hstep with
    | @host build a h hh =>
        obtain ⟨hl, hr, htransmitted, hreceived⟩ :=
          (hj.hosts build).step (hj.roles build) hg hh
        refine ⟨forall_update (P := fun _ => Local) hj.hosts hl, forall_update hj.roles hr, ?_⟩
        intro other
        have hsame : ∀ b, (Function.update s.host build h b).transmitted = (s.host b).transmitted ∧
            (Function.update s.host build h b).received = (s.host b).received :=
          forall_update (P := fun b h => h.transmitted = (s.host b).transmitted ∧
            h.received = (s.host b).received) (fun _ => ⟨rfl, rfl⟩) ⟨htransmitted, hreceived⟩
        rw [(hsame _).1, (hsame _).2]
        exact hj.net other
    | @transmit build hsend =>
        refine ⟨forall_update (P := fun _ => Local) hj.hosts ((hj.hosts build).transmit hsend),
          forall_update hj.roles ((hj.roles build).keep rfl rfl rfl rfl rfl rfl rfl), ?_⟩
        intro other
        have hnet := hj.net other
        cases build <;> cases other <;> simp_all [peer]
    | @arrive build ts msg rest hinbox hposted =>
        refine ⟨forall_update (P := fun _ => Local) hj.hosts
          ((hj.hosts build).arrive hg msg ts _),
          forall_update hj.roles ((hj.roles build).keep rfl rfl rfl rfl rfl rfl rfl), ?_⟩
        intro other
        have hnet := hj.net other
        cases build <;> cases other <;> simp_all [peer]

/-- What was posted at one end: handled, arrived, on the way, or still to be
read. -/
theorem Joint.posted_eq (hj : Joint room s) (build : Build) : (s.host (peer build)).posted =
    (s.host build).handled.map Receipt.msg ++
      ((s.host build).unhandled ++ (s.inbox build ++ (s.host (peer build)).toRead)) := by
  rw [(hj.hosts (peer build)).reads, hj.net build, (hj.hosts build).receipts]
  simp only [List.append_assoc]

/-- A message that arrived was posted at the other end. -/
theorem Joint.mem_posted (hj : Joint room s) (hmsg : msg ∈ (s.host build).received) :
    msg ∈ (s.host (peer build)).posted := by
  rw [(hj.hosts (peer build)).reads, hj.net build]
  exact List.mem_append_left _ (List.mem_append_left _ hmsg)

/-- **Where a pong comes from**: it echoes a ping that the server handled and
the client sent. -/
theorem Joint.origin (hj : Joint room s) (hmsg : msg ∈ (s.host .client).received) :
    ∃ r ∈ (s.host .server).handled, ∃ e ∈ (s.host .client).sends,
      msg = echo r.msg r.ts r.now ∧ r.msg = ping e.1 e.2 := by
  have hserver : ServerRole room (s.host .server) := hj.roles .server
  have hclient : ClientRole room (s.host .client) := hj.roles .client
  obtain ⟨replied, hsub, -, hposted⟩ := hserver.echoes
  have hpong : msg ∈ (s.host .server).posted := hj.mem_posted hmsg
  rw [hposted] at hpong
  obtain ⟨r, hr, rfl⟩ := List.mem_map.1 hpong
  have hr := hsub.subset hr
  have hreceived : r.msg ∈ (s.host .server).received := by
    rw [(hj.hosts .server).receipts]
    exact List.mem_append_left _ (List.mem_map_of_mem hr)
  have hping : r.msg ∈ (s.host .client).posted := hj.mem_posted hreceived
  rw [hclient.pings] at hping
  obtain ⟨e, he, hmsg⟩ := List.mem_map.1 hping
  exact ⟨r, hr, e, he, rfl, hmsg.symm⟩

/-! ### A run of one round -/

/-- The steps of one round. -/
def oneRound : List Action :=
  [.host .client (.write 5), .host .client .post, .transmit .client, .arrive .server 70,
    .host .server .loop, .host .server .startPoll, .host .server (.parse 9), .transmit .server,
    .arrive .client 80, .host .client .loop, .host .client .startPoll, .host .client (.parse 20)]

/-- The guard with room is the stronger one. -/
theorem NotOverwritten.of_room (s : State) (a : Action) (hg : NotOverwritten True s a) :
    NotOverwritten room s a := by
  cases a with
  | host build a =>
      cases a with
      | parse _ => exact fun hb hrecv => ⟨(hg hb hrecv).1, fun _ => (hg hb hrecv).2 trivial⟩
      | post => exact fun _ => hg trivial
      | _ => exact hg
  | transmit _ | arrive _ _ => exact hg

/-- What they leave: the record of the packet 1, sent at the reading 5. -/
theorem exists_oneRound : ∃ s p, (rc fun _ => 10).ReachableIf (NotOverwritten room) s ∧
    (s.host .client).written = [p] ∧ p.id = 1 ∧ p.ts 0 = 0 ∧
    (s.host .client).sends = [(p.id, 5)] := by
  have hrun : ((rc fun _ => 10).execIf (NotOverwritten True) (rc fun _ => 10).init oneRound).map
      (fun s => ((s.host .client).written.map fun p => (p.id, p.ts 0), (s.host .client).sends)) =
      some ([(1, 0)], [(1, 5)]) := by
    decide +kernel
  obtain ⟨s, hs, he⟩ := Option.map_eq_some_iff.1 hrun
  obtain ⟨hwritten, hsends⟩ := Prod.mk.inj he
  obtain ⟨p, hp, hts⟩ := List.map_eq_singleton_iff.1 hwritten
  obtain ⟨hid, hts0⟩ := Prod.mk.inj hts
  exact ⟨s, p, (System.runIf_of_execIf hs).mono NotOverwritten.of_room, hp, hid, hts0,
    by rw [hsends, hid]⟩

end Rc
end Rdma
end DetBypass
