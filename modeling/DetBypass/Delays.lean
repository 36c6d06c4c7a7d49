/-
# What the latencies measure

`compute_latency` is `((ts[3] - ts[0]) - (ts[2] - ts[1])) / 2`, of two readings on
each host.  The hosts are not synchronised: their `CLOCK_MONOTONIC` count the same
nanoseconds from origins of their own.  For each program but `rc_pingpong`, whose
pings carry their first reading in `ts[1]`, the latency of every record is the
mean of the two one-way delays of its round, whatever the origins, and whatever
the network loses, repeats and reorders (`latency_eq_meanDelay`).

The programs are given by what they do with a message (`Rounds`): the datagrams
of `no-bypass` and of `ud_pingpong` as payloads, the packets of the polling
programs after the filter of `xdp_main`, those of AF_XDP and of `pingpong_pure` as
bytes.  `IsFaithful` is all the argument needs of them.
-/

import DetBypass.Analysis.Latencies
import DetBypass.Common.MinMax
import DetBypass.Lib.Rounds
import DetBypass.Receivers
import DetBypass.Senders
import DetBypass.Xdp.PollExchange
import DetBypass.Xdp.PollPacket
import DetBypass.Xdp.Reflection

namespace DetBypass
namespace Delays

open Lib Memory

variable {M : Type*} {r : Rounds UInt64 M PingpongPayload}

/-- The record of a round has the number of its ping and the four readings. -/
def IsFaithful (r : Rounds UInt64 M PingpongPayload) : Prop :=
  ∀ id t₀ t₁ t₂ t₃ m p, r.pong (r.ping id t₀) t₁ t₂ = some m → r.take m t₃ = some p →
    p.id = UInt64.ofNat id ∧ p.ts = ![t₀, t₁, t₂, t₃]

/-! ### The programs -/

/-- `no-bypass/main.c`. -/
def noBypass : Rounds UInt64 PingpongPayload PingpongPayload where
  ping id t := Sender.NoBypass.sendSinglePacket.payload (UInt64.ofNat id) t
  pong m t₁ t₂ := some (Receiver.NoBypass.startServer.handle ⟨m, t₁, t₂⟩)
  take m t := some (Receiver.NoBypass.startClient.handle ⟨m, t, t⟩)

/-- `xdp/pp_poll.c` behind `xdp_main`. -/
def ppPoll : Rounds UInt64 PingpongPayload PingpongPayload where
  ping id t := Xdp.Poll.ping (UInt64.ofNat id) t
  pong m t₁ t₂ :=
    if validPingpongPayload m ∧ m.phase = 0 then some (Xdp.Poll.Served.pong ⟨m, t₁, t₂⟩) else none
  take m t := if validPingpongPayload m ∧ m.phase = 2 then some (m.setTs 3 t) else none

/-- `rdma/ud_pingpong.c`. -/
def ud : Rounds UInt64 PingpongPayload PingpongPayload where
  ping id t := Sender.Ud.ppSendSinglePacket.payload (UInt64.ofNat id) t
  pong m t₁ t₂ := some ((m.setTs 1 t₁).setTs 2 t₂)
  take m t := some (m.setTs 3 t)

/-- The length of a packet on the wire. -/
def wireLen : UInt32 := 1024

/-- `xdp/pp_sock.c` behind `xdp_xsk`: a packet is its bytes, the first one built
over the base packet of the client. -/
def ppSock (iters : UInt64) (base : Memory) : Rounds UInt64 Memory PingpongPayload where
  ping id t := Xdp.Poll.sendPacket base (UInt64.ofNat id) t
  pong m t₁ t₂ :=
    if Xdp.Xsk.xdpXsk m wireLen.toNat = .redirect then
      some (Xdp.Xsk.processBytes .server iters t₁ t₂ m wireLen).pkt
    else none
  take m t :=
    if Xdp.Xsk.xdpXsk m wireLen.toNat = .redirect then
      (Xdp.Xsk.processBytes .client iters t t m wireLen).written
    else none

/-- `xdp/pp_pure.c` over `pingpong_pure`: the kernel of the client puts the headers
of UDP around a datagram, and takes them off one that `xdp_main` has passed on. -/
def ppPure (wrap : PingpongPayload → Memory) (bpfCsumDiff : List UInt8 → UInt32 → UInt64)
    (dataEnd : ℕ) : Rounds UInt64 Memory PingpongPayload where
  ping id t := wrap (Sender.PpPure.sendPacket.payload (UInt64.ofNat id) t)
  pong m t₁ t₂ :=
    match Pure.xdpMain bpfCsumDiff .server t₁ t₂ m dataEnd with
    | (.tx, pkt) => some pkt
    | (.pass, _) => none
  take m t :=
    match Pure.xdpMain bpfCsumDiff .client t t m dataEnd with
    | (.pass, pkt) =>
      some (Receiver.PpPure.receivePackets.handle ⟨readPayload pkt Pure.payload, t, t⟩)
    | (.tx, _) => none

/-! ### In the models of the hosts -/

/-- The polling server, at a ping of phase 0. -/
theorem ppPoll_pong {iters t₁ t₂ : UInt64} {s t : Xdp.Poll.State}
    (hvalid : validPingpongPayload s.server.bufPayload = true)
    (hphase : s.server.bufPayload.phase = 0)
    (hstep : Xdp.Poll.stepServer iters s (.serve t₁ t₂) = some t) :
    ppPoll.pong s.server.bufPayload t₁ t₂ = some t.server.bufPayload := by
  simp only [Xdp.Poll.stepServer, hphase, ne_eq, not_true, if_false] at hstep
  split_ifs at hstep
  cases hstep
  exact if_pos ⟨hvalid, hphase⟩

/-- The polling client, at a reply of phase 2. -/
theorem ppPoll_take {iters now : UInt64} {s t : Xdp.Poll.State}
    (hvalid : validPingpongPayload s.client.bufPayload = true)
    (hphase : s.client.bufPayload.phase = 2)
    (hstep : Xdp.Poll.stepClient iters s (.record now) = some t) :
    t.client.written = s.client.written ++ (ppPoll.take s.client.bufPayload now).toList := by
  simp only [Xdp.Poll.stepClient, hphase, ne_eq, not_true, if_false] at hstep
  split_ifs at hstep
  cases hstep
  have htake : ppPoll.take s.client.bufPayload now = some (s.client.bufPayload.setTs 3 now) :=
    if_pos ⟨hvalid, hphase⟩
  rw [htake]
  rfl

section Ud

open Rdma.Ud

variable {s : State} {wc : Wc} {q : Fin queueSize} (t₁ t₂ : UInt64) (ret : ℤ)

/-- `parse_single_wc` of the UD hosts, at the completion of a receive. -/
theorem ud_pong (hok : wc.success = true) (hwc : wc.wrId = pingpongRecvWrid + q)
    (hfree : s.pendingSend.test q = 0) :
    ud.pong (s.recvPayloads q) t₁ t₂ =
      some ((parseSingleWc .server t₁ t₂ ret s wc).2.recvPayloads q) := by
  have hrecv : pingpongRecvWrid = queueSize := rfl
  have hsendid : pingpongSendWrid = 0 := rfl
  have hq := q.isLt
  have hidx : ∀ h, (⟨wc.wrId - pingpongRecvWrid, h⟩ : Fin queueSize) = q := fun h =>
    Fin.ext (by dsimp only; omega)
  have hknown : ¬ pingpongRecvWrid + queueSize ≤ wc.wrId := by omega
  have hsend : ¬ wc.wrId < pingpongSendWrid + queueSize := by omega
  by_cases hret : ret = 0 <;>
    simp [ud, parseSingleWc, hok, hknown, hsend, hidx, hfree, ppPostSend, hret]

/-- It is followed by the write. -/
theorem ud_take (hok : wc.success = true) (hwc : wc.wrId = pingpongRecvWrid + q) :
    (writeRecord (parseSingleWc .client t₁ t₂ ret s wc).2 q).written =
      s.written ++ (ud.take (s.recvPayloads q) t₂).toList := by
  have hrecv : pingpongRecvWrid = queueSize := rfl
  have hsendid : pingpongSendWrid = 0 := rfl
  have hq := q.isLt
  have hidx : ∀ h, (⟨wc.wrId - pingpongRecvWrid, h⟩ : Fin queueSize) = q := fun h =>
    Fin.ext (by dsimp only; omega)
  have hknown : ¬ pingpongRecvWrid + queueSize ≤ wc.wrId := by omega
  have hsend : ¬ wc.wrId < pingpongSendWrid + queueSize := by omega
  simp [ud, writeRecord, parseSingleWc, hok, hknown, hsend, hidx]

end Ud

/-! ### The readings in a record -/

/-- The readings of a payload after all four stores. -/
theorem ts_of_stamped (id t₀ t₁ t₂ t₃ : UInt64) :
    (((((newPingpongPayload id).setTs 0 t₀).setTs 1 t₁).setTs 2 t₂).setTs 3 t₃).ts =
      ![t₀, t₁, t₂, t₃] := by
  funext i
  fin_cases i <;> rfl

/-- The messages of `no-bypass` keep the id and the readings. -/
theorem isFaithful_noBypass : IsFaithful noBypass := by
  intro id t₀ t₁ t₂ t₃ m p hpong htake
  cases hpong
  cases htake
  exact ⟨rfl, ts_of_stamped ..⟩

/-- Those of `ud_pingpong` do. -/
theorem isFaithful_ud : IsFaithful ud := by
  intro id t₀ t₁ t₂ t₃ m p hpong htake
  cases hpong
  cases htake
  exact ⟨rfl, ts_of_stamped ..⟩

/-- Those of `pp_poll` do. -/
theorem isFaithful_ppPoll : IsFaithful ppPoll := by
  intro id t₀ t₁ t₂ t₃ m p hpong htake
  simp only [ppPoll] at hpong htake
  split at hpong <;> cases hpong
  split at htake <;> cases htake
  exact ⟨rfl, ts_of_stamped ..⟩

/-- The payload of a packet that `send_packet` has written. -/
theorem readPayload_sendPacket (base : Memory) (id t : UInt64) :
    readPayload (Xdp.Poll.sendPacket base id t) Xdp.Xsk.payload =
      (newPingpongPayload id).setTs 0 t :=
  (readPayload_store_ts _ Net.packetPayload 0 t).trans (by rw [readPayload_storePayload])

/-- Those of `pp_sock` do, in its packets. -/
theorem isFaithful_ppSock (iters : UInt64) (base : Memory) : IsFaithful (ppSock iters base) := by
  intro id t₀ t₁ t₂ t₃ m p hpong htake
  simp only [ppSock] at hpong htake
  split at hpong <;> cases hpong
  split at htake
  case isFalse => cases htake
  rename_i hping hreply
  obtain ⟨-, hreflects⟩ := Xdp.Xsk.processBytes_server hping iters t₁ t₂
  rw [Xdp.Xsk.processBytes_client hreply,
    hreflects.readPayload_eq (Nat.le_refl 34) fun _ _ hr => hr, readPayload_sendPacket] at htake
  cases htake
  exact ⟨rfl, ts_of_stamped ..⟩

/-- Those of `pp_pure` do, in every packet that carries its payload. -/
theorem isFaithful_ppPure {wrap : PingpongPayload → Memory}
    (hwrap : ∀ p, readPayload (wrap p) Pure.payload = p)
    (bpfCsumDiff : List UInt8 → UInt32 → UInt64) (dataEnd : ℕ) :
    IsFaithful (ppPure wrap bpfCsumDiff dataEnd) := by
  intro id t₀ t₁ t₂ t₃ m p hpong htake
  simp only [ppPure] at hpong htake
  split at hpong <;> cases hpong
  rename_i hmain
  have haccepts := Pure.accepts_of_tx (congrArg Prod.fst hmain)
  rw [(Pure.xdpMain_of_accepts haccepts).1] at hmain
  cases hmain
  have hread : readPayload (Pure.reflect bpfCsumDiff t₁ t₂
      (wrap (Sender.PpPure.sendPacket.payload (UInt64.ofNat id) t₀))) Pure.payload =
      (((newPingpongPayload (UInt64.ofNat id)).setTs 0 t₀).setTs 1 t₁).setTs 2 t₂ := by
    rw [(Pure.reflects_reflect bpfCsumDiff t₁ t₂ _).readPayload_eq (by decide)
      fun b hb hr => absurd hr.bounds.2.2.2 (Nat.not_lt.2 hb), hwrap]
    rfl
  rw [(Pure.xdpMain_of_accepts (Pure.accepts_reflect haccepts)).2] at htake
  obtain rfl := Option.some.inj htake
  have hrecord := readPayload_store_ts (Pure.reflect bpfCsumDiff t₁ t₂
    (wrap (Sender.PpPure.sendPacket.payload (UInt64.ofNat id) t₀))) Pure.payload 3 t₃
  rw [hread] at hrecord
  refine ⟨(congrArg PingpongPayload.id hrecord).trans rfl, ?_⟩
  exact (congrArg PingpongPayload.ts hrecord).trans (ts_of_stamped ..)

/-- The programs that measure a round with four readings.  The headers of UDP are
outside the datagram. -/
inductive Program
  | noBypass
  | ppPoll
  | ud
  | ppSock (iters : UInt64) (base : Memory)
  | ppPure (wrap : PingpongPayload → Memory)
      (hwrap : ∀ p, readPayload (wrap p) Pure.payload = p)
      (bpfCsumDiff : List UInt8 → UInt32 → UInt64) (dataEnd : ℕ)

/-- What is on the wire. -/
def Program.Message : Program → Type
  | .noBypass | .ppPoll | .ud => PingpongPayload
  | .ppSock .. | .ppPure .. => Memory

def Program.rounds : (program : Program) → Rounds UInt64 program.Message PingpongPayload
  | .noBypass => Delays.noBypass
  | .ppPoll => Delays.ppPoll
  | .ud => Delays.ud
  | .ppSock iters base => Delays.ppSock iters base
  | .ppPure wrap _ bpfCsumDiff dataEnd => Delays.ppPure wrap bpfCsumDiff dataEnd

/-- **A record holds the readings of its round**, in each program. -/
theorem isFaithful (program : Program) : IsFaithful program.rounds :=
  match program with
  | .noBypass => isFaithful_noBypass
  | .ppPoll => isFaithful_ppPoll
  | .ud => isFaithful_ud
  | .ppSock iters base => isFaithful_ppSock iters base
  | .ppPure _ hwrap bpfCsumDiff dataEnd => isFaithful_ppPure hwrap bpfCsumDiff dataEnd

/-! ### The delays of a round -/

/-- The runs of a program whose hosts have clocks of some origins. -/
def Program.runs (program : Program) (origin origin' : ℕ) (iters : UInt64) :
    System (Rounds.State program.Message PingpongPayload) Rounds.Action :=
  program.rounds.system (clock origin) (clock origin') iters.toNat

/-- The mean of the two one-way delays of a round, in whole nanoseconds. -/
def meanDelay (x : Trip PingpongPayload) : ℕ := ((x.t₁ - x.t₀) + (x.t₃ - x.t₂)) / 2

/-- A record of a round, whose latency is the mean of its delays. -/
structure IsRound (origin origin' : ℕ) (iters : UInt64) (x : Trip PingpongPayload) : Prop where
  number : 1 ≤ x.id ∧ x.id ≤ iters.toNat ∧ x.val.id.toNat = x.id
  inOrder : x.t₀ ≤ x.t₁ ∧ x.t₁ ≤ x.t₂ ∧ x.t₂ ≤ x.t₃
  readings : x.val.ts =
    ![clock origin x.t₀, clock origin' x.t₁, clock origin' x.t₂, clock origin x.t₃]
  latency : (computeLatency x.val).toNat = meanDelay x

variable {program : Program} {origin origin' : ℕ} {iters : UInt64}
  {s : Rounds.State program.Message PingpongPayload} {x : Trip PingpongPayload}

/-- The latency of four readings. -/
theorem computeLatency_of_readings {p : PingpongPayload} {t₀ t₁ t₂ t₃ : ℕ} (h₀₁ : t₀ ≤ t₁)
    (h₁₂ : t₁ ≤ t₂) (h₂₃ : t₂ ≤ t₃) (hlt : t₃ < 2 ^ 64)
    (hts : p.ts = ![clock origin t₀, clock origin' t₁, clock origin' t₂, clock origin t₃]) :
    (computeLatency p).toNat = ((t₁ - t₀) + (t₃ - t₂)) / 2 := by
  have hround : (p.ts 3 - p.ts 0) - (p.ts 2 - p.ts 1) = UInt64.ofNat ((t₁ - t₀) + (t₃ - t₂)) := by
    rw [hts]
    exact clock_round origin origin' h₀₁ h₁₂ h₂₃
  rw [computeLatency, hround, UInt64.toNat_div, UInt64.toNat_ofNat', Nat.mod_eq_of_lt (by omega)]
  rfl

/-- **The latency of every record is the mean one-way delay of its round**, for
every program, every origin of the two clocks and every run. -/
theorem latency_eq_meanDelay (h : (program.runs origin origin' iters).Reachable s)
    (hnow : s.now < 2 ^ 64) (hx : x ∈ s.records) : IsRound origin origin' iters x := by
  obtain ⟨hid, hround, hle⟩ := Rounds.completed_of_reachable h hx
  obtain ⟨m, hpong, htake⟩ := hround.exists_pong
  obtain ⟨hval, hts⟩ := isFaithful program _ _ _ _ _ _ _ hpong htake
  refine ⟨⟨hid.1, hid.2, ?_⟩, ⟨hround.there, hround.turn, hround.back⟩, hts, ?_⟩
  · rw [hval, UInt64.toNat_ofNat']
    exact Nat.mod_eq_of_lt (Nat.lt_of_le_of_lt hid.2 iters.toNat_lt)
  · exact computeLatency_of_readings hround.there hround.turn hround.back
      (Nat.lt_of_le_of_lt hle hnow) hts

/-- A run with a round of 15 ns, 3 ns of them at the server. -/
theorem exists_run (origin origin' : ℕ) :
    ∃ (s : Rounds.State PingpongPayload PingpongPayload) (x : Trip PingpongPayload),
      (Program.noBypass.runs origin origin' 1).ReachableIf Rounds.NoRepeat s ∧ s.now = 15 ∧
        s.records = [x] ∧ meanDelay x = 6 := by
  have hexec : ((Program.noBypass.runs origin origin' 1).execIf Rounds.NoRepeat Rounds.initial
      [.ping, .wait 5, .arrive 0 false, .wait 3, .pong 0, .wait 7, .take 0 false]).map
      (fun s => (s.now, s.records.map fun x => (x.t₀, x.t₁, x.t₂, x.t₃))) =
      some (15, [(0, 5, 8, 15)]) := rfl
  obtain ⟨s, hs, he⟩ := Option.map_eq_some_iff.1 hexec
  obtain ⟨hnow, hrecords⟩ := Prod.mk.inj he
  obtain ⟨x, hx, htimes⟩ := List.map_eq_singleton_iff.1 hrecords
  obtain ⟨h₀, h₁, h₂, h₃⟩ : x.t₀ = 0 ∧ x.t₁ = 5 ∧ x.t₂ = 8 ∧ x.t₃ = 15 := by
    simpa only [Prod.mk.injEq] using htimes
  refine ⟨s, x, System.runIf_of_execIf hs, hnow, hx, ?_⟩
  rw [meanDelay, h₀, h₁, h₂, h₃]

/-- **No ping is recorded twice** unless the network repeats something. -/
theorem nodup_recorded_ids
    (h : (program.runs origin origin' iters).ReachableIf Rounds.NoRepeat s) :
    (s.records.map fun x => x.val.id).Nodup := by
  have hids := Rounds.nodup_of_reachable h
  have hval : s.records.map (fun x => x.val.id.toNat) = s.records.map Trip.id := by
    refine List.map_congr_left fun x hx => ?_
    obtain ⟨hid, hround, -⟩ := Rounds.completed_of_reachable h.reachable hx
    obtain ⟨m, hpong, htake⟩ := hround.exists_pong
    rw [(isFaithful program _ _ _ _ _ _ _ hpong htake).1, UInt64.toNat_ofNat']
    exact Nat.mod_eq_of_lt (Nat.lt_of_le_of_lt hid.2 iters.toNat_lt)
  rw [← hval] at hids
  refine List.Nodup.of_map UInt64.toNat ?_
  rwa [List.map_map]

/-- A round that is recorded once. -/
theorem exists_nodup_recorded : ∃ s : Rounds.State PingpongPayload PingpongPayload,
    s.records.length = 1 ∧ (s.records.map fun x => x.val.id).Nodup := by
  obtain ⟨s, x, hs, -, hx, -⟩ := exists_run 900 40
  exact ⟨s, by rw [hx]; rfl, nodup_recorded_ids hs⟩

/-! ### The latencies in the results -/

/-- The readings of a round whose clocks stay below `2 ^ 63`. -/
theorem inOrder_of_isRound {t : ℕ} (h : IsRound origin origin' iters x) (hle : x.t₃ ≤ t)
    (hclient : origin + t < 2 ^ 63) (hserver : origin' + t < 2 ^ 63) :
    InOrder x.val ∧ ∀ i, (x.val.ts i).toNat < 2 ^ 63 := by
  obtain ⟨h₀₁, h₁₂, h₂₃⟩ := h.inOrder
  have h₀ := clock_toNat (show origin + x.t₀ < 2 ^ 64 by omega)
  have h₁ := clock_toNat (show origin' + x.t₁ < 2 ^ 64 by omega)
  have h₂ := clock_toNat (show origin' + x.t₂ < 2 ^ 64 by omega)
  have h₃ := clock_toNat (show origin + x.t₃ < 2 ^ 64 by omega)
  refine ⟨⟨?_, ?_, ?_⟩, fun i => ?_⟩ <;> rw [h.readings]
  · show clock origin x.t₀ ≤ clock origin x.t₃
    rw [UInt64.le_iff_toNat_le]
    omega
  · show clock origin' x.t₁ ≤ clock origin' x.t₂
    rw [UInt64.le_iff_toNat_le]
    omega
  · show clock origin' x.t₂ - clock origin' x.t₁ ≤ clock origin x.t₃ - clock origin x.t₀
    rw [clock_sub _ h₁₂, clock_sub _ (by omega), UInt64.le_iff_toNat_le, UInt64.toNat_ofNat',
      UInt64.toNat_ofNat']
    omega
  · fin_cases i
    · exact lt_of_eq_of_lt h₀ (by omega)
    · exact lt_of_eq_of_lt h₁ (by omega)
    · exact lt_of_eq_of_lt h₂ (by omega)
    · exact lt_of_eq_of_lt h₃ (by omega)

/-- **The latencies that are read from the timestamp file** of a run are the mean
one-way delays of its rounds, in order. -/
theorem latencies_of_run {fromfile : List Char → List Int64} (hfile : ReadsDecimals fromfile)
    (h : (program.runs origin origin' iters).Reachable s) (hiters : iters.toNat < 2 ^ 63)
    (hclient : origin + s.now < 2 ^ 63) (hserver : origin' + s.now < 2 ^ 63) :
    ∃ text rows, timestampFile (s.records.map Trip.val) = some text ∧
      parseTimestamps fromfile text = some rows ∧
      List.Forall₂ (fun (latency : Fin 2 → Int64) (x : Trip PingpongPayload) =>
          (latency 0).toInt = x.id ∧ (latency 1).toInt = meanDelay x)
        (Analysis.computeLatencies rows) s.records := by
  have hrecord : ∀ x ∈ s.records, IsRound origin origin' iters x ∧ FitsInt64 x.val ∧
      InOrder x.val := fun x hx => by
    have hround := latency_eq_meanDelay h (by omega) hx
    have hle := (Rounds.completed_of_reachable h hx).2.2
    obtain ⟨horder, hlt⟩ := inOrder_of_isRound hround hle hclient hserver
    obtain ⟨-, hid, hval⟩ := hround.number
    exact ⟨hround, ⟨by omega, hlt⟩, horder⟩
  have hfit : ∀ p ∈ s.records.map Trip.val, FitsInt64 p := by
    intro p hp
    obtain ⟨x, hx, rfl⟩ := List.mem_map.1 hp
    exact (hrecord x hx).2.1
  obtain ⟨text, htext, hrows⟩ := parseTimestamps_of_file hfile hfit
  refine ⟨text, _, htext, hrows, ?_⟩
  rw [Analysis.computeLatencies, List.map_map, List.map_map, List.forall₂_map_left_iff,
    List.forall₂_same]
  intro x hx
  obtain ⟨hround, hfits, horder⟩ := hrecord x hx
  refine ⟨?_, ?_⟩
  · rw [← hround.number.2.2]
    exact (rowOf_payloadRow hfits).1
  · rw [← hround.latency]
    exact computeLatency_payloadRow hfits horder

/-- The file of a run with one round. -/
theorem exists_latencies_six : ∃ text rows,
    parseTimestamps (fun text => (readDecimals text).map Int64.ofNat) text = some rows ∧
      (Analysis.computeLatencies rows).map (fun latency => (latency 1).toInt) = [6] := by
  obtain ⟨s, x, hs, hnow, hx, hdelay⟩ := exists_run 900 40
  obtain ⟨text, rows, -, hrows, hlatencies⟩ := latencies_of_run readsDecimals_readDecimals
    hs.reachable (by decide) (by rw [hnow]; decide) (by rw [hnow]; decide)
  refine ⟨text, rows, hrows, ?_⟩
  rw [hx] at hlatencies
  generalize Analysis.computeLatencies rows = latencies at hlatencies
  cases hlatencies with
  | cons hlatency hnil =>
      cases hnil
      rw [List.map_singleton, hlatency.2, hdelay]
      rfl

/-- **The extreme latencies of a run** are the least and the greatest mean one-way
delay of its rounds. -/
theorem extremes_of_run (h : (program.runs origin origin' iters).Reachable s)
    (hnow : s.now < 2 ^ 64) (hne : s.records ≠ []) :
    let aux := writeMinMaxLatency persistenceInitMinMaxLatency (s.records.map Trip.val)
    IsLeast {d | ∃ x ∈ s.records, meanDelay x = d} aux.min.toNat ∧
      IsGreatest {d | ∃ x ∈ s.records, meanDelay x = d} aux.max.toNat := by
  have hdelay : ∀ x ∈ s.records, meanDelay x = (computeLatency x.val).toNat := fun x hx =>
    (latency_eq_meanDelay h hnow hx).latency.symm
  have hne' : s.records.map Trip.val ≠ [] := by rwa [ne_eq, List.map_eq_nil_iff]
  obtain ⟨p, hp, hleast⟩ := exists_firstMin hne'
  obtain ⟨q, hq, hgreatest⟩ := exists_firstMax hne'
  intro aux
  have hmin : aux.min = computeLatency p := by
    show (writeMinMaxLatency _ _).min = _
    rw [writeMinMaxLatency_init, keptExtremes, hp]
    rfl
  have hmax : aux.max = computeLatency q := by
    show (writeMinMaxLatency _ _).max = _
    rw [writeMinMaxLatency_init, keptExtremes, hq]
    rfl
  -- the delays are the latencies, as numbers
  have himage : {d | ∃ x ∈ s.records, meanDelay x = d} =
      UInt64.toNat '' {latency | ∃ p ∈ s.records.map Trip.val, computeLatency p = latency} := by
    ext d
    constructor
    · rintro ⟨x, hx, rfl⟩
      exact ⟨_, ⟨x.val, List.mem_map_of_mem hx, rfl⟩, (hdelay x hx).symm⟩
    · rintro ⟨_, ⟨_, hp, rfl⟩, rfl⟩
      obtain ⟨x, hx, rfl⟩ := List.mem_map.1 hp
      exact ⟨x, hx, hdelay x hx⟩
  rw [himage, hmin, hmax]
  refine ⟨⟨Set.mem_image_of_mem _ hleast.1, ?_⟩, ⟨Set.mem_image_of_mem _ hgreatest.1, ?_⟩⟩
  · rintro _ ⟨latency, hlatency, rfl⟩
    exact UInt64.le_iff_toNat_le.1 (hleast.2 hlatency)
  · rintro _ ⟨latency, hlatency, rfl⟩
    exact UInt64.le_iff_toNat_le.1 (hgreatest.2 hlatency)

/-- A round with delays of 5 and 7 ns. -/
theorem exists_extremes_six : ∃ s : Rounds.State PingpongPayload PingpongPayload,
    (writeMinMaxLatency persistenceInitMinMaxLatency (s.records.map Trip.val)).min.toNat = 6 := by
  obtain ⟨s, x, hs, hnow, hx, hdelay⟩ := exists_run 900 40
  obtain ⟨⟨⟨y, hy, hmin⟩, -⟩, -⟩ := extremes_of_run hs.reachable (by rw [hnow]; decide)
    (by rw [hx]; exact List.cons_ne_nil x [])
  rw [hx] at hy
  obtain rfl := List.mem_singleton.1 hy
  exact ⟨s, hmin.symm.trans hdelay⟩

end Delays
end DetBypass
