/-
# The connection of the queue pairs

`ib_get_local_info` of `rdma/src/ib_net.c`, and `pp_ib_connect` of
`rdma/rc_pingpong.c` and `rdma/ud_pingpong.c`: each host stores the address and the
numbers of its queue pair in a `struct ib_node_info`, exchanges these 32 bytes with
the other host (`Common/Exchange.lean`), and sets up its queue pair from the ones it
received.

`struct ib_node_info` has `lid` at 0, `qpn` at 4, `psn` at 8 and `gid`, which is
aligned to eight bytes, at 16; the bytes between are whatever they were.  A verb that
fails returns a value other than 0 and changes nothing.

Once the calls have succeeded on both hosts the two queue pairs name each other
(`rc_connected`), and every send of the UD pingpong goes to the queue pair of the
other host, with its key (`ud_connected`).
-/

import DetBypass.Common.Exchange
import DetBypass.Common.Net

namespace DetBypass
namespace Rdma
namespace Connect

open Lib Memory
open Exchange (peer)

/-- `IB_PORT`. -/
def ibPort : ℕ := 1

/-- `PRIORITY`. -/
def priority : ℕ := 0

/-- `pp_mtu_to_enum`. -/
def ppMtuToEnum : ℕ → ℕ
  | 256 => 1
  | 512 => 2
  | 1024 => 3
  | 2048 => 4
  | 4096 => 5
  | _ => 0

/-- `IB_MTU`. -/
def ibMtu : ℕ := ppMtuToEnum Net.packetSize

/-- The bytes of an `enum ibv_mtu`. -/
def mtuBytes (mtu : ℕ) : ℕ := 128 * 2 ^ mtu

/-- A port and a queue pair, as the verbs know them. -/
structure Port where
  lid : UInt16
  /-- `link_layer == IBV_LINK_LAYER_ETHERNET`. -/
  ethernet : Bool
  /-- The entries of the GID table, 16 bytes each. -/
  gid : ℤ → Memory
  qpNum : UInt32

/-- `ib_get_local_info`, with the results of the two queries and of `lrand48`, and
`*out` after it. -/
def ibGetLocalInfo (port : Port) (gidx : ℤ) (queryPort queryGid : ℤ) (lrand48 : ℕ)
    (out : Memory) : ℤ × Memory :=
  if queryPort ≠ 0 then (1, out)
  else
    let out := store out 0 4 port.lid.toNat
    if !port.ethernet ∧ load out 0 4 = 0 then (1, out)
    else if queryGid ≠ 0 then (1, out)
    else
      let out := memcpy out 16 (port.gid gidx) 0 16
      let out := store out 4 4 port.qpNum.toNat
      (0, store out 8 4 (lrand48 % 2 ^ 24))

/-- `gid.global.interface_id`, in the order of its bytes. -/
def interfaceId (info : Memory) : ℕ := load info 24 8

/-- `struct ibv_ah_attr`, with `grh` where `is_global` is set. -/
structure AhAttr where
  dlid : ℕ
  sl : ℕ
  srcPathBits : ℕ
  portNum : ℕ
  /-- `dgid`, `sgid_index` and `hop_limit`. -/
  grh : Option (Memory × UInt8 × ℕ)

/-- The address of a node, as both `pp_ib_connect` fill it in. -/
def ahAttr (dest : Memory) (port sl : ℕ) (gidIdx : ℤ) : AhAttr where
  dlid := load dest 0 4 % 2 ^ 16
  sl := sl
  srcPathBits := 0
  portNum := port
  grh := if interfaceId dest ≠ 0 then some (fun i => dest (16 + i), UInt8.ofInt gidIdx, 1)
    else none

/-- `enum ibv_qp_state`, as far as the program takes it. -/
inductive QpState
  | init
  | rtr
  | rts
deriving DecidableEq

/-- The attributes of a queue pair that `ibv_modify_qp` sets. -/
structure Qp where
  state : QpState
  qkey : ℕ
  pathMtu : ℕ
  destQpNum : ℕ
  rqPsn : ℕ
  sqPsn : ℕ
  ah : Option AhAttr

/-- The RC `pp_ib_connect`, with the results of the two `ibv_modify_qp`. -/
def rcConnect (qp : Qp) (port localPsn mtu sl : ℕ) (dest : Memory) (gidIdx : ℤ)
    (rtr rts : ℤ) : ℤ × Qp :=
  if rtr ≠ 0 then (1, qp)
  else
    let qp := { qp with
      state := .rtr
      pathMtu := mtu
      destQpNum := load dest 4 4
      rqPsn := load dest 8 4
      ah := some (ahAttr dest port sl gidIdx) }
    if rts ≠ 0 then (1, qp)
    else (0, { qp with state := .rts, sqPsn := localPsn })

/-- The UD `pp_ib_connect`, with the results of the two `ibv_modify_qp` and of
`ibv_create_ah`, which returns `NULL` for `false`; `ctx->ah` after it. -/
def udConnect (qp : Qp) (gidx : ℤ) (localInfo dest : Memory) (rtr rts : ℤ) (createAh : Bool) :
    ℤ × Qp × Option AhAttr :=
  if rtr ≠ 0 then (1, qp, none)
  else
    let qp := { qp with state := .rtr }
    if rts ≠ 0 then (1, qp, none)
    else
      let qp := { qp with state := .rts, sqPsn := load localInfo 8 4 }
      if createAh then (0, qp, some (ahAttr dest ibPort priority gidx)) else (1, qp, none)

/-- The last call of the UD `pp_init_context`: a new queue pair gets its key. -/
def udInitQp (qp : Qp) : Qp := { qp with state := .init, qkey := 0x11111111 }

/-- `wr.ud` of the UD `pp_post_send`: the address, `remote_qpn` and `remote_qkey`. -/
def udSendWr (ah : AhAttr) (remoteInfo : Memory) : AhAttr × ℕ × ℕ :=
  (ah, load remoteInfo 4 4, 0x11111111)

/-- One of the hosts: its port, the arguments and the results of the calls, and what
`local_info` held before. -/
structure Node where
  port : Port
  gidx : ℤ
  queryPort : ℤ
  queryGid : ℤ
  lrand48 : ℕ
  garbage : Memory

/-- `ib_get_local_info` in `main`. -/
def Node.localInfo (node : Node) : ℤ × Memory :=
  ibGetLocalInfo node.port node.gidx node.queryPort node.queryGid node.lrand48 node.garbage

/-- `remote_info` after `exchange_data`. -/
def remoteInfo (h : Exchange.Host 32) : Memory :=
  fun i => if hi : i < 32 then h.outBuffer ⟨i, hi⟩ else 0

/-- The calls of `exchange_data` on the two hosts. -/
def exchange (node : Build → Node) (garbage : Build → Fin 32 → UInt8) :
    System (Exchange.State 32) Exchange.Action :=
  Exchange.exchangeData (fun b i => (node b).localInfo.2 i) garbage

variable {node : Node} {info info' : Memory}

/-! ### The information of a node -/

/-- What the structure says of a node. -/
structure Info (node : Node) (info : Memory) : Prop where
  lid : load info 0 4 = node.port.lid.toNat
  qpn : load info 4 4 = node.port.qpNum.toNat
  psn : load info 8 4 = node.lrand48 % 2 ^ 24
  gid : ∀ i < 16, info (16 + i) = node.port.gid node.gidx i

/-- The information is in the 32 bytes. -/
theorem Info.congr (h : Info node info) (hsame : ∀ i < 32, info' i = info i) :
    Info node info' := by
  refine ⟨?_, ?_, ?_, fun i hi => ?_⟩
  · rw [load_congr fun i _ hi => hsame i (by omega), h.lid]
  · rw [load_congr fun i _ hi => hsame i (by omega), h.qpn]
  · rw [load_congr fun i _ hi => hsame i (by omega), h.psn]
  · rw [hsame _ (by omega), h.gid i hi]

/-- The stores of `ib_get_local_info` where it returns 0. -/
theorem localInfo_eq (h : node.localInfo.1 = 0) : node.localInfo.2 =
    store (store (memcpy (store node.garbage 0 4 node.port.lid.toNat) 16
      (node.port.gid node.gidx) 0 16) 4 4 node.port.qpNum.toNat) 8 4 (node.lrand48 % 2 ^ 24) := by
  unfold Node.localInfo ibGetLocalInfo at h ⊢
  dsimp only at h ⊢
  split_ifs at h ⊢
  · exact absurd h one_ne_zero
  · exact absurd h one_ne_zero
  · exact absurd h one_ne_zero
  · rfl

/-- **`ib_get_local_info` stores them** where it returns 0. -/
theorem info_of_localInfo (h : node.localInfo.1 = 0) : Info node node.localInfo.2 := by
  have hlid : node.port.lid.toNat < 256 ^ 4 :=
    Nat.lt_of_lt_of_le node.port.lid.toNat_lt (by decide)
  have hqpn : node.port.qpNum.toNat < 256 ^ 4 := node.port.qpNum.toNat_lt
  have hpsn : node.lrand48 % 2 ^ 24 < 256 ^ 4 :=
    Nat.lt_of_lt_of_le (Nat.mod_lt _ (by decide)) (by decide)
  have hcopy (m m' : Memory) {a : ℕ} (ha : a + 4 ≤ 16) :
      load (memcpy m 16 m' 0 16) a 4 = load m a 4 :=
    load_congr fun i _ hi => if_neg (by omega)
  rw [localInfo_eq h]
  refine ⟨?_, ?_, ?_, fun i hi => ?_⟩
  · simp (disch := omega) only [load_store_of_disjoint, hcopy, load_store]
    exact Nat.mod_eq_of_lt hlid
  · simp (disch := omega) only [load_store_of_disjoint, load_store]
    exact Nat.mod_eq_of_lt hqpn
  · simp only [load_store]
    exact Nat.mod_eq_of_lt hpsn
  · simp (disch := omega) only [store_of_ge]
    simp only [memcpy, if_pos (show 16 ≤ 16 + i ∧ 16 + i < 16 + 16 by omega), Nat.zero_add,
      Nat.add_sub_cancel_left]

variable {nodes : Build → Node} {garbage : Build → Fin 32 → UInt8} {s : Exchange.State 32}
  {b : Build}

/-- A host receives that of the other. -/
theorem info_of_returned (h : (exchange nodes garbage).ReachableIf Exchange.Alone s)
    (hb : (s.host b).pc = .returned) (hinfo : (nodes (peer b)).localInfo.1 = 0) :
    Info (nodes (peer b)) (remoteInfo (s.host b)) := by
  refine (info_of_localInfo hinfo).congr fun i hi => ?_
  rw [remoteInfo, dif_pos hi, Exchange.outBuffer_of_returned h hb]

/-! ### The queue pairs -/

/-- An address leads to a node: over its GID if that has an interface identifier, else
by its LID. -/
structure AhAttr.Names (ah : AhAttr) (node : Node) : Prop where
  lid : ah.dlid = node.port.lid.toNat
  isGlobal : ah.grh.isSome ↔ load (node.port.gid node.gidx) 8 8 ≠ 0
  gid : ∀ g ∈ ah.grh, ∀ i < 16, g.1 i = node.port.gid node.gidx i

/-- The address from the information of a node leads to the node. -/
theorem names_ahAttr (h : Info node info) (port sl : ℕ) (gidIdx : ℤ) :
    (ahAttr info port sl gidIdx).Names node := by
  have hid : interfaceId info = load (node.port.gid node.gidx) 8 8 :=
    load_shift fun i hi => by rw [← h.gid _ (by omega), ← Nat.add_assoc]
  refine ⟨?_, ?_, fun g hg => ?_⟩
  · show load info 0 4 % 2 ^ 16 = _
    rw [h.lid, Nat.mod_eq_of_lt node.port.lid.toNat_lt]
  · rw [← hid, ahAttr]
    split_ifs with hne <;> simp [hne]
  · rw [ahAttr] at hg
    split_ifs at hg
    · obtain rfl := Option.some.inj hg
      exact h.gid
    · cases hg

/-- What the RC `pp_ib_connect` sets where it returns 0. -/
theorem eq_of_rcConnect {qp qp' : Qp} {localPsn : ℕ} {gidIdx rtr rts : ℤ}
    (h : rcConnect qp ibPort localPsn ibMtu priority info gidIdx rtr rts = (0, qp')) :
    qp' = { qp with
      state := .rts
      pathMtu := ibMtu
      destQpNum := load info 4 4
      rqPsn := load info 8 4
      sqPsn := localPsn
      ah := some (ahAttr info ibPort priority gidIdx) } := by
  unfold rcConnect at h
  dsimp only at h
  split_ifs at h
  · exact absurd (Prod.mk.inj h).1 one_ne_zero
  · exact absurd (Prod.mk.inj h).1 one_ne_zero
  · exact (Prod.mk.inj h).2.symm

/-- What the UD `pp_ib_connect` sets where it returns 0. -/
theorem eq_of_udConnect {qp qp' : Qp} {gidx rtr rts : ℤ} {createAh : Bool} {ah : Option AhAttr}
    (h : udConnect qp gidx info info' rtr rts createAh = (0, qp', ah)) :
    qp' = { qp with state := .rts, sqPsn := load info 8 4 } ∧
      ah = some (ahAttr info' ibPort priority gidx) := by
  unfold udConnect at h
  dsimp only at h
  split_ifs at h
  · exact absurd (Prod.mk.inj h).1 one_ne_zero
  · exact absurd (Prod.mk.inj h).1 one_ne_zero
  · obtain ⟨hqp, hah⟩ := Prod.mk.inj (Prod.mk.inj h).2
    exact ⟨hqp.symm, hah.symm⟩
  · exact absurd (Prod.mk.inj h).1 one_ne_zero

/-- **The two RC queue pairs name each other**: each sends to the number of the other,
at its address, and expects the packet number that the other begins with. -/
theorem rc_connected (h : (exchange nodes garbage).ReachableIf Exchange.Alone s)
    (hreturned : ∀ b, (s.host b).pc = .returned) (hinfo : ∀ b, (nodes b).localInfo.1 = 0)
    {qp qp' : Build → Qp} {rtr rts : Build → ℤ}
    (hconnect : ∀ b, rcConnect (qp b) ibPort (load (nodes b).localInfo.2 8 4) ibMtu priority
      (remoteInfo (s.host b)) (nodes b).gidx (rtr b) (rts b) = (0, qp' b)) (b : Build) :
    (qp' b).state = .rts ∧ (qp' b).destQpNum = (nodes (peer b)).port.qpNum.toNat ∧
      (qp' b).rqPsn = (qp' (peer b)).sqPsn ∧ (qp' b).sqPsn < 2 ^ 24 ∧
      (∃ ah, (qp' b).ah = some ah ∧ ah.Names (nodes (peer b))) ∧
      Net.packetSize ≤ mtuBytes (qp' b).pathMtu := by
  have hremote := info_of_returned h (hreturned b) (hinfo (peer b))
  have hpsn (b : Build) : (qp' b).sqPsn = (nodes b).lrand48 % 2 ^ 24 := by
    rw [eq_of_rcConnect (hconnect b)]
    exact (info_of_localInfo (hinfo b)).psn
  rw [hpsn, hpsn, eq_of_rcConnect (hconnect b)]
  exact ⟨rfl, hremote.qpn, hremote.psn, Nat.mod_lt _ (by decide),
    ⟨_, rfl, names_ahAttr hremote _ _ _⟩, show Net.packetSize ≤ mtuBytes ibMtu by decide⟩

/-- Nodes on Ethernet, the numbers of their queue pairs 42 and 17. -/
def roce (b : Build) : Node where
  port := ⟨0, true, fun _ i => UInt8.ofNat i, if b = .client then 42 else 17⟩
  gidx := 3
  queryPort := 0
  queryGid := 0
  lrand48 := if b = .client then 2 ^ 30 + 8 else 6
  garbage := fun _ => 255

/-- On these nodes the queries succeed. -/
theorem localInfo_roce (b : Build) : (roce b).localInfo.1 = 0 := by
  cases b <;> rfl

/-- A new queue pair, in the state that `pp_init_context` leaves it in. -/
def newQp : Qp := ⟨.init, 0, 0, 0, 0, 0, none⟩

/-- The client sends to 17 and expects 6 first, the server to 42 and 8. -/
theorem exists_rc_connected : ∃ qp : Build → Qp,
    ((qp .client).destQpNum, (qp .client).rqPsn) = (17, (qp .server).sqPsn) ∧
      ((qp .server).destQpNum, (qp .server).rqPsn) = (42, (qp .client).sqPsn) := by
  obtain ⟨s, hs, hpc⟩ := Exchange.exists_returned (fun b i => (roce b).localInfo.2 i)
    fun _ _ => 0
  obtain ⟨qp, hqp⟩ : ∃ qp : Build → Qp, ∀ b, rcConnect newQp ibPort
      (load (roce b).localInfo.2 8 4) ibMtu priority (remoteInfo (s.host b)) (roce b).gidx 0 0 =
        (0, qp b) := ⟨_, fun b => rfl⟩
  have hrun : (exchange roce fun _ _ => 0).ReachableIf Exchange.Alone s := hs
  have h := rc_connected hrun hpc localInfo_roce hqp
  obtain ⟨-, hnum, hpsn, -⟩ := h .client
  obtain ⟨-, hnum', hpsn', -⟩ := h .server
  exact ⟨qp, Prod.ext hnum hpsn, Prod.ext hnum' hpsn'⟩

/-- **Every send of the UD pingpong goes to the queue pair of the other host**, with the
key that it has. -/
theorem ud_connected (h : (exchange nodes garbage).ReachableIf Exchange.Alone s)
    (hreturned : ∀ b, (s.host b).pc = .returned) (hinfo : ∀ b, (nodes b).localInfo.1 = 0)
    {qp qp' : Build → Qp} {rtr rts : Build → ℤ} {createAh : Build → Bool}
    {ah : Build → Option AhAttr}
    (hconnect : ∀ b, udConnect (udInitQp (qp b)) (nodes b).gidx (nodes b).localInfo.2
      (remoteInfo (s.host b)) (rtr b) (rts b) (createAh b) = (0, qp' b, ah b)) (b : Build) :
    (qp' b).state = .rts ∧ ∃ a, ah b = some a ∧ a.Names (nodes (peer b)) ∧
      udSendWr a (remoteInfo (s.host b)) =
        (a, (nodes (peer b)).port.qpNum.toNat, (qp' (peer b)).qkey) := by
  have hremote := info_of_returned h (hreturned b) (hinfo (peer b))
  obtain ⟨hqp, hah⟩ := eq_of_udConnect (hconnect b)
  obtain ⟨hqp', -⟩ := eq_of_udConnect (hconnect (peer b))
  refine ⟨by rw [hqp], _, hah, names_ahAttr hremote _ _ _, ?_⟩
  rw [udSendWr, hremote.qpn, hqp']
  rfl

/-- The client sends to 17. -/
theorem exists_ud_connected : ∃ (ah : AhAttr) (info : Memory),
    ah.Names (roce .server) ∧ udSendWr ah info = (ah, 17, (udInitQp newQp).qkey) := by
  obtain ⟨s, hs, hpc⟩ := Exchange.exists_returned (fun b i => (roce b).localInfo.2 i)
    fun _ _ => 0
  have hrun : (exchange roce fun _ _ => 0).ReachableIf Exchange.Alone s := hs
  obtain ⟨qp, ah, hconnect⟩ : ∃ (qp : Build → Qp) (ah : Build → Option AhAttr), ∀ b,
      udConnect (udInitQp newQp) (roce b).gidx (roce b).localInfo.2 (remoteInfo (s.host b)) 0 0
        true = (0, qp b, ah b) := ⟨_, _, fun b => rfl⟩
  obtain ⟨-, a, -, hnames, hwr⟩ := ud_connected hrun hpc localInfo_roce hconnect .client
  obtain ⟨hqp, -⟩ := eq_of_udConnect (hconnect .server)
  exact ⟨a, _, hnames, by rw [hwr, peer, hqp]; rfl⟩

end Connect
end Rdma
end DetBypass
