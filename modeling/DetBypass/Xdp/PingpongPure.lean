/-
# The pure XDP reflector

`xdp/pingpong_pure.c`: `xdp_main` in both builds, and the checksum that the
server build computes over the IPv4 header it sends back.  A packet is the memory
from `ctx->data` on and the distance to `ctx->data_end`, on a little-endian
machine; the offsets are those of the packed headers.

`bpf_csum_diff` is a parameter, of the bytes it reads and the seed;
`IsCsumDiff` is what its documentation promises.
-/

import DetBypass.Lib.Checksum
import DetBypass.Common.PayloadBytes

namespace DetBypass

open Lib Memory

namespace Pure

/-- `ETH_P_IP`. -/
def ethPIp : ℕ := 0x0800

/-- `IPPROTO_UDP`. -/
def ipprotoUdp : ℕ := 17

/-- `XDP_UDP_PORT`. -/
def xdpUdpPort : ℕ := 1234

/-- `bpf_htons`. -/
def bpfHtons (n : ℕ) : ℕ := n % 256 * 256 + n / 256

/-- `sizeof (struct ethhdr)`, where the IP header starts. -/
def ip : ℕ := 14

/-- Where the UDP header starts. -/
def udp : ℕ := ip + 20

/-- Where the payload starts. -/
def payload : ℕ := udp + 8

/-- `enum xdp_action`, the two values returned. -/
inductive XdpAction
  | pass
  | tx
deriving DecidableEq

/-- One round of the loop of `csum_fold_helper`. -/
def csumFold (csum : UInt64) : UInt64 :=
  if csum >>> 16 ≠ 0 then (csum &&& (0xffff : UInt64)) + (csum >>> 16) else csum

/-- `csum_fold_helper`. -/
def csumFoldHelper (csum : UInt64) : UInt16 :=
  (~~~ csumFold (csumFold (csumFold (csumFold csum)))).toUInt16

/-- `ipv4_csum`: the new value of `*csum`. -/
def ipv4Csum (bpfCsumDiff : List UInt8 → UInt32 → UInt64) (m : Memory)
    (dataStart dataSize : ℕ) (csum : UInt64) : UInt64 :=
  (csumFoldHelper (bpfCsumDiff (bytes m dataStart dataSize) csum.toUInt32)).toUInt64

/-- The swap of the MAC addresses, `h_dest` at 0 and `h_source` at 6. -/
def swapMac (m : Memory) : Memory :=
  memcpy (memcpy m 0 m 6 6) 6 m 0 6

/-- The swap of `saddr` and `daddr`. -/
def swapIp (m : Memory) : Memory :=
  let tmpIp := load m (ip + 16) 4
  store (store m (ip + 16) 4 (load m (ip + 12) 4)) (ip + 12) 4 tmpIp

/-- The edits of the server build, with the two readings of the clock. -/
def reflect (bpfCsumDiff : List UInt8 → UInt32 → UInt64) (ts now : UInt64) (m : Memory) :
    Memory :=
  let m := store m (payload + 8 + 8 * 1) 8 ts.toNat
  let m := swapIp (swapMac m)
  let m := store m (ip + 10) 2 0
  let csum := ipv4Csum bpfCsumDiff m ip 20 0
  let m := store m (ip + 10) 2 csum.toUInt16.toNat
  let m := store m (ip + 8) 1 64
  let m := store m udp 2 (bpfHtons xdpUdpPort)
  let m := store m (udp + 2) 2 (bpfHtons xdpUdpPort)
  let m := store m (udp + 6) 2 0
  store m (payload + 8 + 8 * 2) 8 now.toNat

/-- `xdp_main`: the action and the packet. -/
def xdpMain (bpfCsumDiff : List UInt8 → UInt32 → UInt64) (build : Build) (ts now : UInt64)
    (data : Memory) (dataEnd : ℕ) : XdpAction × Memory :=
  if dataEnd < payload + 48 then (.pass, data)
  else if load data 12 2 ≠ bpfHtons ethPIp ∨ load data (ip + 9) 1 ≠ ipprotoUdp ∨
      load data (udp + 2) 2 ≠ bpfHtons xdpUdpPort then (.pass, data)
  else if validPingpongPayload (readPayload data payload) = false then (.pass, data)
  else match build with
    | .client => (.pass, store data (payload + 8 + 8 * 3) 8 ts.toNat)
    | .server => (.tx, reflect bpfCsumDiff ts now data)

/-- What `bpf_csum_diff` returns without bytes to subtract: 32 bits that are,
modulo `65535`, the seed and the sum of the words. -/
def IsCsumDiff (bpfCsumDiff : List UInt8 → UInt32 → UInt64) : Prop :=
  ∀ m a k seed, (bpfCsumDiff (bytes m a (4 * k)) seed).toNat < 2 ^ 32 ∧
    (bpfCsumDiff (bytes m a (4 * k)) seed).toNat ≡
      seed.toNat + (wordsLe m a (2 * k)).sum [MOD 65535]

end Pure
end DetBypass
