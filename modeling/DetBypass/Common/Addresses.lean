/-
# The addresses of the two hosts

`exchange_eth_ip_addresses` of `common/net.c`, with `retrieve_local_mac` and
`retrieve_local_ip` before it: each host reads its own addresses from the operating
system, packs them into ten bytes and exchanges these with the other.  The client and
the server then build their packets from what they have.

The address of an interface is a line of hexadecimal bytes in a file of sysfs, of
which `fgets` takes 17 characters and `sscanf` six bytes.  An Ethernet interface has
six; `retrieveLocalMac_sysfs` says what is read for any number of them.  After the
exchange the packets of each host go from its own interface to that of the other
(`headers_of_returned`).
-/

import DetBypass.Common.Exchange
import DetBypass.Common.Net
import DetBypass.Lib.Hex
import DetBypass.Lib.Line

namespace DetBypass
namespace Addresses

open Lib Memory
open Exchange (peer)

/-- What the operating system says of an interface. -/
structure Interface where
  /-- `if_indextoname`, `none` for `NULL`. -/
  ifname : Option (List Char)
  /-- The files, `none` where `fopen` fails. -/
  file : List Char → Option (List Char)
  fclose : ℤ
  socket : ℤ
  /-- `ioctl (sock, SIOCGIFADDR, …)` for a name, `none` where it fails. -/
  ifaddr : List Char → Option UInt32

/-- `fgets (…, size, f)`, `none` for `NULL`. -/
def fgets (size : ℕ) (text : List Char) : Option (List Char) :=
  if text = [] then none else some (readLine (text.take (size - 1))).1

/-- `snprintf (path, 192, "/sys/class/net/%s/address", ifname)`. -/
def path (ifname : List Char) : List Char :=
  ("/sys/class/net/".toList ++ ifname ++ "/address".toList).take 191

/-- `sscanf` of the six bytes, into `out_mac`. -/
def storeMac (outMac : Memory) (macStr : List Char) : Memory :=
  fun i => (scanBytes ':' 6 macStr).getD i (outMac i)

/-- `retrieve_local_mac`, with `out_mac` after it. -/
def retrieveLocalMac (dev : Interface) (outMac : Memory) : ℤ × Memory :=
  match dev.ifname with
  | none => (-1, outMac)
  | some ifname =>
    match dev.file (path ifname) with
    | none => (-1, outMac)
    | some f =>
      match fgets 18 f with
      | none => (-1, outMac)
      | some macStr =>
        if dev.fclose ≠ 0 then (-1, outMac)
        else if (scanBytes ':' 6 macStr).length ≠ 6 then (-1, storeMac outMac macStr)
        else (0, storeMac outMac macStr)

/-- `retrieve_local_ip`, with `*out_addr` after it. -/
def retrieveLocalIp (dev : Interface) (outAddr : UInt32) : ℤ × UInt32 :=
  match dev.ifname with
  | none => (-1, outAddr)
  | some ifname =>
    if dev.socket < 0 then (-1, outAddr)
    else match dev.ifaddr (ifname.take 16) with
      | none => (-1, outAddr)
      | some addr => (0, addr)

/-- A MAC and an IP address, the latter as a word in network byte order. -/
structure Pair where
  mac : Memory
  ip : UInt32

/-- The two calls that fill `src_mac` and `src_ip`; neither result is looked at. -/
def Pair.retrieve (dev : Interface) (src : Pair) : Pair :=
  ⟨(retrieveLocalMac dev src.mac).2, (retrieveLocalIp dev src.ip).2⟩

/-- The two `memcpy` into `buffer`. -/
def Pair.pack (src : Pair) : Fin 10 → UInt8 := fun i =>
  if i.val < 6 then src.mac i else store (fun _ => 0) 0 4 src.ip.toNat (i - 6)

/-- The two `memcpy` out of `out_buffer`. -/
def Pair.unpack (out : Fin 10 → UInt8) (dest : Pair) : Pair where
  mac i := if h : i < 6 then out ⟨i, by omega⟩ else dest.mac i
  ip := UInt32.ofNat (load (fun i => if h : i < 4 then out ⟨i + 6, by omega⟩ else 0) 0 4)

/-- The runs of `exchange_eth_ip_addresses` on the two hosts. -/
def exchangeEthIpAddresses (dev : Build → Interface) (src : Build → Pair)
    (garbage : Build → Fin 10 → UInt8) : System (Exchange.State 10) Exchange.Action :=
  Exchange.exchangeData (fun b => ((src b).retrieve (dev b)).pack) garbage

/-- Its result on a host and the addresses of the other, once `exchange_data` has
returned. -/
def result (h : Exchange.Host 10) (dest : Pair) : Option (ℤ × Pair) :=
  match h.pc with
  | .failed => some (-1, dest)
  | .returned => some (0, Pair.unpack h.outBuffer dest)
  | .start | .sending _ | .receiving => none

variable {dev : Interface} {ifname : List Char} {addr : List UInt8} {macs : List UInt8}

/-! ### The address of an interface -/

/-- The file of an interface's hardware address, of any number of bytes. -/
def sysfsAddress (addr : List UInt8) : List Char := printBytes Nat.digitChar ':' addr ++ ['\n']

/-- A printed address has no line end in it. -/
theorem newline_not_mem (addr : List UInt8) : '\n' ∉ printBytes Nat.digitChar ':' addr := by
  intro hmem
  rcases hexValue_of_mem_printBytes isHexDigits_digitChar hmem with h | h
  · exact h (by decide)
  · exact absurd h (by decide)

/-- `fgets` takes the first six bytes, or the whole line. -/
theorem fgets_sysfsAddress (addr : List UInt8) : fgets 18 (sysfsAddress addr) =
    some (if 6 ≤ addr.length then printBytes Nat.digitChar ':' (addr.take 6)
      else sysfsAddress addr) := by
  have hne : sysfsAddress addr ≠ [] := by simp [sysfsAddress]
  rw [fgets, if_neg hne]
  have hlength : (printBytes Nat.digitChar ':' addr).length = 3 * addr.length - 1 :=
    printBytes_length addr
  split_ifs with h
  · have htake : (sysfsAddress addr).take 17 = printBytes Nat.digitChar ':' (addr.take 6) := by
      rw [sysfsAddress, List.take_append_of_le_length (by omega)]
      exact printBytes_take addr 6
    rw [htake, readLine_of_not_mem (newline_not_mem _)]
  · have htake : (sysfsAddress addr).take 17 = sysfsAddress addr := by
      refine List.take_of_length_le ?_
      rw [sysfsAddress, List.length_append, hlength, List.length_singleton]
      omega
    rw [htake, sysfsAddress, readLine_append (newline_not_mem _)]

/-- `sscanf` reads them. -/
theorem scanBytes_sysfsAddress (addr : List UInt8) :
    scanBytes ':' 6 (if 6 ≤ addr.length then printBytes Nat.digitChar ':' (addr.take 6)
      else sysfsAddress addr) = addr.take 6 := by
  split_ifs with h
  · have hscan : scanBytes ':' 6 (printBytes Nat.digitChar ':' (addr.take 6) ++ []) =
        addr.take 6 :=
      scanBytes_printBytes isHexDigits_digitChar (by decide) (addr.take 6)
        (List.length_take_le 6 addr) (by simp [NoDigit]) (by simp) (fun _ => rfl)
    rwa [List.append_nil] at hscan
  · have hend : NoDigit ['\n'] := by
      rintro c ⟨rfl⟩
      rfl
    have hscan : scanBytes ':' 6 (printBytes Nat.digitChar ':' addr ++ ['\n']) = addr :=
      scanBytes_printBytes isHexDigits_digitChar (by decide) addr (by omega) hend (by decide)
        (fun _ => by decide)
    rw [sysfsAddress, hscan, List.take_of_length_le (by omega)]

/-- **`retrieve_local_mac` reads the first six bytes** of the address; of a shorter
address it stores what there is, and fails. -/
theorem retrieveLocalMac_sysfs (hname : dev.ifname = some ifname)
    (hfile : dev.file (path ifname) = some (sysfsAddress addr)) (hclose : dev.fclose = 0)
    (outMac : Memory) : retrieveLocalMac dev outMac =
      (if 6 ≤ addr.length then 0 else -1, fun i => (addr.take 6).getD i (outMac i)) := by
  have hscan := scanBytes_sysfsAddress addr
  have hfgets := fgets_sysfsAddress addr
  generalize (if 6 ≤ addr.length then _ else _ : List Char) = macStr at hscan hfgets
  have hlength : (scanBytes ':' 6 macStr).length ≠ 6 ↔ ¬ 6 ≤ addr.length := by
    rw [hscan, List.length_take]
    omega
  have hstore : storeMac outMac macStr = fun i => (addr.take 6).getD i (outMac i) := by
    rw [← hscan]
    rfl
  simp only [retrieveLocalMac, hname, hfile, hfgets, hclose, ne_eq, not_true_eq_false, if_false,
    hlength, hstore]
  split_ifs <;> rfl

/-! ### The packets between the two hosts -/

/-- The ten bytes are read back. -/
theorem unpack_pack (src dest : Pair) :
    (∀ i < 6, (Pair.unpack src.pack dest).mac i = src.mac i) ∧
      (Pair.unpack src.pack dest).ip = src.ip := by
  refine ⟨fun i hi => ?_, ?_⟩
  · simp [Pair.unpack, Pair.pack, hi]
  · have hload : load (fun i => if h : i < 4 then src.pack ⟨i + 6, by omega⟩ else 0) 0 4 =
        load (store (fun _ => 0) 0 4 src.ip.toNat) 0 4 := by
      refine load_congr fun i _ hi => ?_
      have hi : i < 4 := by omega
      simp [Pair.pack, hi]
    simp only [Pair.unpack]
    rw [hload, load_store, Nat.mod_eq_of_lt (show _ < 256 ^ 4 from src.ip.toNat_lt),
      UInt32.ofNat_toNat]

variable {devs : Build → Interface} {src : Build → Pair} {garbage : Build → Fin 10 → UInt8}
  {s : Exchange.State 10} {b : Build}

/-- What a host has when its call has returned 0: what the other has read. -/
theorem result_of_returned
    (h : (exchangeEthIpAddresses devs src garbage).ReachableIf Exchange.Alone s)
    (hb : (s.host b).pc = .returned) (dest : Pair) : result (s.host b) dest =
      some (0, Pair.unpack ((src (peer b)).retrieve (devs (peer b))).pack dest) := by
  rw [result, hb, Exchange.outBuffer_of_returned h hb]

/-- The operating system has the addresses of an interface. -/
structure Interface.Up (dev : Interface) (ifname : List Char) (addr : List UInt8)
    (ip : UInt32) : Prop where
  name : dev.ifname = some ifname
  file : dev.file (path ifname) = some (sysfsAddress addr)
  fclose : dev.fclose = 0
  socket : 0 ≤ dev.socket
  ifaddr : dev.ifaddr (ifname.take 16) = some ip

/-- A list of bytes as `src_mac` is filled with it. -/
def ofBytes (addr : List UInt8) : Memory := fun i => addr.getD i 0

/-- What is retrieved of an interface that is up: its first six bytes and its IPv4 address. -/
theorem retrieve_of_up {ip : UInt32} (h : dev.Up ifname addr ip) (hlength : 6 ≤ addr.length)
    (src : Pair) :
    (∀ i < 6, (src.retrieve dev).mac i = ofBytes addr i) ∧ (src.retrieve dev).ip = ip := by
  refine ⟨fun i hi => ?_, ?_⟩
  · simp only [Pair.retrieve, retrieveLocalMac_sysfs h.name h.file h.fclose, ofBytes]
    rw [List.getD_eq_getElem?_getD, List.getD_eq_getElem?_getD, List.getElem?_take_of_lt hi,
      List.getElem?_eq_getElem (by omega), Option.getD_some, Option.getD_some]
  · simp only [Pair.retrieve, retrieveLocalIp, h.name, if_neg (not_lt.2 h.socket), h.ifaddr]

/-- **The packets of a host go from its own interface to that of the other**, once its
call has returned 0: in every run of the two calls, whatever the network loses,
repeats or delays. -/
theorem headers_of_returned {ifname : Build → List Char} {addr : Build → List UInt8}
    {ip : Build → UInt32} (hup : ∀ b, (devs b).Up (ifname b) (addr b) (ip b))
    (hlength : ∀ b, 6 ≤ (addr b).length)
    (h : (exchangeEthIpAddresses devs src garbage).ReachableIf Exchange.Alone s)
    (hb : (s.host b).pc = .returned) (dest : Pair) (buf : Memory) :
    ∃ p, result (s.host b) dest = some (0, p) ∧
      Net.Headers (ofBytes (addr b)) (ofBytes (addr (peer b))) (ip b) (ip (peer b))
        (Net.buildBasePacket buf ((src b).retrieve (devs b)).mac p.mac
          ((src b).retrieve (devs b)).ip p.ip) := by
  obtain ⟨hmac, hip⟩ := retrieve_of_up (hup b) (hlength b) (src b)
  obtain ⟨hmac', hip'⟩ := retrieve_of_up (hup (peer b)) (hlength (peer b)) (src (peer b))
  obtain ⟨hpack, hpack'⟩ := unpack_pack ((src (peer b)).retrieve (devs (peer b))) dest
  refine ⟨_, result_of_returned h hb dest, ?_⟩
  have hheaders := Net.headers_buildBasePacket buf ((src b).retrieve (devs b)).mac
    (Pair.unpack ((src (peer b)).retrieve (devs (peer b))).pack dest).mac
    ((src b).retrieve (devs b)).ip
    (Pair.unpack ((src (peer b)).retrieve (devs (peer b))).pack dest).ip
  rw [hpack', hip', hip] at hheaders ⊢
  refine ⟨fun i hi => ?_, fun i hi => ?_, hheaders.proto, hheaders.version, hheaders.saddr,
    hheaders.daddr⟩
  · rw [hheaders.dest i hi, hpack i hi, hmac' i hi]
  · rw [hheaders.source i hi, hmac i hi]

/-- An interface with its addresses. -/
def Interface.eth (addr : List UInt8) (ip : UInt32) : Interface where
  ifname := some "eth0".toList
  file name := if name = path "eth0".toList then some (sysfsAddress addr) else none
  fclose := 0
  socket := 3
  ifaddr _ := some ip

/-- The interface of the example is up. -/
theorem up_eth (addr : List UInt8) (ip : UInt32) :
    (Interface.eth addr ip).Up "eth0".toList addr ip where
  name := rfl
  file := by simp only [Interface.eth, if_pos]
  fclose := rfl
  socket := show (0 : ℤ) ≤ 3 by decide
  ifaddr := rfl

/-- Both calls return, and the client's packets have the addresses read. -/
theorem exists_headers : ∃ (h : Exchange.Host 10) (p own : Pair),
    result h ⟨fun _ => 0, 0⟩ = some (0, p) ∧
      Net.Headers (ofBytes [2, 0, 0, 0, 0, 9]) (ofBytes [2, 0, 0, 0, 0, 8]) 0x100000a 0x200000a
        (Net.buildBasePacket (fun _ => 0) own.mac p.mac own.ip p.ip) := by
  let dev (b : Build) : Interface :=
    .eth (if b = .client then [2, 0, 0, 0, 0, 9] else [2, 0, 0, 0, 0, 8])
      (if b = .client then 0x100000a else 0x200000a)
  obtain ⟨s, hs, hpc⟩ := Exchange.exists_returned
    (fun b => (Pair.retrieve (dev b) ⟨fun _ => 0, 0⟩).pack) fun _ _ => 255
  have hrun : (exchangeEthIpAddresses dev (fun _ => ⟨fun _ => 0, 0⟩) fun _ _ => 255).ReachableIf
      Exchange.Alone s := hs
  obtain ⟨p, hp, hheaders⟩ := headers_of_returned (fun b => up_eth _ _)
    (fun b => by cases b <;> decide) hrun (hpc .client) ⟨fun _ => 0, 0⟩ fun _ => 0
  exact ⟨_, p, _, hp, hheaders⟩

end Addresses
end DetBypass
