/-
# Net.Frames -- the frames of `net.c`

The headers of `net.h` are packed structs on a little-endian machine: a 16-bit or 32-bit field
is stored low byte first (`le16`, `le32`).  Fields that go on the wire in network order are
given as swapped constants; the addresses are stored as the caller passes them.

Sending prints one line and hands one frame to `rtl8139_send_packet` (`Sent`).
-/
import XosKernel.Lib.Printf

namespace XosKernel.Net

open XosKernel.Lib

set_option autoImplicit false

/-! ## Headers -/

def le16 (x : UInt16) : List UInt8 := [x.toUInt8, (x >>> 8).toUInt8]

def le32 (x : UInt32) : List UInt8 :=
  [x.toUInt8, (x >>> 8).toUInt8, (x >>> 16).toUInt8, (x >>> 24).toUInt8]

abbrev Mac := Fin 6 → UInt8

/-- `eth_header_t` -/
structure EthHeader where
  destMac : Mac
  srcMac : Mac
  ethertype : UInt16

def EthHeader.bytes (h : EthHeader) : List UInt8 :=
  List.ofFn h.destMac ++ List.ofFn h.srcMac ++ le16 h.ethertype

/-- `ipv4_header_t` -/
structure Ipv4Header where
  versionIhl : UInt8
  dscpEcn : UInt8
  totalLength : UInt16
  identification : UInt16
  flagsFragmentOffset : UInt16
  ttl : UInt8
  protocol : UInt8
  headerChecksum : UInt16
  srcIp : UInt32
  destIp : UInt32

def Ipv4Header.bytes (h : Ipv4Header) : List UInt8 :=
  [h.versionIhl, h.dscpEcn] ++ le16 h.totalLength ++ le16 h.identification ++
    le16 h.flagsFragmentOffset ++ [h.ttl, h.protocol] ++ le16 h.headerChecksum ++ le32 h.srcIp ++
    le32 h.destIp

/-- `icmp_header_t` -/
structure IcmpHeader where
  type : UInt8
  code : UInt8
  checksum : UInt16
  identifier : UInt16
  sequence : UInt16

def IcmpHeader.bytes (h : IcmpHeader) : List UInt8 :=
  [h.type, h.code] ++ le16 h.checksum ++ le16 h.identifier ++ le16 h.sequence

/-- `arp_header_t` -/
structure ArpHeader where
  hardwareType : UInt16
  protocolType : UInt16
  hardwareAddrLen : UInt8
  protocolAddrLen : UInt8
  operation : UInt16
  senderMac : Mac
  senderIp : UInt32
  targetMac : Mac
  targetIp : UInt32

def ArpHeader.bytes (h : ArpHeader) : List UInt8 :=
  le16 h.hardwareType ++ le16 h.protocolType ++ [h.hardwareAddrLen, h.protocolAddrLen] ++
    le16 h.operation ++ List.ofFn h.senderMac ++ le32 h.senderIp ++ List.ofFn h.targetMac ++
    le32 h.targetIp

def icmpEchoRequest : UInt8 := 8
def ipProtocolIcmp : UInt8 := 1

/-! ## Checksum -/

/-- The loop of `net_checksum` over the 16-bit words, and the odd last byte. -/
def sumWords : UInt32 → List UInt8 → UInt32
  | sum, low :: high :: rest => sumWords (sum + (low.toUInt32 + (high.toUInt32 <<< 8))) rest
  | sum, [last] => sum + (last.toUInt32 <<< 8)
  | sum, [] => sum

/-- The loop that folds the carries, with a bound on its passes. -/
def foldCarries : Nat → UInt32 → UInt32
  | 0, sum => sum
  | passes + 1, sum =>
      if sum >>> 16 ≠ 0 then foldCarries passes ((sum &&& (0xFFFF : UInt32)) + (sum >>> 16))
      else sum

/-- `net_checksum`.  A pass over a sum of 17 bits or more makes it smaller. -/
def netChecksum (data : List UInt8) : UInt16 :=
  ~~~ (foldCarries (2 ^ 32) (sumWords 0 data)).toUInt16

/-! ## Sending -/

/-- `our_mac` and `our_ip`. -/
structure Station where
  ourMac : Mac
  ourIp : UInt32

/-- What a sending function does: the line it prints, and the frame. -/
structure Sent where
  line : List UInt8
  frame : List UInt8
  deriving DecidableEq

def broadcast : Mac := fun _ => 0xFF

/-- The arguments of the `%d.%d.%d.%d` in `net.c`. -/
def addressArgs (ip : UInt32) : List PrintArg :=
  [.int ((ip >>> 0) &&& 0xFF).toNat, .int ((ip >>> 8) &&& 0xFF).toNat,
    .int ((ip >>> 16) &&& 0xFF).toNat, .int ((ip >>> 24) &&& 0xFF).toNat]

/-- `net_send_arp_request` -/
def netSendArpRequest (net : Station) (targetIp : UInt32) : Sent :=
  let eth : EthHeader := { destMac := broadcast, srcMac := net.ourMac, ethertype := 0x0608 }
  let arp : ArpHeader :=
    { hardwareType := 0x0100, protocolType := 0x0008, hardwareAddrLen := 6, protocolAddrLen := 4
      operation := 0x0100, senderMac := net.ourMac, senderIp := net.ourIp
      targetMac := fun _ => 0, targetIp }
  { line := printf "[NET] Sending ARP request for %d.%d.%d.%d\n" (addressArgs targetIp)
    frame := eth.bytes ++ arp.bytes }

/-- The echo data. -/
def echoData : List UInt8 := [0, 1, 2, 3, 4, 5, 6, 7]

/-- `net_send_icmp_echo` -/
def netSendIcmpEcho (net : Station) (targetIp : UInt32) (seq : UInt16) : Sent :=
  let eth : EthHeader := { destMac := broadcast, srcMac := net.ourMac, ethertype := 0x0008 }
  let ipv4 : Ipv4Header :=
    { versionIhl := 0x45, dscpEcn := 0, totalLength := 0x2400, identification := 0
      flagsFragmentOffset := 0, ttl := 64, protocol := ipProtocolIcmp, headerChecksum := 0
      srcIp := net.ourIp, destIp := targetIp }
  let ipv4 := { ipv4 with headerChecksum := netChecksum ipv4.bytes }
  let icmp : IcmpHeader :=
    { type := icmpEchoRequest, code := 0, checksum := 0, identifier := 0x0001, sequence := seq }
  let icmp := { icmp with checksum := netChecksum (icmp.bytes ++ echoData) }
  { line := printf "[NET] Sending ICMP echo request to %d.%d.%d.%d\n" (addressArgs targetIp)
    frame := eth.bytes ++ ipv4.bytes ++ icmp.bytes ++ echoData }

/-! ## Addresses -/

/-- The target address of an ARP frame. -/
def arpTargetBytes (frame : List UInt8) : List UInt8 := (frame.drop 38).take 4

/-- The destination address of an IPv4 frame. -/
def ipv4DestBytes (frame : List UInt8) : List UInt8 := (frame.drop 30).take 4

/-- The text `a.b.c.d`. -/
def dotted (a b c d : UInt8) : List UInt8 :=
  decimal a.toNat ++ ascii "." ++ decimal b.toNat ++ ascii "." ++ decimal c.toNat ++ ascii "." ++
    decimal d.toNat

theorem arp_target (net : Station) (ip : UInt32) :
    arpTargetBytes (netSendArpRequest net ip).frame = le32 ip := rfl

theorem echo_dest (net : Station) (ip : UInt32) (seq : UInt16) :
    ipv4DestBytes (netSendIcmpEcho net ip seq).frame = le32 ip := rfl

theorem low_byte (x : UInt32) : (x &&& 0xFF).toNat = x.toUInt8.toNat := by
  simp only [UInt32.toNat_and, UInt32.toNat_toUInt8]
  exact Nat.and_two_pow_sub_one_eq_mod x.toNat 8

/-- The arguments are the four bytes, the low one first. -/
theorem addressArgs_eq (ip : UInt32) :
    addressArgs ip = [.int ip.toUInt8.toNat, .int (ip >>> 8).toUInt8.toNat,
      .int (ip >>> 16).toUInt8.toNat, .int (ip >>> 24).toUInt8.toNat] := by
  simp only [addressArgs, low_byte, UInt32.shiftRight_zero]

/-- The end of both lines. -/
theorem printf_address (a b c d : UInt8) :
    printfFrom none (ascii "%d.%d.%d.%d\n")
        [.int a.toNat, .int b.toNat, .int c.toNat, .int d.toNat] =
      dotted a b c d ++ ascii "\n" := by
  have split : ascii "%d.%d.%d.%d\n" = ascii "%d" ++ (ascii "." ++ (ascii "%d" ++ (ascii "." ++
      (ascii "%d" ++ (ascii "." ++ (ascii "%d" ++ (ascii "\n" ++ []))))))) := by decide
  have dot : 0x25 ∉ ascii "." := by decide
  have newline : 0x25 ∉ ascii "\n" := by decide
  simp only [split, printfFrom_int, printfFrom_text dot, printfFrom_text newline, printInt_byte,
    dotted, List.append_assoc]
  rfl

/-- `net.c` prints an address low byte first. -/
theorem printf_line {text : String} (plain : 0x25 ∉ ascii text) (format : String)
    (split : ascii format = ascii text ++ ascii "%d.%d.%d.%d\n") (ip : UInt32) :
    printf format (addressArgs ip) = ascii text ++
      dotted ip.toUInt8 (ip >>> 8).toUInt8 (ip >>> 16).toUInt8 (ip >>> 24).toUInt8 ++
      ascii "\n" := by
  rw [printf, split, printfFrom_text plain, addressArgs_eq, printf_address, List.append_assoc]

theorem arp_line (net : Station) (ip : UInt32) :
    (netSendArpRequest net ip).line = ascii "[NET] Sending ARP request for " ++
      dotted ip.toUInt8 (ip >>> 8).toUInt8 (ip >>> 16).toUInt8 (ip >>> 24).toUInt8 ++
      ascii "\n" :=
  printf_line (by decide) _ (by decide) ip

theorem echo_line (net : Station) (ip : UInt32) (seq : UInt16) :
    (netSendIcmpEcho net ip seq).line = ascii "[NET] Sending ICMP echo request to " ++
      dotted ip.toUInt8 (ip >>> 8).toUInt8 (ip >>> 16).toUInt8 (ip >>> 24).toUInt8 ++
      ascii "\n" :=
  printf_line (by decide) _ (by decide) ip

end XosKernel.Net
