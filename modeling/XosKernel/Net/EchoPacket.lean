/-
# Net.EchoPacket -- the packet buffer of `net_send_icmp_echo`

`net_send_icmp_echo` fills a buffer on its stack, whatever it held: the headers go to offsets that
are counted by hand, and each checksum is computed over bytes already in the buffer and stored
into them (`echoPacket`).  The frame is the one of `netSendIcmpEcho`, and a receiver accepts it
(`Verifies`).
-/
import XosKernel.Net.Checksum
import XosKernel.Theory.Bytes

namespace XosKernel.Net

open XosKernel.Theory

set_option autoImplicit false

/-! ## The buffer -/

/-- The bytes of an object are stored at an offset of the packet. -/
def store (packet : Buf) (off : Nat) (bytes : List UInt8) : Buf :=
  packet.blit off bytes.length (Buf.ofList bytes)

def echoEth (net : Station) : EthHeader :=
  { destMac := broadcast, srcMac := net.ourMac, ethertype := 0x0008 }

def echoIpv4 (net : Station) (targetIp : UInt32) (headerChecksum : UInt16) : Ipv4Header :=
  { versionIhl := 0x45, dscpEcn := 0, totalLength := 0x2400, identification := 0
    flagsFragmentOffset := 0, ttl := 64, protocol := ipProtocolIcmp, headerChecksum
    srcIp := net.ourIp, destIp := targetIp }

def echoIcmp (seq checksum : UInt16) : IcmpHeader :=
  { type := icmpEchoRequest, code := 0, checksum, identifier := 0x0001, sequence := seq }

/-- What `net_send_icmp_echo` leaves in `packet`, and the length it sends. -/
def echoPacket (packet : Buf) (net : Station) (targetIp : UInt32) (seq : UInt16) : Buf × Nat :=
  let offset := 0
  -- ethernet header
  let packet := store packet offset (echoEth net).bytes
  let offset := offset + 14
  -- ipv4 header
  let ipv4 := offset
  let packet := store packet ipv4 (echoIpv4 net targetIp 0).bytes
  let packet := store packet (ipv4 + 10) (le16 (netChecksum (packet.toList ipv4 20)))
  let offset := offset + 20
  -- icmp header
  let icmp := offset
  let packet := store packet icmp (echoIcmp seq 0).bytes
  let packet := store packet (offset + 8) echoData
  let offset := offset + (8 + 8)
  let packet := store packet (icmp + 2)
    (le16 (netChecksum (packet.toList icmp (offset - (offset - 8 - 8)))))
  (packet, offset)

/-- The bytes handed to `rtl8139_send_packet`. -/
def sentBytes (sent : Buf × Nat) : List UInt8 := sent.1.toList 0 sent.2

/-! ## What a receiver checks -/

/-- The IPv4 header of a frame. -/
def ipv4HeaderBytes (frame : List UInt8) : List UInt8 := (frame.drop 14).take 20

/-- What follows the IPv4 header. -/
def icmpBytes (frame : List UInt8) : List UInt8 := frame.drop 34

/-- A 16-bit field in network order. -/
def be16At (bytes : List UInt8) (off : Nat) : Nat :=
  (bytes.getD off 0).toNat * 256 + (bytes.getD (off + 1) 0).toNat

/-- An ICMP message with a zero in its checksum field. -/
def withoutChecksum (message : List UInt8) : List UInt8 :=
  message.take 2 ++ [0, 0] ++ message.drop 4

/-- A frame with a 20-byte IPv4 header and an ICMP message, as a receiver checks it. -/
structure Verifies (frame : List UInt8) : Prop where
  version : (ipv4HeaderBytes frame).getD 0 0 = 0x45
  header : OnesComplement.sum 65536 (beWords (ipv4HeaderBytes frame)) = 0xFFFF
  message : OnesComplement.sum 65536 (beWords (icmpBytes frame)) = 0xFFFF
  totalLength : be16At (ipv4HeaderBytes frame) 2 = frame.length - 14
  covers : be16At (icmpBytes frame) 2 = internetChecksum (withoutChecksum (icmpBytes frame))

/-! ## The stores -/

theorem store_inside {packet : Buf} {off i : Nat} {bytes : List UInt8} (inside : i < bytes.length) :
    store packet off bytes (off + i) = bytes[i] := by
  rw [store, Buf.blit_of_inside (Nat.le_add_right off i) (by omega), Nat.add_sub_cancel_left,
    Buf.ofList, List.getD_eq_getElem?_getD, List.getElem?_eq_getElem inside, Option.getD_some]

theorem store_outside {packet : Buf} {off i : Nat} {bytes : List UInt8}
    (outside : i < off ∨ off + bytes.length ≤ i) : store packet off bytes i = packet i :=
  Buf.blit_of_outside outside

theorem toList_store (packet : Buf) (off : Nat) (bytes : List UInt8) :
    (store packet off bytes).toList off bytes.length = bytes := by
  apply List.ext_getElem (Buf.length_toList _ _ _)
  intro i left right
  simp only [Buf.toList, List.getElem_map, List.getElem_range]
  exact store_inside right

/-- A store behind what is there appends to it. -/
theorem toList_store_next (packet : Buf) (off n : Nat) (bytes : List UInt8) :
    (store packet (off + n) bytes).toList off (n + bytes.length) =
      packet.toList off n ++ bytes := by
  rw [Buf.toList_append, toList_store]
  congr 1
  apply Buf.toList_congr
  intro i _ before
  exact store_outside (.inl before)

/-- A store within what is there replaces a part of it. -/
theorem toList_store_within {packet : Buf} {off n place : Nat} {before old after bytes : List UInt8}
    (there : packet.toList off n = before ++ old ++ after) (same : bytes.length = old.length)
    (at_ : place = off + before.length) :
    (store packet place bytes).toList off n = before ++ bytes ++ after := by
  have length : n = before.length + bytes.length + after.length := by
    rw [← Buf.length_toList packet off n, there, List.length_append, List.length_append, same]
  rw [length, Buf.toList_append, Buf.toList_append] at there
  have halves := List.append_inj there (by
    rw [List.length_append, List.length_append, Buf.length_toList, Buf.length_toList, same])
  have parts := List.append_inj halves.1 (Buf.length_toList _ _ _)
  have first : (store packet place bytes).toList off before.length = before := by
    refine Eq.trans (Buf.toList_congr fun i _ less => store_outside (.inl ?_)) parts.1
    omega
  have second : (store packet place bytes).toList (off + before.length) bytes.length = bytes := by
    rw [at_]
    exact toList_store packet _ bytes
  have third : (store packet place bytes).toList (off + (before.length + bytes.length))
      after.length = after := by
    refine Eq.trans (Buf.toList_congr fun i more _ => store_outside (.inr ?_)) halves.2
    omega
  rw [length, Buf.toList_append, Buf.toList_append, first, second, third]

/-! ## The frame -/

/-- The IPv4 header before its checksum. -/
def ipv4Front : List UInt8 :=
  [0x45, 0] ++ le16 0x2400 ++ le16 0 ++ le16 0 ++ [64, ipProtocolIcmp]

/-- The IPv4 header behind its checksum. -/
def ipv4Addresses (net : Station) (targetIp : UInt32) : List UInt8 :=
  le32 net.ourIp ++ le32 targetIp

/-- The ICMP message behind its checksum. -/
def icmpRest (seq : UInt16) : List UInt8 := le16 0x0001 ++ le16 seq ++ echoData

section Parts

variable (net : Station) (targetIp : UInt32) (seq sum : UInt16)

theorem echoIpv4_parts : (echoIpv4 net targetIp sum).bytes =
    ipv4Front ++ le16 sum ++ ipv4Addresses net targetIp := rfl

theorem echoIcmp_parts : (echoIcmp seq sum).bytes ++ echoData =
    [icmpEchoRequest, 0] ++ le16 sum ++ icmpRest seq := rfl

end Parts

/-- The frame is sent as `netSendIcmpEcho` has it, whatever the buffer held. -/
theorem echoPacket_frame (packet : Buf) (net : Station) (targetIp : UInt32) (seq : UInt16) :
    sentBytes (echoPacket packet net targetIp seq) = (netSendIcmpEcho net targetIp seq).frame := by
  have sent : (netSendIcmpEcho net targetIp seq).frame = (echoEth net).bytes ++
      (echoIpv4 net targetIp (netChecksum (echoIpv4 net targetIp 0).bytes)).bytes ++
      (echoIcmp seq (netChecksum ((echoIcmp seq 0).bytes ++ echoData))).bytes ++ echoData := rfl
  rw [sent]
  unfold sentBytes echoPacket
  dsimp only [Nat.reduceAdd, Nat.reduceSub]
  -- the ethernet header
  have upTo : (store packet 0 (echoEth net).bytes).toList 0 14 = (echoEth net).bytes :=
    toList_store packet 0 (echoEth net).bytes
  generalize store packet 0 (echoEth net).bytes = packet₁ at upTo ⊢
  -- the ipv4 header
  have header : (store packet₁ 14 (echoIpv4 net targetIp 0).bytes).toList 14 20 =
      (echoIpv4 net targetIp 0).bytes := toList_store packet₁ 14 _
  have upTo₂ : (store packet₁ 14 (echoIpv4 net targetIp 0).bytes).toList 0 34 =
      (echoEth net).bytes ++ (echoIpv4 net targetIp 0).bytes := by
    rw [← upTo]
    exact toList_store_next packet₁ 0 14 _
  rw [header]
  generalize store packet₁ 14 (echoIpv4 net targetIp 0).bytes = packet₂ at upTo₂ ⊢
  generalize netChecksum (echoIpv4 net targetIp 0).bytes = headerSum
  have upTo₃ : (store packet₂ 24 (le16 headerSum)).toList 0 34 =
      (echoEth net).bytes ++ (echoIpv4 net targetIp headerSum).bytes := by
    rw [echoIpv4_parts, ← List.append_assoc, ← List.append_assoc] at upTo₂ ⊢
    exact toList_store_within upTo₂ rfl rfl
  generalize store packet₂ 24 (le16 headerSum) = packet₃ at upTo₃ ⊢
  -- the icmp header and its data
  have first : (store packet₃ 34 (echoIcmp seq 0).bytes).toList 34 8 = (echoIcmp seq 0).bytes :=
    toList_store packet₃ 34 _
  have upTo₄ : (store packet₃ 34 (echoIcmp seq 0).bytes).toList 0 42 =
      (echoEth net).bytes ++ (echoIpv4 net targetIp headerSum).bytes ++ (echoIcmp seq 0).bytes := by
    rw [← upTo₃]
    exact toList_store_next packet₃ 0 34 _
  generalize store packet₃ 34 (echoIcmp seq 0).bytes = packet₄ at first upTo₄ ⊢
  have message : (store packet₄ 42 echoData).toList 34 16 = (echoIcmp seq 0).bytes ++ echoData := by
    rw [← first]
    exact toList_store_next packet₄ 34 8 _
  have upTo₅ : (store packet₄ 42 echoData).toList 0 50 =
      (echoEth net).bytes ++ (echoIpv4 net targetIp headerSum).bytes ++ (echoIcmp seq 0).bytes ++
        echoData := by
    rw [← upTo₄]
    exact toList_store_next packet₄ 0 42 _
  rw [message]
  generalize store packet₄ 42 echoData = packet₅ at upTo₅ ⊢
  generalize netChecksum ((echoIcmp seq 0).bytes ++ echoData) = messageSum
  rw [List.append_assoc, echoIcmp_parts, ← List.append_assoc, ← List.append_assoc] at upTo₅ ⊢
  exact toList_store_within upTo₅ rfl rfl

theorem be16At_be16 {x : Nat} (word : x < 65536) (before after : List UInt8) :
    be16At (before ++ be16 x ++ after) before.length = x := by
  have high : x / 256 < 256 := Nat.div_lt_of_lt_mul word
  have first : (before ++ be16 x ++ after).getD before.length 0 = UInt8.ofNat (x / 256) := by
    rw [List.append_assoc, List.getD_eq_getElem?_getD,
      List.getElem?_append_right (Nat.le_refl _), Nat.sub_self]
    rfl
  have second :
      (before ++ be16 x ++ after).getD (before.length + 1) 0 = UInt8.ofNat (x % 256) := by
    rw [List.append_assoc, List.getD_eq_getElem?_getD,
      List.getElem?_append_right (Nat.le_add_right _ 1), Nat.add_sub_cancel_left]
    rfl
  rw [be16At, first, second, UInt8.toNat_ofNat', UInt8.toNat_ofNat']
  omega

/-- Every frame verifies at the receiver. -/
theorem echoPacket_verifies (packet : Buf) (net : Station) (targetIp : UInt32) (seq : UInt16) :
    Verifies (sentBytes (echoPacket packet net targetIp seq)) := by
  rw [echoPacket_frame]
  have header : ipv4HeaderBytes (netSendIcmpEcho net targetIp seq).frame =
      ipv4Front ++ le16 (netChecksum (ipv4Front ++ le16 0 ++ ipv4Addresses net targetIp)) ++
        ipv4Addresses net targetIp := rfl
  have message : icmpBytes (netSendIcmpEcho net targetIp seq).frame = [icmpEchoRequest, 0] ++
      le16 (netChecksum ([icmpEchoRequest, 0] ++ le16 0 ++ icmpRest seq)) ++ icmpRest seq := rfl
  have length : (netSendIcmpEcho net targetIp seq).frame.length = 50 := rfl
  have field : be16At ipv4Front 2 = 36 := by decide
  have fronted : ipv4Front.length = 10 := rfl
  have addressed : (ipv4Addresses net targetIp).length = 8 := rfl
  have follows : (icmpRest seq).length = 12 := rfl
  refine ⟨rfl, ?_, ?_, ?_, ?_⟩
  · rw [header]
    exact sum_with_checksum (by rw [fronted]) (by rw [addressed]) (show 20 < 2 ^ 16 by decide)
  · rw [message]
    exact sum_with_checksum rfl (by rw [follows]) (show 16 < 2 ^ 16 by decide)
  · rw [length]
    exact field
  · have covered : ([icmpEchoRequest, 0] ++ le16 0 ++ icmpRest seq).length = 16 := rfl
    have word : internetChecksum ([icmpEchoRequest, 0] ++ le16 0 ++ icmpRest seq) < 65536 :=
      Nat.lt_succ_of_le (Nat.sub_le _ _)
    have stored := checksum_even (show _ < 2 ^ 16 by rw [covered]; decide) (by rw [covered])
    have zeroed : withoutChecksum (icmpBytes (netSendIcmpEcho net targetIp seq).frame) =
        [icmpEchoRequest, 0] ++ le16 0 ++ icmpRest seq := rfl
    rw [zeroed, message, stored]
    exact be16At_be16 word [icmpEchoRequest, 0] (icmpRest seq)

end XosKernel.Net
