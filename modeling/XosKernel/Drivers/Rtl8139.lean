/-
# Drivers.Rtl8139 -- the transmit side of the network card

The driver and the card share four descriptors.  `rtl8139_send_packet` copies a packet into
the buffer of its current descriptor and hands the descriptor to the card by the own bit of
its status register; the card sends what is there and takes the bit away.  Both sides go round
the descriptors by themselves.

The card is what `rtl8139.h` says of the bit: it sends the packet of a descriptor that it
owns and then gives the descriptor back with any status.  When it does so is left to the run,
and so are writes of the rest of the kernel to memory that is not a transmit buffer.  Of the
registers the 32-bit ones are here.
-/
import XosKernel.Mm.Pages
import XosKernel.Theory.OwnedRing

namespace XosKernel.Drivers

open XosKernel.Theory XosKernel.Mm

set_option autoImplicit false

/-! ## The driver -/

def rtl8139NumTxDesc : Nat := 4

def rtl8139TxBufSize : Nat := 0x800

/-- Offsets of registers. -/
def rtl8139TxStatus0 : Nat := 0x10
def rtl8139TxAddr0 : Nat := 0x20
def rtl8139RbStart : Nat := 0x30
def rtl8139Tcr : Nat := 0x40
def rtl8139Rcr : Nat := 0x44

/-- `RTL8139_TSD_OWN`: the card owns the descriptor. -/
def tsdOwn : UInt32 := 0x80000000

def tsdSize : UInt32 := 0x00001FFF

/-- The buffers and the current descriptor of `rtl8139_device_t`; a pointer of 0 is `NULL`. -/
structure Rtl8139 where
  rxBuffer : Nat
  rxBufferPa : Nat
  txBuffers : Nat → Nat
  txBufferPa : Nat → Nat
  txCurrentDesc : Nat

/-- The device before `rtl8139_init`. -/
def rtl8139Dev : Rtl8139 := ⟨0, 0, fun _ => 0, fun _ => 0, 0⟩

/-- The loop of `rtl8139_init` over the transmit buffers, from the `i`th of them on. -/
def allocTxBuffers : Nat → Nat → Rtl8139 → Buf → Bool × Rtl8139 × Buf
  | 0, _, dev, bitmap => (true, dev, bitmap)
  | left + 1, i, dev, bitmap =>
      match pmmAllocPage bitmap with
      | (none, bitmap) =>
          (false, { dev with txBuffers := Function.update dev.txBuffers i 0 }, bitmap)
      | (some page, bitmap) =>
          allocTxBuffers left (i + 1)
            { dev with
              txBuffers := Function.update dev.txBuffers i page
              txBufferPa := Function.update dev.txBufferPa i page } bitmap

/-- The part of `rtl8139_init` that allocates; it returns early if a page is missing. -/
def rtl8139InitBuffers (dev : Rtl8139) (bitmap : Buf) : Bool × Rtl8139 × Buf :=
  match pmmAllocContiguous bitmap 2 with
  | (none, bitmap) => (false, { dev with rxBuffer := 0 }, bitmap)
  | (some rx, bitmap) =>
      match allocTxBuffers rtl8139NumTxDesc 0 { dev with rxBuffer := rx, rxBufferPa := rx }
          bitmap with
      | (true, dev, bitmap) => (true, { dev with txCurrentDesc := 0 }, bitmap)
      | stopped => stopped

/-- The 32-bit registers of the card, by their offset. -/
abbrev CardRegs := Nat → UInt32

/-- The part of `rtl8139_init` that sets the 32-bit registers. -/
def rtl8139InitRegs (dev : Rtl8139) (reg : CardRegs) : CardRegs :=
  let reg := Function.update reg rtl8139RbStart (UInt32.ofNat dev.rxBufferPa)
  let reg := (List.range rtl8139NumTxDesc).foldl (fun reg i =>
    Function.update reg (rtl8139TxAddr0 + i * 4) (UInt32.ofNat (dev.txBufferPa i))) reg
  let bit (n : UInt32) : UInt32 := 1 <<< n
  let rcr := (reg rtl8139Rcr ||| (bit 15 ||| bit 8 ||| bit 7)) &&& ~~~bit 6
  let reg := Function.update reg rtl8139Rcr rcr
  let tcr := (reg rtl8139Tcr &&& ~~~(0x1F000 : UInt32)) ||| 0x8000
  Function.update reg rtl8139Tcr tcr

/-- What a caller hands over: the length is 16 bits wide. -/
abbrev Packet := { data : List UInt8 // data.length < 2 ^ 16 }

/-- The messages with which `rtl8139_send_packet` returns. -/
inductive SendResult where
  | notInitialized
  | tooLarge
  | busy
  | sent
  deriving DecidableEq, Repr

/-- The driver, the card's registers and the descriptor that the card looks at next, and
memory. -/
structure Card where
  dev : Rtl8139
  reg : CardRegs
  next : Nat
  mem : Nat → UInt8

/-- Copy bytes to an address, one after the other. -/
def storeBytes (mem : Nat → UInt8) (at_ : Nat) : List UInt8 → Nat → UInt8
  | [] => mem
  | b :: bs => storeBytes (Function.update mem at_ b) (at_ + 1) bs

def bytesAt (mem : Nat → UInt8) (at_ n : Nat) : List UInt8 :=
  (List.range n).map fun i => mem (at_ + i)

/-- Does the card own the descriptor? -/
def Card.owned (c : Card) (desc : Nat) : Bool :=
  c.reg (rtl8139TxStatus0 + desc * 4) &&& tsdOwn != 0

/-- `rtl8139_send_packet` -/
def rtl8139SendPacket (c : Card) (packet : Packet) : SendResult × Card :=
  if c.dev.txBuffers 0 = 0 then (.notInitialized, c)
  else if packet.1.length > rtl8139TxBufSize then (.tooLarge, c)
  else
    let desc := c.dev.txCurrentDesc
    if c.owned desc then (.busy, c)
    else
      let txlen := UInt32.ofNat packet.1.length &&& tsdSize
      (.sent,
        { c with
          mem := storeBytes c.mem (c.dev.txBuffers desc) packet.1
          reg := Function.update c.reg (rtl8139TxStatus0 + desc * 4) (tsdOwn ||| txlen)
          dev := { c.dev with
            txCurrentDesc := (c.dev.txCurrentDesc + 1) % rtl8139NumTxDesc } })

/-! ## The card -/

/-- What a descriptor has the card send. -/
def Card.frame (c : Card) (desc : Nat) : List UInt8 :=
  bytesAt c.mem (c.reg (rtl8139TxAddr0 + desc * 4)).toNat
    (c.reg (rtl8139TxStatus0 + desc * 4) &&& tsdSize).toNat

/-- The card sends the frame of its next descriptor, if it owns it, and gives it back. -/
def Card.transmit (c : Card) (status : UInt32) : Option (List UInt8) × Card :=
  if c.owned c.next then
    (some (c.frame c.next),
      { c with
        reg := Function.update c.reg (rtl8139TxStatus0 + c.next * 4) (status &&& ~~~tsdOwn)
        next := (c.next + 1) % rtl8139NumTxDesc })
  else (none, c)

/-- The card after a reset: it owns no descriptor and starts with the first one. -/
def resetCard (dev : Rtl8139) (reg : CardRegs) (mem : Nat → UInt8) : Card where
  dev := dev
  reg := fun offset => if offset = 0x10 ∨ offset = 0x14 ∨ offset = 0x18 ∨ offset = 0x1C then
    reg offset &&& ~~~tsdOwn else reg offset
  next := 0
  mem := mem

/-- The part of `rtl8139_init` behind the allocations, for a card that resets. -/
def rtl8139InitCard (dev : Rtl8139) (reg : CardRegs) (mem : Nat → UInt8) : Card :=
  let c := resetCard dev reg mem
  { c with reg := rtl8139InitRegs dev c.reg }

/-- `rtl8139_init`; none if it returned early. -/
def rtl8139Init (bitmap : Buf) (reg : CardRegs) (mem : Nat → UInt8) : Option Card :=
  match rtl8139InitBuffers rtl8139Dev bitmap with
  | (true, dev, _) => some (rtl8139InitCard dev reg mem)
  | (false, _, _) => none

/-! ## Runs -/

inductive CardAction where
  | send (packet : Packet)
  | transmit (status : UInt32)
  /-- The rest of the kernel writes a byte. -/
  | write (address : Nat) (value : UInt8)

/-- A card with the packets that were taken and the frames that were sent, oldest first. -/
structure Traffic where
  card : Card
  accepted : List (List UInt8)
  wire : List (List UInt8)

def Traffic.step (t : Traffic) : CardAction → Traffic
  | .send packet =>
      let r := rtl8139SendPacket t.card packet
      { t with
        card := r.2
        accepted := if r.1 = .sent then t.accepted ++ [packet.1] else t.accepted }
  | .transmit status =>
      let r := t.card.transmit status
      { t with card := r.2, wire := t.wire ++ r.1.toList }
  | .write address value =>
      { t with card := { t.card with mem := Function.update t.card.mem address value } }

def Traffic.run (t : Traffic) (actions : List CardAction) : Traffic := actions.foldl Traffic.step t

/-- The rest of the kernel keeps off the transmit buffers. -/
def CardAction.keepsOff (dev : Rtl8139) : CardAction → Prop
  | .write address _ => ∀ i < rtl8139NumTxDesc,
      ¬ (dev.txBuffers i ≤ address ∧ address < dev.txBuffers i + rtl8139TxBufSize)
  | _ => True

end XosKernel.Drivers
