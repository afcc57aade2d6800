/-
# Drivers.Transmit -- packets reach the wire once and in order

The four descriptors are a ring of slots that the driver and the card hand to each other
(`Card.ring`): a descriptor that the card owns is a full slot, and what it has the card send
is in it.  A send fills a slot and a transmission empties one, so the card sends what the
driver took, in the order in which it took it, and no buffer changes while the card owns it
(`transmits_in_order`).

That needs an `rtl8139_init` that got all its pages.  One that ran out of pages after the first
transmit buffer leaves a driver that sends all the same (`sends_to_null`).
-/
import XosKernel.Drivers.Rtl8139
import XosKernel.Mm.FreePages

namespace XosKernel.Drivers

open XosKernel.Theory XosKernel.Mm

set_option autoImplicit false

/-! ## Bytes -/

theorem storeBytes_outside {bs : List UInt8} : ∀ {mem : Nat → UInt8} {at_ a : Nat},
    a < at_ ∨ at_ + bs.length ≤ a → storeBytes mem at_ bs a = mem a := by
  induction bs with
  | nil => exact fun _ => rfl
  | cons b bs ih =>
      intro mem at_ a outside
      rw [List.length_cons] at outside
      rw [storeBytes, ih (by omega), Function.update_of_ne (by omega)]

theorem storeBytes_inside {bs : List UInt8} : ∀ {mem : Nat → UInt8} {at_ i : Nat}
    (inside : i < bs.length), storeBytes mem at_ bs (at_ + i) = bs[i] := by
  induction bs with
  | nil => exact fun impossible => absurd impossible (Nat.not_lt_zero _)
  | cons b bs ih =>
      intro mem at_ i inside
      cases i with
      | zero => rw [storeBytes, storeBytes_outside (by omega), Nat.add_zero, Function.update_self,
          List.getElem_cons_zero]
      | succ i =>
          have shift : at_ + (i + 1) = at_ + 1 + i := by omega
          rw [storeBytes, shift, ih (by simpa using inside), List.getElem_cons_succ]

theorem bytesAt_storeBytes (mem : Nat → UInt8) (at_ : Nat) (bs : List UInt8) :
    bytesAt (storeBytes mem at_ bs) at_ bs.length = bs := by
  refine List.ext_getElem (by simp [bytesAt]) fun _ _ inside => ?_
  simp only [bytesAt, List.getElem_map, List.getElem_range]
  exact storeBytes_inside inside

theorem bytesAt_congr {mem mem' : Nat → UInt8} {at_ n : Nat}
    (same : ∀ a, at_ ≤ a → a < at_ + n → mem' a = mem a) :
    bytesAt mem' at_ n = bytesAt mem at_ n :=
  List.map_congr_left fun _ member =>
    same _ (Nat.le_add_right _ _) (Nat.add_lt_add_left (List.mem_range.mp member) _)

/-! ## The own bit -/

theorem given_back (status : UInt32) : status &&& ~~~tsdOwn &&& tsdOwn = 0 := by
  have clear : ~~~tsdOwn &&& tsdOwn = 0 := by decide
  rw [UInt32.and_assoc, clear]
  exact UInt32.and_zero

/-- The status that a send writes has the own bit and the length. -/
theorem handed_over {n : Nat} (small : n ≤ rtl8139TxBufSize) :
    (tsdOwn ||| (UInt32.ofNat n &&& tsdSize)) &&& tsdOwn ≠ 0 ∧
      ((tsdOwn ||| (UInt32.ofNat n &&& tsdSize)) &&& tsdSize).toNat = n := by
  have split (m : UInt32) : (tsdOwn ||| (UInt32.ofNat n &&& tsdSize)) &&& m =
      (tsdOwn &&& m) ||| (UInt32.ofNat n &&& (tsdSize &&& m)) := by
    apply UInt32.toBitVec_inj.mp
    simp only [UInt32.toBitVec_and, UInt32.toBitVec_or, BitVec.and_or_distrib_right,
      BitVec.and_assoc]
  have own : tsdSize &&& tsdOwn = 0 := by decide
  have size : tsdOwn &&& tsdSize = 0 := by decide
  unfold rtl8139TxBufSize at small
  constructor
  · rw [split, own, UInt32.and_zero, UInt32.or_zero]
    decide
  · rw [split, size, UInt32.zero_or, UInt32.and_self, UInt32.toNat_and, UInt32.toNat_ofNat']
    have mask : tsdSize.toNat = 2 ^ 13 - 1 := rfl
    rw [mask, Nat.and_two_pow_sub_one_eq_mod]
    omega

/-! ## The ring of descriptors -/

/-- The descriptors: those that the card owns are full, of what they have it send. -/
def Card.ring (c : Card) : OwnedRing (List UInt8) where
  slots := fun i => if c.owned i then some (c.frame i) else none
  put := c.dev.txCurrentDesc
  take := c.next

/-- Driver and card mean the same four buffers, which do not overlap. -/
structure Card.Wired (c : Card) (buffers : Nat → Nat) : Prop where
  driver : c.dev.txBuffers = buffers
  first : buffers 0 ≠ 0
  apart : ∀ i < 4, ∀ j < 4, i ≠ j → buffers i + rtl8139TxBufSize ≤ buffers j ∨
    buffers j + rtl8139TxBufSize ≤ buffers i
  addresses : ∀ i < 4, (c.reg (rtl8139TxAddr0 + i * 4)).toNat = buffers i
  lengths : ∀ i < 4, c.owned i = true →
    (c.reg (rtl8139TxStatus0 + i * 4) &&& tsdSize).toNat ≤ rtl8139TxBufSize

theorem status_ne {i j : Nat} (other : i ≠ j) :
    rtl8139TxStatus0 + i * 4 ≠ rtl8139TxStatus0 + j * 4 := by omega

theorem address_ne {i j : Nat} (small : j < 4) :
    rtl8139TxAddr0 + i * 4 ≠ rtl8139TxStatus0 + j * 4 := by
  unfold rtl8139TxAddr0 rtl8139TxStatus0
  omega

/-- The card after a send that took the packet. -/
def Card.taking (c : Card) (packet : Packet) : Card :=
  { c with
    mem := storeBytes c.mem (c.dev.txBuffers c.dev.txCurrentDesc) packet.1
    reg := Function.update c.reg (rtl8139TxStatus0 + c.dev.txCurrentDesc * 4)
      (tsdOwn ||| (UInt32.ofNat packet.1.length &&& tsdSize))
    dev := { c.dev with txCurrentDesc := (c.dev.txCurrentDesc + 1) % rtl8139NumTxDesc } }

/-- What a send does. -/
theorem send_cases (c : Card) (packet : Packet) :
    (c.dev.txBuffers 0 = 0 ∧ rtl8139SendPacket c packet = (.notInitialized, c)) ∨
      c.dev.txBuffers 0 ≠ 0 ∧
        ((rtl8139TxBufSize < packet.1.length ∧ rtl8139SendPacket c packet = (.tooLarge, c)) ∨
        (packet.1.length ≤ rtl8139TxBufSize ∧ c.owned c.dev.txCurrentDesc = true ∧
          rtl8139SendPacket c packet = (.busy, c)) ∨
        (packet.1.length ≤ rtl8139TxBufSize ∧ c.owned c.dev.txCurrentDesc = false ∧
          rtl8139SendPacket c packet = (.sent, c.taking packet))) := by
  unfold rtl8139SendPacket
  by_cases missing : c.dev.txBuffers 0 = 0
  · rw [if_pos missing]
    exact .inl ⟨missing, rfl⟩
  · rw [if_neg missing]
    refine .inr ⟨missing, ?_⟩
    by_cases large : rtl8139TxBufSize < packet.1.length
    · rw [if_pos large]
      exact .inl ⟨large, rfl⟩
    · have fits := Nat.not_lt.mp large
      rw [if_neg large]
      by_cases owned : c.owned c.dev.txCurrentDesc = true
      · exact .inr (.inl ⟨fits, owned, if_pos owned⟩)
      · exact .inr (.inr ⟨fits, Bool.eq_false_iff.mpr owned, if_neg owned⟩)

section Wired

variable {c : Card} {buffers : Nat → Nat} (wired : c.Wired buffers)
include wired

/-- Behind `rtl8139_init` a send takes a packet that fits if the driver's slot is empty. -/
theorem Card.Wired.send (packet : Packet) :
    (rtl8139TxBufSize < packet.1.length ∧ rtl8139SendPacket c packet = (.tooLarge, c)) ∨
      (packet.1.length ≤ rtl8139TxBufSize ∧ c.owned c.dev.txCurrentDesc = true ∧
        rtl8139SendPacket c packet = (.busy, c)) ∨
      (packet.1.length ≤ rtl8139TxBufSize ∧ c.owned c.dev.txCurrentDesc = false ∧
        rtl8139SendPacket c packet = (.sent, c.taking packet)) := by
  obtain ⟨missing, -⟩ | ⟨-, sends⟩ := send_cases c packet
  · exact absurd missing (wired.driver ▸ wired.first)
  · exact sends

theorem Card.Wired.taking {packet : Packet} (fits : packet.1.length ≤ rtl8139TxBufSize)
    (low : c.dev.txCurrentDesc < 4) :
    (c.taking packet).Wired buffers ∧
      ∀ i < 4, (c.taking packet).ring.slots i = (c.ring.fill 4 packet.1).slots i := by
  obtain ⟨own, length⟩ := handed_over fits
  have status (i : Nat) (other : i ≠ c.dev.txCurrentDesc) :
      (c.taking packet).reg (rtl8139TxStatus0 + i * 4) = c.reg (rtl8139TxStatus0 + i * 4) :=
    Function.update_of_ne (status_ne other) _ _
  have here : (c.taking packet).reg (rtl8139TxStatus0 + c.dev.txCurrentDesc * 4) =
      tsdOwn ||| (UInt32.ofNat packet.1.length &&& tsdSize) := Function.update_self ..
  have address (i : Nat) : (c.taking packet).reg (rtl8139TxAddr0 + i * 4) =
      c.reg (rtl8139TxAddr0 + i * 4) := Function.update_of_ne (address_ne low) _ _
  have ownedSame (i : Nat) (other : i ≠ c.dev.txCurrentDesc) :
      (c.taking packet).owned i = c.owned i := by
    unfold Card.owned
    rw [status i other]
  have ownedHere : (c.taking packet).owned c.dev.txCurrentDesc = true := by
    unfold Card.owned
    rw [here]
    exact bne_iff_ne.mpr own
  constructor
  · refine ⟨wired.driver, wired.first, wired.apart, fun i inside => ?_, fun i inside owned => ?_⟩
    · rw [address i]
      exact wired.addresses i inside
    · by_cases is : i = c.dev.txCurrentDesc
      · rw [is, here, length]
        exact fits
      · rw [status i is]
        exact wired.lengths i inside (ownedSame i is ▸ owned)
  · intro i inside
    change (if (c.taking packet).owned i then some ((c.taking packet).frame i) else none) =
      Function.update c.ring.slots c.dev.txCurrentDesc (some packet.1) i
    have stored : (c.taking packet).mem =
        storeBytes c.mem (buffers c.dev.txCurrentDesc) packet.1 := wired.driver ▸ rfl
    by_cases is : i = c.dev.txCurrentDesc
    · subst is
      rw [if_pos ownedHere, Function.update_self, Card.frame, here, length, address,
        wired.addresses _ low, stored, bytesAt_storeBytes]
    · rw [ownedSame i is, Function.update_of_ne is]
      change _ = if c.owned i then some (c.frame i) else none
      by_cases owned : c.owned i = true
      · rw [if_pos owned, if_pos owned, Card.frame, Card.frame, address, status i is, stored]
        congr 1
        refine bytesAt_congr fun a least most => storeBytes_outside ?_
        have short := wired.lengths i inside owned
        rw [wired.addresses i inside] at least most
        have := wired.apart i inside _ low is
        omega
      · rw [if_neg owned, if_neg owned]

/-- A transmission empties the card's slot. -/
theorem Card.Wired.transmit (status : UInt32) (low : c.next < 4) (full : c.owned c.next = true) :
    (c.transmit status).1 = some (c.frame c.next) ∧ (c.transmit status).2.Wired buffers ∧
      (c.transmit status).2.ring.put = c.ring.put ∧
      (c.transmit status).2.ring.take = (c.ring.take + 1) % 4 ∧
      ∀ i < 4, (c.transmit status).2.ring.slots i = (c.ring.empty 4).slots i := by
  unfold Card.transmit
  rw [if_pos full]
  generalize is : ({ c with
    reg := Function.update c.reg (rtl8139TxStatus0 + c.next * 4) (status &&& ~~~tsdOwn)
    next := (c.next + 1) % rtl8139NumTxDesc } : Card) = c'
  have other (i : Nat) (ne : i ≠ c.next) :
      c'.reg (rtl8139TxStatus0 + i * 4) = c.reg (rtl8139TxStatus0 + i * 4) := by
    rw [← is]
    exact Function.update_of_ne (status_ne ne) _ _
  have here : c'.owned c.next = false := by
    have back : c'.reg (rtl8139TxStatus0 + c.next * 4) = status &&& ~~~tsdOwn := by
      rw [← is]
      exact Function.update_self ..
    rw [Card.owned, back, given_back]
    rfl
  have ownedSame (i : Nat) (ne : i ≠ c.next) : c'.owned i = c.owned i := by
    rw [Card.owned, Card.owned, other i ne]
  have address (i : Nat) :
      c'.reg (rtl8139TxAddr0 + i * 4) = c.reg (rtl8139TxAddr0 + i * 4) := by
    rw [← is]
    exact Function.update_of_ne (address_ne low) _ _
  have memory : c'.mem = c.mem := by rw [← is]
  refine ⟨rfl, ⟨?_, wired.first, wired.apart, fun i inside => ?_, fun i inside owned => ?_⟩, ?_, ?_,
    fun i inside => ?_⟩
  · rw [← is]
    exact wired.driver
  · rw [address i]
    exact wired.addresses i inside
  · by_cases same : i = c.next
    · rw [same, here] at owned
      cases owned
    · rw [other i same]
      exact wired.lengths i inside (ownedSame i same ▸ owned)
  · rw [← is]
    rfl
  · rw [← is]
    rfl
  · change (if c'.owned i then some (c'.frame i) else none) =
      Function.update c.ring.slots c.next none i
    by_cases same : i = c.next
    · subst same
      rw [here, Function.update_self]
      rfl
    · rw [ownedSame i same, Function.update_of_ne same, Card.frame, address, other i same, memory]
      rfl

/-- A write beside the buffers leaves what the card is to send. -/
theorem Card.Wired.write {address : Nat} (value : UInt8)
    (beside : ∀ i < 4, ¬ (buffers i ≤ address ∧ address < buffers i + rtl8139TxBufSize)) :
    ({ c with mem := Function.update c.mem address value } : Card).Wired buffers ∧
      ∀ i < 4, ({ c with mem := Function.update c.mem address value } : Card).ring.slots i =
        c.ring.slots i := by
  refine ⟨⟨wired.driver, wired.first, wired.apart, wired.addresses, wired.lengths⟩, ?_⟩
  intro i inside
  change (if c.owned i then some _ else none) = if c.owned i then some _ else none
  by_cases owned : c.owned i = true
  · rw [if_pos owned, if_pos owned]
    congr 1
    refine bytesAt_congr fun a low high => Function.update_of_ne ?_ _ _
    rintro rfl
    rw [wired.addresses i inside] at low high
    exact beside i inside ⟨low, Nat.lt_of_lt_of_le high
      (Nat.add_le_add_left (wired.lengths i inside owned) _)⟩
  · rw [if_neg owned, if_neg owned]

end Wired

/-! ## The buffers of `rtl8139_init` -/

/-- The loop allocates pages that were free, each of them once. -/
theorem allocTxBuffers_true {left : Nat} : ∀ {i : Nat} {dev dev' : Rtl8139} {bitmap bitmap' : Buf},
    allocTxBuffers left i dev bitmap = (true, dev', bitmap') →
    ∃ page : Nat → Nat,
      (∀ j, i ≤ j → j < i + left → Page (page j) ∧ bitmapTest bitmap (page j) = false ∧
        dev'.txBuffers j = page j * pageSize ∧ dev'.txBufferPa j = page j * pageSize) ∧
      (∀ j k, i ≤ j → j < k → k < i + left → page j ≠ page k) ∧
      ∀ j, j < i → dev'.txBuffers j = dev.txBuffers j ∧ dev'.txBufferPa j = dev.txBufferPa j := by
  induction left with
  | zero =>
      intro i dev dev' bitmap bitmap' run
      cases run
      exact ⟨id, by omega, by omega, fun _ _ => ⟨rfl, rfl⟩⟩
  | succ left ih =>
      intro i dev dev' bitmap bitmap' run
      rcases pmmAllocPage_cases bitmap with ⟨p, inside, free, -, alloc⟩ | ⟨-, alloc⟩
      · simp only [allocTxBuffers, alloc] at run
        obtain ⟨page, found, apart, before⟩ := ih run
        have mine : ∀ j, i + 1 ≤ j → j < i + 1 + left →
            page j ≠ p ∧ bitmapTest bitmap (page j) = false := by
          intro j low high
          have later := (found j low high).2.1
          rw [bitmapTest_set] at later
          simpa using later
        refine ⟨Function.update page i p, fun j low high => ?_, fun j k low order high => ?_,
          fun j below => ?_⟩
        · by_cases first : j = i
          · subst first
            have here := before j (Nat.lt_succ_self j)
            simp only [Function.update_self] at here ⊢
            exact ⟨inside, free, here⟩
          · obtain ⟨page_, -, buffer, physical⟩ := found j (by omega) (by omega)
            rw [Function.update_of_ne first]
            exact ⟨page_, (mine j (by omega) (by omega)).2, buffer, physical⟩
        · have later : k ≠ i := by omega
          rw [Function.update_of_ne later]
          by_cases first : j = i
          · subst first
            rw [Function.update_self]
            exact (mine k (by omega) (by omega)).1.symm
          · rw [Function.update_of_ne first]
            exact apart j k (by omega) order (by omega)
        · have other : j ≠ i := by omega
          have same := before j (by omega)
          simpa only [Function.update_of_ne other] using same
      · simp [allocTxBuffers, alloc] at run

theorem initCard_address (dev : Rtl8139) (reg : CardRegs) (mem : Nat → UInt8) {i : Nat}
    (inside : i < 4) : (rtl8139InitCard dev reg mem).reg (rtl8139TxAddr0 + i * 4) =
      UInt32.ofNat (dev.txBufferPa i) := by
  rcases i with _ | _ | _ | _ | i <;> first | rfl | omega

theorem initCard_owned (dev : Rtl8139) (reg : CardRegs) (mem : Nat → UInt8) {i : Nat}
    (inside : i < 4) : (rtl8139InitCard dev reg mem).owned i = false := by
  have status : (rtl8139InitCard dev reg mem).reg (rtl8139TxStatus0 + i * 4) =
      reg (rtl8139TxStatus0 + i * 4) &&& ~~~tsdOwn := by
    rcases i with _ | _ | _ | _ | i <;> first | rfl | omega
  rw [Card.owned, status, given_back]
  rfl

/-- Enough pages for all the buffers. -/
theorem initBuffers_true {dev dev' : Rtl8139} {bitmap bitmap' : Buf}
    (run : rtl8139InitBuffers dev bitmap = (true, dev', bitmap')) :
    dev'.txCurrentDesc = 0 ∧ ∃ page : Nat → Nat,
      (∀ i < 4, Page (page i) ∧ dev'.txBuffers i = page i * pageSize ∧
        dev'.txBufferPa i = page i * pageSize) ∧
      ∀ i < 4, ∀ j < 4, i < j → page i ≠ page j := by
  unfold rtl8139InitBuffers at run
  split at run
  next => cases run
  next rx after _ =>
    split at run
    next dev'' after' loop =>
      cases run
      obtain ⟨page, found, apart, -⟩ := allocTxBuffers_true loop
      have most : 0 + rtl8139NumTxDesc = 4 := rfl
      rw [most] at found apart
      refine ⟨rfl, page, fun i inside => ?_, fun i _ j inside order => ?_⟩
      · obtain ⟨isPage, -, rest⟩ := found i (Nat.zero_le i) inside
        exact ⟨isPage, rest⟩
      · exact apart i j (Nat.zero_le i) order inside
    next stopped => exact absurd run (stopped _ _)

/-- An `rtl8139_init` that got its pages leaves four buffers and no descriptor with the card. -/
theorem rtl8139Init_wired {bitmap : Buf} {reg : CardRegs} {mem : Nat → UInt8} {c : Card}
    (ready : rtl8139Init bitmap reg mem = some c) :
    c.Wired c.dev.txBuffers ∧ c.ring.Stands 4 [] := by
  unfold rtl8139Init at ready
  split at ready
  next dev bitmap' run =>
    cases ready
    obtain ⟨current, page, found, apart⟩ := initBuffers_true run
    have ordered : ∀ i < 4, ∀ j < 4, i < j → dev.txBuffers i + rtl8139TxBufSize ≤
        dev.txBuffers j ∨ dev.txBuffers j + rtl8139TxBufSize ≤ dev.txBuffers i := by
      intro i insideI j insideJ order
      have distinct := apart i insideI j insideJ order
      rw [(found i insideI).2.1, (found j insideJ).2.1]
      unfold pageSize rtl8139TxBufSize
      omega
    constructor
    · refine ⟨rfl, ?_, fun i insideI j insideJ other => ?_, fun i inside => ?_,
        fun i inside owned => ?_⟩
      · obtain ⟨⟨low, -⟩, buffer, -⟩ := found 0 (Nat.succ_pos 3)
        change dev.txBuffers 0 ≠ 0
        rw [buffer]
        unfold firstPage at low
        unfold pageSize
        omega
      · rcases Nat.lt_or_gt_of_ne other with order | order
        · exact ordered i insideI j insideJ order
        · exact (ordered j insideJ i insideI order).symm
      · obtain ⟨⟨-, high⟩, buffer, physical⟩ := found i inside
        change _ = dev.txBuffers i
        rw [initCard_address _ _ _ inside, physical, buffer, UInt32.toNat_ofNat']
        unfold totalPages at high
        unfold pageSize
        omega
      · rw [initCard_owned _ _ _ inside] at owned
        cases owned
    · refine OwnedRing.Stands.start (Nat.succ_pos 3) current fun i inside => ?_
      unfold Card.ring
      dsimp only
      rw [initCard_owned _ _ _ inside]
      rfl
  next => cases ready

theorem pmmAllocPage_ne_zero {bitmap bitmap' : Buf} {ptr : Nat}
    (alloc : pmmAllocPage bitmap = (some ptr, bitmap')) : ptr ≠ 0 := by
  rcases pmmAllocPage_cases bitmap with ⟨i, ⟨low, -⟩, -, -, found⟩ | ⟨-, none_⟩
  · rw [found] at alloc
    cases alloc
    unfold firstPage at low
    unfold pageSize
    omega
  · rw [none_] at alloc
    cases alloc

/-- The loop sets as many buffers as there are pages, and needs one for each. -/
theorem allocTxBuffers_pages {left : Nat} : ∀ {i : Nat} {dev : Rtl8139} {bitmap : Buf},
    (∀ j, i ≤ j → dev.txBuffers j = 0) →
    let r := allocTxBuffers left i dev bitmap
    (r.1 = true ↔ left ≤ pmmFreePages bitmap) ∧
      (∀ j, i ≤ j → (r.2.1.txBuffers j = 0 ↔ i + min left (pmmFreePages bitmap) ≤ j)) ∧
      (∀ j, j < i → r.2.1.txBuffers j = dev.txBuffers j) ∧
      r.2.1.txCurrentDesc = dev.txCurrentDesc := by
  induction left with
  | zero =>
      intro i dev bitmap clear
      refine ⟨⟨fun _ => Nat.zero_le _, fun _ => rfl⟩, fun j low => ?_, fun _ _ => rfl, rfl⟩
      rw [Nat.zero_min, Nat.add_zero]
      exact ⟨fun _ => low, fun _ => clear j low⟩
  | succ left ih =>
      intro i dev bitmap clear
      dsimp only
      rcases pmmAllocPage_left bitmap with ⟨none_, alloc⟩ | ⟨ptr, bitmap', alloc, one⟩
      · simp only [allocTxBuffers, alloc, none_]
        refine ⟨⟨nofun, nofun⟩, fun j low => ?_, fun j below => ?_, True.intro⟩
        · have zero : Function.update dev.txBuffers i 0 j = 0 := by
            rw [Function.update_apply]
            split
            · rfl
            · exact clear j low
          rw [Nat.min_zero, Nat.add_zero]
          exact ⟨fun _ => low, fun _ => zero⟩
        · exact Function.update_of_ne (Nat.ne_of_lt below) _ _
      · simp only [allocTxBuffers, alloc]
        obtain ⟨all, set, before, current⟩ := @ih (i + 1)
          { dev with
            txBuffers := Function.update dev.txBuffers i ptr
            txBufferPa := Function.update dev.txBufferPa i ptr } bitmap' fun j low => by
              change Function.update dev.txBuffers i ptr j = 0
              rw [Function.update_of_ne (by omega)]
              exact clear j (by omega)
        refine ⟨all.trans (by omega), fun j low => ?_, fun j below => ?_, current⟩
        · by_cases first : j = i
          · subst first
            have here := before j (Nat.lt_succ_self j)
            simp only [Function.update_self] at here
            rw [here]
            exact ⟨fun zero => absurd zero (pmmAllocPage_ne_zero alloc), by omega⟩
          · rw [set j (by omega)]
            omega
        · have same := before j (by omega)
          simpa only [Function.update_of_ne (Nat.ne_of_lt below)] using same

/-- The allocations need six pages; the `i`th transmit buffer is set if there are `i + 3`. -/
theorem initBuffers_pages (bitmap : Buf) :
    let r := rtl8139InitBuffers rtl8139Dev bitmap
    (r.1 = true ↔ 6 ≤ pmmFreePages bitmap) ∧ r.2.1.txCurrentDesc = 0 ∧
      ∀ i < 4, (r.2.1.txBuffers i = 0 ↔ pmmFreePages bitmap < i + 3) := by
  dsimp only
  unfold rtl8139InitBuffers pmmAllocContiguous
  rcases pmmAllocPage_left bitmap with ⟨none_, alloc⟩ | ⟨rx, bitmap', alloc, one⟩
  · simp only [alloc, none_]
    exact ⟨by simp, rfl, fun i _ => ⟨fun _ => by omega, fun _ => rfl⟩⟩
  · simp only [alloc]
    have left : pmmFreePages (pmmAllocPages bitmap' (2 - 1)).2 = pmmFreePages bitmap - 2 := by
      rcases pmmAllocPages_left bitmap' 1 with ⟨_, more, rest⟩ | ⟨_, more, few, rest⟩
      · rw [more]
        dsimp only
        omega
      · rw [more]
        dsimp only
        omega
    have loop := @allocTxBuffers_pages rtl8139NumTxDesc 0
      { rtl8139Dev with rxBuffer := rx, rxBufferPa := rx } (pmmAllocPages bitmap' (2 - 1)).2
      fun _ _ => rfl
    obtain ⟨all, set, -, current⟩ := loop
    rw [left] at all set
    have four : rtl8139NumTxDesc = 4 := rfl
    split
    next dev after taken =>
      rw [taken] at all set
      have enough := all.mp rfl
      refine ⟨⟨fun _ => by omega, fun _ => rfl⟩, rfl, fun i inside => ?_⟩
      exact (set i (Nat.zero_le i)).trans (by omega)
    next stopped =>
      refine ⟨all.trans (by omega), current, fun i inside => ?_⟩
      exact (set i (Nat.zero_le i)).trans (by omega)

theorem rtl8139Init_some {bitmap : Buf} (reg : CardRegs) (mem : Nat → UInt8)
    (enough : 6 ≤ pmmFreePages bitmap) : ∃ c, rtl8139Init bitmap reg mem = some c := by
  have all := (initBuffers_pages bitmap).1.mpr enough
  unfold rtl8139Init
  split
  next => exact ⟨_, rfl⟩
  next stopped =>
    rw [stopped] at all
    cases all

/-! ## Runs -/

theorem step_refused {t : Traffic} {packet : Packet} {result : SendResult}
    (refused : rtl8139SendPacket t.card packet = (result, t.card)) (not : result ≠ .sent) :
    t.step (.send packet) = t := by
  simp [Traffic.step, refused, not]

theorem step_sent {t : Traffic} {packet : Packet} {c : Card}
    (sent : rtl8139SendPacket t.card packet = (.sent, c)) :
    t.step (.send packet) = { t with card := c, accepted := t.accepted ++ [packet.1] } := by
  simp [Traffic.step, sent]

theorem step_idle {t : Traffic} {status : UInt32} (idle : t.card.owned t.card.next = false) :
    t.step (.transmit status) = t := by
  simp [Traffic.step, Card.transmit, idle]

/-- What was taken is what was sent and then what stands in the ring. -/
structure Traffic.Sound (t : Traffic) (buffers : Nat → Nat) (pending : List (List UInt8)) :
    Prop where
  wired : t.card.Wired buffers
  stands : t.card.ring.Stands 4 pending
  order : t.accepted = t.wire ++ pending

section Sound

variable {t : Traffic} {buffers : Nat → Nat} {pending : List (List UInt8)}
variable (sound : t.Sound buffers pending)
include sound

theorem Traffic.Sound.owned_iff :
    t.card.owned t.card.dev.txCurrentDesc = false ↔ pending.length < 4 := by
  rw [← sound.stands.put_none_iff]
  unfold Card.ring
  dsimp only
  cases t.card.owned t.card.dev.txCurrentDesc <;> simp

/-- The frames that the card is still to send, from its next descriptor on. -/
theorem Traffic.Sound.frames {i : Nat} (inside : i < 4) :
    (if t.card.owned ((t.card.next + i) % 4) then some (t.card.frame ((t.card.next + i) % 4))
      else none) = pending[i]? := by
  have slot := sound.stands.slot i inside
  rw [← RingBuffer.mod_eq_place sound.stands.take_lt (Nat.le_of_lt inside)] at slot
  exact slot

theorem Traffic.Sound.send (packet : Packet) :
    ∃ pending', (t.step (.send packet)).Sound buffers pending' := by
  obtain ⟨-, result⟩ | ⟨-, -, result⟩ | ⟨fits, free, result⟩ := sound.wired.send packet
  · rw [step_refused result SendResult.noConfusion]
    exact ⟨pending, sound⟩
  · rw [step_refused result SendResult.noConfusion]
    exact ⟨pending, sound⟩
  · rw [step_sent result]
    obtain ⟨wired, slots⟩ := sound.wired.taking fits sound.stands.put_lt
    have room := sound.stands.put_none_iff.mpr (sound.owned_iff.mp free)
    refine ⟨pending ++ [packet.1], wired, (sound.stands.fill room packet.1).congr slots rfl rfl, ?_⟩
    change t.accepted ++ [packet.1] = t.wire ++ (pending ++ [packet.1])
    rw [sound.order, List.append_assoc]

/-- A transmission sends the oldest packet, if there is one. -/
theorem Traffic.Sound.transmit (status : UInt32) :
    (t.step (.transmit status)).Sound buffers pending.tail := by
  have first := sound.stands.take_eq
  cases full : t.card.owned t.card.next with
  | false =>
      have empty : pending = [] := by
        unfold Card.ring at first
        dsimp only at first
        rw [full] at first
        cases pending with
        | nil => rfl
        | cons _ _ => cases first
      subst empty
      rw [step_idle full]
      exact sound
  | true =>
      have slot : t.card.ring.slots t.card.ring.take = some (t.card.frame t.card.next) := if_pos full
      obtain ⟨frame, wired, put, take, slots⟩ :=
        sound.wired.transmit status sound.stands.take_lt full
      obtain ⟨rest, rfl, stands⟩ := sound.stands.empty slot
      refine ⟨wired, stands.congr slots put take, ?_⟩
      change t.accepted = (t.wire ++ (t.card.transmit status).1.toList) ++ rest
      rw [frame, sound.order, List.append_assoc]
      rfl

theorem Traffic.Sound.write {address : Nat} {value : UInt8}
    (beside : ∀ i < 4, ¬ (buffers i ≤ address ∧ address < buffers i + rtl8139TxBufSize)) :
    (t.step (.write address value)).Sound buffers pending := by
  obtain ⟨wired, slots⟩ := sound.wired.write value beside
  exact ⟨wired, sound.stands.congr slots rfl rfl, sound.order⟩

end Sound

theorem Traffic.Sound.run {actions : List CardAction} {dev : Rtl8139} :
    ∀ {t : Traffic} {pending : List (List UInt8)}, t.Sound dev.txBuffers pending →
      (∀ a ∈ actions, a.keepsOff dev) → ∃ pending', (t.run actions).Sound dev.txBuffers pending' := by
  induction actions with
  | nil => exact fun sound _ => ⟨_, sound⟩
  | cons a actions ih =>
      intro t pending sound kept
      obtain ⟨first, later⟩ := List.forall_mem_cons.mp kept
      have stepped : ∃ pending', (t.step a).Sound dev.txBuffers pending' := by
        cases a with
        | send packet => exact sound.send packet
        | transmit status => exact ⟨_, sound.transmit status⟩
        | write address value => exact ⟨_, sound.write first⟩
      obtain ⟨pending', sound'⟩ := stepped
      exact ih sound' later

/-- As many transmissions as packets are waiting put them all on the wire. -/
theorem Traffic.Sound.drain {statuses : List UInt32} : ∀ {t : Traffic} {buffers : Nat → Nat}
    {pending : List (List UInt8)}, t.Sound buffers pending → statuses.length = pending.length →
      (t.run (statuses.map .transmit)).wire = t.accepted := by
  induction statuses with
  | nil =>
      intro t buffers pending sound same
      have none := List.eq_nil_of_length_eq_zero same.symm
      change t.wire = t.accepted
      rw [sound.order, none, List.append_nil]
  | cons status statuses ih =>
      intro t buffers pending sound same
      have rest := ih (sound.transmit status) (by
        rw [List.length_tail, ← same, List.length_cons, Nat.add_sub_cancel])
      exact rest

/-- For every order of sends, transmissions and writes beside the buffers: the card has sent
what the driver took, in that order, but for at most four packets, which stand unchanged in the
descriptors from the card's next one on.  The driver refuses a packet that fits exactly when
there are four of them, and as many transmissions send them. -/
theorem transmits_in_order {bitmap : Buf} {reg : CardRegs} {mem : Nat → UInt8} {c : Card}
    (ready : rtl8139Init bitmap reg mem = some c) (actions : List CardAction)
    (kept : ∀ a ∈ actions, a.keepsOff c.dev) :
    let t := Traffic.run ⟨c, [], []⟩ actions
    ∃ pending, t.accepted = t.wire ++ pending ∧ pending.length ≤ rtl8139NumTxDesc ∧
      (∀ i < rtl8139NumTxDesc,
        let desc := (t.card.next + i) % rtl8139NumTxDesc
        (if t.card.owned desc then some (t.card.frame desc) else none) = pending[i]?) ∧
      (∀ packet : Packet, (rtl8139SendPacket t.card packet).1 =
        if rtl8139TxBufSize < packet.1.length then .tooLarge
        else if pending.length = rtl8139NumTxDesc then .busy
        else .sent) ∧
      ∀ statuses : List UInt32, statuses.length = pending.length →
        (t.run (statuses.map .transmit)).wire = t.accepted := by
  intro t
  obtain ⟨wired, stands⟩ := rtl8139Init_wired ready
  have start : Traffic.Sound ⟨c, [], []⟩ c.dev.txBuffers [] := ⟨wired, stands, rfl⟩
  obtain ⟨pending, sound⟩ := start.run kept
  have short := sound.stands.short
  refine ⟨pending, sound.order, short, fun i inside => sound.frames inside, fun packet => ?_,
    fun statuses same => sound.drain same⟩
  obtain ⟨large, result⟩ | ⟨fits, busy, result⟩ | ⟨fits, free, result⟩ := sound.wired.send packet
  · rw [if_pos large, result]
  · have full : pending.length = rtl8139NumTxDesc := by
      have not := sound.owned_iff.not.mp (by rw [busy]; exact Bool.noConfusion)
      unfold rtl8139NumTxDesc
      omega
    rw [if_neg (Nat.not_lt.mpr fits), if_pos full, result]
  · have room : pending.length ≠ rtl8139NumTxDesc := Nat.ne_of_lt (sound.owned_iff.mp free)
    rw [if_neg (Nat.not_lt.mpr fits), if_neg room, result]

/-- With all pages free, the first packet is on the wire after one transmission. -/
theorem first_packet_sent : ∃ c, rtl8139Init (pmmInit fun _ => 0) (fun _ => 0) (fun _ => 0) = some c ∧
    (Traffic.run ⟨c, [], []⟩ [.send ⟨[1, 2], by decide⟩, .transmit 0]).wire = [[1, 2]] := by
  have pages := (taken_init fun _ => 0).freePages
  unfold pageCount totalPages firstPage at pages
  obtain ⟨c, ready⟩ := rtl8139Init_some (fun _ => 0) (fun _ => 0)
    (show 6 ≤ pmmFreePages (pmmInit fun _ => 0) by omega)
  refine ⟨c, ready, ?_⟩
  obtain ⟨none_, order, -, -, sends, -⟩ := transmits_in_order ready [] nofun
  obtain rfl : none_ = [] := order.symm
  have sent := sends ⟨[1, 2], by decide⟩
  obtain ⟨one, order, -, -, -, drains⟩ := transmits_in_order ready [.send ⟨[1, 2], by decide⟩]
    (by simp [CardAction.keepsOff])
  have accepted : (Traffic.run ⟨c, [], []⟩ [.send ⟨[1, 2], by decide⟩]).accepted = [[1, 2]] := by
    change (if _ then _ else _) = _
    exact if_pos sent
  obtain rfl : one = [[1, 2]] := order.symm.trans accepted
  exact (drains [0] rfl).trans accepted

/-- Whatever happens, the driver's buffers stay and its descriptor counts what it took. -/
theorem Traffic.run_dev (actions : List CardAction) : ∀ t : Traffic,
    t.card.dev.txCurrentDesc = t.accepted.length % 4 →
      (t.run actions).card.dev.txBuffers = t.card.dev.txBuffers ∧
        (t.run actions).card.dev.txCurrentDesc = (t.run actions).accepted.length % 4 := by
  induction actions with
  | nil => exact fun _ current => ⟨rfl, current⟩
  | cons a actions ih =>
      intro t current
      have stepped : (t.step a).card.dev.txBuffers = t.card.dev.txBuffers ∧
          (t.step a).card.dev.txCurrentDesc = (t.step a).accepted.length % 4 := by
        cases a with
        | send packet =>
            rcases send_cases t.card packet with
              ⟨-, result⟩ | ⟨-, ⟨-, result⟩ | ⟨-, -, result⟩ | ⟨-, -, result⟩⟩
            · rw [step_refused result SendResult.noConfusion]
              exact ⟨rfl, current⟩
            · rw [step_refused result SendResult.noConfusion]
              exact ⟨rfl, current⟩
            · rw [step_refused result SendResult.noConfusion]
              exact ⟨rfl, current⟩
            · rw [step_sent result]
              refine ⟨rfl, ?_⟩
              change (t.card.dev.txCurrentDesc + 1) % 4 = (t.accepted ++ [packet.1]).length % 4
              rw [current, List.length_append, List.length_singleton, Nat.mod_add_mod]
        | transmit status =>
            simp only [Traffic.step, Card.transmit]
            split <;> exact ⟨rfl, current⟩
        | write address value => exact ⟨rfl, current⟩
      obtain ⟨buffers, current'⟩ := ih (t.step a) stepped.2
      exact ⟨buffers.trans stepped.1, current'⟩

/-- What `rtl8139_init` leaves when pages run out: it fails with fewer than six, but with three
to five the driver does not count as uninitialised, and copies each packet whose descriptor
got no buffer to the bytes from address 0 on. -/
theorem sends_to_null (bitmap : Buf) (c : Card) (actions : List CardAction) (packet : Packet) :
    let r := rtl8139InitBuffers rtl8139Dev bitmap
    let t := Traffic.run ⟨{ c with dev := r.2.1 }, [], []⟩ actions
    (r.1 = true ↔ 6 ≤ pmmFreePages bitmap) ∧
      ((rtl8139SendPacket t.card packet).1 = .notInitialized ↔ pmmFreePages bitmap < 3) ∧
      ((rtl8139SendPacket t.card packet).1 = .sent → ∃ address,
        (rtl8139SendPacket t.card packet).2.mem = storeBytes t.card.mem address packet.1 ∧
          (address = 0 ↔ pmmFreePages bitmap < t.accepted.length % 4 + 3)) := by
  intro r t
  obtain ⟨all, current, set⟩ := initBuffers_pages bitmap
  obtain ⟨buffers, desc⟩ := Traffic.run_dev actions ⟨{ c with dev := r.2.1 }, [], []⟩ current
  have buffer (i : Nat) (inside : i < 4) :
      t.card.dev.txBuffers i = 0 ↔ pmmFreePages bitmap < i + 3 := by
    rw [show t.card.dev.txBuffers = r.2.1.txBuffers from buffers]
    exact set i inside
  refine ⟨all, ?_, fun sent => ⟨t.card.dev.txBuffers t.card.dev.txCurrentDesc, ?_, ?_⟩⟩
  · rw [← buffer 0 (Nat.succ_pos 3)]
    rcases send_cases t.card packet with
      ⟨missing, result⟩ | ⟨there, ⟨-, result⟩ | ⟨-, -, result⟩ | ⟨-, -, result⟩⟩ <;>
      rw [result]
    · exact ⟨fun _ => missing, fun _ => rfl⟩
    all_goals exact ⟨nofun, fun missing => absurd missing there⟩
  · rcases send_cases t.card packet with
      ⟨-, result⟩ | ⟨-, ⟨-, result⟩ | ⟨-, -, result⟩ | ⟨-, -, result⟩⟩ <;>
      rw [result] at sent ⊢
    · cases sent
    · cases sent
    · cases sent
    · rfl
  · rw [buffer _ (desc ▸ Nat.mod_lt _ (Nat.succ_pos 3)), desc]

end XosKernel.Drivers
