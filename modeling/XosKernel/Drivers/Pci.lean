/-
# Drivers.Pci -- two scans of the PCI bus

`pci_init` lists the functions on the first four buses; `rtl8139_detect_and_init` looks for a
network card with loops and address arithmetic of its own.  Behind a bridge that answers at the
data port for the address that was written last (`Bridge`) both see the same functions, in the
same order: the card that is set up is the first one of the list, with the base address and the
interrupt line that the list shows (`detects_first_listed`).

The names of the classes and the other messages are left out, and so are the steps of
`rtl8139_init` behind the two reads.
-/
import XosKernel.Theory.Ports
import XosKernel.Theory.Scan

namespace XosKernel.Drivers

open XosKernel.Theory

set_option autoImplicit false

/-! ## `pci.c` -/

section Scans

variable (dev : Device)

/-- `pci_read_config` -/
def pciReadConfig (bus device func offset : Nat) : PortM Nat := do
  output 32 0xCF8
    (bus <<< 16 ||| device <<< 11 ||| func <<< 8 ||| (offset &&& 0xFC) ||| 0x80000000)
  input dev 32 0xCFC

/-- What `pci_init` prints of a function; it leaves out an interrupt line of 0xFF, and a pin of
0. -/
structure PciFunction where
  bus : Nat
  device : Nat
  func : Nat
  vendorId : Nat
  deviceId : Nat
  classCode : Nat
  subclass : Nat
  bar0 : Nat
  irqLine : Nat
  irqPinNum : Nat
  deriving DecidableEq

/-- A pass of the loop over the functions. -/
def pciFunction (bus device func : Nat) : PortM (List PciFunction) := do
  let vd ← pciReadConfig dev bus device func 0x00
  if vd &&& 0xFFFF = 0xFFFF then return []
  else
    let classInfo ← pciReadConfig dev bus device func 0x08
    let bar0 ← pciReadConfig dev bus device func 0x10
    let irqPin ← pciReadConfig dev bus device func 0x3C
    return [
      { bus := bus, device := device, func := func
        vendorId := vd &&& 0xFFFF, deviceId := vd >>> 16
        classCode := classInfo >>> 24 &&& 0xFF, subclass := classInfo >>> 16 &&& 0xFF
        bar0 := bar0, irqLine := irqPin &&& 0xFF, irqPinNum := irqPin >>> 8 &&& 0xFF }]

/-- A pass of the loop over the devices. -/
def pciDevice (bus device : Nat) : PortM (List PciFunction) := do
  let vendorDevice ← pciReadConfig dev bus device 0 0x00
  if vendorDevice &&& 0xFFFF = 0xFFFF then return []
  else
    let headerTypeReg ← pciReadConfig dev bus device 0 0x0C
    let functionsToScan := if (headerTypeReg >>> 16 &&& 0xFF) &&& 0x80 ≠ 0 then 8 else 1
    collect (pciFunction dev bus device) (List.range functionsToScan)

/-- `pci_init` -/
def pciInit : PortM (List PciFunction) :=
  collect (fun bus => collect (pciDevice dev bus) (List.range 32)) (List.range 4)

/-! ## `rtl8139.c` -/

/-- `RTL8139_VENDOR_ID`, `RTL8139_DEVICE_ID` -/
def rtl8139VendorId : Nat := 0x10EC
def rtl8139DeviceId : Nat := 0x8139

/-- `io_base`, or `mmio_base` -/
inductive CardBase where
  | io (ioBase : Nat)
  | mmio (mmioBase : Nat)
  deriving DecidableEq

/-- Where the card is, and the fields of `rtl8139_device_t` that are read from its function. -/
structure CardPlace where
  bus : Nat
  device : Nat
  func : Nat
  base : CardBase
  irqLine : Nat
  deriving DecidableEq

def cardBase (bar0 : Nat) : CardBase :=
  if bar0 &&& 0x01 ≠ 0 then .io (bar0 &&& 0xFFFC) else .mmio (bar0 &&& 0xFFFFFFF0)

/-- The part of `rtl8139_init` that reads the base address and the interrupt line. -/
def rtl8139InitPci (bus device func : Nat) : PortM CardPlace := do
  output 32 0xCF8 (bus <<< 16 ||| device <<< 11 ||| func <<< 8 ||| 0x10 ||| 0x80000000)
  let bar0 ← input dev 32 0xCFC
  output 32 0xCF8 (bus <<< 16 ||| device <<< 11 ||| func <<< 8 ||| 0x3C ||| 0x80000000)
  let irqInfo ← input dev 32 0xCFC
  return ⟨bus, device, func, cardBase bar0, irqInfo &&& 0xFF⟩

/-- A pass of the loop over the other functions. -/
def rtl8139Function (bus device func : Nat) : PortM (Option CardPlace) := do
  output 32 0xCF8 (bus <<< 16 ||| device <<< 11 ||| func <<< 8 ||| 0x00 ||| 0x80000000)
  let vendorDevice ← input dev 32 0xCFC
  if vendorDevice &&& 0xFFFF = 0xFFFF then return none
  else if vendorDevice &&& 0xFFFF = rtl8139VendorId ∧ vendorDevice >>> 16 = rtl8139DeviceId then do
    let place ← rtl8139InitPci dev bus device func
    return some place
  else return none

/-- A pass of the loop over the devices. -/
def rtl8139Device (bus device : Nat) : PortM (Option CardPlace) := do
  output 32 0xCF8 (bus <<< 16 ||| device <<< 11 ||| 0 <<< 8 ||| 0x00 ||| 0x80000000)
  let vendorDevice ← input dev 32 0xCFC
  if vendorDevice &&& 0xFFFF = 0xFFFF then return none
  else if vendorDevice &&& 0xFFFF = rtl8139VendorId ∧ vendorDevice >>> 16 = rtl8139DeviceId then do
    let place ← rtl8139InitPci dev bus device 0
    return some place
  else do
    output 32 0xCF8 (bus <<< 16 ||| device <<< 11 ||| 0 <<< 8 ||| 0x0C ||| 0x80000000)
    let headerInfo ← input dev 32 0xCFC
    if (headerInfo >>> 16 &&& 0xFF) &&& 0x80 = 0 then return none
    else firstOf (rtl8139Function dev bus device) (List.range' 1 7)

/-- `rtl8139_detect_and_init` -/
def rtl8139DetectAndInit : PortM (Option CardPlace) :=
  firstOf (fun bus => firstOf (rtl8139Device dev bus) (List.range 32)) (List.range 4)

end Scans

/-! ## The bridge -/

/-- The address that was written last. -/
def latched (h : List Access) : Nat :=
  h.foldl (fun address a => match a with
    | .output 32 0xCF8 value => value
    | _ => address) 0

/-- The bridge answers at the data port with the register at the address. -/
def Bridge (dev : Device) (space : Nat → Nat) : Prop := ∀ h, dev h 32 0xCFC = space (latched h)

/-- A register of a function. -/
def configAt (space : Nat → Nat) (bus device func offset : Nat) : Nat :=
  space ((bus <<< 16 ||| device <<< 11 ||| func <<< 8 ||| offset ||| 0x80000000) % 2 ^ 32) % 2 ^ 32

section Bridge

variable {dev : Device} {space : Nat → Nat} (bridge : Bridge dev space)
include bridge

/-- Writing an address and reading the data port, in the middle of a command. -/
theorem reads_register {α : Type} (bus device func offset : Nat) {f : Nat → PortM α} {a : α}
    (rest : Gives (f (configAt space bus device func offset)) a) :
    Gives (do
      output 32 0xCF8 (bus <<< 16 ||| device <<< 11 ||| func <<< 8 ||| offset ||| 0x80000000)
      let value ← input dev 32 0xCFC
      f value) a := by
  intro h
  unfold configAt at rest
  generalize bus <<< 16 ||| device <<< 11 ||| func <<< 8 ||| offset ||| 0x80000000 = address at *
  have latch : latched (h ++ [.output 32 0xCF8 (address % 2 ^ 32)]) = address % 2 ^ 32 := by
    rw [latched, List.foldl_append]
    rfl
  have value := bridge (h ++ [.output 32 0xCF8 (address % 2 ^ 32)])
  rw [latch] at value
  refine Runs.step rfl (Runs.step rfl ?_)
  rw [value]
  exact rest _

theorem pciReadConfig_gives (bus device func : Nat) {offset : Nat}
    (aligned : offset &&& 0xFC = offset) :
    Gives (pciReadConfig dev bus device func offset) (configAt space bus device func offset) := by
  unfold pciReadConfig
  rw [aligned]
  exact reads_register bridge bus device func offset (Gives.pure _)

end Bridge

/-! ## What the scans find -/

section Found

variable (space : Nat → Nat)

/-- A device answers at this place. -/
def Answers (bus device func : Nat) : Prop :=
  configAt space bus device func 0x00 &&& 0xFFFF ≠ 0xFFFF

instance (bus device func : Nat) : Decidable (Answers space bus device func) :=
  inferInstanceAs (Decidable (_ ≠ _))

/-- How many functions a device may have. -/
def functionsOf (bus device : Nat) : Nat :=
  if (configAt space bus device 0 0x0C >>> 16 &&& 0xFF) &&& 0x80 ≠ 0 then 8 else 1

/-- A function as its registers show it. -/
def functionAt (bus device func : Nat) : PciFunction where
  bus := bus
  device := device
  func := func
  vendorId := configAt space bus device func 0x00 &&& 0xFFFF
  deviceId := configAt space bus device func 0x00 >>> 16
  classCode := configAt space bus device func 0x08 >>> 24 &&& 0xFF
  subclass := configAt space bus device func 0x08 >>> 16 &&& 0xFF
  bar0 := configAt space bus device func 0x10
  irqLine := configAt space bus device func 0x3C &&& 0xFF
  irqPinNum := configAt space bus device func 0x3C >>> 8 &&& 0xFF

def functionListed (bus device func : Nat) : List PciFunction :=
  if Answers space bus device func then [functionAt space bus device func] else []

def deviceListed (bus device : Nat) : List PciFunction :=
  if Answers space bus device 0 then
    (List.range (functionsOf space bus device)).flatMap (functionListed space bus device)
  else []

def listed : List PciFunction :=
  (List.range 4).flatMap fun bus => (List.range 32).flatMap (deviceListed space bus)

/-- A function of the first four buses. -/
structure Present (f : PciFunction) : Prop where
  bus : f.bus < 4
  device : f.device < 32
  func : f.func < functionsOf space f.bus f.device
  first : Answers space f.bus f.device 0
  answers : Answers space f.bus f.device f.func
  shown : f = functionAt space f.bus f.device f.func

end Found

/-- The order of the scan. -/
def PciFunction.Before (f g : PciFunction) : Prop :=
  f.bus < g.bus ∨ f.bus = g.bus ∧
    (f.device < g.device ∨ f.device = g.device ∧ f.func < g.func)

/-- What `rtl8139_init` takes of a function, if it is such a card. -/
def PciFunction.card? (f : PciFunction) : Option CardPlace :=
  if f.vendorId = rtl8139VendorId ∧ f.deviceId = rtl8139DeviceId then
    some ⟨f.bus, f.device, f.func, cardBase f.bar0, f.irqLine⟩
  else none

theorem functionAt_card (space : Nat → Nat) (bus device func : Nat) :
    (functionAt space bus device func).card? =
      if configAt space bus device func 0x00 &&& 0xFFFF = rtl8139VendorId ∧
          configAt space bus device func 0x00 >>> 16 = rtl8139DeviceId then
        some ⟨bus, device, func, cardBase (configAt space bus device func 0x10),
          configAt space bus device func 0x3C &&& 0xFF⟩
      else none := rfl

section Listed

variable {space : Nat → Nat} {bus device : Nat} {f : PciFunction}

theorem mem_functionListed {func : Nat} : f ∈ functionListed space bus device func ↔
    Answers space bus device func ∧ f = functionAt space bus device func := by
  unfold functionListed
  split <;> simp_all

theorem mem_deviceListed : f ∈ deviceListed space bus device ↔ f.bus = bus ∧ f.device = device ∧
    f.func < functionsOf space bus device ∧ Answers space bus device 0 ∧
      Answers space bus device f.func ∧ f = functionAt space bus device f.func := by
  unfold deviceListed
  split
  · next first =>
    simp only [List.mem_flatMap, List.mem_range, mem_functionListed]
    constructor
    · rintro ⟨func, low, answers, rfl⟩
      exact ⟨rfl, rfl, low, first, answers, rfl⟩
    · rintro ⟨-, -, low, -, answers, shown⟩
      exact ⟨f.func, low, answers, shown⟩
  · next absent => simp [absent]

theorem mem_listed : f ∈ listed space ↔ Present space f := by
  simp only [listed, List.mem_flatMap, List.mem_range, mem_deviceListed]
  constructor
  · rintro ⟨bus, lowBus, device, lowDevice, rfl, rfl, low, first, answers, shown⟩
    exact ⟨lowBus, lowDevice, low, first, answers, shown⟩
  · rintro ⟨lowBus, lowDevice, low, first, answers, shown⟩
    exact ⟨_, lowBus, _, lowDevice, rfl, rfl, low, first, answers, shown⟩

theorem deviceListed_pairwise :
    (deviceListed space bus device).Pairwise PciFunction.Before := by
  unfold deviceListed
  split
  · refine List.pairwise_flatMap.mpr ⟨fun func _ => ?_, ?_⟩
    · unfold functionListed
      split <;> simp
    · refine List.pairwise_lt_range.imp fun {i j} less f inFirst g inSecond => ?_
      obtain ⟨-, rfl⟩ := mem_functionListed.mp inFirst
      obtain ⟨-, rfl⟩ := mem_functionListed.mp inSecond
      exact .inr ⟨rfl, .inr ⟨rfl, less⟩⟩
  · exact List.Pairwise.nil

theorem listed_pairwise : (listed space).Pairwise PciFunction.Before := by
  refine List.pairwise_flatMap.mpr ⟨fun bus _ => ?_, ?_⟩
  · refine List.pairwise_flatMap.mpr ⟨fun device _ => deviceListed_pairwise, ?_⟩
    refine List.pairwise_lt_range.imp fun {i j} less f inFirst g inSecond => ?_
    obtain ⟨rfl, rfl, -⟩ := mem_deviceListed.mp inFirst
    obtain ⟨sameBus, rfl, -⟩ := mem_deviceListed.mp inSecond
    exact .inr ⟨sameBus.symm, .inl less⟩
  · refine List.pairwise_lt_range.imp fun {i j} less f inFirst g inSecond => ?_
    obtain ⟨device, -, inFirst⟩ := List.mem_flatMap.mp inFirst
    obtain ⟨device', -, inSecond⟩ := List.mem_flatMap.mp inSecond
    obtain ⟨rfl, -⟩ := mem_deviceListed.mp inFirst
    obtain ⟨rfl, -⟩ := mem_deviceListed.mp inSecond
    exact .inl less

/-- The card among the functions of a device: function 0 first, then the others, if there may
be any. -/
theorem deviceListed_card (answers : Answers space bus device 0) :
    (deviceListed space bus device).findSome? PciFunction.card? =
      (functionAt space bus device 0).card?.or
        (if (configAt space bus device 0 0x0C >>> 16 &&& 0xFF) &&& 0x80 = 0 then none
        else (List.range' 1 7).findSome? fun func =>
          (functionListed space bus device func).findSome? PciFunction.card?) := by
  have zero : (functionListed space bus device 0).findSome? PciFunction.card? =
      (functionAt space bus device 0).card? := by
    rw [functionListed, if_pos answers, List.findSome?_singleton]
  have many : List.range 8 = 0 :: List.range' 1 7 := rfl
  have one : List.range 1 = [0] := rfl
  rw [deviceListed, if_pos answers, findSome?_flatMap, functionsOf]
  by_cases single : (configAt space bus device 0 0x0C >>> 16 &&& 0xFF) &&& 0x80 = 0
  · rw [if_neg (not_not.mpr single), one, if_pos single, List.findSome?_singleton, zero]
    exact Option.or_none.symm
  · rw [if_pos single, many, if_neg single, List.findSome?_cons, zero]
    cases (functionAt space bus device 0).card? <;> rfl

end Listed

/-! ## The scans -/

section Scanned

variable {dev : Device} {space : Nat → Nat} (bridge : Bridge dev space)
include bridge

theorem pciFunction_gives (bus device func : Nat) :
    Gives (pciFunction dev bus device func) (functionListed space bus device func) := by
  refine Gives.bind (pciReadConfig_gives bridge bus device func (rfl : 0x00 &&& 0xFC = 0x00)) ?_
  unfold functionListed
  by_cases answers : Answers space bus device func
  · rw [if_neg answers, if_pos answers]
    refine Gives.bind (pciReadConfig_gives bridge bus device func (rfl : 0x08 &&& 0xFC = 0x08)) ?_
    refine Gives.bind (pciReadConfig_gives bridge bus device func (rfl : 0x10 &&& 0xFC = 0x10)) ?_
    refine Gives.bind (pciReadConfig_gives bridge bus device func (rfl : 0x3C &&& 0xFC = 0x3C)) ?_
    exact Gives.pure _
  · rw [if_pos (not_not.mp answers), if_neg answers]
    exact Gives.pure []

theorem pciDevice_gives (bus device : Nat) :
    Gives (pciDevice dev bus device) (deviceListed space bus device) := by
  refine Gives.bind (pciReadConfig_gives bridge bus device 0 (rfl : 0x00 &&& 0xFC = 0x00)) ?_
  unfold deviceListed
  by_cases answers : Answers space bus device 0
  · rw [if_neg answers, if_pos answers]
    refine Gives.bind (pciReadConfig_gives bridge bus device 0 (rfl : 0x0C &&& 0xFC = 0x0C)) ?_
    exact collect_gives (pciFunction_gives bridge bus device) _
  · rw [if_pos (not_not.mp answers), if_neg answers]
    exact Gives.pure []

theorem pciInit_gives : Gives (pciInit dev) (listed space) :=
  collect_gives (fun bus => collect_gives (pciDevice_gives bridge bus) _) _

theorem rtl8139InitPci_gives (bus device func : Nat) :
    Gives (rtl8139InitPci dev bus device func)
      ⟨bus, device, func, cardBase (configAt space bus device func 0x10),
        configAt space bus device func 0x3C &&& 0xFF⟩ :=
  reads_register bridge bus device func 0x10
    (reads_register bridge bus device func 0x3C (Gives.pure _))

theorem rtl8139Function_gives (bus device func : Nat) :
    Gives (rtl8139Function dev bus device func)
      ((functionListed space bus device func).findSome? PciFunction.card?) := by
  refine reads_register bridge bus device func 0x00 ?_
  unfold functionListed
  by_cases answers : Answers space bus device func
  · rw [if_neg answers, if_pos answers, List.findSome?_singleton, functionAt_card]
    refine Gives.ite (fun _ => ?_) fun _ => Gives.pure none
    exact Gives.bind (rtl8139InitPci_gives bridge bus device func) (Gives.pure _)
  · rw [if_pos (not_not.mp answers), if_neg answers]
    exact Gives.pure none

theorem rtl8139Device_gives (bus device : Nat) :
    Gives (rtl8139Device dev bus device)
      ((deviceListed space bus device).findSome? PciFunction.card?) := by
  refine reads_register bridge bus device 0 0x00 ?_
  by_cases answers : Answers space bus device 0
  · rw [if_neg answers, deviceListed_card answers, functionAt_card]
    by_cases card : configAt space bus device 0 0x00 &&& 0xFFFF = rtl8139VendorId ∧
        configAt space bus device 0 0x00 >>> 16 = rtl8139DeviceId
    · rw [if_pos card, if_pos card, Option.some_or]
      exact Gives.bind (rtl8139InitPci_gives bridge bus device 0) (Gives.pure _)
    · rw [if_neg card, if_neg card, Option.none_or]
      refine reads_register bridge bus device 0 0x0C ?_
      exact Gives.ite (fun _ => Gives.pure none) fun _ =>
        firstOf_gives (rtl8139Function_gives bridge bus device) _
  · rw [if_pos (not_not.mp answers), deviceListed, if_neg answers]
    exact Gives.pure none

theorem rtl8139DetectAndInit_gives :
    Gives (rtl8139DetectAndInit dev) ((listed space).findSome? PciFunction.card?) := by
  unfold listed
  rw [findSome?_flatMap]
  refine firstOf_gives (fun bus => ?_) _
  rw [findSome?_flatMap]
  exact firstOf_gives (rtl8139Device_gives bridge bus) _

end Scanned

/-- The list has the functions that are present and no others, each once and in order, and the
card that is set up is the first one of the list. -/
theorem detects_first_listed {dev : Device} {space : Nat → Nat} (bridge : Bridge dev space) :
    ∃ found : List PciFunction, Gives (pciInit dev) found ∧ (∀ f, f ∈ found ↔ Present space f) ∧
      found.Pairwise PciFunction.Before ∧
      Gives (rtl8139DetectAndInit dev) (found.findSome? PciFunction.card?) :=
  ⟨listed space, pciInit_gives bridge, fun _ => mem_listed, listed_pairwise,
    rtl8139DetectAndInit_gives bridge⟩

/-- Cards at 0:3:0 and 0:4:0, with different base addresses. -/
def twoCards (address : Nat) : Nat :=
  if address = 0x80001800 ∨ address = 0x80002000 then 0x813910EC
  else if address = 0x80001808 ∨ address = 0x80002008 then 0x02000010
  else if address = 0x8000180C ∨ address = 0x8000200C then 0
  else if address = 0x80001810 then 0xC001
  else if address = 0x80002010 then 0xC101
  else if address = 0x8000183C ∨ address = 0x8000203C then 0x010B
  else 0xFFFFFFFF

theorem twoCards_detected :
    Gives (rtl8139DetectAndInit fun h _ _ => twoCards (latched h))
        (some ⟨0, 3, 0, .io 0xC000, 11⟩) ∧
      (listed twoCards).filterMap PciFunction.card? =
        [⟨0, 3, 0, .io 0xC000, 11⟩, ⟨0, 4, 0, .io 0xC100, 11⟩] := by
  have bridge : Bridge (fun h _ _ => twoCards (latched h)) twoCards := fun _ => rfl
  obtain ⟨found, scanned, -, -, detected⟩ := detects_first_listed bridge
  have same : found = listed twoCards := Gives.unique [] scanned (pciInit_gives bridge)
  have place : (listed twoCards).findSome? PciFunction.card? = some ⟨0, 3, 0, .io 0xC000, 11⟩ := by
    decide +kernel
  rw [same, place] at detected
  exact ⟨detected, by decide +kernel⟩

end XosKernel.Drivers
