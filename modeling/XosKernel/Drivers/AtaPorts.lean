/-
# Drivers.AtaPorts -- `ata.c` at the ports of a drive

The transfers of `ata.c` as what they are: reads and writes of the registers of a channel, with
bounded waits for the status register.  `taskFile` is the drive's side: the registers as they
were written last, the words that moved since the command, and the status that was read last.
`AtaWatch` lets a data word pass only after a status with DRQ and without BSY, ERR and DF, at
most a sector of them for one status, and a register only after a status without BSY.  The
flush command of `ata_write_sectors` is not held to this: it goes out right behind the words
of a sector.

The messages that a failing transfer prints are left out.
-/
import XosKernel.Fat32.Ata
import XosKernel.Theory.Ports

namespace XosKernel.Drivers

open XosKernel.Theory
open XosKernel.Fat32 (Channel DriveSelect)

set_option autoImplicit false

/-! ## Constants -/

def ataCmdReadPio : Nat := 0x20
def ataCmdWritePio : Nat := 0x30
/-- The command that `ata_write_sectors` sends after every sector. -/
def ataCmdCacheFlush : Nat := 0xE7

def ataSrBsy : Nat := 0x80
def ataSrDf : Nat := 0x20
def ataSrDrq : Nat := 0x08
def ataSrErr : Nat := 0x01

/-- `ata_get_io_base` -/
def ataGetIoBase : Channel → Nat
  | .primary => 0x1F0
  | .secondary => 0x170

/-- `ata_get_ctrl_base` -/
def ataGetCtrlBase : Channel → Nat
  | .primary => 0x3F6
  | .secondary => 0x376

/-- `ATA_MASTER`, `ATA_SLAVE` -/
def driveBit : DriveSelect → Nat
  | .master => 0
  | .slave => 1

/-! ## The driver -/

section Driver

variable (dev : Device)

/-- `ata_read` -/
def ataRead (base offset : Nat) : PortM Nat := input dev 8 (base + offset)

/-- `ata_write` -/
def ataWrite (base offset value : Nat) : PortM Unit := output 8 (base + offset) value

/-- `ata_read_word` -/
def ataReadWord (base offset : Nat) : PortM Nat := input dev 16 (base + offset)

/-- `ata_write_word` -/
def ataWriteWord (base offset value : Nat) : PortM Unit := output 16 (base + offset) value

/-- `ata_delay400ns` -/
def ataDelay400ns (ctrl : Nat) : PortM Unit := do
  let _ ← ataRead dev ctrl 0
  let _ ← ataRead dev ctrl 0
  let _ ← ataRead dev ctrl 0
  let _ ← ataRead dev ctrl 0
  return ()

/-- `ata_wait_bsy_clear` -/
def ataWaitBsyClear (base : Nat) : Nat → PortM Int
  | 0 => return -1
  | timeout + 1 => do
      let status ← ataRead dev base 7
      if status &&& ataSrBsy = 0 then
        if status &&& (ataSrErr ||| ataSrDf) ≠ 0 then return -1 else return 0
      else ataWaitBsyClear base timeout

/-- `ata_wait_drq` -/
def ataWaitDrq (base : Nat) : Nat → PortM Int
  | 0 => return -1
  | timeout + 1 => do
      let status ← ataRead dev base 7
      if status &&& (ataSrErr ||| ataSrDf) ≠ 0 then return -1
      else if status &&& ataSrBsy = 0 ∧ status &&& ataSrDrq ≠ 0 then return 0
      else ataWaitDrq base timeout

/-- `ata_device_exists` -/
def ataDeviceExists (base : Nat) : PortM Bool := do
  let status1 ← ataRead dev base 7
  let status2 ← ataRead dev base 7
  return ¬ (status1 = 0xFF ∧ status2 = 0xFF)

/-- The beginning of `ata_read_sectors` and of `ata_write_sectors`, up to the command; `false`
is a `return -1`. -/
def ataSelect (channel : Channel) (drive : DriveSelect) (lba count command : Nat) :
    PortM Bool := do
  let base := ataGetIoBase channel
  let ctrl := ataGetCtrlBase channel
  if ← ataDeviceExists dev base then
    if (← ataWaitBsyClear dev base 100000) ≠ 0 then return false
    else
      ataWrite base 6 (0xE0 ||| driveBit drive <<< 4 ||| (lba >>> 24 &&& 0x0F))
      ataDelay400ns dev ctrl
      if (← ataWaitBsyClear dev base 100000) ≠ 0 then return false
      else
        ataWrite base 2 (count &&& 0xFF)
        ataWrite base 3 (lba &&& 0xFF)
        ataWrite base 4 (lba >>> 8 &&& 0xFF)
        ataWrite base 5 (lba >>> 16 &&& 0xFF)
        ataWrite base 7 command
        return true
  else return false

/-- The loop over the words of a sector in `ata_read_sectors`: `buf` is `at` bytes further. -/
def ataReadWords (base : Nat) : Nat → Buf → Nat → PortM Buf
  | 0, buffer, _ => return buffer
  | words + 1, buffer, at_ => do
      let word ← ataReadWord dev base 0
      ataReadWords base words (buffer.putLe at_ 2 word) (at_ + 2)

/-- The loop over the sectors in `ata_read_sectors`, and whether it came to its end. -/
def ataReadLoop (base ctrl : Nat) : Nat → Buf → Nat → PortM (Bool × Buf)
  | 0, buffer, _ => return (true, buffer)
  | sectors + 1, buffer, at_ => do
      ataDelay400ns dev ctrl
      if (← ataWaitDrq dev base 500000) ≠ 0 then return (false, buffer)
      else
        let buffer ← ataReadWords dev base 256 buffer at_
        ataDelay400ns dev ctrl
        ataReadLoop base ctrl sectors buffer (at_ + 512)

/-- `ata_read_sectors`: the return value and the buffer afterwards. -/
def ataReadSectors (channel : Channel) (drive : DriveSelect) (lba count : Nat) (buffer : Buf) :
    PortM (Int × Buf) := do
  if ← ataSelect dev channel drive lba count ataCmdReadPio then
    let (all, buffer) ←
      ataReadLoop dev (ataGetIoBase channel) (ataGetCtrlBase channel) count buffer 0
    if all then return (count, buffer) else return (-1, buffer)
  else return (-1, buffer)

/-- The loop over the words of a sector in `ata_write_sectors`. -/
def ataWriteWords (base : Nat) (buffer : Buf) : Nat → Nat → PortM Unit
  | 0, _ => return ()
  | words + 1, at_ => do
      ataWriteWord base 0 (buffer.le at_ 2)
      ataWriteWords base buffer words (at_ + 2)

/-- The loop over the sectors in `ata_write_sectors`, and whether it came to its end. -/
def ataWriteLoop (base : Nat) (buffer : Buf) : Nat → Nat → PortM Bool
  | 0, _ => return true
  | sectors + 1, at_ => do
      if (← ataWaitDrq dev base 500000) ≠ 0 then return false
      else
        ataWriteWords base buffer 256 at_
        ataWrite base 7 ataCmdCacheFlush
        if (← ataWaitBsyClear dev base 500000) ≠ 0 then return false
        else ataWriteLoop base buffer sectors (at_ + 512)

/-- `ata_write_sectors` -/
def ataWriteSectors (channel : Channel) (drive : DriveSelect) (lba count : Nat) (buffer : Buf) :
    PortM Int := do
  if ← ataSelect dev channel drive lba count ataCmdWritePio then
    if ← ataWriteLoop dev (ataGetIoBase channel) buffer count 0 then return count else return -1
  else return -1

end Driver

/-! ## The drive's side -/

/-- The registers of a channel as they were written last, the words that went through the data
register since the command, and the status that was read last, as long as it holds. -/
structure TaskFile where
  count : Nat := 0
  lba0 : Nat := 0
  lba1 : Nat := 0
  lba2 : Nat := 0
  device : Nat := 0
  command : Nat := 0
  words : Nat := 0
  status : Option Nat := none
  deriving DecidableEq

namespace TaskFile

/-- BSY is clear. -/
def Idle (f : TaskFile) : Prop := ∃ s, f.status = some s ∧ s &&& ataSrBsy = 0

/-- The drive waits for a data word. -/
def Ready (f : TaskFile) : Prop :=
  ∃ s, f.status = some s ∧ s &&& ataSrBsy = 0 ∧ s &&& ataSrDrq ≠ 0 ∧
    s &&& (ataSrErr ||| ataSrDf) = 0

/-- A status holds until the drive has the next thing to do. -/
def moved (f : TaskFile) : TaskFile :=
  { f with
    words := f.words + 1
    status := if (f.words + 1) % 256 = 0 then none else f.status }

/-- The sector that the transfer begins at. -/
def lba (f : TaskFile) : Nat :=
  (f.device % 16) * 2 ^ 24 + f.lba2 * 2 ^ 16 + f.lba1 * 2 ^ 8 + f.lba0

def drive (f : TaskFile) : DriveSelect := if f.device.testBit 4 then .slave else .master

/-- The sectors of the transfer; 0 stands for 256. -/
def sectors (f : TaskFile) : Nat := if f.count = 0 then 256 else f.count

/-- What an access does.  A cache flush leaves the transfer that is under way. -/
def step (base : Nat) (f : TaskFile) : Access → TaskFile
  | .input bits port value =>
      if bits = 8 ∧ port = base + 7 then { f with status := some value }
      else if bits = 16 ∧ port = base then f.moved
      else f
  | .output bits port value =>
      if bits = 16 ∧ port = base then f.moved
      else if port = base + 2 then { f with count := value }
      else if port = base + 3 then { f with lba0 := value }
      else if port = base + 4 then { f with lba1 := value }
      else if port = base + 5 then { f with lba2 := value }
      else if port = base + 6 then { f with device := value, status := none }
      else if port = base + 7 then
        if value = ataCmdCacheFlush then { f with status := none }
        else { f with command := value, words := 0, status := none }
      else f

/-- What the driver has to wait for before an access. -/
def allows (base : Nat) (f : TaskFile) : Access → Prop
  | .input bits port _ => bits = 16 → port = base → f.Ready
  | .output bits port value =>
      (bits = 16 → port = base → f.Ready) ∧
      (bits = 8 → base < port → port ≤ base + 7 → value ≠ ataCmdCacheFlush → f.Idle)

end TaskFile

/-- The protocol of a channel. -/
def ataWatch (base : Nat) : Watch Access TaskFile := ⟨TaskFile.step base, TaskFile.allows base⟩

/-- The task file after the accesses of the whole past. -/
def taskFile (base : Nat) (h : List Access) : TaskFile := (ataWatch base).after {} h

/-- The words that were read from the data register. -/
def wordsIn (base : Nat) (t : List Access) : List Nat :=
  t.filterMap fun
    | .input bits port value => if bits = 16 ∧ port = base then some value else none
    | .output _ _ _ => none

/-- The words that were written to the data register. -/
def wordsOut (base : Nat) (t : List Access) : List Nat :=
  t.filterMap fun
    | .input _ _ _ => none
    | .output bits port value => if bits = 16 ∧ port = base then some value else none

end XosKernel.Drivers
