/-
# Fat32.Partition -- the partition table of `partition.c`

`partition_detect` reads the first sector of a disk and lists its used entries in
`partitions[]`; `partition_get_info` looks one up by its disk and its number in the table.  The
array has room for more than the four entries of a sector, so the list is never cut.
-/
import XosKernel.Fat32.Paths

namespace XosKernel.Fat32

open XosKernel.Theory

set_option autoImplicit false

/-- `partition_t`. -/
structure PartitionInfo where
  startLba : Nat
  sizeSectors : Nat
  type : Nat
  bootable : Bool
  disk : Nat
  partitionIndex : Nat
  deriving DecidableEq

/-- The first `partition_count` elements of `partitions[]`. -/
abbrev PartitionTable := List PartitionInfo

def partTypeUnused : Nat := 0x00

/-- `mbr_partition_t` number `i` of the sector. -/
def mbrEntry (i : Nat) : Nat := 446 + i * 16

/-- What `partition_detect` fills in for entry `i` of the sector. -/
def partitionInfo (disk : Nat) (mbr : Buf) (i : Nat) : PartitionInfo where
  startLba := mbr.le (mbrEntry i + 8) 4
  sizeSectors := mbr.le (mbrEntry i + 12) 4
  type := (mbr (mbrEntry i + 4)).toNat
  bootable := mbr (mbrEntry i) = 0x80
  disk := disk
  partitionIndex := i

/-- The loop of `partition_detect` over the four entries. -/
def usedEntries (disk : Nat) (mbr : Buf) : PartitionTable :=
  ((List.range 4).map (partitionInfo disk mbr)).filter fun info => info.type ≠ partTypeUnused

/-- `partition_detect`: the return value, and the table it leaves. -/
def partitionDetect (disk : Nat) (table : PartitionTable) : FatM (Int × PartitionTable) := do
  let read ← ataReadSectors disk 0 1 (fun _ => 0)
  if read.1 = 1 ∧ read.2.le 510 2 = 0xAA55 then
    let found := usedEntries disk read.2
    return (found.length, found)
  else
    return (-1, table)

/-- `partition_get_info`. -/
def partitionGetInfo (table : PartitionTable) (disk partitionIndex : Nat) : Option PartitionInfo :=
  if table.length ≤ partitionIndex then none
  else table.find? fun p => p.disk = disk ∧ p.partitionIndex = partitionIndex

/-- `partition_get_count`. -/
def partitionGetCount (table : PartitionTable) (disk : Nat) : Nat :=
  table.countP fun p => p.disk = disk

/-- What `fat32_mount` reads of a `partition_t`. -/
def PartitionInfo.mountable (info : PartitionInfo) : Partition where
  type := info.type
  startLba := info.startLba

end XosKernel.Fat32
