/-
# Fat32.Ata -- sector transfers of `ata.c`

A drive is an array of 512-byte sectors.  `ata_read_sectors` and `ata_write_sectors`
put the low 28 bits of the LBA into the drive's registers and move `count` sectors from
there on; every way in which they can give up (no device, controller busy, drive error,
a timeout before some sector, a failed cache flush) ends in the return value `-1`.
Which transfer fails, and after how many sectors, is not up to the driver: it is the
oracle `fault`, asked once for every transfer.  A read gives up before a sector, so it
never delivers the last one and fails; a write can also fail in the flush after it.
-/
import XosKernel.Theory.Bytes

namespace XosKernel.Fat32

open XosKernel.Theory

set_option autoImplicit false

inductive Channel where
  | primary
  | secondary
  deriving DecidableEq

inductive DriveSelect where
  | master
  | slave
  deriving DecidableEq

/-- Bytes in a sector. -/
def sectorSize : Nat := 512

/-- The 28 bits of an LBA that reach the drive's registers. -/
def lba28 (lba : Nat) : Nat := lba % 2 ^ 28

/-- The buffers that `fat32.c` hands to `ata_write_sectors`: the `sector_buf` of a table
update, one of the directory buffers, `file_cluster_buf`. -/
inductive WriteBuffer where
  | table
  | directory
  | fileCluster
  deriving DecidableEq

/-- The arguments of a call of `ata_write_sectors`. -/
structure WriteCommand where
  buffer : WriteBuffer
  channel : Channel
  drive : DriveSelect
  lba : Nat
  count : Nat
  deriving DecidableEq

/-- The drives, and the oracle of failing transfers: `fault n = some k` lets transfer
number `n` stop with an error after `k` sectors.  `writes` lists the calls of
`ata_write_sectors`, the last one first. -/
structure Ata where
  media : Channel → DriveSelect → Nat → Buf
  fault : Nat → Option Nat
  transfers : Nat
  writes : List WriteCommand := []

namespace Ata

/-- The bytes of consecutive sectors, as the data port delivers them. -/
def stream (a : Ata) (channel : Channel) (drive : DriveSelect) (lba : Nat) : Buf := fun i =>
  a.media channel drive (lba28 lba + i / sectorSize) (i % sectorSize)

/-- The media after `count` sectors of `buffer` arrived at `lba`. -/
def store (a : Ata) (channel : Channel) (drive : DriveSelect) (lba count : Nat) (buffer : Buf) :
    Channel → DriveSelect → Nat → Buf := fun c d l =>
  if c = channel ∧ d = drive ∧ lba28 lba ≤ l ∧ l < lba28 lba + count then
    fun o => buffer ((l - lba28 lba) * sectorSize + o)
  else a.media c d l

/-- `ata_read_sectors`: the return value, the caller's buffer and the drives afterwards. -/
def readSectors (a : Ata) (channel : Channel) (drive : DriveSelect) (lba count : Nat)
    (buffer : Buf) : Int × Buf × Ata :=
  let done := { a with transfers := a.transfers + 1 }
  match a.fault a.transfers with
  | none => (count, buffer.blit 0 (count * sectorSize) (a.stream channel drive lba), done)
  | some k =>
      (-1, buffer.blit 0 (min k (count - 1) * sectorSize) (a.stream channel drive lba), done)

/-- `ata_write_sectors`: the return value and the drives afterwards; `source` says which
buffer it is given. -/
def writeSectors (a : Ata) (source : WriteBuffer) (channel : Channel) (drive : DriveSelect)
    (lba count : Nat) (buffer : Buf) : Int × Ata :=
  let done := fun n =>
    { a with
      media := a.store channel drive lba n buffer
      transfers := a.transfers + 1
      writes := ⟨source, channel, drive, lba, count⟩ :: a.writes }
  match a.fault a.transfers with
  | none => (count, done count)
  | some k => (-1, done (min k count))

end Ata

end XosKernel.Fat32
