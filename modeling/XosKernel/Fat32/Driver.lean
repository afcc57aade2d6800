/-
# Fat32.Driver -- the state of `fat32.c` and the directory entry layout

The static variables of `fat32.c` are one record, `Driver`, together with the drives the
file reaches through `ata.c`.  A function of the file is a command over it (`FatM`): it
returns a value and the new state, or it stops at an access the C language leaves
undefined (`Ub`).  Local arrays that a function declares without a value and reads before
it wrote them are arguments (`Locals`), so that nothing is assumed about what the stack
holds.

Sizes and cluster numbers are natural numbers; where the C expression is computed in 32
bits the definition says `% 2 ^ 32`.
-/
import XosKernel.Fat32.Ata
import XosKernel.Theory.StateRun

namespace XosKernel.Fat32

open XosKernel.Theory

set_option autoImplicit false

/-! ## Directory entries -/

/-- The eleven bytes of an 8.3 name. -/
def Name83 := { bytes : List UInt8 // bytes.length = 11 }
  deriving DecidableEq

/-- `fat32_dirent_t`. -/
structure Dirent where
  name : Name83
  attributes : UInt8
  ntReserved : UInt8
  creationTimeTenth : UInt8
  creationTime : UInt16
  creationDate : UInt16
  lastAccessDate : UInt16
  firstClusterHigh : UInt16
  writeTime : UInt16
  writeDate : UInt16
  firstClusterLow : UInt16
  fileSize : UInt32
  deriving DecidableEq

def attrDirectory : UInt8 := 0x10
def attrArchive : UInt8 := 0x20
def attrLfn : UInt8 := 0x0F

/-- `sizeof(fat32_dirent_t)`. -/
def direntSize : Nat := 32

namespace Dirent

def name0 (e : Dirent) : UInt8 := e.name.1.getD 0 0

def isDirectory (e : Dirent) : Bool := e.attributes &&& attrDirectory != 0

/-- `(first_cluster_high << 16) | first_cluster_low`. -/
def firstCluster (e : Dirent) : Nat :=
  e.firstClusterHigh.toNat * 2 ^ 16 + e.firstClusterLow.toNat

/-- Decode the 32 bytes at `off`. -/
def load (b : Buf) (off : Nat) : Dirent where
  name := ⟨b.toList off 11, b.length_toList off 11⟩
  attributes := b (off + 11)
  ntReserved := b (off + 12)
  creationTimeTenth := b (off + 13)
  creationTime := UInt16.ofNat (b.le (off + 14) 2)
  creationDate := UInt16.ofNat (b.le (off + 16) 2)
  lastAccessDate := UInt16.ofNat (b.le (off + 18) 2)
  firstClusterHigh := UInt16.ofNat (b.le (off + 20) 2)
  writeTime := UInt16.ofNat (b.le (off + 22) 2)
  writeDate := UInt16.ofNat (b.le (off + 24) 2)
  firstClusterLow := UInt16.ofNat (b.le (off + 26) 2)
  fileSize := UInt32.ofNat (b.le (off + 28) 4)

/-- The 32 bytes of an entry. -/
def bytes (e : Dirent) : Buf :=
  let b0 : Buf := fun i => if i < 11 then e.name.1.getD i 0
    else if i = 11 then e.attributes
    else if i = 12 then e.ntReserved
    else e.creationTimeTenth
  (((((((b0.putLe 14 2 e.creationTime.toNat).putLe 16 2 e.creationDate.toNat).putLe 18 2
    e.lastAccessDate.toNat).putLe 20 2 e.firstClusterHigh.toNat).putLe 22 2
    e.writeTime.toNat).putLe 24 2 e.writeDate.toNat).putLe 26 2
    e.firstClusterLow.toNat).putLe 28 4 e.fileSize.toNat

/-- Encode an entry into the 32 bytes at `off`. -/
def store (b : Buf) (off : Nat) (e : Dirent) : Buf := b.blit off direntSize e.bytes

/-- The entry `memset(e, 0, sizeof *e)` leaves. -/
def zero : Dirent where
  name := ⟨List.replicate 11 0, rfl⟩
  attributes := 0
  ntReserved := 0
  creationTimeTenth := 0
  creationTime := 0
  creationDate := 0
  lastAccessDate := 0
  firstClusterHigh := 0
  writeTime := 0
  writeDate := 0
  firstClusterLow := 0
  fileSize := 0

/-- Store a cluster number into the two halves of the first-cluster field. -/
def setFirstCluster (e : Dirent) (cluster : Nat) : Dirent :=
  { e with
    firstClusterHigh := UInt16.ofNat (cluster / 2 ^ 16)
    firstClusterLow := UInt16.ofNat cluster }

theorem load_congr {b b' : Buf} {off off' : Nat}
    (same : ∀ i, i < direntSize → b (off + i) = b' (off' + i)) : load b off = load b' off' := by
  have field : ∀ k n, k + n ≤ 32 → b.le (off + k) n = b'.le (off' + k) n := by
    intro k n
    induction n generalizing k with
    | zero => intro; rfl
    | succ n ih =>
        intro bound
        have byte := same k (by simp only [direntSize]; omega)
        have rest := ih (k + 1) (by omega)
        rw [Buf.le, Buf.le, byte, Nat.add_assoc, rest, Nat.add_assoc]
  have names : b.toList off 11 = b'.toList off' 11 := by
    apply List.map_congr_left
    intro k member
    rw [List.mem_range] at member
    exact same k (by simp only [direntSize]; omega)
  have byte : ∀ k, k < 32 → b (off + k) = b' (off' + k) := same
  simp only [load, names, field 14 2 (by omega), field 16 2 (by omega), field 18 2 (by omega),
    field 20 2 (by omega), field 22 2 (by omega), field 24 2 (by omega), field 26 2 (by omega),
    field 28 4 (by omega), byte 11 (by omega), byte 12 (by omega), byte 13 (by omega)]

theorem toList_bytes (e : Dirent) : e.bytes.toList 0 11 = e.name.1 := by
  have length := e.name.2
  apply List.ext_getElem
  · simp [length]
  intro k low high
  have small : k < 11 := by simpa using low
  simp only [Buf.toList, List.getElem_map, List.getElem_range, Nat.zero_add, bytes]
  repeat rw [Buf.putLe_of_outside (by omega)]
  rw [if_pos small, List.getD_eq_getElem?_getD, List.getElem?_eq_getElem high, Option.getD_some]

/-- Decoding an encoded entry gives the entry back. -/
@[simp] theorem load_bytes (e : Dirent) : load e.bytes 0 = e := by
  have name : (⟨e.bytes.toList 0 11, e.bytes.length_toList 0 11⟩ : Name83) = e.name :=
    Subtype.ext (toList_bytes e)
  have u16 : ∀ (x : UInt16), x.toNat % 256 ^ 2 = x.toNat := fun x =>
    Nat.mod_eq_of_lt (by have := x.toNat_lt; omega)
  have u32 : ∀ (x : UInt32), x.toNat % 256 ^ 4 = x.toNat := fun x =>
    Nat.mod_eq_of_lt (by have := x.toNat_lt; omega)
  have byte11 : e.bytes 11 = e.attributes := by simp [bytes, Buf.putLe]
  have byte12 : e.bytes 12 = e.ntReserved := by simp [bytes, Buf.putLe]
  have byte13 : e.bytes 13 = e.creationTimeTenth := by simp [bytes, Buf.putLe]
  have f14 : e.bytes.le 14 2 = e.creationTime.toNat := by
    unfold bytes; repeat rw [Buf.le_putLe_of_disjoint (by omega)]
    rw [Buf.le_putLe, u16]
  have f16 : e.bytes.le 16 2 = e.creationDate.toNat := by
    unfold bytes; repeat rw [Buf.le_putLe_of_disjoint (by omega)]
    rw [Buf.le_putLe, u16]
  have f18 : e.bytes.le 18 2 = e.lastAccessDate.toNat := by
    unfold bytes; repeat rw [Buf.le_putLe_of_disjoint (by omega)]
    rw [Buf.le_putLe, u16]
  have f20 : e.bytes.le 20 2 = e.firstClusterHigh.toNat := by
    unfold bytes; repeat rw [Buf.le_putLe_of_disjoint (by omega)]
    rw [Buf.le_putLe, u16]
  have f22 : e.bytes.le 22 2 = e.writeTime.toNat := by
    unfold bytes; repeat rw [Buf.le_putLe_of_disjoint (by omega)]
    rw [Buf.le_putLe, u16]
  have f24 : e.bytes.le 24 2 = e.writeDate.toNat := by
    unfold bytes; repeat rw [Buf.le_putLe_of_disjoint (by omega)]
    rw [Buf.le_putLe, u16]
  have f26 : e.bytes.le 26 2 = e.firstClusterLow.toNat := by
    unfold bytes; repeat rw [Buf.le_putLe_of_disjoint (by omega)]
    rw [Buf.le_putLe, u16]
  have f28 : e.bytes.le 28 4 = e.fileSize.toNat := by
    unfold bytes; rw [Buf.le_putLe, u32]
  simp only [load, Nat.zero_add, name, byte11, byte12, byte13, f14, f16, f18, f20, f22, f24,
    f26, f28, UInt16.ofNat_toNat, UInt32.ofNat_toNat]

theorem load_store (b : Buf) (off : Nat) (e : Dirent) : load (store b off e) off = e := by
  rw [← load_bytes e]
  apply load_congr
  intro i bound
  rw [load_bytes, store, Buf.blit_of_inside (by omega) (by omega), Nat.add_sub_cancel_left,
    Nat.zero_add]

theorem load_store_of_disjoint {b : Buf} {off off' : Nat} {e : Dirent}
    (disjoint : off' + direntSize ≤ off ∨ off + direntSize ≤ off') :
    load (store b off e) off' = load b off' := by
  apply load_congr
  intro i bound
  exact Buf.blit_of_outside (by omega)

@[simp] theorem firstCluster_setFirstCluster (e : Dirent) (cluster : Nat)
    (bound : cluster < 2 ^ 32) : (e.setFirstCluster cluster).firstCluster = cluster := by
  simp only [firstCluster, setFirstCluster, UInt16.toNat_ofNat']
  omega

end Dirent

/-! ## The driver state -/

/-- `fat32_fs_t`.  `currentPath` is the text of the `char[256]`, without its NUL. -/
structure Fs where
  disk : Nat
  partition : Nat
  startLba : Nat
  fatStart : Nat
  dataStart : Nat
  rootDirCluster : Nat
  sectorsPerFat : Nat
  numFats : Nat
  bytesPerSector : Nat
  sectorsPerCluster : Nat
  totalClusters : Nat
  currentDirCluster : Nat
  currentPath : List UInt8

/-- `fat32_file_t`. -/
structure File where
  firstCluster : Nat
  currentCluster : Nat
  filePosition : Nat
  fileSize : Nat
  sectorOffset : Nat
  disk : Nat
  partition : Nat
  attributes : UInt8
  deriving DecidableEq

/-- The static variables of `fat32.c` and the drives behind them. -/
structure Driver where
  ata : Ata
  fs : Fs
  fsMounted : Bool
  rootDirBuffer : Buf
  fatSectorCache : Buf
  fatCacheSector : Nat
  openFile : File
  fileClusterBuf : Buf

/-- A NUL-terminated string argument: its bytes, none of them NUL. -/
def CStr := { text : List UInt8 // 0 ∉ text }

/-- What the uninitialised locals `parent_cluster` and `filename` (`dirname`) hold. -/
structure Locals where
  parentCluster : Nat
  filename : CStr

/-- Behaviour that C leaves undefined, and loops without an end. -/
inductive Ub where
  | outOfBounds
  | divideByZero
  | diverges
  deriving DecidableEq

/-- A function of `fat32.c`. -/
abbrev FatM := StateT Driver (Except Ub)

/-- `sizeof(root_dir_buffer)`, also the size of every local directory buffer. -/
def dirBufferSize : Nat := 16384

/-- `sizeof(file_cluster_buf)`. -/
def fileClusterBufSize : Nat := 4096

/-- `fat32_disk_to_ata`. -/
def diskToAta : Nat → Channel × DriveSelect
  | 0 => (.primary, .master)
  | 1 => (.primary, .slave)
  | 2 => (.secondary, .master)
  | _ => (.secondary, .slave)

/-- `ata_read_sectors` on one of the four disks, into `buffer`. -/
def ataReadSectors (disk lba count : Nat) (buffer : Buf) : FatM (Int × Buf) := do
  let d ← get
  let result := d.ata.readSectors (diskToAta disk).1 (diskToAta disk).2 lba count buffer
  set { d with ata := result.2.2 }
  return (result.1, result.2.1)

/-- `ata_write_sectors` on one of the four disks. -/
def ataWriteSectors (source : WriteBuffer) (disk lba count : Nat) (buffer : Buf) : FatM Int := do
  let d ← get
  let result := d.ata.writeSectors source (diskToAta disk).1 (diskToAta disk).2 lba count buffer
  set { d with ata := result.2 }
  return result.1

/-- `fat32_cluster_to_lba`. -/
def Fs.clusterToLba (fs : Fs) (cluster : Nat) : Nat :=
  (fs.dataStart + (cluster + 2 ^ 32 - 2) % 2 ^ 32 * fs.sectorsPerCluster) % 2 ^ 32

/-- `fat32_is_end_of_chain`. -/
def isEndOfChain (cluster : Nat) : Bool := 0x0FFFFFF8 ≤ cluster

/-- `fat32_is_valid_cluster`. -/
def isValidCluster (cluster : Nat) : Bool := 2 ≤ cluster && cluster < 0x0FFFFFF8

end XosKernel.Fat32
