/-
# Fat32.Paths -- mount, make directory, change directory

`fat32_chdir` follows the disk to find the new directory and edits the text of the current
path separately (`upPath`, `appendPath`).
-/
import XosKernel.Fat32.Files

namespace XosKernel.Fat32

open XosKernel.Theory

set_option autoImplicit false

/-! ## Mount -/

/-- What `partition_get_info` fills in, as far as `fat32_mount` reads it. -/
structure Partition where
  type : Nat
  startLba : Nat

def partTypeFat32 : Nat := 0x0B
def partTypeFat32Lba : Nat := 0x0C

/-- The file system record that `fat32_mount` installs from a boot sector. -/
def mountedFs (disk partition : Nat) (part : Partition) (boot : Buf) : Fs :=
  let reserved := boot.le 14 2
  let numFats := (boot 16).toNat
  let sectorsPerFat := boot.le 36 4
  let fatAreaSize := numFats * sectorsPerFat % 2 ^ 32
  let fatStart := (part.startLba + reserved) % 2 ^ 32
  let dataSectors := (boot.le 32 4 + 2 ^ 32 - (reserved + fatAreaSize) % 2 ^ 32) % 2 ^ 32
  { disk, partition
    startLba := part.startLba
    fatStart
    dataStart := (fatStart + fatAreaSize) % 2 ^ 32
    rootDirCluster := boot.le 44 4
    sectorsPerFat
    numFats
    bytesPerSector := boot.le 11 2
    sectorsPerCluster := (boot 13).toNat
    totalClusters := dataSectors / (boot 13).toNat
    currentDirCluster := boot.le 44 4
    currentPath := [slash] }

/-- `fat32_mount`, given what `partition_get_info(disk, partition, ..)` found. -/
def fat32Mount (disk partition : Nat) (info : Option Partition) : FatM Int := do
  match info with
  | none => return -1
  | some part =>
      if part.type ≠ partTypeFat32 ∧ part.type ≠ partTypeFat32Lba then
        return -1
      else
        let read ← ataReadSectors disk part.startLba 1 (fun _ => 0)
        let boot := read.2
        if read.1 = 1 ∧ boot.le 510 2 = 0xAA55 then
          if boot 13 = 0 then throw .divideByZero
          else
            modify fun d =>
              { d with fs := mountedFs disk partition part boot, fsMounted := true }
            return 0
        else
          return -1

/-! ## Make directory -/

def dotName : Name83 := ⟨dot :: List.replicate 10 space, rfl⟩
def dotdotName : Name83 := ⟨dot :: dot :: List.replicate 9 space, rfl⟩

/-- A directory entry that refers to `cluster`. -/
def Dirent.newDirectory (name : Name83) (cluster : Nat) : Dirent :=
  { Dirent.zero with name, attributes := attrDirectory }.setFirstCluster cluster

/-- The cluster of a new directory: its `.` and `..` entries, and zeros. -/
def newDirectoryBuffer (newCluster parentCluster : Nat) : Buf :=
  Dirent.store (Dirent.store (fun _ => 0) 0 (Dirent.newDirectory dotName newCluster)) direntSize
    (Dirent.newDirectory dotdotName parentCluster)

/-- How the scan of `fat32_mkdir` for a free slot ends. -/
def scanFree : List Dirent → Nat → Option Nat
  | [], _ => none
  | e :: rest, i => if e.name0 = 0x00 ∨ e.name0 = 0xE5 then some i else scanFree rest (i + 1)

/-- The part of `fat32_mkdir` that adds the entry to the parent. -/
def addDirectory (parentCluster newCluster : Nat) (buffer : Buf) (name : Name83) : FatM Int := do
  let d ← get
  match scanFree (d.fs.entries buffer) 0 with
  | none =>
      d.fs.endOfEntries
      giveUp newCluster
  | some slot =>
      if ← writeDirectoryCluster parentCluster
          (Dirent.store buffer (slot * direntSize) (Dirent.newDirectory name newCluster)) then
        let _ ← refreshRoot parentCluster
        return 0
      else
        giveUp newCluster

/-- The part of `fat32_mkdir` after the allocation. -/
def mkdirAllocated (parentCluster : Nat) (dirname : List UInt8) (newCluster : Nat) :
    FatM Int := do
  if ← writeDirectoryCluster newCluster (newDirectoryBuffer newCluster parentCluster) then
    match ← loadDirectoryCluster parentCluster with
    | none => giveUp newCluster
    | some buffer =>
        match makeName83 dirname with
        | none => giveUp newCluster
        | some name => addDirectory parentCluster newCluster buffer name
  else
    giveUp newCluster

/-- `fat32_mkdir`.  A path that cannot be followed leaves `parent_cluster` and `dirname` as
they are on the stack, and the function goes on. -/
def fat32Mkdir (locals : Locals) (path : CStr) : FatM Int := do
  let d ← get
  if d.fsMounted then
    let nav ← navigatePath path.1
    if nav.result = 1 then
      return -1
    else
      match ← allocateClusterChain 1 with
      | none => return -1
      | some newCluster =>
          mkdirAllocated (nav.parentCluster.getD locals.parentCluster)
            (nav.filename.getD locals.filename.1) newCluster
  else
    return -1

/-! ## Change directory -/

/-- The character of the `char[256]` at index `i`, whose text is `text`. -/
def charAt (text : List UInt8) (i : Nat) : UInt8 := text.getD i 0

/-- `while (len > 0 && current_path[len] != '/') len--`. -/
def lastSlash (text : List UInt8) : Nat → Nat
  | 0 => 0
  | len + 1 => if charAt text (len + 1) = slash then len + 1 else lastSlash text len

/-- The edit of the path text for `..`. -/
def upPath (text : List UInt8) : List UInt8 :=
  let len := text.length
  let len := if 1 < len ∧ charAt text (len - 1) = slash then len - 1 else len
  let len := lastSlash text len
  text.take (if len = 0 then 1 else len)

/-- Whether a slash goes between the path text and an appended name. -/
def needsSlash (text : List UInt8) : Bool :=
  if 1 < text.length ∨ (text.length = 1 ∧ charAt text 0 ≠ slash) then
    charAt text (text.length - 1) ≠ slash
  else text.length = 0

/-- The edit of the path text for a name: the text before the terminating NUL. -/
def appendPath (text dirname : List UInt8) : List UInt8 :=
  let text := if needsSlash text then text ++ [slash] else text
  text ++ dirname.take (255 - text.length)

/-- Store a new text into `current_path`, NUL included. -/
def setCurrentPath (text : List UInt8) : FatM Unit := do
  if 256 ≤ text.length then throw .outOfBounds
  else modify fun d => { d with fs := { d.fs with currentPath := text } }

/-- The text part of `fat32_chdir`. -/
def updatePath (path dirname : List UInt8) : FatM Unit := do
  let d ← get
  if isAbsolute path then setCurrentPath (path.take 255)
  else if dirname = [dot] then return ()
  else if dirname = [dot, dot] then setCurrentPath (upPath d.fs.currentPath)
  else setCurrentPath (appendPath d.fs.currentPath dirname)

/-- `fat32_chdir`. -/
def fat32Chdir (path : CStr) : FatM Int := do
  let d ← get
  if d.fsMounted then
    let nav ← navigatePath path.1
    match nav.entry with
    | none => return -1
    | some e =>
        if e.isDirectory then
          modify fun d => { d with fs := { d.fs with currentDirCluster := e.firstCluster } }
          updatePath path.1 (nav.filename.getD [])
          return 0
        else
          return -1
  else
    return -1

end XosKernel.Fat32
