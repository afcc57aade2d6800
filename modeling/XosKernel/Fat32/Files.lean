/-
# Fat32.Files -- open, read, write, create and delete

Each operation resolves its path in its own way, and the resolution is a definition of its
own here (`openEntry`, `writeTarget`, `deleteEntry`): open looks for one 8.3 name in the
root or the current directory, write follows `fat32_navigate_path`, delete always searches
the root directory.
-/
import XosKernel.Fat32.Directory
import XosKernel.Fat32.FatTable

namespace XosKernel.Fat32

open XosKernel.Theory

set_option autoImplicit false

/-! ## Open and read -/

/-- The directory `fat32_open` searches. -/
def Fs.openCluster (fs : Fs) (path : List UInt8) : Nat :=
  if isAbsolute path then fs.rootDirCluster
  else if fs.currentDirCluster < 2 then fs.rootDirCluster
  else fs.currentDirCluster

/-- The search of `fat32_open`: the directory, the slot and the entry it opens.  A match
with the directory attribute ends the search without a file. -/
def openEntry (path : CStr) : FatM (Option (Nat × Nat × Dirent)) := do
  let d ← get
  let cluster := d.fs.openCluster path.1
  match ← loadDirectoryCluster cluster with
  | none => return none
  | some buffer =>
      match makeName83 (skipSlash path.1) with
      | none => return none
      | some name =>
          match ← scanDirectory (fun e => e.name = name) buffer with
          | none => return none
          | some (slot, e) => return if e.isDirectory then none else some (cluster, slot, e)

/-- The handle `fat32_open` fills in. -/
def Fs.handle (fs : Fs) (e : Dirent) : File where
  firstCluster := e.firstCluster
  currentCluster := e.firstCluster
  filePosition := 0
  fileSize := e.fileSize.toNat
  sectorOffset := 0
  disk := fs.disk
  partition := fs.partition
  attributes := e.attributes

/-- `fat32_open`: whether it returned a handle, which is always `open_file`. -/
def fat32Open (path : CStr) : FatM Bool := do
  let d ← get
  if d.fsMounted then
    match ← openEntry path with
    | none => return false
    | some (_, _, e) =>
        modify fun d => { d with openFile := d.fs.handle e }
        return true
  else
    return false

/-- The loop of `fat32_read`: `out` holds the bytes copied so far.  A pass that goes on
copied at least one byte, so `count` passes are enough. -/
def readLoop (clusterSize count : Nat) : Nat → List UInt8 → FatM (List UInt8)
  | 0, out => return out
  | passes + 1, out => do
      let d ← get
      let file := d.openFile
      if out.length < count ∧ isValidCluster file.currentCluster then
        if fileClusterBufSize < d.fs.sectorsPerCluster * 512 then throw .outOfBounds
        else
          let read ← ataReadSectors file.disk (d.fs.clusterToLba file.currentCluster)
            d.fs.sectorsPerCluster d.fileClusterBuf
          modify fun d => { d with fileClusterBuf := read.2 }
          if read.1 = d.fs.sectorsPerCluster then
            if clusterSize = 0 then throw .divideByZero
            else
              let offset := file.filePosition % clusterSize
              let toCopy := min (count - out.length) (clusterSize - offset)
              let position := (file.filePosition + toCopy) % 2 ^ 32
              let out := out ++ read.2.toList offset toCopy
              modify fun d => { d with openFile := { d.openFile with filePosition := position } }
              if position % clusterSize = 0 then
                let next ← nextCluster file.currentCluster
                if isEndOfChain next || next == 0 then
                  return out
                else
                  modify fun d => { d with openFile := { d.openFile with currentCluster := next } }
                  readLoop clusterSize count passes out
              else
                readLoop clusterSize count passes out
          else
            return out
      else
        return out

/-- The conversion of an unsigned 32-bit value to `int`. -/
def toInt32 (n : Nat) : Int := (n : Int).bmod (2 ^ 32)

/-- `fat32_read` on the open handle: the return value and the bytes put into the buffer. -/
def fat32Read (count : Nat) : FatM (Int × List UInt8) := do
  let d ← get
  if d.fsMounted then
    let remaining := (d.openFile.fileSize + 2 ^ 32 - d.openFile.filePosition) % 2 ^ 32
    let count := min count remaining
    if count = 0 then
      return (0, [])
    else
      let out ← readLoop (d.fs.sectorsPerCluster * 512) count count []
      return (toInt32 out.length, out)
  else
    return (-1, [])

/-! ## Write and create -/

/-- How the directory scan of `fat32_write` ends. -/
inductive WriteScan where
  | existing (slot : Nat)
  | free (slot : Nat)
  | exhausted (slot : Option Nat)

/-- The scan of `fat32_write` for an existing entry or a free slot.  The end marker stops
it only while no free slot is known. -/
def scanWrite (name : Name83) : List Dirent → Nat → Option Nat → WriteScan
  | [], _, free => .exhausted free
  | e :: rest, i, free =>
      if e.name0 = 0x00 ∧ free = none then .free i
      else if e.skipped then scanWrite name rest (i + 1) (free.or (some i))
      else if e.name = name then .existing i
      else scanWrite name rest (i + 1) free

/-- The slot `fat32_write` decided on. -/
structure WriteTarget where
  parentCluster : Nat
  parentBuffer : Buf
  name : Name83
  slot : Nat
  existing : Bool

/-- The first half of `fat32_write`, up to the choice of the entry; `none` stands for its
`return -1`. -/
def writeTarget (locals : Locals) (path : CStr) : FatM (Option WriteTarget) := do
  let nav ← navigatePath path.1
  if nav.result < 0 then
    return none
  else
    let parentCluster := nav.parentCluster.getD locals.parentCluster
    let name := nav.filename.getD locals.filename.1
    if name = [] then
      return none
    else
      match makeName83 name with
      | none => return none
      | some name83 =>
          match ← loadDirectoryCluster parentCluster with
          | none => return none
          | some buffer =>
              let d ← get
              match scanWrite name83 (d.fs.entries buffer) 0 none with
              | .existing slot => return some ⟨parentCluster, buffer, name83, slot, true⟩
              | .free slot => return some ⟨parentCluster, buffer, name83, slot, false⟩
              | .exhausted free =>
                  d.fs.endOfEntries
                  return free.map fun slot => ⟨parentCluster, buffer, name83, slot, false⟩

/-- The loop of `fat32_write` over the allocated clusters: `false` is a failed transfer.
Every pass takes at least one byte, so `remaining` passes are enough. -/
def writeLoop (clusterSize : Nat) : Nat → List UInt8 → Nat → Nat → FatM Bool
  | 0, _, _, _ => return true
  | passes + 1, src, remaining, cluster => do
      if 0 < remaining ∧ isValidCluster cluster then
        let d ← get
        if fileClusterBufSize < clusterSize then throw .outOfBounds
        else
          let chunk := min remaining clusterSize
          let buffer := (d.fileClusterBuf.blit 0 clusterSize (fun _ => 0)).blit 0 chunk
            (Buf.ofList src)
          modify fun d => { d with fileClusterBuf := buffer }
          let written ← ataWriteSectors .fileCluster d.fs.disk (d.fs.clusterToLba cluster)
            d.fs.sectorsPerCluster buffer
          if written = d.fs.sectorsPerCluster then
            let next ← nextCluster cluster
            if isEndOfChain next || next == 0 then
              return true
            else
              writeLoop clusterSize passes (src.drop chunk) (remaining - chunk) next
          else
            return false
      else
        return true

/-- `if (old_first_cluster >= 2) fat32_free_cluster_chain(old_first_cluster)`. -/
def freeOldChain (firstCluster : Nat) : FatM Unit := do
  if 2 ≤ firstCluster then
    let _ ← freeClusterChain firstCluster
    return ()
  else
    return ()

/-- `fat32_load_root_directory()` if the root directory was the one modified: `false` when
that fails. -/
def refreshRoot (parentCluster : Nat) : FatM Bool := do
  let d ← get
  if parentCluster = d.fs.rootDirCluster then loadRootDirectory else return true

/-- The entry of a new, empty file. -/
def Dirent.newFile (name : Name83) : Dirent := { Dirent.zero with name, attributes := attrArchive }

/-- The part of `fat32_write` for an empty file. -/
def writeEmpty (target : WriteTarget) (buffer : Buf) : FatM Int := do
  if ← writeDirectoryCluster target.parentCluster buffer then
    let _ ← refreshRoot target.parentCluster
    return 0
  else
    return -1

/-- Give the new chain back and fail. -/
def giveUp (firstCluster : Nat) : FatM Int := do
  let _ ← freeClusterChain firstCluster
  return -1

/-- The part of `fat32_write` after the allocation: data, entry, directory. -/
def writeAllocated (target : WriteTarget) (buffer : Buf) (data : List UInt8)
    (firstCluster : Nat) : FatM Int := do
  let d ← get
  let remaining := data.length % 2 ^ 32
  if ← writeLoop (d.fs.sectorsPerCluster * 512) remaining data remaining firstCluster then
    let entry := { (Dirent.newFile target.name).setFirstCluster firstCluster with
      fileSize := UInt32.ofNat data.length }
    if ← writeDirectoryCluster target.parentCluster
        (Dirent.store buffer (target.slot * direntSize) entry) then
      if ← refreshRoot target.parentCluster then
        return 0
      else
        giveUp firstCluster
    else
      giveUp firstCluster
  else
    giveUp firstCluster

/-- `clusters_needed`. -/
def clustersNeeded (clusterSize count : Nat) : Nat :=
  (count + clusterSize - 1) % 2 ^ 64 / clusterSize % 2 ^ 32

/-- The second half of `fat32_write`, with the entry chosen. -/
def writeEntry (target : WriteTarget) (data : List UInt8) : FatM Int := do
  let d ← get
  let old := Dirent.load target.parentBuffer (target.slot * direntSize)
  freeOldChain old.firstCluster
  let buffer := Dirent.store target.parentBuffer (target.slot * direntSize)
    (Dirent.newFile target.name)
  if data = [] then
    writeEmpty target buffer
  else
    let clusterSize := d.fs.sectorsPerCluster * 512
    if clusterSize = 0 then throw .divideByZero
    else
      match ← allocateClusterChain (clustersNeeded clusterSize data.length) with
      | none => return -1
      | some firstCluster => writeAllocated target buffer data firstCluster

/-- `fat32_write`. -/
def fat32Write (locals : Locals) (path : CStr) (data : List UInt8) : FatM Int := do
  let d ← get
  if d.fsMounted then
    match ← writeTarget locals path with
    | none => return -1
    | some target => writeEntry target data
  else
    return -1

/-- `fat32_create`. -/
def fat32Create (locals : Locals) (path : CStr) : FatM Int := fat32Write locals path []

/-! ## Delete -/

/-- The search of `fat32_delete`, which leaves the root directory in `root_dir_buffer`. -/
def deleteEntry (path : CStr) : FatM (Option (Nat × Dirent)) := do
  if ← loadRootDirectory then
    match makeName83 (skipSlash path.1) with
    | none => return none
    | some name =>
        let d ← get
        scanDirectory (fun e => e.name = name) d.rootDirBuffer
  else
    return none

/-- The entry `fat32_delete` leaves in the slot. -/
def Dirent.deleted (e : Dirent) : Dirent :=
  { e with
    name := ⟨0xE5 :: e.name.1.tail, by simp [e.name.2]⟩
    attributes := 0
    firstClusterHigh := 0
    firstClusterLow := 0
    fileSize := 0 }

/-- `fat32_delete`. -/
def fat32Delete (path : CStr) : FatM Int := do
  let d ← get
  if d.fsMounted then
    match ← deleteEntry path with
    | none => return -1
    | some (slot, e) =>
        freeOldChain e.firstCluster
        modify fun d =>
          { d with rootDirBuffer := Dirent.store d.rootDirBuffer (slot * direntSize) e.deleted }
        saveRootDirectory
  else
    return -1

end XosKernel.Fat32
