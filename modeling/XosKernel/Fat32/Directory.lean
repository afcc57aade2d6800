/-
# Fat32.Directory -- directory clusters and path navigation

A directory is the array of entries in one cluster.  Open, delete and path navigation
scan it in the same way (`scanLive`): up to the `0x00` end marker, past deleted and
long-name slots.  `fat32_navigate_path` walks the components of a path with such scans.
-/
import XosKernel.Fat32.Names

namespace XosKernel.Fat32

open XosKernel.Theory

set_option autoImplicit false

/-! ## Loading and scanning -/

/-- Sectors of a directory cluster that fit a directory buffer. -/
def Fs.dirSectors (fs : Fs) : Nat :=
  if dirBufferSize < fs.sectorsPerCluster * 512 then dirBufferSize / 512 else fs.sectorsPerCluster

/-- `max_entries`. -/
def Fs.maxEntries (fs : Fs) : Nat := fs.sectorsPerCluster * 512 / direntSize

/-- The entries of a directory buffer, as far as both the count and the array go. -/
def Fs.entries (fs : Fs) (buffer : Buf) : List Dirent :=
  (List.range (min fs.maxEntries (dirBufferSize / direntSize))).map fun i =>
    Dirent.load buffer (i * direntSize)

/-- Falling off the entries is a normal end of the loop only if the array holds them all. -/
def Fs.endOfEntries (fs : Fs) : FatM Unit :=
  if dirBufferSize < fs.maxEntries * direntSize then throw .outOfBounds else pure ()

/-- `fat32_load_directory_cluster`; `none` is the return value `-1`. -/
def loadDirectoryCluster (cluster : Nat) : FatM (Option Buf) := do
  let d ← get
  let read ← ataReadSectors d.fs.disk (d.fs.clusterToLba cluster) d.fs.dirSectors (fun _ => 0)
  return if read.1 = d.fs.dirSectors then some read.2 else none

/-- Write a directory buffer back to its cluster: `ata_write_sectors(.., buffer)` with
`sectors_per_cluster` sectors of a `dirBufferSize` array. -/
def writeDirectoryCluster (cluster : Nat) (buffer : Buf) : FatM Bool := do
  let d ← get
  if dirBufferSize < d.fs.sectorsPerCluster * 512 then throw .outOfBounds
  else
    let written ←
      ataWriteSectors .directory d.fs.disk (d.fs.clusterToLba cluster) d.fs.sectorsPerCluster buffer
    return written = d.fs.sectorsPerCluster

/-- How a directory scan ends: at a slot, at the end marker, or after the last entry. -/
inductive Scan where
  | found (slot : Nat) (e : Dirent)
  | ended
  | exhausted

/-- A slot that a scan passes over: deleted, or part of a long name. -/
def Dirent.skipped (e : Dirent) : Bool := e.name0 = 0xE5 || e.attributes = attrLfn

/-- The loop shared by open, delete and path navigation, from slot number `i` on. -/
def scanLive (test : Dirent → Bool) : List Dirent → Nat → Scan
  | [], _ => .exhausted
  | e :: rest, i =>
      if e.name0 = 0x00 then .ended
      else if e.skipped then scanLive test rest (i + 1)
      else if test e then .found i e
      else scanLive test rest (i + 1)

/-- Scan a directory buffer for an entry. -/
def scanDirectory (test : Dirent → Bool) (buffer : Buf) : FatM (Option (Nat × Dirent)) := do
  let d ← get
  match scanLive test (d.fs.entries buffer) 0 with
  | .found slot e => return some (slot, e)
  | .ended => return none
  | .exhausted =>
      d.fs.endOfEntries
      return none

/-- `fat32_find_in_directory`; `none` is the return value `-1`. -/
def findInDirectory (cluster : Nat) (name : List UInt8) : FatM (Option Dirent) := do
  match ← loadDirectoryCluster cluster with
  | none => return none
  | some buffer =>
      let found ← scanDirectory (fun e => nameMatch e name) buffer
      return found.map Prod.snd

/-- `fat32_load_root_directory`: whether it returned 0. -/
def loadRootDirectory : FatM Bool := do
  let d ← get
  let read ← ataReadSectors d.fs.disk (d.fs.clusterToLba d.fs.rootDirCluster) d.fs.dirSectors
    d.rootDirBuffer
  modify fun d => { d with rootDirBuffer := read.2 }
  return read.1 = d.fs.dirSectors

/-- `fat32_save_root_directory`. -/
def saveRootDirectory : FatM Int := do
  let d ← get
  let written ← ataWriteSectors .directory d.fs.disk (d.fs.clusterToLba d.fs.rootDirCluster)
    d.fs.dirSectors d.rootDirBuffer
  return if written = d.fs.dirSectors then 0 else -1

/-! ## Path navigation -/

/-- What `fat32_navigate_path` returns, and which of its output arguments it set. -/
structure Nav where
  result : Int
  parentCluster : Option Nat
  entry : Option Dirent
  filename : Option (List UInt8)

/-- The component loop of `fat32_navigate_path`: `component` is its buffer.  It ends with
the cluster reached and the last component, or with `none` for a `return -1`. -/
def walkPath : List UInt8 → Nat → List UInt8 → FatM (Option (Nat × List UInt8))
  | [], cluster, component => return some (cluster, component)
  | c :: path, cluster, component => do
      if c = slash then
        if component = [] then
          walkPath path cluster []
        else
          match ← findInDirectory cluster component with
          | none => return none
          | some e =>
              if e.isDirectory then walkPath path e.firstCluster [] else return none
      else
        walkPath path cluster (if component.length < 255 then component ++ [c] else component)

/-- Whether a path starts at the root. -/
def isAbsolute (path : List UInt8) : Bool := path.head? = some slash

/-- The cluster at which `fat32_navigate_path` starts. -/
def Fs.startCluster (fs : Fs) (path : List UInt8) : Nat :=
  if isAbsolute path then fs.rootDirCluster else fs.currentDirCluster

/-- `fat32_navigate_path`, for the callers that pass all three output arguments. -/
def navigatePath (path : List UInt8) : FatM Nav := do
  let d ← get
  match ← walkPath (skipSlash path) (d.fs.startCluster path) [] with
  | none => return ⟨-1, none, none, none⟩
  | some (cluster, []) => return ⟨0, some cluster, none, none⟩
  | some (cluster, c :: component) =>
      match ← findInDirectory cluster (c :: component) with
      | some e => return ⟨1, some cluster, some e, some (c :: component)⟩
      | none => return ⟨0, some cluster, none, some (c :: component)⟩

/-! ## Listing -/

/-- A line that `fat32_list_directory` prints. -/
inductive Listed where
  | directory (name : List UInt8)
  | file (name : List UInt8) (size : UInt32)
  deriving DecidableEq

def Dirent.listed (e : Dirent) : Listed :=
  let name := (formatName e).takeWhile (· ≠ 0)
  if e.isDirectory then .directory name else .file name e.fileSize

/-- The loop of `fat32_list_directory`: its lines, and whether the end marker stopped it. -/
def listLoop : List Dirent → List Listed × Bool
  | [] => ([], false)
  | e :: rest =>
      if e.name0 = 0x00 then ([], true)
      else if e.skipped then listLoop rest
      else (e.listed :: (listLoop rest).1, (listLoop rest).2)

/-- The directory that `fat32_list_directory` lists without a path. -/
def Fs.listCluster (fs : Fs) : Nat :=
  if fs.currentDirCluster = 0 then fs.rootDirCluster else fs.currentDirCluster

/-- The part of `fat32_list_directory` after the choice of the directory. -/
def listCluster (cluster : Nat) : FatM (Int × List Listed) := do
  match ← loadDirectoryCluster cluster with
  | none => return (-1, [])
  | some buffer =>
      let d ← get
      match listLoop (d.fs.entries buffer) with
      | (lines, true) => return (0, lines)
      | (lines, false) =>
          d.fs.endOfEntries
          return (0, lines)

/-- `fat32_list_directory`; no path and an empty path are the same to it. -/
def fat32ListDirectory (path : List UInt8) : FatM (Int × List Listed) := do
  let d ← get
  if d.fsMounted then
    if path = [] then listCluster d.fs.listCluster
    else if path = [slash] then listCluster d.fs.rootDirCluster
    else return (-1, [])
  else
    return (-1, [])

end XosKernel.Fat32
