/-
# Fat32.FatTable -- the allocation table functions of `fat32.c`

`nextCluster` reads one entry through the one-sector cache, `setFatEntry` writes one into
every copy of the table and into the cache, and the other three walk the table with
these two.  The loops are the source's: `allocateLoop` looks for a free cluster before it
links the previous one, so it can be handed the cluster it already holds.
-/
import XosKernel.Fat32.Driver

namespace XosKernel.Fat32

open XosKernel.Theory

set_option autoImplicit false

/-- Bring a table sector into `fat_sector_cache`, unless it is the one cached. -/
def loadFatSector (fatSector : Nat) : FatM Bool := do
  let d ← get
  if fatSector = d.fatCacheSector then
    return true
  else
    let read ← ataReadSectors d.fs.disk fatSector 1 d.fatSectorCache
    modify fun d => { d with fatSectorCache := read.2 }
    if read.1 = 1 then
      modify fun d => { d with fatCacheSector := fatSector }
      return true
    else
      return false

/-- `fat32_next_cluster`. -/
def nextCluster (cluster : Nat) : FatM Nat := do
  let d ← get
  let fatOffset := cluster * 4 % 2 ^ 32
  let fatSector := (d.fs.fatStart + fatOffset / 512) % 2 ^ 32
  let entryOffset := fatOffset % 512
  if ← loadFatSector fatSector then
    let d ← get
    return d.fatSectorCache.le entryOffset 4 % 2 ^ 28
  else
    return 0

/-- The loop of `fat32_set_fat_entry` over the table copies from number `fat` on. -/
def setFatCopies (sectorIndex entryOffset value : Nat) : Nat → Nat → FatM Bool
  | _, 0 => return true
  | fat, copies + 1 => do
      let d ← get
      let absSector := (d.fs.fatStart + fat * d.fs.sectorsPerFat + sectorIndex) % 2 ^ 32
      let read ← ataReadSectors d.fs.disk absSector 1 (fun _ => 0)
      if read.1 = 1 then
        let written ←
          ataWriteSectors .table d.fs.disk absSector 1 (read.2.putLe entryOffset 4 value)
        if written = 1 then
          setFatCopies sectorIndex entryOffset value (fat + 1) copies
        else
          return false
      else
        return false

/-- `fat32_set_fat_entry`. -/
def setFatEntry (cluster value : Nat) : FatM Int := do
  let d ← get
  let fatOffset := cluster * 4 % 2 ^ 32
  let sectorIndex := fatOffset / 512
  let entryOffset := fatOffset % 512
  if ← setFatCopies sectorIndex entryOffset value 0 d.fs.numFats then
    modify fun d =>
      if d.fatCacheSector = (d.fs.fatStart + sectorIndex) % 2 ^ 32 then
        { d with fatSectorCache := d.fatSectorCache.putLe entryOffset 4 value }
      else d
    return 0
  else
    return -1

/-- The scan of `fat32_find_free_cluster`, with `n` clusters left. -/
def findFreeFrom : Nat → Nat → FatM (Option Nat)
  | _, 0 => return none
  | cluster, n + 1 => do
      if (← nextCluster cluster) = 0 then
        return some cluster
      else
        findFreeFrom (cluster + 1) n

/-- `fat32_find_free_cluster`; `none` is the return value `-1`. -/
def findFreeCluster : FatM (Option Nat) := do
  let d ← get
  findFreeFrom 2 ((d.fs.totalClusters + 2) % 2 ^ 32 - 2)

/-- The loop of `fat32_free_cluster_chain`, with a bound on its passes. -/
def freeChainLoop : Nat → Nat → FatM Int
  | 0, _ => throw .diverges
  | passes + 1, cluster => do
      if isValidCluster cluster then
        let next ← nextCluster cluster
        if (← setFatEntry cluster 0) = 0 then
          if isEndOfChain next || next == 0 then
            return 0
          else
            freeChainLoop passes next
        else
          return -1
      else
        return 0

/-- `fat32_free_cluster_chain`.  Valid cluster numbers are below `2 ^ 28` and a pass clears
the entry it leaves, so a loop that uses up the passes revisits a cluster it failed to
clear. -/
def freeClusterChain (firstCluster : Nat) : FatM Int := freeChainLoop (2 ^ 28) firstCluster

/-- Link the previous cluster of the chain under construction, if there is one. -/
def linkPrevious (prev cluster : Nat) : FatM Bool := do
  if prev = 0 then
    return true
  else
    return (← setFatEntry prev cluster) = 0

/-- The loop of `fat32_allocate_cluster_chain`: `first` and `prev` are its variables. -/
def allocateLoop : Nat → Nat → Nat → FatM (Option (Nat × Nat))
  | 0, first, prev => return some (first, prev)
  | n + 1, first, prev => do
      match ← findFreeCluster with
      | none => return none
      | some cluster =>
          if ← linkPrevious prev cluster then
            allocateLoop n (if first = 0 then cluster else first) cluster
          else
            return none

/-- The end of `fat32_allocate_cluster_chain`: close the chain. -/
def finishChain : Option (Nat × Nat) → FatM (Option Nat)
  | none => return none
  | some (first, prev) => do
      if ← linkPrevious prev 0x0FFFFFFF then
        return some first
      else
        return none

/-- `fat32_allocate_cluster_chain`: the chain's first cluster, or `none` for `-1`. -/
def allocateClusterChain (count : Nat) : FatM (Option Nat) := do
  finishChain (← allocateLoop count 0 0)

end XosKernel.Fat32
