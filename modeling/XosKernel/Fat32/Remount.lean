/-
# Fat32.Remount -- the table cache across mounts

`fat_cache_sector` names the cached table sector by its number on the disk, and `fat32_mount`
leaves it.  If the volume that is mounted has a table sector of the same number, that sector is
never read: `fat32_next_cluster` answers with the entries of the volume mounted before.

`Fits` says when the cache does no harm to a volume about to be mounted, and
`mounts_see_table_iff` that in every run the mounts it holds of are exactly those after which
every cluster is seen with the entry that the disk stores for it.
-/
import XosKernel.Fat32.Partition
import XosKernel.Fat32.MountGeometry
import XosKernel.Fat32.TableMap

namespace XosKernel.Fat32

open XosKernel.Theory

set_option autoImplicit false

/-! ## Runs -/

/-- The calls of `partition.c` and `fat32.c`. -/
inductive FsCall where
  | detect (disk : Nat)
  | mount (disk partition : Nat)
  | openFile (path : CStr)
  | read (count : Nat)
  | write (locals : Locals) (path : CStr) (data : List UInt8)
  | create (locals : Locals) (path : CStr)
  | delete (path : CStr)
  | mkdir (locals : Locals) (path : CStr)
  | chdir (path : CStr)
  | list (path : List UInt8)

/-- What `fat32_mount` reads of the partition that is found. -/
def mountInfo (table : PartitionTable) (disk partition : Nat) : Option Partition :=
  (partitionGetInfo table disk partition).map PartitionInfo.mountable

/-- A call, with the partitions known before it and after it. -/
def FsCall.exec (table : PartitionTable) : FsCall → FatM PartitionTable
  | .detect disk => do return (← partitionDetect disk table).2
  | .mount disk partition => do
      let _ ← fat32Mount disk partition (mountInfo table disk partition)
      return table
  | .openFile path => do
      let _ ← fat32Open path
      return table
  | .read count => do
      let _ ← fat32Read count
      return table
  | .write locals path data => do
      let _ ← fat32Write locals path data
      return table
  | .create locals path => do
      let _ ← fat32Create locals path
      return table
  | .delete path => do
      let _ ← fat32Delete path
      return table
  | .mkdir locals path => do
      let _ ← fat32Mkdir locals path
      return table
  | .chdir path => do
      let _ ← fat32Chdir path
      return table
  | .list path => do
      let _ ← fat32ListDirectory path
      return table

/-- The call, made in `d`, is a mount that succeeds and leaves `d'`. -/
def FsCall.Mounts (table : PartitionTable) (d d' : Driver) : FsCall → Prop
  | .mount disk partition =>
      (fat32Mount disk partition (mountInfo table disk partition)).run d = .ok (0, d')
  | _ => False

/-- `P` holds of the states around every successful mount of the run. -/
def AroundMounts (P : Driver → Driver → Prop) : PartitionTable → Driver → List FsCall → Prop
  | _, _, [] => True
  | table, d, call :: rest =>
      (∀ d', call.Mounts table d d' → P d d') ∧
        ∀ table' d', (call.exec table).run d = .ok (table', d') → AroundMounts P table' d' rest

/-- The calls one after the other. -/
def runCalls : List FsCall → PartitionTable → FatM PartitionTable
  | [], table => return table
  | call :: rest, table => do runCalls rest (← call.exec table)

/-- `P` holds around a mount that follows on a run. -/
theorem AroundMounts.after {P : Driver → Driver → Prop} {table table' : PartitionTable}
    {d d' d'' : Driver} {history : List FsCall} {call : FsCall}
    (around : AroundMounts P table d (history ++ [call]))
    (ran : (runCalls history table).run d = .ok (table', d'))
    (mounts : call.Mounts table' d' d'') : P d' d'' := by
  induction history generalizing table d with
  | nil =>
      cases ran
      exact around.1 d'' mounts
  | cons first rest ih =>
      obtain ⟨table₁, d₁, executed, ran'⟩ := bind_returns ran
      exact ih (around.2 table₁ d₁ executed) ran'

theorem aroundMounts_congr {P Q : Driver → Driver → Prop}
    (step : ∀ (call : FsCall) table d d', call.Mounts table d d' → (P d d' ↔ Q d d'))
    (calls : List FsCall) (table : PartitionTable) (d : Driver) :
    AroundMounts P table d calls ↔ AroundMounts Q table d calls := by
  induction calls generalizing table d with
  | nil => exact Iff.rfl
  | cons call rest ih =>
      rw [AroundMounts, AroundMounts]
      apply and_congr
      · exact forall_congr' fun d' => imp_congr_right fun mounts => step call table d d' mounts
      · exact forall_congr' fun table' => forall_congr' fun d' => imp_congr_right fun _ =>
          ih table' d'

/-! ## One mount -/

/-- The entry that the table cache holds at the place of a cluster. -/
def Driver.cachedLink (d : Driver) (c : Nat) : Nat := d.fatSectorCache.le (c * 4 % 512) 4 % 2 ^ 28

/-- The entry that the disk of a volume stores for a cluster. -/
def Driver.storedLink (d : Driver) (fs : Fs) (c : Nat) : Nat :=
  (d.ata.media (diskToAta fs.disk).1 (diskToAta fs.disk).2 (fs.fatStart + c * 4 / 512)).le
    (c * 4 % 512) 4 % 2 ^ 28

/-- `fat32_next_cluster` returns the stored entry of every cluster of the mounted volume. -/
def SeesTable (d : Driver) : Prop :=
  ∀ c, d.fs.InRange c → Runs (nextCluster c) d fun r _ => r = d.storedLink d.fs c

/-- The cache of `d` does no harm to the volume `fs`: where it has the number of a table sector
of the volume it holds the entries of that sector, and the first transfer after the mount, for
an entry that is not in the cache, succeeds (or the entry is 0, which a failed one gives). -/
def Driver.Fits (d : Driver) (fs : Fs) : Prop :=
  ∀ c, fs.InRange c →
    if d.fatCacheSector = fs.fatStart + c * 4 / 512 then d.cachedLink c = d.storedLink fs c
    else d.ata.fault (d.ata.transfers + 1) = none ∨ d.storedLink fs c = 0

/-- A table sector is the cached one, or is read, or cannot be read. -/
theorem loadFatSector_returns (d : Driver) (l : Nat) :
    Runs (loadFatSector l) d fun ok d' =>
      (d.fatCacheSector = l ∧ ok = true ∧ d' = d) ∨
      (d.fatCacheSector ≠ l ∧ d.ata.fault d.ata.transfers = none ∧ ok = true ∧
        ∀ o, o < 512 → d'.fatSectorCache o = d.sector (lba28 l) o) ∨
      (d.fatCacheSector ≠ l ∧ d.ata.fault d.ata.transfers ≠ none ∧ ok = false) := by
  unfold loadFatSector
  refine Runs.get_bind ?_
  by_cases cached : l = d.fatCacheSector
  · rw [if_pos cached]
    exact Runs.pure (.inl ⟨cached.symm, rfl, rfl⟩)
  rw [if_neg cached]
  cases failed : d.ata.fault d.ata.transfers with
  | none =>
      have ran : (ataReadSectors d.fs.disk l 1 d.fatSectorCache).run d =
          .ok ((1, d.fatSectorCache.blit 0 (1 * sectorSize)
            (d.ata.stream (diskToAta d.fs.disk).1 (diskToAta d.fs.disk).2 l)),
            { d with ata := { d.ata with transfers := d.ata.transfers + 1 } }) := by
        simp [ataReadSectors, Ata.readSectors, failed]
        rfl
      refine Runs.step ran (Runs.modify_bind ?_)
      rw [if_pos rfl]
      refine Runs.modify_bind
        (Runs.pure (.inr (.inl ⟨Ne.symm cached, rfl, rfl, fun o small => ?_⟩)))
      exact d.sector_read l d.fatSectorCache small
  | some k =>
      have ran : (ataReadSectors d.fs.disk l 1 d.fatSectorCache).run d =
          .ok ((-1, d.fatSectorCache.blit 0 (min k (1 - 1) * sectorSize)
            (d.ata.stream (diskToAta d.fs.disk).1 (diskToAta d.fs.disk).2 l)),
            { d with ata := { d.ata with transfers := d.ata.transfers + 1 } }) := by
        simp [ataReadSectors, Ata.readSectors, failed]
        rfl
      refine Runs.step ran (Runs.modify_bind ?_)
      rw [if_neg (show ¬ (-1 : Int) = 1 by decide)]
      exact Runs.pure (.inr (.inr ⟨Ne.symm cached, Option.some_ne_none k, rfl⟩))

/-- What `fat32_next_cluster` returns, whatever the cache holds. -/
theorem nextCluster_returns {d : Driver} (tables : Tables d.fs) {c : Nat}
    (range : d.fs.InRange c) :
    Runs (nextCluster c) d fun r _ => r =
      if d.fatCacheSector = d.fs.fatStart + c * 4 / 512 then d.cachedLink c
      else if d.ata.fault d.ata.transfers = none then d.storedLink d.fs c else 0 := by
  have small := tables.range_lt_end
  have fits := tables.table_fits
  have high := range.2
  have offset : c * 4 % 2 ^ 32 = c * 4 := Nat.mod_eq_of_lt (by omega)
  have index : c * 4 / 512 < d.fs.sectorsPerFat := by omega
  obtain ⟨sector, sector28⟩ := tables.table0_sector index
  unfold nextCluster
  refine Runs.get_bind ?_
  simp only [offset, sector]
  refine Runs.bind (loadFatSector_returns d _) ?_
  rintro _ d' (⟨cached, rfl, rfl⟩ | ⟨other, good, rfl, loaded⟩ | ⟨other, failed, rfl⟩)
  · rw [if_pos rfl, if_pos cached]
    exact Runs.get_bind (Runs.pure rfl)
  · rw [if_pos rfl, if_neg other, if_pos good]
    refine Runs.get_bind (Runs.pure ?_)
    rw [sector28] at loaded
    show d'.fatSectorCache.le (c * 4 % 512) 4 % 2 ^ 28 = _
    rw [Buf.le_congr fun i _ _ => loaded i (by omega)]
    rfl
  · rw [if_neg Bool.false_ne_true, if_neg other, if_neg failed]
    exact Runs.pure rfl

/-- A mount leaves the drives and the cache, and counts the transfer of the boot sector. -/
theorem fat32Mount_leaves {disk partition : Nat} {info : Option Partition} {d d' : Driver}
    (returned : (fat32Mount disk partition info).run d = .ok (0, d')) :
    d'.ata.media = d.ata.media ∧ d'.ata.fault = d.ata.fault ∧
      d'.ata.transfers = d.ata.transfers + 1 ∧ d'.fatCacheSector = d.fatCacheSector ∧
      d'.fatSectorCache = d.fatSectorCache := by
  cases info with
  | none => cases returned
  | some part =>
      simp only [fat32Mount] at returned
      split at returned
      · cases returned
      obtain ⟨read, d₁, got, rest⟩ := bind_returns returned
      split at rest
      · split at rest
        · cases rest
        · obtain ⟨_, d₂, moved, last⟩ := bind_returns rest
          cases moved
          cases last
          cases got
          simp only [Ata.readSectors]
          split <;> simp
      · cases rest

/-- After a mount the stored entries are seen exactly if the cache fitted before it. -/
theorem mount_sees_iff {disk partition : Nat} {info : Option Partition} {d d' : Driver}
    (returned : (fat32Mount disk partition info).run d = .ok (0, d')) (tables : Tables d'.fs) :
    SeesTable d' ↔ d.Fits d'.fs := by
  obtain ⟨media, fault, transfers, tag, cache⟩ := fat32Mount_leaves returned
  refine forall_congr' fun c => imp_congr_right fun range => ?_
  have returns := nextCluster_returns tables range
  have stored : d'.storedLink d'.fs c = d.storedLink d'.fs c := by
    rw [Driver.storedLink, media]
    rfl
  have cached : d'.cachedLink c = d.cachedLink c := by
    rw [Driver.cachedLink, cache]
    rfl
  rw [fault, transfers, tag, stored, cached] at returns
  rw [stored]
  have value : ∀ x y : Nat, (Runs (nextCluster c) d' fun r _ => r = x) →
      ((Runs (nextCluster c) d' fun r _ => r = y) ↔ x = y) := by
    rintro x y ⟨r, d'', ran, rfl⟩
    refine ⟨fun runs => runs.of_returned ran, ?_⟩
    rintro rfl
    exact ⟨r, d'', ran, rfl⟩
  rw [value _ _ returns]
  by_cases here : d.fatCacheSector = d'.fs.fatStart + c * 4 / 512
  · rw [if_pos here, if_pos here]
  · rw [if_neg here, if_neg here]
    by_cases good : d.ata.fault (d.ata.transfers + 1) = none
    · simp [good]
    · simp [good, eq_comm]

/-- For every run, from any state: after every mount of a volume with its table on the disk the
stored entries are seen, if and only if before each of them the cache fits the volume. -/
theorem mounts_see_table_iff (table : PartitionTable) (d : Driver) (calls : List FsCall) :
    AroundMounts (fun _ d' => Tables d'.fs → SeesTable d') table d calls ↔
      AroundMounts (fun d d' => Tables d'.fs → d.Fits d'.fs) table d calls := by
  apply aroundMounts_congr
  intro call table d d' mounts
  cases call with
  | mount disk partition => exact imp_congr_right fun tables => mount_sees_iff mounts tables
  | _ => cases mounts

/-! ## Two disks of the same layout -/

instance (fs : Fs) : Decidable (Tables fs) :=
  decidable_of_iff (1 ≤ fs.numFats ∧ (fs.totalClusters + 2) * 4 ≤ fs.sectorsPerFat * 512 ∧
      fs.totalClusters + 2 ≤ 0x0FFFFFF8 ∧ fs.fatStart + fs.numFats * fs.sectorsPerFat ≤ 2 ^ 28)
    ⟨fun ⟨a, b, c, e⟩ => ⟨a, b, c, e⟩, fun ⟨a, b, c, e⟩ => ⟨a, b, c, e⟩⟩

/-- A partition table with one FAT32 partition of eight sectors, from sector 1 on. -/
def onePartitionMbr : Buf :=
  Buf.putLe (Buf.putLe (Buf.putLe (Buf.putLe (fun _ => 0) 450 1 0x0B) 454 4 1) 458 4 8) 510 2 0xAA55

/-- After the boot: on every drive the partition table and an empty formatted volume. -/
def twoDisks : Driver :=
  { formatted with
    ata := { formatted.ata with
      media := fun _ _ l =>
        if l = 0 then onePartitionMbr
        else if l = 1 then bootSector
        else if l = 2 then Buf.putLe (fun _ => 0) 8 4 0x0FFFFFFF
        else fun _ => 0 }
    fsMounted := false }

/-- Mount the first disk and write a file to it, then have the second one ready. -/
def useFirstDisk : List FsCall :=
  [.detect 0, .mount 0 0, .write .blank (.ofBytes [0x78]) [1], .detect 1]

/-- When the second disk is mounted, its free cluster 3 is seen as the end of a chain: the entry
of the file on the first one. -/
theorem other_disk_seen :
    ¬ AroundMounts (fun _ d' => Tables d'.fs → SeesTable d') [] twoDisks
      (useFirstDisk ++ [.mount 1 0]) := by
  have used : Runs.check (runCalls useFirstDisk []) twoDisks (fun table d =>
      Runs.check (fat32Mount 1 0 (mountInfo table 1 0)) d fun r d' =>
        r = 0 && decide (Tables d'.fs) && decide (d'.fs.InRange 3) &&
          Runs.check (nextCluster 3) d' fun link _ => link ≠ d'.storedLink d'.fs 3) = true := by
    decide +kernel
  obtain ⟨table, d, ran, mounted⟩ := Runs.of_check used
  obtain ⟨r, d', ran', holds⟩ := Runs.of_check mounted
  simp only [Bool.and_eq_true, decide_eq_true_eq] at holds
  obtain ⟨⟨⟨rfl, tables⟩, range⟩, wrong⟩ := holds
  obtain ⟨link, d'', looked, differs⟩ := Runs.of_check wrong
  intro sees
  have stored := (sees.after ran ran' tables 3 range).of_returned looked
  exact of_decide_eq_true differs stored

end XosKernel.Fat32
