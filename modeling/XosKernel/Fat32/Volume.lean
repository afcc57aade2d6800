/-
# Fat32.Volume -- the volume behind the driver state

`Vol` is what a mounted volume is for: a table of links and the contents of the clusters.
`Driver.vol` reads it off the sectors of the mounted disk, and `Driver.Good` says when the
driver works on it as intended: the geometry fits the disk, all table copies agree, the
cached table sector is the one on disk, and no transfer fails.

The lemmas of this module say what each sector transfer does to the volume (`Effect`).
Every later statement about the driver goes through them.
-/
import XosKernel.Fat32.Directory
import XosKernel.Fat32.FatTable

namespace XosKernel.Fat32

open XosKernel.Theory

set_option autoImplicit false

/-! ## Volumes -/

/-- A volume: cluster size in sectors, number of clusters, root directory, links, contents. -/
structure Vol where
  spc : Nat
  total : Nat
  root : Nat
  fat : Nat → Nat
  bytes : Nat → Buf

namespace Vol

/-- Bytes in a cluster. -/
def clusterSize (v : Vol) : Nat := v.spc * 512

/-- The numbers of the volume's clusters. -/
def InRange (v : Vol) (c : Nat) : Prop := 2 ≤ c ∧ c < v.total + 2

instance (v : Vol) (c : Nat) : Decidable (v.InRange c) := inferInstanceAs (Decidable (_ ∧ _))

def setFat (v : Vol) (c x : Nat) : Vol := { v with fat := Function.update v.fat c x }

/-- Replace the contents of a cluster by the start of a buffer. -/
def setBytes (v : Vol) (c : Nat) (b : Buf) : Vol :=
  { v with bytes := Function.update v.bytes c fun i => if i < v.clusterSize then b i else 0 }

theorem setBytes_bytes_self (v : Vol) (c : Nat) (b : Buf) (i : Nat) :
    (v.setBytes c b).bytes c i = if i < v.clusterSize then b i else 0 := by
  simp [setBytes]

theorem setBytes_bytes_of_ne (v : Vol) {c x : Nat} {b : Buf} (ne : x ≠ c) :
    (v.setBytes c b).bytes x = v.bytes x := by
  simp [setBytes, ne]

/-- A cluster read as a directory. -/
def slots (v : Vol) (c : Nat) : List Dirent :=
  (List.range (v.spc * 16)).map fun i => Dirent.load (v.bytes c) (i * direntSize)

end Vol

/-! ## The volume of a driver state -/

/-- A sector of the mounted disk. -/
def Driver.sector (d : Driver) (l : Nat) : Buf :=
  d.ata.media (diskToAta d.fs.disk).1 (diskToAta d.fs.disk).2 l

/-- The volume on the mounted disk, read from the first table copy. -/
def Driver.vol (d : Driver) : Vol where
  spc := d.fs.sectorsPerCluster
  total := d.fs.totalClusters
  root := d.fs.rootDirCluster
  fat := fun c =>
    if c < d.fs.totalClusters + 2 then
      (d.sector (d.fs.fatStart + c * 4 / 512)).le (c * 4 % 512) 4 % 2 ^ 28
    else 0
  bytes := fun c i =>
    if (2 ≤ c ∧ c < d.fs.totalClusters + 2) ∧ i < d.fs.sectorsPerCluster * 512 then
      d.sector (d.fs.dataStart + (c - 2) * d.fs.sectorsPerCluster + i / 512) (i % 512)
    else 0

theorem Driver.vol_of_media {d d' : Driver} (fs_eq : d'.fs = d.fs)
    (media : d'.ata.media = d.ata.media) : d'.vol = d.vol := by
  unfold Driver.vol Driver.sector
  rw [fs_eq, media]

section Views

variable (d : Driver) {c i : Nat}

@[simp] theorem Driver.vol_clusterSize : d.vol.clusterSize = d.fs.sectorsPerCluster * 512 := rfl

theorem Driver.vol_fat (hc : c < d.fs.totalClusters + 2) : d.vol.fat c =
    (d.sector (d.fs.fatStart + c * 4 / 512)).le (c * 4 % 512) 4 % 2 ^ 28 := if_pos hc

theorem Driver.vol_fat_outside (hc : ¬ c < d.fs.totalClusters + 2) : d.vol.fat c = 0 := if_neg hc

theorem Driver.vol_bytes (hc : 2 ≤ c ∧ c < d.fs.totalClusters + 2)
    (hi : i < d.fs.sectorsPerCluster * 512) : d.vol.bytes c i =
    d.sector (d.fs.dataStart + (c - 2) * d.fs.sectorsPerCluster + i / 512) (i % 512) :=
  if_pos ⟨hc, hi⟩

theorem Driver.vol_bytes_outside
    (outside : ¬ ((2 ≤ c ∧ c < d.fs.totalClusters + 2) ∧ i < d.fs.sectorsPerCluster * 512)) :
    d.vol.bytes c i = 0 := if_neg outside

end Views

/-- A geometry the driver can use: cluster buffers large enough, a table entry for every
cluster, tables and clusters one after the other on a disk of at most `2 ^ 28` sectors. -/
structure Geometry (fs : Fs) : Prop where
  one_le_spc : 1 ≤ fs.sectorsPerCluster
  spc_le : fs.sectorsPerCluster ≤ 8
  one_le_fats : 1 ≤ fs.numFats
  table_fits : (fs.totalClusters + 2) * 4 ≤ fs.sectorsPerFat * 512
  data_after_tables : fs.dataStart = fs.fatStart + fs.numFats * fs.sectorsPerFat
  on_disk : fs.dataStart + fs.totalClusters * fs.sectorsPerCluster ≤ 2 ^ 28

/-- A mounted volume with equal table copies and a coherent table cache, and no failing
transfer. -/
structure Driver.Good (d : Driver) : Prop where
  geometry : Geometry d.fs
  mounted : d.fsMounted = true
  noFault : ∀ n, d.ata.fault n = none
  copies : ∀ k, k < d.fs.numFats → ∀ j, j < d.fs.sectorsPerFat → ∀ o, o < 512 →
    d.sector (d.fs.fatStart + k * d.fs.sectorsPerFat + j) o = d.sector (d.fs.fatStart + j) o
  coherent : d.fs.fatStart ≤ d.fatCacheSector →
    d.fatCacheSector < d.fs.fatStart + d.fs.sectorsPerFat →
    ∀ o, o < 512 → d.fatSectorCache o = d.sector d.fatCacheSector o

/-- The driver went from `d` to `d'` and left the volume `v`; file system record and open
handle are as they were. -/
structure Effect (d d' : Driver) (v : Vol) : Prop where
  good : d'.Good
  fs_eq : d'.fs = d.fs
  file_eq : d'.openFile = d.openFile
  vol_eq : d'.vol = v

theorem Effect.trans {d d' d'' : Driver} {v w : Vol} (first : Effect d d' v)
    (second : Effect d' d'' w) : Effect d d'' w :=
  ⟨second.good, second.fs_eq.trans first.fs_eq, second.file_eq.trans first.file_eq,
    second.vol_eq⟩

theorem Effect.refl {d : Driver} (good : d.Good) : Effect d d d.vol := ⟨good, rfl, rfl, rfl⟩

section Shape

variable {d d' : Driver} {v : Vol} (effect : Effect d d' v)
include effect

/-- The shape of the volume is part of the file system record, so nothing changes it. -/
theorem Effect.inRange_iff (c : Nat) : d'.vol.InRange c ↔ d.vol.InRange c := by
  have total : d'.vol.total = d.vol.total := congrArg Fs.totalClusters effect.fs_eq
  simp only [Vol.InRange, total]

theorem Effect.root_eq : d'.vol.root = d.vol.root := congrArg Fs.rootDirCluster effect.fs_eq

theorem Effect.clusterSize_eq : d'.vol.clusterSize = d.vol.clusterSize :=
  congrArg (fun fs : Fs => fs.sectorsPerCluster * 512) effect.fs_eq

end Shape

namespace Geometry

variable {fs : Fs}

theorem table_sector_lt (g : Geometry fs) {k j : Nat} (hk : k < fs.numFats)
    (hj : j < fs.sectorsPerFat) : fs.fatStart + k * fs.sectorsPerFat + j < fs.dataStart := by
  have next : (k + 1) * fs.sectorsPerFat ≤ fs.numFats * fs.sectorsPerFat :=
    Nat.mul_le_mul_right _ hk
  rw [Nat.succ_mul] at next
  have := g.data_after_tables
  omega

theorem dataStart_le (g : Geometry fs) : fs.dataStart ≤ 2 ^ 28 := by
  have := g.on_disk
  omega

theorem total_le (g : Geometry fs) : fs.totalClusters ≤ 2 ^ 28 := by
  have scaled : fs.totalClusters * 1 ≤ fs.totalClusters * fs.sectorsPerCluster :=
    Nat.mul_le_mul_left _ g.one_le_spc
  have := g.on_disk
  omega

/-- The table itself keeps the cluster numbers below the end-of-chain values. -/
theorem range_lt_end (g : Geometry fs) : fs.totalClusters + 2 ≤ 0x0FFFFFF8 := by
  have scaled : fs.totalClusters * 1 ≤ fs.totalClusters * fs.sectorsPerCluster :=
    Nat.mul_le_mul_left _ g.one_le_spc
  have tables : 1 * fs.sectorsPerFat ≤ fs.numFats * fs.sectorsPerFat :=
    Nat.mul_le_mul_right _ g.one_le_fats
  have := g.on_disk
  have := g.data_after_tables
  have := g.table_fits
  omega

theorem table_index_lt (g : Geometry fs) {c : Nat} (hc : c < fs.totalClusters + 2) :
    c * 4 / 512 < fs.sectorsPerFat := by
  have := g.table_fits
  omega

/-- The sectors of a cluster end where those of the next begin. -/
theorem cluster_end (fs : Fs) {c : Nat} (hc : 2 ≤ c ∧ c < fs.totalClusters + 2) :
    (c - 2) * fs.sectorsPerCluster + fs.sectorsPerCluster ≤
      fs.totalClusters * fs.sectorsPerCluster := by
  have next : (c - 2 + 1) * fs.sectorsPerCluster ≤ fs.totalClusters * fs.sectorsPerCluster :=
    Nat.mul_le_mul_right _ (by omega)
  rwa [Nat.succ_mul] at next

theorem lba_eq (g : Geometry fs) {c : Nat} (hc : 2 ≤ c ∧ c < fs.totalClusters + 2) :
    fs.clusterToLba c = fs.dataStart + (c - 2) * fs.sectorsPerCluster := by
  have last := cluster_end fs hc
  have disk := g.on_disk
  have total := g.total_le
  have index : (c + 2 ^ 32 - 2) % 2 ^ 32 = c - 2 := by omega
  rw [Fs.clusterToLba, index]
  exact Nat.mod_eq_of_lt (by omega)

theorem lba28_eq (g : Geometry fs) {c : Nat} (hc : 2 ≤ c ∧ c < fs.totalClusters + 2) :
    lba28 (fs.clusterToLba c) = fs.dataStart + (c - 2) * fs.sectorsPerCluster := by
  have last := cluster_end fs hc
  have disk := g.on_disk
  have pos := g.one_le_spc
  rw [g.lba_eq hc, lba28]
  exact Nat.mod_eq_of_lt (by omega)

/-- Blocks of `n` sectors laid out one after the other do not share a sector. -/
theorem block_unique {n a b s t : Nat} (hs : s < n) (ht : t < n)
    (same : a * n + s = b * n + t) : a = b ∧ s = t := by
  have pos : 0 < n := by omega
  have quotient : ∀ x y, y < n → (x * n + y) / n = x := fun x y hy => by
    rw [Nat.mul_comm, Nat.mul_add_div pos, Nat.div_eq_of_lt hy, Nat.add_zero]
  have blocks : a = b := by rw [← quotient a s hs, same, quotient b t ht]
  subst blocks
  omega

end Geometry

/-! ## Transfers -/

theorem ataReadSectors_ok {d : Driver} (works : d.ata.fault d.ata.transfers = none)
    (disk lba count : Nat) (buffer : Buf) :
    (ataReadSectors disk lba count buffer).run d =
      .ok (((count : Int), buffer.blit 0 (count * 512)
          (d.ata.stream (diskToAta disk).1 (diskToAta disk).2 lba)),
        { d with ata := { d.ata with transfers := d.ata.transfers + 1 } }) := by
  simp [ataReadSectors, Ata.readSectors, works, sectorSize]
  rfl

/-- A read that fails delivers the sectors before the one it gave up at. -/
theorem ataReadSectors_failed {d : Driver} {k : Nat} (fails : d.ata.fault d.ata.transfers = some k)
    (disk lba count : Nat) (buffer : Buf) :
    (ataReadSectors disk lba count buffer).run d =
      .ok ((-1, buffer.blit 0 (min k (count - 1) * 512)
          (d.ata.stream (diskToAta disk).1 (diskToAta disk).2 lba)),
        { d with ata := { d.ata with transfers := d.ata.transfers + 1 } }) := by
  simp [ataReadSectors, Ata.readSectors, fails, sectorSize]
  rfl

theorem ataWriteSectors_ok {d : Driver} (works : d.ata.fault d.ata.transfers = none)
    (source : WriteBuffer) (disk lba count : Nat) (buffer : Buf) :
    (ataWriteSectors source disk lba count buffer).run d =
      .ok ((count : Int),
        { d with ata := { d.ata with
            media := d.ata.store (diskToAta disk).1 (diskToAta disk).2 lba count buffer
            transfers := d.ata.transfers + 1
            writes := ⟨source, (diskToAta disk).1, (diskToAta disk).2, lba, count⟩ ::
              d.ata.writes } }) := by
  simp [ataWriteSectors, Ata.writeSectors, works]
  rfl

/-- A write that fails stored the sectors before the one it gave up at. -/
theorem ataWriteSectors_failed {d : Driver} {k : Nat}
    (fails : d.ata.fault d.ata.transfers = some k) (source : WriteBuffer)
    (disk lba count : Nat) (buffer : Buf) :
    (ataWriteSectors source disk lba count buffer).run d =
      .ok (-1,
        { d with ata := { d.ata with
            media := d.ata.store (diskToAta disk).1 (diskToAta disk).2 lba (min k count) buffer
            transfers := d.ata.transfers + 1
            writes := ⟨source, (diskToAta disk).1, (diskToAta disk).2, lba, count⟩ ::
              d.ata.writes } }) := by
  simp [ataWriteSectors, Ata.writeSectors, fails]
  rfl

theorem ataReadSectors_run {d : Driver} (noFault : ∀ n, d.ata.fault n = none)
    (disk lba count : Nat) (buffer : Buf) :
    (ataReadSectors disk lba count buffer).run d =
      .ok (((count : Int), buffer.blit 0 (count * 512)
          (d.ata.stream (diskToAta disk).1 (diskToAta disk).2 lba)),
        { d with ata := { d.ata with transfers := d.ata.transfers + 1 } }) :=
  ataReadSectors_ok (noFault _) disk lba count buffer

theorem ataWriteSectors_run {d : Driver} (noFault : ∀ n, d.ata.fault n = none)
    (source : WriteBuffer) (disk lba count : Nat) (buffer : Buf) :
    (ataWriteSectors source disk lba count buffer).run d =
      .ok ((count : Int),
        { d with ata := { d.ata with
            media := d.ata.store (diskToAta disk).1 (diskToAta disk).2 lba count buffer
            transfers := d.ata.transfers + 1
            writes := ⟨source, (diskToAta disk).1, (diskToAta disk).2, lba, count⟩ ::
              d.ata.writes } }) :=
  ataWriteSectors_ok (noFault _) source disk lba count buffer

/-- The state after `count` sectors of `buffer` were written to the mounted disk. -/
def Driver.wrote (d : Driver) (source : WriteBuffer) (lba count : Nat) (buffer : Buf) : Driver :=
  { d with ata := { d.ata with
      media := d.ata.store (diskToAta d.fs.disk).1 (diskToAta d.fs.disk).2 lba count buffer
      transfers := d.ata.transfers + 1
      writes := ⟨source, (diskToAta d.fs.disk).1, (diskToAta d.fs.disk).2, lba, count⟩ ::
        d.ata.writes } }

@[simp] theorem Driver.wrote_fs (d : Driver) (source : WriteBuffer) (lba count : Nat)
    (buffer : Buf) :
    (d.wrote source lba count buffer).fs = d.fs := rfl

@[simp] theorem Driver.wrote_fatCacheSector (d : Driver) (source : WriteBuffer) (lba count : Nat)
    (buffer : Buf) :
    (d.wrote source lba count buffer).fatCacheSector = d.fatCacheSector := rfl

@[simp] theorem Driver.wrote_fatSectorCache (d : Driver) (source : WriteBuffer) (lba count : Nat)
    (buffer : Buf) :
    (d.wrote source lba count buffer).fatSectorCache = d.fatSectorCache := rfl

theorem Driver.sector_wrote (d : Driver) (source : WriteBuffer) (lba count : Nat) (buffer : Buf)
    (l : Nat) :
    (d.wrote source lba count buffer).sector l =
      if lba28 lba ≤ l ∧ l < lba28 lba + count then
        fun o => buffer ((l - lba28 lba) * 512 + o)
      else d.sector l := by
  simp [Driver.sector, Driver.wrote, Ata.store, sectorSize]

/-- The bytes a read from the mounted disk delivers. -/
theorem Driver.stream_eq (d : Driver) (lba i : Nat) :
    d.ata.stream (diskToAta d.fs.disk).1 (diskToAta d.fs.disk).2 lba i =
      d.sector (lba28 lba + i / 512) (i % 512) := rfl

/-- The bytes of a sector that a read delivers. -/
theorem Driver.sector_read (d : Driver) (lba : Nat) (b : Buf) {o : Nat} (ho : o < 512) :
    b.blit 0 (1 * 512) (d.ata.stream (diskToAta d.fs.disk).1 (diskToAta d.fs.disk).2 lba) o =
      d.sector (lba28 lba) o := by
  rw [Buf.blit_of_inside (Nat.zero_le _) (by omega), Nat.sub_zero, Driver.stream_eq,
    Nat.div_eq_of_lt ho, Nat.mod_eq_of_lt ho, Nat.add_zero]

/-- A transfer that only reads changes nothing but the count of transfers. -/
theorem Driver.Good.tick {d : Driver} (good : d.Good) (t : Nat) :
    Driver.Good { d with ata := { d.ata with transfers := t } } :=
  ⟨good.geometry, good.mounted, good.noFault, good.copies, good.coherent⟩

theorem Driver.Good.effect_tick {d : Driver} (good : d.Good) (t : Nat) :
    Effect d { d with ata := { d.ata with transfers := t } } d.vol :=
  ⟨good.tick t, rfl, rfl, rfl⟩

/-- Reading a cluster delivers its contents. -/
theorem Geometry.read_cluster {d : Driver} (g : Geometry d.fs) {c : Nat} (hc : d.vol.InRange c)
    (buffer : Buf) {i : Nat} (hi : i < d.vol.clusterSize) :
    buffer.blit 0 (d.fs.sectorsPerCluster * 512) (d.ata.stream (diskToAta d.fs.disk).1
      (diskToAta d.fs.disk).2 (d.fs.clusterToLba c)) i = d.vol.bytes c i := by
  rw [Buf.blit_of_inside (Nat.zero_le _) (by simpa [Vol.clusterSize, Driver.vol] using hi),
    Nat.sub_zero, Driver.stream_eq, g.lba28_eq hc]
  exact (if_pos ⟨hc, hi⟩).symm

section WriteCluster

variable {d : Driver} {s : WriteBuffer} {c : Nat}

/-- The tables end where the clusters begin, so writing a cluster touches no table sector. -/
theorem Driver.Good.wrote_table (good : d.Good) (hc : d.vol.InRange c) (buffer : Buf) {l : Nat}
    (hl : l < d.fs.dataStart) :
    (d.wrote s (d.fs.clusterToLba c) d.fs.sectorsPerCluster buffer).sector l = d.sector l := by
  rw [Driver.sector_wrote, good.geometry.lba28_eq hc, if_neg (by omega)]

theorem Driver.Good.wrote_table0 (good : d.Good) (hc : d.vol.InRange c) (buffer : Buf) {j : Nat}
    (hj : j < d.fs.sectorsPerFat) :
    (d.wrote s (d.fs.clusterToLba c) d.fs.sectorsPerCluster buffer).sector (d.fs.fatStart + j) =
      d.sector (d.fs.fatStart + j) := by
  have first := good.geometry.table_sector_lt (k := 0) good.geometry.one_le_fats hj
  exact good.wrote_table hc buffer (by omega)

theorem Driver.Good.wrote_good (good : d.Good) (hc : d.vol.InRange c) (buffer : Buf) :
    (d.wrote s (d.fs.clusterToLba c) d.fs.sectorsPerCluster buffer).Good where
  geometry := good.geometry
  mounted := good.mounted
  noFault := good.noFault
  copies := by
    intro k hk j hj o ho
    simp only [Driver.wrote_fs] at hk hj ⊢
    rw [good.wrote_table hc buffer (good.geometry.table_sector_lt hk hj),
      good.wrote_table0 hc buffer hj]
    exact good.copies k hk j hj o ho
  coherent := by
    intro low high o ho
    simp only [Driver.wrote_fs, Driver.wrote_fatCacheSector, Driver.wrote_fatSectorCache]
      at low high ⊢
    have same := good.wrote_table0 (s := s) hc buffer (j := d.fatCacheSector - d.fs.fatStart)
      (by omega)
    rw [Nat.add_sub_cancel' low] at same
    rw [same]
    exact good.coherent low high o ho

theorem Driver.Good.wrote_fat (good : d.Good) (hc : d.vol.InRange c) (buffer : Buf) :
    (d.wrote s (d.fs.clusterToLba c) d.fs.sectorsPerCluster buffer).vol.fat = d.vol.fat := by
  funext x
  by_cases hx : x < d.fs.totalClusters + 2
  · rw [Driver.vol_fat (d.wrote s _ _ _) hx, Driver.vol_fat d hx, Driver.wrote_fs,
      good.wrote_table0 hc buffer (good.geometry.table_index_lt hx)]
  · rw [Driver.vol_fat_outside (d.wrote s _ _ _) hx, Driver.vol_fat_outside d hx]

theorem Driver.Good.wrote_bytes (good : d.Good) (hc : d.vol.InRange c) (buffer : Buf) :
    (d.wrote s (d.fs.clusterToLba c) d.fs.sectorsPerCluster buffer).vol.bytes =
      (d.vol.setBytes c buffer).bytes := by
  have g := good.geometry
  funext x i
  by_cases hx : (2 ≤ x ∧ x < d.fs.totalClusters + 2) ∧ i < d.fs.sectorsPerCluster * 512
  · have inside : i / 512 < d.fs.sectorsPerCluster := by omega
    rw [Driver.vol_bytes (d.wrote s _ _ _) hx.1 hx.2, Driver.wrote_fs, Driver.sector_wrote,
      g.lba28_eq hc]
    by_cases same : x = c
    · subst same
      rw [if_pos (by omega), Vol.setBytes_bytes_self, Driver.vol_clusterSize, if_pos hx.2]
      congr 1
      omega
    · rw [Vol.setBytes_bytes_of_ne _ same, Driver.vol_bytes d hx.1 hx.2, if_neg]
      -- a shared sector would make the two clusters one
      intro shared
      have unique := Geometry.block_unique (a := x - 2) (b := c - 2) (s := i / 512)
        (t := (x - 2) * d.fs.sectorsPerCluster + i / 512 - (c - 2) * d.fs.sectorsPerCluster)
        inside (by omega) (by omega)
      have := hc.1
      omega
  · rw [Driver.vol_bytes_outside (d.wrote s _ _ _) hx]
    by_cases same : x = c
    · subst same
      rw [Vol.setBytes_bytes_self, Driver.vol_clusterSize, if_neg fun hi => hx ⟨hc, hi⟩]
    · rw [Vol.setBytes_bytes_of_ne _ same, Driver.vol_bytes_outside d hx]

/-- Writing a cluster replaces its contents and nothing else. -/
theorem Driver.Good.effect_wrote (good : d.Good) (hc : d.vol.InRange c) (buffer : Buf) :
    Effect d (d.wrote s (d.fs.clusterToLba c) d.fs.sectorsPerCluster buffer)
      (d.vol.setBytes c buffer) :=
  ⟨good.wrote_good hc buffer, rfl, rfl,
    congrArg₂ (fun f b => ({ d.vol with fat := f, bytes := b } : Vol))
      (good.wrote_fat hc buffer) (good.wrote_bytes hc buffer)⟩

end WriteCluster

end XosKernel.Fat32
