/-
# Fat32.FatSpec -- what the table functions do to the volume

On a good state `nextCluster` reads the link of a cluster and `setFatEntry` sets it, in
every table copy and in the cache (`nextCluster_runs`, `setFatEntry_runs`).  From these
two follow the searches and the loops: the first free cluster, the release of a chain and
the allocation of one.
-/
import XosKernel.Fat32.Volume
import XosKernel.Theory.Chain

namespace XosKernel.Fat32

open XosKernel.Theory

set_option autoImplicit false

/-! ## Tables -/

/-- The tables by themselves: at least one copy, an entry for every cluster, cluster numbers
below the end marks, and all copies on a disk of at most `2 ^ 28` sectors. -/
structure Tables (fs : Fs) : Prop where
  one_le_fats : 1 ≤ fs.numFats
  table_fits : (fs.totalClusters + 2) * 4 ≤ fs.sectorsPerFat * 512
  range_lt_end : fs.totalClusters + 2 ≤ 0x0FFFFFF8
  on_disk : fs.fatStart + fs.numFats * fs.sectorsPerFat ≤ 2 ^ 28

theorem Geometry.tables {fs : Fs} (g : Geometry fs) : Tables fs where
  one_le_fats := g.one_le_fats
  table_fits := g.table_fits
  range_lt_end := g.range_lt_end
  on_disk := by
    have := g.dataStart_le
    have := g.data_after_tables
    omega

theorem Tables.table_sector {fs : Fs} (tables : Tables fs) {k j : Nat} (hk : k < fs.numFats)
    (hj : j < fs.sectorsPerFat) :
    (fs.fatStart + k * fs.sectorsPerFat + j) % 2 ^ 32 = fs.fatStart + k * fs.sectorsPerFat + j ∧
      lba28 (fs.fatStart + k * fs.sectorsPerFat + j) =
        fs.fatStart + k * fs.sectorsPerFat + j := by
  have next : (k + 1) * fs.sectorsPerFat ≤ fs.numFats * fs.sectorsPerFat :=
    Nat.mul_le_mul_right _ hk
  rw [Nat.succ_mul] at next
  have disk := tables.on_disk
  exact ⟨Nat.mod_eq_of_lt (by omega), Nat.mod_eq_of_lt (by omega)⟩

theorem Tables.table0_sector {fs : Fs} (tables : Tables fs) {j : Nat}
    (hj : j < fs.sectorsPerFat) :
    (fs.fatStart + j) % 2 ^ 32 = fs.fatStart + j ∧ lba28 (fs.fatStart + j) = fs.fatStart + j := by
  have first := tables.table_sector (k := 0) tables.one_le_fats hj
  simpa using first

/-- Equal table copies, a table cache that agrees with the disk, and no failing transfer. -/
structure Driver.Tabled (d : Driver) : Prop where
  tables : Tables d.fs
  noFault : ∀ n, d.ata.fault n = none
  copies : ∀ k, k < d.fs.numFats → ∀ j, j < d.fs.sectorsPerFat → ∀ o, o < 512 →
    d.sector (d.fs.fatStart + k * d.fs.sectorsPerFat + j) o = d.sector (d.fs.fatStart + j) o
  coherent : d.fs.fatStart ≤ d.fatCacheSector →
    d.fatCacheSector < d.fs.fatStart + d.fs.sectorsPerFat →
    ∀ o, o < 512 → d.fatSectorCache o = d.sector d.fatCacheSector o

/-- What reading the table needs: no failing transfer, and a cache that agrees with the disk. -/
structure Driver.Lookable (d : Driver) : Prop where
  tables : Tables d.fs
  noFault : ∀ n, d.ata.fault n = none
  coherent : d.fs.fatStart ≤ d.fatCacheSector →
    d.fatCacheSector < d.fs.fatStart + d.fs.sectorsPerFat →
    ∀ o, o < 512 → d.fatSectorCache o = d.sector d.fatCacheSector o

theorem Driver.Tabled.lookable {d : Driver} (tabled : d.Tabled) : d.Lookable :=
  ⟨tabled.tables, tabled.noFault, tabled.coherent⟩

theorem Driver.Good.tabled {d : Driver} (good : d.Good) : d.Tabled :=
  ⟨good.geometry.tables, good.noFault, good.copies, good.coherent⟩

/-! ## Reading an entry -/

theorem Geometry.table_sector {fs : Fs} (g : Geometry fs) {k j : Nat} (hk : k < fs.numFats)
    (hj : j < fs.sectorsPerFat) :
    (fs.fatStart + k * fs.sectorsPerFat + j) % 2 ^ 32 = fs.fatStart + k * fs.sectorsPerFat + j ∧
      lba28 (fs.fatStart + k * fs.sectorsPerFat + j) =
        fs.fatStart + k * fs.sectorsPerFat + j :=
  g.tables.table_sector hk hj

theorem Geometry.table0_sector {fs : Fs} (g : Geometry fs) {j : Nat}
    (hj : j < fs.sectorsPerFat) :
    (fs.fatStart + j) % 2 ^ 32 = fs.fatStart + j ∧ lba28 (fs.fatStart + j) = fs.fatStart + j :=
  g.tables.table0_sector hj

theorem Geometry.isValidCluster {d : Driver} (g : Geometry d.fs) {c : Nat}
    (range : d.vol.InRange c) : isValidCluster c = true := by
  have small := g.range_lt_end
  have low := range.1
  have high : c < d.fs.totalClusters + 2 := range.2
  simp only [Fat32.isValidCluster, Bool.and_eq_true, decide_eq_true_eq]
  omega

/-- From `d` to `d'` table sector `j` was brought into the cache, and nothing else happened. -/
structure Looked (d d' : Driver) (j : Nat) : Prop where
  frame : ∃ cache t, d' = { d with
    ata := { d.ata with transfers := t }
    fatSectorCache := cache
    fatCacheSector := d.fs.fatStart + j }
  loaded : ∀ o, o < 512 → d'.fatSectorCache o = d.sector (d.fs.fatStart + j) o

theorem Looked.good {d d' : Driver} {j : Nat} (looked : Looked d d' j) (good : d.Good) :
    Effect d d' d.vol := by
  have loaded := looked.loaded
  obtain ⟨cache, t, rfl⟩ := looked.frame
  exact ⟨⟨good.geometry, good.mounted, good.noFault, good.copies, fun _ _ => loaded⟩, rfl, rfl, rfl⟩

/-- After `loadFatSector` the cache holds the sector. -/
theorem loadFatSector_looks {d : Driver} (lookable : d.Lookable) {j : Nat}
    (hj : j < d.fs.sectorsPerFat) :
    Runs (loadFatSector (d.fs.fatStart + j)) d fun ok d' => ok = true ∧ Looked d d' j := by
  unfold loadFatSector
  refine Runs.get_bind ?_
  by_cases cached : d.fs.fatStart + j = d.fatCacheSector
  · rw [if_pos cached]
    refine Runs.pure ⟨rfl, ⟨d.fatSectorCache, d.ata.transfers, ?_⟩, fun o ho => ?_⟩
    · rw [cached]
    · rw [cached]
      exact lookable.coherent (by omega) (by omega) o ho
  · rw [if_neg cached]
    refine Runs.step (ataReadSectors_run lookable.noFault _ _ _ _) (Runs.modify_bind ?_)
    rw [if_pos (by rfl)]
    refine Runs.modify_bind (Runs.pure ⟨rfl, ⟨_, _, rfl⟩, fun o ho => ?_⟩)
    have read := d.sector_read (d.fs.fatStart + j) d.fatSectorCache ho
    rwa [(lookable.tables.table0_sector hj).2] at read

/-- `fat32_next_cluster` returns the entry of the first table. -/
theorem nextCluster_looks {d : Driver} (lookable : d.Lookable) {c : Nat} (small : c < 2 ^ 28)
    (index : c * 4 / 512 < d.fs.sectorsPerFat) :
    Runs (nextCluster c) d fun r d' =>
      r = (d.sector (d.fs.fatStart + c * 4 / 512)).le (c * 4 % 512) 4 % 2 ^ 28 ∧
        Looked d d' (c * 4 / 512) := by
  have offset : c * 4 % 2 ^ 32 = c * 4 := Nat.mod_eq_of_lt (by omega)
  unfold nextCluster
  refine Runs.get_bind ?_
  simp only [offset, (lookable.tables.table0_sector index).1]
  refine Runs.bind (loadFatSector_looks lookable index) ?_
  rintro _ d' ⟨rfl, looked⟩
  rw [if_pos rfl]
  refine Runs.get_bind (Runs.pure ⟨?_, looked⟩)
  congr 1
  exact Buf.le_congr fun i _ _ => looked.loaded i (by omega)

/-- `fat32_next_cluster` reads the link of a cluster. -/
theorem nextCluster_runs {d : Driver} (good : d.Good) {c : Nat}
    (hc : c < d.fs.totalClusters + 2) :
    Runs (nextCluster c) d fun r d' => r = d.vol.fat c ∧ Effect d d' d.vol := by
  have g := good.geometry
  have small := g.range_lt_end
  refine Runs.mono (nextCluster_looks good.tabled.lookable (by omega) (g.table_index_lt hc)) ?_
  rintro r d' ⟨rfl, looked⟩
  exact ⟨(Driver.vol_fat d hc).symm, looked.good good⟩

/-! ## Writing an entry -/

/-- From `d` to `d'` the four bytes at `off` were set to `x` in every sector that `hit`
names, and nothing else happened. -/
structure Rewrote (d d' : Driver) (hit : Nat → Prop) (off x : Nat) : Prop where
  frame : ∃ media t w,
    d' = { d with ata := { d.ata with media := media, transfers := t, writes := w } }
  hits : ∀ l, hit l → ∀ o, o < 512 → d'.sector l o = (d.sector l).putLe off 4 x o
  others : ∀ l, ¬ hit l → d'.sector l = d.sector l

theorem putLe_congr_at {b b' : Buf} {off n x o : Nat} (same : b o = b' o) :
    b.putLe off n x o = b'.putLe off n x o := by
  unfold Buf.putLe
  rw [same]

/-- The sector of table copy `k` that holds an entry. -/
def Fs.tableSector (fs : Fs) (k j : Nat) : Nat := fs.fatStart + k * fs.sectorsPerFat + j

theorem Fs.tableSector_inj (fs : Fs) {k k' j j' : Nat} (hj : j < fs.sectorsPerFat)
    (hj' : j' < fs.sectorsPerFat) (same : fs.tableSector k j = fs.tableSector k' j') :
    k = k' ∧ j = j' := by
  unfold Fs.tableSector at same
  exact Geometry.block_unique hj hj' (by omega)

/-- One pass of the loop over the table copies rewrites one sector. -/
theorem rewrote_one {d : Driver} (lba off x t : Nat) (read : Buf)
    (loaded : ∀ o, o < 512 → read o = d.sector (lba28 lba) o) :
    Rewrote d { d.wrote .table lba 1 (read.putLe off 4 x) with
      ata := { (d.wrote .table lba 1 (read.putLe off 4 x)).ata with transfers := t } }
      (fun l => l = lba28 lba) off x where
  frame := ⟨_, _, _, rfl⟩
  hits := by
    rintro l rfl o ho
    change (d.wrote .table lba 1 (read.putLe off 4 x)).sector (lba28 lba) o = _
    rw [Driver.sector_wrote, if_pos (by omega), Nat.sub_self, Nat.zero_mul, Nat.zero_add]
    exact putLe_congr_at (loaded o ho)
  others := by
    intro l ne
    change (d.wrote .table lba 1 (read.putLe off 4 x)).sector l = _
    rw [Driver.sector_wrote, if_neg (by omega)]

/-- The loop over the table copies rewrites the entry's sector in each of them. -/
theorem setFatCopies_runs {j off x : Nat} : ∀ (copies fat : Nat) (d : Driver),
    (∀ n, d.ata.fault n = none) → Tables d.fs → j < d.fs.sectorsPerFat →
    fat + copies ≤ d.fs.numFats →
    Runs (setFatCopies j off x fat copies) d fun ok d' => ok = true ∧
      Rewrote d d' (fun l => ∃ k, fat ≤ k ∧ k < fat + copies ∧ l = d.fs.tableSector k j) off x
  | 0, fat, d, _, _, _, _ => by
      refine Runs.pure ⟨rfl, ⟨d.ata.media, d.ata.transfers, d.ata.writes, rfl⟩, ?_, fun _ _ => rfl⟩
      rintro l ⟨k, low, high, -⟩
      omega
  | copies + 1, fat, d, noFault, g, hj, bound => by
      have here := g.table_sector (k := fat) (by omega) hj
      unfold setFatCopies
      refine Runs.get_bind ?_
      simp only [here.1]
      refine Runs.step (ataReadSectors_run noFault _ _ _ _) ?_
      rw [if_pos (by rfl)]
      refine Runs.step (ataWriteSectors_run (d := { d with ata := { d.ata with
        transfers := d.ata.transfers + 1 } }) noFault _ _ _ _ _) ?_
      rw [if_pos (by rfl)]
      have first := rewrote_one (d.fs.fatStart + fat * d.fs.sectorsPerFat + j) off x
        (d.ata.transfers + 1 + 1) _ fun _ inside => d.sector_read _ (fun _ => 0) inside
      rw [here.2] at first
      refine Runs.mono (setFatCopies_runs copies (fat + 1) _ noFault g hj (by
        change fat + 1 + copies ≤ d.fs.numFats; omega)) ?_
      rintro ok d' ⟨rfl, ⟨media, t, w, rfl⟩, hits, others⟩
      refine ⟨rfl, ⟨media, t, w, rfl⟩, ?_, ?_⟩
      · rintro l ⟨k, low, high, rfl⟩ o ho
        by_cases now : k = fat
        · subst now
          rw [others _ fun ⟨k', low', _, same⟩ => by
            have := (d.fs.tableSector_inj hj hj same).1
            omega]
          exact first.hits _ rfl o ho
        · rw [hits _ ⟨k, by omega, by omega, rfl⟩ o ho]
          apply putLe_congr_at
          have := first.others (d.fs.tableSector k j) fun same => by
            have same' : d.fs.tableSector k j = d.fs.tableSector fat j := same
            have := (d.fs.tableSector_inj hj hj same').1
            omega
          exact congrFun this o
      · intro l miss
        rw [others l fun ⟨k, low, high, same⟩ => miss ⟨k, by omega, by omega, same⟩]
        exact first.others l fun same => miss ⟨fat, by omega, by omega, same⟩

section SetEntry

variable {d d' : Driver} {c x : Nat}

/-- The sectors `setFatEntry c` writes: one in each table copy. -/
def Fs.entrySectors (fs : Fs) (c l : Nat) : Prop :=
  ∃ k, 0 ≤ k ∧ k < 0 + fs.numFats ∧ l = fs.tableSector k (c * 4 / 512)

theorem Rewrote.fs_eq {hit : Nat → Prop} {off : Nat} (r : Rewrote d d' hit off x) :
    d'.fs = d.fs := by
  obtain ⟨_, _, _, rfl⟩ := r.frame
  rfl

/-- A table sector after the write: rewritten at the entry's index, unchanged elsewhere. -/
theorem Rewrote.table (r : Rewrote d d' (d.fs.entrySectors c) (c * 4 % 512) x)
    (hc : c * 4 / 512 < d.fs.sectorsPerFat) {k j o : Nat} (hk : k < d.fs.numFats)
    (hj : j < d.fs.sectorsPerFat) (ho : o < 512) :
    d'.sector (d.fs.tableSector k j) o =
      if j = c * 4 / 512 then (d.sector (d.fs.tableSector k j)).putLe (c * 4 % 512) 4 x o
      else d.sector (d.fs.tableSector k j) o := by
  by_cases same : j = c * 4 / 512
  · rw [if_pos same]
    exact r.hits _ ⟨k, by omega, by omega, by rw [same]⟩ o ho
  · rw [if_neg same, r.others]
    rintro ⟨k', -, -, eq⟩
    exact same (d.fs.tableSector_inj hj hc eq).2

theorem Fs.tableSector_zero (fs : Fs) (j : Nat) : fs.tableSector 0 j = fs.fatStart + j := by
  simp [Fs.tableSector]

theorem Rewrote.table0 (r : Rewrote d d' (d.fs.entrySectors c) (c * 4 % 512) x)
    (tables : Tables d.fs) (hc : c * 4 / 512 < d.fs.sectorsPerFat) {j o : Nat}
    (hj : j < d.fs.sectorsPerFat) (ho : o < 512) :
    d'.sector (d.fs.fatStart + j) o =
      if j = c * 4 / 512 then (d.sector (d.fs.fatStart + j)).putLe (c * 4 % 512) 4 x o
      else d.sector (d.fs.fatStart + j) o := by
  have first := r.table hc (k := 0) tables.one_le_fats hj ho
  rwa [Fs.tableSector_zero] at first

/-- The cache after `setFatEntry`: the entry is set there too if its sector is the cached
one. -/
def Driver.syncCache (d : Driver) (c x : Nat) : Driver :=
  if d.fatCacheSector = d.fs.fatStart + c * 4 / 512 then
    { d with fatSectorCache := d.fatSectorCache.putLe (c * 4 % 512) 4 x }
  else d

@[simp] theorem Driver.syncCache_fs : (d.syncCache c x).fs = d.fs := by
  unfold Driver.syncCache; split <;> rfl

@[simp] theorem Driver.syncCache_sector (l : Nat) :
    (d.syncCache c x).sector l = d.sector l := by
  unfold Driver.syncCache; split <;> rfl

@[simp] theorem Driver.syncCache_vol : (d.syncCache c x).vol = d.vol := by
  unfold Driver.syncCache; split <;> rfl

@[simp] theorem Driver.syncCache_fatCacheSector :
    (d.syncCache c x).fatCacheSector = d.fatCacheSector := by
  unfold Driver.syncCache; split <;> rfl

theorem Driver.syncCache_fatSectorCache : (d.syncCache c x).fatSectorCache =
    if d.fatCacheSector = d.fs.fatStart + c * 4 / 512 then
      d.fatSectorCache.putLe (c * 4 % 512) 4 x
    else d.fatSectorCache := by
  unfold Driver.syncCache; split <;> rfl

theorem Rewrote.coherent (lookable : d.Lookable) (hc : c * 4 / 512 < d.fs.sectorsPerFat)
    (r : Rewrote d d' (d.fs.entrySectors c) (c * 4 % 512) x)
    (low : d.fs.fatStart ≤ d.fatCacheSector)
    (high : d.fatCacheSector < d.fs.fatStart + d.fs.sectorsPerFat) {o : Nat} (ho : o < 512) :
    (if d.fatCacheSector = d.fs.fatStart + c * 4 / 512 then
      d.fatSectorCache.putLe (c * 4 % 512) 4 x else d.fatSectorCache) o =
      d'.sector d.fatCacheSector o := by
  have before := lookable.coherent low high o ho
  have here := r.table0 lookable.tables hc (j := d.fatCacheSector - d.fs.fatStart) (by omega) ho
  rw [Nat.add_sub_cancel' low] at here
  rw [here]
  by_cases cached : d.fatCacheSector = d.fs.fatStart + c * 4 / 512
  · rw [if_pos cached, if_pos (by omega)]
    exact putLe_congr_at before
  · rw [if_neg cached, if_neg (by omega)]
    exact before

theorem Rewrote.lookable (lookable : d.Lookable) (hc : c * 4 / 512 < d.fs.sectorsPerFat)
    (r : Rewrote d d' (d.fs.entrySectors c) (c * 4 % 512) x) : (d'.syncCache c x).Lookable := by
  have fs_eq := r.fs_eq
  refine ⟨by rw [Driver.syncCache_fs, fs_eq]; exact lookable.tables, ?_, ?_⟩
  · obtain ⟨_, _, _, rfl⟩ := r.frame
    unfold Driver.syncCache
    split <;> exact lookable.noFault
  · intro low high o ho
    rw [Driver.syncCache_fs, Driver.syncCache_fatCacheSector, fs_eq] at low high
    rw [Driver.syncCache_sector, Driver.syncCache_fatCacheSector,
      Driver.syncCache_fatSectorCache, fs_eq]
    have cache : d'.fatCacheSector = d.fatCacheSector ∧ d'.fatSectorCache = d.fatSectorCache := by
      obtain ⟨_, _, _, rfl⟩ := r.frame
      exact ⟨rfl, rfl⟩
    rw [cache.1] at low high ⊢
    rw [cache.2]
    exact r.coherent lookable hc low high ho

/-- A table copy that is equal to the first one stays so. -/
theorem Rewrote.copy (tables : Tables d.fs) (hc : c * 4 / 512 < d.fs.sectorsPerFat)
    (r : Rewrote d d' (d.fs.entrySectors c) (c * 4 % 512) x) {k : Nat} (hk : k < d.fs.numFats)
    (copy : ∀ j, j < d.fs.sectorsPerFat → ∀ o, o < 512 →
      d.sector (d.fs.fatStart + k * d.fs.sectorsPerFat + j) o = d.sector (d.fs.fatStart + j) o)
    {j o : Nat} (hj : j < d.fs.sectorsPerFat) (ho : o < 512) :
    d'.sector (d.fs.fatStart + k * d.fs.sectorsPerFat + j) o =
      d'.sector (d.fs.fatStart + j) o := by
  have left := r.table hc hk hj ho
  unfold Fs.tableSector at left
  rw [left, r.table0 tables hc hj ho]
  split
  · exact putLe_congr_at (copy j hj o ho)
  · exact copy j hj o ho

theorem Rewrote.tabled (tabled : d.Tabled) (hc : c * 4 / 512 < d.fs.sectorsPerFat)
    (r : Rewrote d d' (d.fs.entrySectors c) (c * 4 % 512) x) : (d'.syncCache c x).Tabled := by
  obtain ⟨tables, noFault, coherent⟩ := r.lookable tabled.lookable hc
  refine ⟨tables, noFault, ?_, coherent⟩
  intro k hk j hj o ho
  simp only [Driver.syncCache_fs, Driver.syncCache_sector, r.fs_eq] at hk hj ⊢
  exact r.copy tabled.tables hc hk (tabled.copies k hk) hj ho

theorem Rewrote.good (good : d.Good) (hc : c < d.fs.totalClusters + 2)
    (r : Rewrote d d' (d.fs.entrySectors c) (c * 4 % 512) x) : (d'.syncCache c x).Good := by
  have tabled := r.tabled good.tabled (good.geometry.table_index_lt hc)
  refine ⟨by rw [Driver.syncCache_fs, r.fs_eq]; exact good.geometry, ?_, tabled.noFault,
    tabled.copies, tabled.coherent⟩
  obtain ⟨_, _, _, rfl⟩ := r.frame
  unfold Driver.syncCache
  split <;> exact good.mounted

/-- A table entry, in full, after the write: set at `c`, unchanged elsewhere. -/
theorem Rewrote.entry (r : Rewrote d d' (d.fs.entrySectors c) (c * 4 % 512) x)
    (hc : c * 4 / 512 < d.fs.sectorsPerFat) {k y : Nat} (hk : k < d.fs.numFats)
    (hy : y * 4 / 512 < d.fs.sectorsPerFat) :
    (d'.sector (d.fs.tableSector k (y * 4 / 512))).le (y * 4 % 512) 4 =
      if y = c then x % 2 ^ 32
      else (d.sector (d.fs.tableSector k (y * 4 / 512))).le (y * 4 % 512) 4 := by
  have table := fun {o} => r.table (o := o) hc hk hy
  by_cases sector : y * 4 / 512 = c * 4 / 512
  · have field : (d'.sector (d.fs.tableSector k (y * 4 / 512))).le (y * 4 % 512) 4 =
        ((d.sector (d.fs.tableSector k (y * 4 / 512))).putLe (c * 4 % 512) 4 x).le
          (y * 4 % 512) 4 :=
      Buf.le_congr fun i _ _ => by rw [table (by omega), if_pos sector]
    rw [field]
    by_cases same : y = c
    · rw [if_pos same, same, Buf.le_putLe]
      rfl
    · -- entries are four bytes at multiples of four, so two of them in one sector are apart
      rw [if_neg same]
      exact Buf.le_putLe_of_disjoint (by omega)
  · rw [if_neg fun same => sector (by rw [same])]
    exact Buf.le_congr fun i _ _ => by rw [table (by omega), if_neg sector]

theorem Rewrote.fat (good : d.Good) (hc : c < d.fs.totalClusters + 2)
    (r : Rewrote d d' (d.fs.entrySectors c) (c * 4 % 512) x) :
    d'.vol.fat = Function.update d.vol.fat c (x % 2 ^ 28) := by
  have g := good.geometry
  have fs_eq := r.fs_eq
  funext y
  by_cases hy : y < d.fs.totalClusters + 2
  · have entry := r.entry (g.table_index_lt hc) (k := 0) g.one_le_fats (g.table_index_lt hy)
    rw [Fs.tableSector_zero] at entry
    rw [Driver.vol_fat d' (by rw [fs_eq]; exact hy), fs_eq, entry]
    by_cases same : y = c
    · rw [if_pos same, same, Function.update_self]
      omega
    · rw [if_neg same, Function.update_of_ne same, Driver.vol_fat d hy]
  · rw [Driver.vol_fat_outside d' (by rw [fs_eq]; exact hy), Function.update_of_ne (by omega),
      Driver.vol_fat_outside d hy]

theorem Rewrote.bytes (good : d.Good) (hc : c < d.fs.totalClusters + 2)
    (r : Rewrote d d' (d.fs.entrySectors c) (c * 4 % 512) x) : d'.vol.bytes = d.vol.bytes := by
  have g := good.geometry
  have index := g.table_index_lt hc
  have fs_eq := r.fs_eq
  funext y i
  by_cases hy : (2 ≤ y ∧ y < d.fs.totalClusters + 2) ∧ i < d.fs.sectorsPerCluster * 512
  · rw [Driver.vol_bytes d' (by rw [fs_eq]; exact hy.1) (by rw [fs_eq]; exact hy.2), fs_eq,
      Driver.vol_bytes d hy.1 hy.2, r.others]
    rintro ⟨k, -, hk, same⟩
    have := g.table_sector_lt (k := k) (by omega) index
    unfold Fs.tableSector at same
    omega
  · rw [Driver.vol_bytes_outside d' (by rw [fs_eq]; exact hy), Driver.vol_bytes_outside d hy]

end SetEntry

/-- `fat32_set_fat_entry` rewrites the entry in all copies and in the cache. -/
theorem setFatEntry_rewrites {d : Driver} (lookable : d.Lookable) {c : Nat} (small : c < 2 ^ 28)
    (index : c * 4 / 512 < d.fs.sectorsPerFat) (x : Nat) :
    Runs (setFatEntry c x) d fun r d' => r = 0 ∧
      ∃ d₁, Rewrote d d₁ (d.fs.entrySectors c) (c * 4 % 512) x ∧ d' = d₁.syncCache c x := by
  have offset : c * 4 % 2 ^ 32 = c * 4 := Nat.mod_eq_of_lt (by omega)
  unfold setFatEntry
  refine Runs.get_bind ?_
  simp only [offset]
  refine Runs.bind (setFatCopies_runs d.fs.numFats 0 d lookable.noFault lookable.tables index
    (by omega)) ?_
  rintro _ d₁ ⟨rfl, rewrote⟩
  rw [if_pos rfl]
  refine Runs.modify_bind (Runs.pure ⟨rfl, d₁, rewrote, ?_⟩)
  unfold Driver.syncCache
  rw [rewrote.fs_eq, (lookable.tables.table0_sector index).1]

/-- `fat32_set_fat_entry` sets the link of a cluster. -/
theorem setFatEntry_runs {d : Driver} (good : d.Good) {c : Nat}
    (hc : c < d.fs.totalClusters + 2) (x : Nat) :
    Runs (setFatEntry c x) d fun r d' =>
      r = 0 ∧ Effect d d' (d.vol.setFat c (x % 2 ^ 28)) := by
  have g := good.geometry
  have small := g.range_lt_end
  refine Runs.mono (setFatEntry_rewrites good.tabled.lookable (by omega) (g.table_index_lt hc) x) ?_
  rintro r d' ⟨rfl, d₁, rewrote, rfl⟩
  have fs_eq := rewrote.fs_eq
  refine ⟨rfl, rewrote.good good hc, by rw [Driver.syncCache_fs, fs_eq], ?_, ?_⟩
  · obtain ⟨media, t, w, rfl⟩ := rewrote.frame
    unfold Driver.syncCache
    split <;> rfl
  · rw [Driver.syncCache_vol]
    have geometry : d₁.vol = { d.vol with fat := d₁.vol.fat, bytes := d₁.vol.bytes } := by
      simp only [Driver.vol, fs_eq]
    rw [geometry, rewrote.fat good hc, rewrote.bytes good hc]
    rfl

end XosKernel.Fat32
