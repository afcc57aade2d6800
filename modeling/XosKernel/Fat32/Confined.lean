/-
# Fat32.Confined -- table walks within a set of cluster numbers

Cluster numbers come from directory entries and table links, and the driver follows every
number that `fat32_is_valid_cluster` accepts.  Nothing is assumed here about what the sectors
or the table cache hold, and any transfer may fail: only the geometry is consistent.

`d.Sees c x` says that the driver can read `x` as the entry of `c`, from the disk or from the
cached sector (a failed update leaves the two apart).  A set of numbers that is closed under
what the driver sees is `Confined`; a chain that starts in it stays in it, whatever is freed.
Freeing ends because each pass leaves one entry less to see.
-/
import XosKernel.Fat32.FatSpec
import XosKernel.Fat32.Files
import Mathlib.Data.Finset.Card
import Mathlib.Data.Finset.Range

namespace XosKernel.Fat32

open XosKernel.Theory

set_option autoImplicit false

/-! ## Commands and places -/

/-- A cluster of the volume. -/
def Fs.InRange (fs : Fs) (c : Nat) : Prop := 2 ≤ c ∧ c < fs.totalClusters + 2

instance (fs : Fs) (c : Nat) : Decidable (fs.InRange c) := inferInstanceAs (Decidable (_ ∧ _))

/-- The command writes to the mounted disk: a table update to one sector of a table copy, a
directory or data update to sectors of one cluster of the volume.  The address is the exact
one, neither wrapped to 32 bits nor cut to 28. -/
structure Fs.Allows (fs : Fs) (w : WriteCommand) : Prop where
  disk : (w.channel, w.drive) = diskToAta fs.disk
  table : w.buffer = .table → w.count = 1 ∧
    ∃ k < fs.numFats, ∃ j < fs.sectorsPerFat, w.lba = fs.tableSector k j
  cluster : w.buffer ≠ .table → w.count ≤ fs.sectorsPerCluster ∧
    ∃ c, fs.InRange c ∧ w.lba = fs.dataStart + (c - 2) * fs.sectorsPerCluster

/-- From `d` to `d'` only allowed commands were given, and the volume stayed mounted. -/
structure Inside (d d' : Driver) : Prop where
  fs_eq : d'.fs = d.fs
  writes : ∃ new, d'.ata.writes = new ++ d.ata.writes ∧ ∀ w ∈ new, d.fs.Allows w

theorem Inside.refl (d : Driver) : Inside d d := ⟨rfl, [], rfl, by simp⟩

theorem Inside.trans {d d' d'' : Driver} (first : Inside d d') (second : Inside d' d'') :
    Inside d d'' := by
  obtain ⟨new, writes, allowed⟩ := first.writes
  obtain ⟨new', writes', allowed'⟩ := second.writes
  refine ⟨second.fs_eq.trans first.fs_eq, new' ++ new, ?_, ?_⟩
  · rw [writes', writes, List.append_assoc]
  · intro w member
    rcases List.mem_append.mp member with late | early
    · rw [← first.fs_eq]
      exact allowed' w late
    · exact allowed w early

/-- The same record, and no command. -/
theorem Inside.of_writes_eq {d d' : Driver} (fs_eq : d'.fs = d.fs)
    (writes : d'.ata.writes = d.ata.writes) : Inside d d' :=
  ⟨fs_eq, [], writes, by simp⟩

/-! ## What the driver sees in the table -/

/-- The table has an entry for the number. -/
def Fs.InTable (fs : Fs) (c : Nat) : Prop := c < 2 ^ 28 ∧ c * 4 / 512 < fs.sectorsPerFat

instance (fs : Fs) (c : Nat) : Decidable (fs.InTable c) := inferInstanceAs (Decidable (_ ∧ _))

theorem Geometry.inTable {fs : Fs} (g : Geometry fs) {c : Nat} (range : fs.InRange c) :
    fs.InTable c := by
  have small := g.range_lt_end
  exact ⟨by have := range.2; omega, g.table_index_lt range.2⟩

/-- The sector of the first table copy that holds an entry. -/
def Fs.entrySector (fs : Fs) (c : Nat) : Nat := fs.fatStart + c * 4 / 512

/-- The entry of `c` in a table sector. -/
def entryIn (b : Buf) (c : Nat) : Nat := b.le (c * 4 % 512) 4 % 2 ^ 28

theorem entryIn_congr {b b' : Buf} {c : Nat} (same : ∀ o, o < 512 → b o = b' o) :
    entryIn b c = entryIn b' c := by
  rw [entryIn, entryIn, Buf.le_congr fun i _ _ => same i (by omega)]

/-- Entries are four bytes at multiples of four, so setting one leaves the others. -/
theorem entryIn_putLe (b : Buf) {c y : Nat} (x : Nat) (same : y * 4 / 512 = c * 4 / 512) :
    entryIn (b.putLe (c * 4 % 512) 4 x) y = if y = c then x % 2 ^ 28 else entryIn b y := by
  by_cases here : y = c
  · subst here
    rw [if_pos rfl, entryIn, Buf.le_putLe]
    omega
  · rw [if_neg here, entryIn, entryIn, Buf.le_putLe_of_disjoint (by omega)]

/-- The entry of a number on disk. -/
def Driver.entry (d : Driver) (c : Nat) : Nat := entryIn (d.sector (d.fs.entrySector c)) c

/-- Reading the entry of `c` can give `x`: it is there on disk, or in the cached sector. -/
def Driver.Sees (d : Driver) (c x : Nat) : Prop :=
  x = d.entry c ∨ d.fatCacheSector = d.fs.entrySector c ∧ x = entryIn d.fatSectorCache c

/-- From `d` to `d'` the writes are allowed, and what is newly seen in the table is in `set`. -/
structure Step (set : Nat → Nat → Prop) (d d' : Driver) : Prop where
  inside : Inside d d'
  sees : ∀ y, d.fs.InTable y → ∀ x, d'.Sees y x → d.Sees y x ∨ set y x

/-- Nothing is newly seen. -/
abbrev Still : Driver → Driver → Prop := Step fun _ _ => False

section Steps

variable {set : Nat → Nat → Prop} {d d' d'' : Driver}

theorem Step.refl (set : Nat → Nat → Prop) (d : Driver) : Step set d d :=
  ⟨Inside.refl d, fun _ _ _ seen => .inl seen⟩

theorem Step.trans (first : Step set d d') (second : Step set d' d'') : Step set d d'' := by
  refine ⟨first.inside.trans second.inside, fun y inTable x seen => ?_⟩
  rcases second.sees y (by rw [first.inside.fs_eq]; exact inTable) x seen with earlier | new
  · exact first.sees y inTable x earlier
  · exact .inr new

theorem Step.mono {set' : Nat → Nat → Prop} (step : Step set d d')
    (weaker : ∀ y x, set y x → set' y x) : Step set' d d' :=
  ⟨step.inside, fun y inTable x seen => (step.sees y inTable x seen).imp_right (weaker y x)⟩

theorem Step.fs_eq (step : Step set d d') : d'.fs = d.fs := step.inside.fs_eq

theorem Step.geometry (step : Step set d d') (g : Geometry d.fs) : Geometry d'.fs := by
  rw [step.fs_eq]
  exact g

/-- A state with the same table sectors and the same cache sees the same. -/
theorem Still.of_same (fs_eq : d'.fs = d.fs) (writes : d'.ata.writes = d.ata.writes)
    (media : d'.ata.media = d.ata.media) (cache : d'.fatSectorCache = d.fatSectorCache)
    (cached : d'.fatCacheSector = d.fatCacheSector) : Still d d' := by
  refine ⟨Inside.of_writes_eq fs_eq writes, fun y _ x seen => .inl ?_⟩
  simpa only [Driver.Sees, Driver.entry, Driver.sector, fs_eq, media, cache, cached] using seen

end Steps

/-- Numbers with table entries, closed under what the driver sees. -/
structure Confined (d : Driver) (T : Nat → Prop) : Prop where
  inTable : ∀ c, T c → d.fs.InTable c
  sees : ∀ c, T c → ∀ x, d.Sees c x → isValidCluster x = true → T x

theorem Confined.step {set : Nat → Nat → Prop} {d d' : Driver} {T : Nat → Prop}
    (confined : Confined d T) (step : Step set d d')
    (new : ∀ y, T y → ∀ x, set y x → isValidCluster x = true → T x) : Confined d' T := by
  refine ⟨fun c member => ?_, fun c member x seen valid => ?_⟩
  · rw [step.fs_eq]
    exact confined.inTable c member
  · rcases step.sees c (confined.inTable c member) x seen with earlier | late
    · exact confined.sees c member x earlier valid
    · exact new c member x late valid

theorem Confined.still {d d' : Driver} {T : Nat → Prop} (confined : Confined d T)
    (still : Still d d') : Confined d' T :=
  confined.step still fun _ _ _ none => none.elim

/-! ## Reading an entry -/

/-- The state after a read. -/
def Driver.ticked (d : Driver) : Driver :=
  { d with ata := { d.ata with transfers := d.ata.transfers + 1 } }

/-- A read of one sector of the mounted disk delivers it, or fails and leaves the buffer. -/
theorem ataReadSector_cases (d : Driver) {lba : Nat} (small : lba28 lba = lba) (b : Buf) :
    (∃ read : Buf, (ataReadSectors d.fs.disk lba 1 b).run d = .ok ((1, read), d.ticked) ∧
        ∀ o, o < 512 → read o = d.sector lba o) ∨
      (ataReadSectors d.fs.disk lba 1 b).run d = .ok ((-1, b), d.ticked) := by
  cases fault : d.ata.fault d.ata.transfers with
  | none =>
      refine .inl ⟨b.blit 0 512 (d.ata.stream (diskToAta d.fs.disk).1 (diskToAta d.fs.disk).2 lba),
        ?_, fun o bound => ?_⟩
      · simp [ataReadSectors, Ata.readSectors, fault, sectorSize]
        rfl
      · have read := d.sector_read lba b bound
        rwa [small] at read
  | some k =>
      have nothing : b.blit 0 0 (d.ata.stream (diskToAta d.fs.disk).1 (diskToAta d.fs.disk).2 lba) =
          b := by
        funext i
        exact Buf.blit_of_outside (by omega)
      refine .inr ?_
      simp [ataReadSectors, Ata.readSectors, fault, nothing]
      rfl

/-- A table sector is brought into the cache whole, or not at all. -/
theorem loadFatSector_still {d : Driver} (g : Geometry d.fs) {c : Nat}
    (inTable : d.fs.InTable c) :
    Runs (loadFatSector (d.fs.entrySector c)) d fun ok d' => Still d d' ∧
      (ok = true → d'.fatCacheSector = d.fs.entrySector c) := by
  simp only [loadFatSector]
  refine Runs.get_bind ?_
  by_cases cached : d.fs.entrySector c = d.fatCacheSector
  · rw [if_pos cached]
    exact Runs.pure ⟨Step.refl _ d, fun _ => cached.symm⟩
  · rw [if_neg cached]
    rcases ataReadSector_cases d (g.table0_sector inTable.2).2 d.fatSectorCache with
      ⟨read, ran, loaded⟩ | ran
    · refine Runs.step ran (Runs.modify_bind ?_)
      rw [if_pos rfl]
      refine Runs.modify_bind (Runs.pure ⟨⟨Inside.of_writes_eq rfl rfl, ?_⟩, fun _ => rfl⟩)
      -- The cached sector is the one on disk now, so the cache adds nothing to see.
      rintro y - x (seen | ⟨same, seen⟩)
      · exact .inl (.inl seen)
      · refine .inl (.inl ?_)
        have sector : d.fs.entrySector y = d.fs.entrySector c := same.symm
        rw [seen, Driver.entry, sector]
        exact entryIn_congr loaded
    · refine Runs.step ran (Runs.modify_bind ?_)
      rw [if_neg (by simp)]
      refine Runs.pure ⟨Still.of_same rfl rfl rfl rfl rfl, fun no => ?_⟩
      cases no

/-- `fat32_next_cluster` returns what it sees, or 0 for a failed read. -/
theorem nextCluster_still {d : Driver} (g : Geometry d.fs) {c : Nat}
    (inTable : d.fs.InTable c) :
    Runs (nextCluster c) d fun r d' => Still d d' ∧ (r = 0 ∨ d.Sees c r) := by
  have offset : c * 4 % 2 ^ 32 = c * 4 := Nat.mod_eq_of_lt (by have := inTable.1; omega)
  simp only [nextCluster]
  refine Runs.get_bind ?_
  simp only [offset, (g.table0_sector inTable.2).1]
  refine Runs.bind (loadFatSector_still g inTable) ?_
  rintro ok d' ⟨still, cached⟩
  cases ok with
  | false => exact Runs.pure ⟨still, .inl rfl⟩
  | true =>
      refine Runs.get_bind (Runs.pure ⟨still, .inr ?_⟩)
      have seen : d'.Sees c (entryIn d'.fatSectorCache c) :=
        .inr ⟨by rw [still.fs_eq]; exact cached rfl, rfl⟩
      exact (still.sees c inTable _ seen).resolve_right id

/-! ## Writing an entry -/

/-- The state after a write of `count` sectors to the mounted disk, of which `n` arrived. -/
def Driver.arrived (d : Driver) (source : WriteBuffer) (lba count n : Nat) (b : Buf) : Driver :=
  { d with ata := { d.ata with
      media := d.ata.store (diskToAta d.fs.disk).1 (diskToAta d.fs.disk).2 lba n b
      transfers := d.ata.transfers + 1
      writes := ⟨source, (diskToAta d.fs.disk).1, (diskToAta d.fs.disk).2, lba, count⟩ ::
        d.ata.writes } }

theorem Driver.sector_arrived (d : Driver) (source : WriteBuffer) (lba count n : Nat) (b : Buf)
    (l : Nat) :
    (d.arrived source lba count n b).sector l =
      if lba28 lba ≤ l ∧ l < lba28 lba + n then fun o => b ((l - lba28 lba) * 512 + o)
      else d.sector l := by
  simp [Driver.sector, Driver.arrived, Ata.store, sectorSize]

theorem Inside.arrived {d : Driver} {source : WriteBuffer} {lba count : Nat}
    (allowed : d.fs.Allows ⟨source, (diskToAta d.fs.disk).1, (diskToAta d.fs.disk).2, lba, count⟩)
    (n : Nat) (b : Buf) : Inside d (d.arrived source lba count n b) := by
  refine ⟨rfl, [_], rfl, fun w member => ?_⟩
  rw [List.mem_singleton.mp member]
  exact allowed

theorem ataWriteSectors_cases (d : Driver) (source : WriteBuffer) (lba count : Nat) (b : Buf) :
    ∃ r n, (ataWriteSectors source d.fs.disk lba count b).run d =
      .ok (r, d.arrived source lba count n b) ∧ n ≤ count ∧ (r = count → n = count) := by
  cases fault : d.ata.fault d.ata.transfers with
  | none =>
      refine ⟨count, count, ?_, le_rfl, fun _ => rfl⟩
      simp [ataWriteSectors, Ata.writeSectors, fault]
      rfl
  | some k =>
      refine ⟨-1, min k count, ?_, by omega, fun no => by omega⟩
      simp [ataWriteSectors, Ata.writeSectors, fault]
      rfl

/-- From `d` to `d'` the entry of `c` was set to `x` in some table copies from number `fat` on;
the cache is as it was. -/
structure Copied (c x fat : Nat) (d d' : Driver) : Prop where
  inside : Inside d d'
  cache : d'.fatSectorCache = d.fatSectorCache
  cached : d'.fatCacheSector = d.fatCacheSector
  entries : ∀ y, d.fs.InTable y →
    d'.entry y = d.entry y ∨ fat = 0 ∧ y = c ∧ d'.entry y = x % 2 ^ 28

section Copies

variable {c x : Nat} {d : Driver}

/-- The command that updates the entry's sector in one table copy. -/
theorem allows_tableSector (fs : Fs) {k : Nat} (copy : k < fs.numFats) (inTable : fs.InTable c) :
    fs.Allows ⟨.table, (diskToAta fs.disk).1, (diskToAta fs.disk).2,
      fs.tableSector k (c * 4 / 512), 1⟩ where
  disk := rfl
  table := fun _ => ⟨rfl, k, copy, c * 4 / 512, inTable.2, rfl⟩
  cluster := fun no => absurd rfl no

/-- The entries after the sector of `c` in table copy `k` was replaced, or not (`n = 0`). -/
theorem entry_arrived (g : Geometry d.fs) (inTable : d.fs.InTable c) {k n : Nat}
    (copy : k < d.fs.numFats) (once : n ≤ 1) {read : Buf}
    (loaded : ∀ o, o < 512 → read o = d.sector (d.fs.tableSector k (c * 4 / 512)) o) {y : Nat}
    (other : d.fs.InTable y) :
    (d.arrived .table (d.fs.tableSector k (c * 4 / 512)) 1 n
      (read.putLe (c * 4 % 512) 4 x)).entry y =
      if (k = 0 ∧ n = 1) ∧ y = c then x % 2 ^ 28 else d.entry y := by
  have small : lba28 (d.fs.tableSector k (c * 4 / 512)) = d.fs.tableSector k (c * 4 / 512) :=
    (g.table_sector copy inTable.2).2
  have place : d.fs.entrySector y = d.fs.tableSector 0 (y * 4 / 512) :=
    (d.fs.tableSector_zero _).symm
  rw [Driver.entry]
  show entryIn (Driver.sector _ (d.fs.entrySector y)) y = _
  rw [Driver.sector_arrived, small, place]
  by_cases hit : k = 0 ∧ n = 1 ∧ y * 4 / 512 = c * 4 / 512
  · obtain ⟨rfl, rfl, same⟩ := hit
    have start : ∀ o, (d.fs.tableSector 0 (c * 4 / 512) - d.fs.tableSector 0 (c * 4 / 512)) * 512 +
        o = o := by
      intro o
      omega
    rw [same, if_pos (by omega)]
    simp only [start]
    rw [entryIn_putLe read x same]
    by_cases here : y = c
    · rw [if_pos here, if_pos ⟨by simp, here⟩]
    · rw [if_neg here, if_neg fun both => here both.2, Driver.entry, place, same]
      exact entryIn_congr loaded
  · have miss : ¬ (d.fs.tableSector k (c * 4 / 512) ≤ d.fs.tableSector 0 (y * 4 / 512) ∧
        d.fs.tableSector 0 (y * 4 / 512) < d.fs.tableSector k (c * 4 / 512) + n) := by
      rintro ⟨low, high⟩
      have sector : d.fs.tableSector 0 (y * 4 / 512) = d.fs.tableSector k (c * 4 / 512) := by omega
      obtain ⟨rfl, same⟩ := d.fs.tableSector_inj other.2 inTable.2 sector
      exact hit ⟨rfl, by omega, same⟩
    have outside : ¬ ((k = 0 ∧ n = 1) ∧ y = c) := by
      rintro ⟨⟨rfl, rfl⟩, rfl⟩
      exact hit ⟨rfl, rfl, rfl⟩
    rw [if_neg miss, if_neg outside, Driver.entry, place]

/-- The write to one table copy. -/
theorem writeCopy_copied (g : Geometry d.fs) (inTable : d.fs.InTable c) {fat : Nat}
    (copy : fat < d.fs.numFats) {read : Buf}
    (loaded : ∀ o, o < 512 → read o = d.sector (d.fs.tableSector fat (c * 4 / 512)) o) :
    Runs (ataWriteSectors .table d.fs.disk (d.fs.tableSector fat (c * 4 / 512)) 1
        (read.putLe (c * 4 % 512) 4 x)) d fun r d' =>
      Copied c x fat d d' ∧ (r = 1 → fat = 0 → d'.entry c = x % 2 ^ 28) := by
  obtain ⟨r, n, ran, once, whole⟩ := ataWriteSectors_cases d .table
    (d.fs.tableSector fat (c * 4 / 512)) 1 (read.putLe (c * 4 % 512) 4 x)
  have entries := fun y => entry_arrived (x := x) (y := y) g inTable copy once loaded
  refine ⟨r, _, ran, ⟨Inside.arrived (allows_tableSector d.fs copy inTable) n _, rfl, rfl, ?_⟩, ?_⟩
  · intro y other
    rw [entries y other]
    by_cases here : (fat = 0 ∧ n = 1) ∧ y = c
    · exact .inr ⟨here.1.1, here.2, if_pos here⟩
    · exact .inl (if_neg here)
  · intro reported first
    rw [entries c inTable, if_pos ⟨⟨first, whole reported⟩, rfl⟩]

theorem Copied.trans {d' d'' : Driver} {fat fat' : Nat} (first : Copied c x fat d d')
    (second : Copied c x fat' d' d'') (order : fat ≤ fat') : Copied c x fat d d'' := by
  refine ⟨first.inside.trans second.inside, second.cache.trans first.cache,
    second.cached.trans first.cached, fun y inTable => ?_⟩
  rcases second.entries y (by rw [first.inside.fs_eq]; exact inTable) with same | ⟨zero, rest⟩
  · rw [same]
    exact first.entries y inTable
  · exact .inr ⟨by omega, rest⟩

/-- The loop over the table copies. -/
theorem setFatCopies_copied (copies fat : Nat) (g : Geometry d.fs) (inTable : d.fs.InTable c)
    (bound : fat + copies ≤ d.fs.numFats) :
    Runs (setFatCopies (c * 4 / 512) (c * 4 % 512) x fat copies) d fun ok d' =>
      Copied c x fat d d' ∧ (ok = true → fat = 0 → 0 < copies → d'.entry c = x % 2 ^ 28) := by
  induction copies generalizing fat d with
  | zero => exact Runs.pure ⟨⟨Inside.refl d, rfl, rfl, fun _ _ => .inl rfl⟩, fun _ _ no => by omega⟩
  | succ copies ih =>
      have sector := g.table_sector (k := fat) (by omega) inTable.2
      have here : (d.fs.fatStart + fat * d.fs.sectorsPerFat + c * 4 / 512) % 2 ^ 32 =
          d.fs.tableSector fat (c * 4 / 512) := sector.1
      rw [setFatCopies]
      refine Runs.get_bind ?_
      simp only [here]
      rcases ataReadSector_cases d sector.2 (fun _ => 0) with ⟨read, ran, loaded⟩ | ran
      · refine Runs.step ran ?_
        rw [if_pos rfl]
        have ticked : Copied c x fat d d.ticked :=
          ⟨Inside.of_writes_eq rfl rfl, rfl, rfl, fun _ _ => .inl rfl⟩
        refine Runs.bind (writeCopy_copied (d := d.ticked) g inTable (by
          show fat < d.fs.numFats
          omega) loaded) ?_
        rintro r d₁ ⟨copied, set⟩
        have here := ticked.trans copied le_rfl
        have fs_eq := here.inside.fs_eq
        by_cases success : r = 1
        · rw [if_pos success]
          refine Runs.mono (ih (fat + 1) (by rw [fs_eq]; exact g) (by rw [fs_eq]; exact inTable)
            (by rw [fs_eq]; omega)) ?_
          rintro ok d' ⟨later, -⟩
          refine ⟨here.trans later (by omega), fun _ first _ => ?_⟩
          -- The copies after the first do not show in the entries.
          have same := (later.entries c (by rw [fs_eq]; exact inTable)).resolve_right
            fun no => by omega
          rw [same]
          exact set success first
        · rw [if_neg success]
          refine Runs.pure ⟨here, fun no => ?_⟩
          cases no
      · refine Runs.step ran ?_
        rw [if_neg (by simp)]
        refine Runs.pure
          ⟨⟨Inside.of_writes_eq rfl rfl, rfl, rfl, fun _ _ => .inl rfl⟩, fun no => ?_⟩
        cases no

/-- `fat32_set_fat_entry`: after a success the entry is all there is to see. -/
theorem setFatEntry_step (g : Geometry d.fs) (inTable : d.fs.InTable c) (x : Nat) :
    Runs (setFatEntry c x) d fun r d' => Step (fun y z => y = c ∧ z = x % 2 ^ 28) d d' ∧
      (r = 0 → ∀ z, d'.Sees c z → z = x % 2 ^ 28) := by
  have offset : c * 4 % 2 ^ 32 = c * 4 := Nat.mod_eq_of_lt (by have := inTable.1; omega)
  simp only [setFatEntry]
  refine Runs.get_bind ?_
  simp only [offset]
  refine Runs.bind (setFatCopies_copied d.fs.numFats 0 g inTable (by omega)) ?_
  rintro ok d₁ ⟨copied, set⟩
  have fs_eq := copied.inside.fs_eq
  have before : Step (fun y z => y = c ∧ z = x % 2 ^ 28) d d₁ := by
    refine ⟨copied.inside, fun y other z seen => ?_⟩
    rcases seen with disk | ⟨same, cache⟩
    · rcases copied.entries y other with same | ⟨-, here, value⟩
      · exact .inl (.inl (disk.trans same))
      · exact .inr ⟨here, disk.trans value⟩
    · refine .inl (.inr ⟨?_, ?_⟩)
      · rw [← copied.cached, same, fs_eq]
      · rw [cache, copied.cache]
  cases ok with
  | false =>
      refine Runs.pure ⟨before, fun no => ?_⟩
      cases no
  | true =>
      have value := set rfl rfl g.one_le_fats
      refine Runs.modify_bind (Runs.pure ?_)
      have sector : (d₁.fs.fatStart + c * 4 / 512) % 2 ^ 32 = d.fs.entrySector c := by
        rw [fs_eq]
        exact (g.table0_sector inTable.2).1
      rw [sector]
      by_cases cached : d₁.fatCacheSector = d.fs.entrySector c
      · rw [if_pos cached]
        have put := fun y => entryIn_putLe d₁.fatSectorCache (c := c) (y := y) x
        refine ⟨⟨⟨fs_eq, copied.inside.writes⟩, ?_⟩, ?_⟩
        · rintro y other z (disk | ⟨same, cache⟩)
          · exact before.sees y other z (.inl disk)
          · have sector : d.fs.entrySector y = d.fs.entrySector c := by
              rw [← cached]
              exact (same.trans (by rw [fs_eq])).symm
            have index : y * 4 / 512 = c * 4 / 512 := Nat.add_left_cancel sector
            have value : z = if y = c then x % 2 ^ 28 else entryIn d₁.fatSectorCache y :=
              cache.trans (put y index)
            by_cases here : y = c
            · exact .inr ⟨here, value.trans (if_pos here)⟩
            · exact before.sees y other z (.inr ⟨same, value.trans (if_neg here)⟩)
        · rintro - z (disk | ⟨-, cache⟩)
          · exact disk.trans value
          · exact (cache.trans (put c rfl)).trans (if_pos rfl)
      · rw [if_neg cached]
        refine ⟨before, ?_⟩
        rintro - z (disk | ⟨same, -⟩)
        · exact disk.trans value
        · rw [fs_eq] at same
          exact absurd same cached

end Copies

/-! ## Freeing a chain -/

section Free

variable {d d' : Driver}

open Classical in
/-- The valid numbers that have an entry other than 0 to see. -/
noncomputable def Driver.linked (d : Driver) : Finset Nat :=
  (Finset.range 0x0FFFFFF8).filter fun c => 2 ≤ c ∧ d.fs.InTable c ∧ ∃ x, d.Sees c x ∧ x ≠ 0

theorem Driver.mem_linked {c : Nat} :
    c ∈ d.linked ↔ isValidCluster c = true ∧ d.fs.InTable c ∧ ∃ x, d.Sees c x ∧ x ≠ 0 := by
  simp only [Driver.linked, Finset.mem_filter, Finset.mem_range, isValidCluster, Bool.and_eq_true,
    decide_eq_true_eq]
  constructor
  · rintro ⟨high, low, rest⟩
    exact ⟨⟨low, high⟩, rest⟩
  · rintro ⟨⟨low, high⟩, rest⟩
    exact ⟨high, low, rest⟩

theorem Driver.card_linked_lt (d : Driver) : d.linked.card < 2 ^ 28 := by
  have all : d.linked ⊆ Finset.range 0x0FFFFFF8 := by
    intro c member
    have valid := (Driver.mem_linked.mp member).1
    simp only [isValidCluster, Bool.and_eq_true, decide_eq_true_eq] at valid
    exact Finset.mem_range.mpr valid.2
  have count := Finset.card_le_card all
  rw [Finset.card_range] at count
  omega

/-- Entries that are newly seen as 0 link nothing. -/
theorem Step.linked_subset (step : Step (fun _ z => z = 0) d d') : d'.linked ⊆ d.linked := by
  intro c member
  obtain ⟨valid, inTable, x, seen, nonzero⟩ := Driver.mem_linked.mp member
  rw [step.fs_eq] at inTable
  exact Driver.mem_linked.mpr
    ⟨valid, inTable, x, (step.sees c inTable x seen).resolve_right nonzero, nonzero⟩

/-- The loop of `fat32_free_cluster_chain`: each pass that goes on takes a number out of
`linked`, so the passes are enough. -/
theorem freeChainLoop_step {T : Nat → Prop} (passes : Nat) {c : Nat} (g : Geometry d.fs)
    (confined : Confined d T) (start : isValidCluster c = true → T c)
    (enough : d.linked.card < passes) :
    Runs (freeChainLoop passes c) d fun _ d' => Step (fun _ z => z = 0) d d' := by
  induction passes generalizing d c with
  | zero => omega
  | succ passes ih =>
      rw [freeChainLoop]
      by_cases valid : isValidCluster c = true
      · rw [if_pos valid]
        have member := start valid
        refine Runs.bind (nextCluster_still g (confined.inTable c member)) ?_
        rintro next d₁ ⟨still, read⟩
        have first : Step (fun _ z => z = 0) d d₁ := still.mono fun _ _ no => no.elim
        have confined₁ := confined.still still
        refine Runs.bind (setFatEntry_step (still.geometry g) (confined₁.inTable c member) 0) ?_
        rintro r d₂ ⟨step, cleared⟩
        have second := first.trans (step.mono fun _ _ both => both.2)
        by_cases success : r = 0
        · rw [if_pos success]
          by_cases last : (isEndOfChain next || next == 0) = true
          · rw [if_pos last]
            exact Runs.pure second
          · rw [if_neg last]
            have nonzero : next ≠ 0 := by
              rintro rfl
              exact last (by simp)
            have seen : d.Sees c next := read.resolve_left nonzero
            have gone : c ∉ d₂.linked := by
              intro still
              obtain ⟨-, -, x, sees, other⟩ := Driver.mem_linked.mp still
              exact other (cleared success x sees)
            have fewer : d₂.linked ⊂ d.linked := by
              refine Finset.ssubset_iff_of_subset second.linked_subset |>.mpr ⟨c, ?_, gone⟩
              exact Driver.mem_linked.mpr ⟨valid, confined.inTable c member, next, seen, nonzero⟩
            have less := Finset.card_lt_card fewer
            refine Runs.mono (ih (second.geometry g) ?_ ?_ (by omega)) ?_
            · refine confined.step second ?_
              rintro y - x rfl no
              simp [isValidCluster] at no
            · exact fun valid' => confined.sees c member next seen valid'
            · exact fun _ d' rest => second.trans rest
        · rw [if_neg success]
          exact Runs.pure second
      · rw [if_neg valid]
        exact Runs.pure (Step.refl _ d)

theorem freeClusterChain_step {T : Nat → Prop} {c : Nat} (g : Geometry d.fs)
    (confined : Confined d T) (start : isValidCluster c = true → T c) :
    Runs (freeClusterChain c) d fun _ d' => Step (fun _ z => z = 0) d d' :=
  freeChainLoop_step (2 ^ 28) g confined start d.card_linked_lt

theorem giveUp_inside {T : Nat → Prop} {c : Nat} (g : Geometry d.fs) (confined : Confined d T)
    (start : isValidCluster c = true → T c) :
    Runs (giveUp c) d fun _ d' => Inside d d' :=
  Runs.bind (freeClusterChain_step g confined start) fun _ _ step => Runs.pure step.inside

end Free

/-! ## Allocating a chain -/

section Allocate

variable {d : Driver}

theorem findFreeFrom_still (n c : Nat) (g : Geometry d.fs) (low : 2 ≤ c)
    (high : c + n ≤ d.fs.totalClusters + 2) :
    Runs (findFreeFrom c n) d fun r d' => Still d d' ∧ ∀ x, r = some x → d.fs.InRange x := by
  induction n generalizing d c with
  | zero => exact Runs.pure ⟨Step.refl _ d, fun _ no => by cases no⟩
  | succ n ih =>
      have range : d.fs.InRange c := ⟨low, by omega⟩
      rw [findFreeFrom]
      refine Runs.bind (nextCluster_still g (g.inTable range)) ?_
      rintro next d₁ ⟨still, -⟩
      by_cases free : next = 0
      · rw [if_pos free]
        refine Runs.pure ⟨still, fun x found => ?_⟩
        cases found
        exact range
      · rw [if_neg free]
        refine Runs.mono (ih (c + 1) (still.geometry g) (by omega)
          (by rw [still.fs_eq]; omega)) ?_
        rintro r d' ⟨later, found⟩
        refine ⟨still.trans later, fun x reported => ?_⟩
        rw [← still.fs_eq]
        exact found x reported

/-- What `fat32_find_free_cluster` finds is a cluster of the volume. -/
theorem findFreeCluster_still (g : Geometry d.fs) :
    Runs findFreeCluster d fun r d' => Still d d' ∧ ∀ x, r = some x → d.fs.InRange x := by
  have small := g.range_lt_end
  refine Runs.get_bind (findFreeFrom_still _ 2 g le_rfl ?_)
  omega

/-- The loop variables of `fat32_allocate_cluster_chain`: the clusters taken so far lead to
each other, but for the last, whose entry is not set yet. -/
structure Chaining (d : Driver) (T : Nat → Prop) (first prev : Nat) : Prop where
  range : ∀ c, T c → d.fs.InRange c
  head : first ≠ 0 → T first
  last : prev ≠ 0 → T prev
  sees : ∀ c, T c → c ≠ prev → ∀ x, d.Sees c x → isValidCluster x = true → T x

theorem Chaining.still {d' : Driver} {T : Nat → Prop} {first prev : Nat} (g : Geometry d.fs)
    (chaining : Chaining d T first prev) (still : Still d d') : Chaining d' T first prev := by
  refine ⟨fun c member => ?_, chaining.head, chaining.last, fun c member other x seen valid => ?_⟩
  · rw [still.fs_eq]
    exact chaining.range c member
  · have earlier := (still.sees c (g.inTable (chaining.range c member)) x seen).resolve_right id
    exact chaining.sees c member other x earlier valid

/-- Linking the last cluster, if there is one: after a success the clusters lead to each other
and to the new value. -/
theorem linkPrevious_inside {T : Nat → Prop} {first prev : Nat} (g : Geometry d.fs)
    (chaining : Chaining d T first prev) (value : Nat) :
    Runs (linkPrevious prev value) d fun ok d' => Inside d d' ∧
      (ok = true → ∀ c, T c → ∀ x, d'.Sees c x → isValidCluster x = true →
        T x ∨ x = value % 2 ^ 28) := by
  rw [linkPrevious]
  by_cases none : prev = 0
  · rw [if_pos none]
    refine Runs.pure ⟨Inside.refl d, fun _ c member x seen valid => .inl ?_⟩
    have other : c ≠ prev := by
      rintro rfl
      have := (chaining.range _ member).1
      omega
    exact chaining.sees c member other x seen valid
  · rw [if_neg none]
    have inTable := fun c member => g.inTable (chaining.range c member)
    refine Runs.bind (setFatEntry_step g (inTable prev (chaining.last none)) value) ?_
    rintro r d' ⟨step, set⟩
    refine Runs.pure ⟨step.inside, fun success c member x seen valid => ?_⟩
    by_cases here : c = prev
    · subst here
      exact .inr (set (of_decide_eq_true success) x seen)
    · rcases step.sees c (inTable c member) x seen with earlier | ⟨same, -⟩
      · exact .inl (chaining.sees c member here x earlier valid)
      · exact absurd same here

theorem allocateLoop_inside {T : Nat → Prop} (n : Nat) {first prev : Nat} (g : Geometry d.fs)
    (chaining : Chaining d T first prev) :
    Runs (allocateLoop n first prev) d fun r d' => Inside d d' ∧ ∀ f p, r = some (f, p) →
      (∃ T', Chaining d' T' f p) ∧ (first ≠ 0 ∨ 0 < n → f ≠ 0) := by
  induction n generalizing d T first prev with
  | zero =>
      refine Runs.pure ⟨Inside.refl d, fun f p returned => ?_⟩
      cases returned
      exact ⟨⟨T, chaining⟩, fun started => started.resolve_right (by omega)⟩
  | succ n ih =>
      rw [allocateLoop]
      refine Runs.bind (findFreeCluster_still g) ?_
      rintro found d₁ ⟨still, taken⟩
      cases found with
      | none => exact Runs.pure ⟨still.inside, fun _ _ no => by cases no⟩
      | some cluster =>
          have range := taken cluster rfl
          refine Runs.bind
            (linkPrevious_inside (still.geometry g) (chaining.still g still) cluster) ?_
          rintro ok d₂ ⟨inside, links⟩
          have both := still.inside.trans inside
          cases ok with
          | false => exact Runs.pure ⟨both, fun _ _ no => by cases no⟩
          | true =>
              have small : cluster % 2 ^ 28 = cluster := Nat.mod_eq_of_lt (g.inTable range).1
              have next : Chaining d₂ (fun c => T c ∨ c = cluster)
                  (if first = 0 then cluster else first) cluster := by
                refine ⟨?_, ?_, fun _ => .inr rfl, ?_⟩
                · rintro c (member | rfl)
                  · rw [both.fs_eq]
                    exact chaining.range c member
                  · rw [both.fs_eq]
                    exact range
                · intro _
                  by_cases start : first = 0
                  · rw [if_pos start]
                    exact .inr rfl
                  · rw [if_neg start]
                    exact .inl (chaining.head start)
                · rintro c (member | rfl) other x seen valid
                  · have led := links rfl c member x seen valid
                    rwa [small] at led
                  · exact absurd rfl other
              refine Runs.mono (ih (by rw [both.fs_eq]; exact g) next) ?_
              rintro r d' ⟨later, chained⟩
              refine ⟨both.trans later, fun f p returned => ?_⟩
              obtain ⟨chain, started⟩ := chained f p returned
              refine ⟨chain, fun _ => started (.inl ?_)⟩
              have := range.1
              split <;> omega

/-- `fat32_allocate_cluster_chain`: the new chain stays within clusters of the volume. -/
theorem allocateClusterChain_inside (n : Nat) (g : Geometry d.fs) :
    Runs (allocateClusterChain n) d fun r d' => Inside d d' ∧ ∀ f, r = some f →
      ∃ T : Nat → Prop, (∀ c, T c → d.fs.InRange c) ∧ Confined d' T ∧ (f ≠ 0 → T f) ∧
        (0 < n → f ≠ 0) := by
  have none : Chaining d (fun _ => False) 0 0 :=
    ⟨fun _ no => no.elim, fun no => absurd rfl no, fun no => absurd rfl no, fun _ no => no.elim⟩
  rw [allocateClusterChain]
  refine Runs.bind (allocateLoop_inside n g none) ?_
  rintro linked d₁ ⟨inside, chained⟩
  cases linked with
  | none => exact Runs.pure ⟨inside, fun _ no => by cases no⟩
  | some pair =>
      obtain ⟨first, prev⟩ := pair
      obtain ⟨⟨T, chaining⟩, started⟩ := chained first prev rfl
      have g₁ : Geometry d₁.fs := by rw [inside.fs_eq]; exact g
      rw [finishChain]
      refine Runs.bind (linkPrevious_inside g₁ chaining 0x0FFFFFFF) ?_
      rintro ok d₂ ⟨closed, links⟩
      cases ok with
      | false => exact Runs.pure ⟨inside.trans closed, fun _ no => by cases no⟩
      | true =>
          refine Runs.pure ⟨inside.trans closed, fun f returned => ?_⟩
          cases returned
          refine ⟨T, fun c member => ?_, ⟨fun c member => ?_, fun c member x seen valid => ?_⟩,
            chaining.head, fun wanted => started (.inr wanted)⟩
          · rw [← inside.fs_eq]
            exact chaining.range c member
          · rw [closed.fs_eq]
            exact g₁.inTable (chaining.range c member)
          · rcases links rfl c member x seen valid with led | rfl
            · exact led
            · simp [isValidCluster] at valid

end Allocate

end XosKernel.Fat32
