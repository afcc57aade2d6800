/-
# Fat32.FailingTable -- table accesses when transfers fail

A lookup through the cache and an update of the table copies, transfer by transfer: which of
them are made, where they go, and what is left when one of them fails.  The table sits where
the record of the file system says, wrapped to 32 bits by the driver and to 28 by the drive;
no geometry is assumed.

`fat32_set_fat_entry` writes one copy after the other and the cached sector last, and gives up
at the first transfer that fails.  When the sector is cached and its own copy was written
before that, the cache keeps the old entry (`failed_update_coherent_iff`).
-/
import XosKernel.Fat32.Calls
import XosKernel.Fat32.Confined

namespace XosKernel.Fat32

open XosKernel.Theory

set_option autoImplicit false

/-- A transfer that fails moves no sector. -/
def Ata.Clean (a : Ata) : Prop := ∀ n k, a.fault n = some k → k = 0

/-- The byte in its sector at which an entry starts. -/
def entryOffset (c : Nat) : Nat := c * 4 % 2 ^ 32 % 512

theorem le_entryOffset_congr {b b' : Buf} (c : Nat) (same : ∀ o, o < 512 → b o = b' o) :
    b.le (entryOffset c) 4 = b'.le (entryOffset c) 4 := by
  have inside : entryOffset c + 4 ≤ 512 := by
    unfold entryOffset
    omega
  exact Buf.le_congr fun i _ _ => same i (by omega)

/-- `abs_sector` of `fat32_set_fat_entry` for table copy `k`. -/
def Fs.copySector (fs : Fs) (k c : Nat) : Nat :=
  (fs.fatStart + k * fs.sectorsPerFat + c * 4 % 2 ^ 32 / 512) % 2 ^ 32

/-- `fat_sector` of `fat32_next_cluster`. -/
def Fs.lookupSector (fs : Fs) (c : Nat) : Nat :=
  (fs.fatStart + c * 4 % 2 ^ 32 / 512) % 2 ^ 32

/-- What the disk holds where `fat32_next_cluster` looks for the entry of `c`. -/
def Driver.stored (d : Driver) (c : Nat) : Nat :=
  (d.sector (lba28 (d.fs.lookupSector c))).le (entryOffset c) 4 % 2 ^ 28

/-- The cached sector belongs to the first table copy. -/
def Driver.Caches (d : Driver) : Prop :=
  d.fs.fatStart ≤ d.fatCacheSector ∧ d.fatCacheSector < d.fs.fatStart + d.fs.sectorsPerFat

instance (d : Driver) : Decidable d.Caches := inferInstanceAs (Decidable (_ ∧ _))

/-- A cached sector of the first table copy is what the disk holds. -/
def Driver.CacheTrue (d : Driver) : Prop :=
  d.Caches → ∀ o, o < 512 → d.fatSectorCache o = d.sector (lba28 d.fatCacheSector) o

/-! ## Lookups -/

/-- From `d` to `d'` the sector `l` was read into the cache. -/
structure Fetched (d d' : Driver) (l : Nat) : Prop where
  frame : ∃ cache, d' = { d with
    ata := { d.ata with transfers := d.ata.transfers + 1 }
    fatSectorCache := cache
    fatCacheSector := l }
  loaded : ∀ o, o < 512 → d'.fatSectorCache o = d.sector (lba28 l) o

section Lookup

variable {d : Driver} {c : Nat}

theorem nextCluster_cached (cached : d.fs.lookupSector c = d.fatCacheSector) :
    (nextCluster c).run d =
      .ok (d.fatSectorCache.le (entryOffset c) 4 % 2 ^ 28, d) := by
  have load : (loadFatSector (d.fs.lookupSector c)).run d = .ok (true, d) := by
    simp only [loadFatSector]
    rw [run_bind_of_ok (show (get : FatM Driver).run d = .ok (d, d) from rfl), if_pos cached]
    rfl
  simp only [nextCluster]
  rw [run_bind_of_ok (show (get : FatM Driver).run d = .ok (d, d) from rfl)]
  exact run_bind_of_ok load

theorem nextCluster_fails (absent : d.fs.lookupSector c ≠ d.fatCacheSector) {k : Nat}
    (fails : d.ata.fault d.ata.transfers = some k) :
    (nextCluster c).run d = .ok (0, d.ticked) := by
  have nothing : d.fatSectorCache.blit 0 (min k (1 - 1) * 512) (d.ata.stream
      (diskToAta d.fs.disk).1 (diskToAta d.fs.disk).2 (d.fs.lookupSector c)) =
      d.fatSectorCache := by
    funext i
    exact Buf.blit_of_outside (by omega)
  have read := ataReadSectors_failed fails d.fs.disk (d.fs.lookupSector c) 1 d.fatSectorCache
  rw [nothing] at read
  have load : (loadFatSector (d.fs.lookupSector c)).run d = .ok (false, d.ticked) := by
    simp only [loadFatSector]
    rw [run_bind_of_ok (show (get : FatM Driver).run d = .ok (d, d) from rfl), if_neg absent,
      run_bind_of_ok read]
    rfl
  simp only [nextCluster]
  rw [run_bind_of_ok (show (get : FatM Driver).run d = .ok (d, d) from rfl)]
  exact run_bind_of_ok load

theorem nextCluster_reads (absent : d.fs.lookupSector c ≠ d.fatCacheSector)
    (works : d.ata.fault d.ata.transfers = none) :
    Runs (nextCluster c) d fun r d' => r = d.stored c ∧ Fetched d d' (d.fs.lookupSector c) := by
  have load : Runs (loadFatSector (d.fs.lookupSector c)) d fun ok d' =>
      ok = true ∧ Fetched d d' (d.fs.lookupSector c) := by
    simp only [loadFatSector]
    refine Runs.get_bind ?_
    rw [if_neg absent]
    refine Runs.step (ataReadSectors_ok works _ _ _ _) (Runs.modify_bind ?_)
    rw [if_pos (by rfl)]
    refine Runs.modify_bind (Runs.pure ⟨rfl, ⟨_, rfl⟩, fun o inside => ?_⟩)
    exact d.sector_read (d.fs.lookupSector c) d.fatSectorCache inside
  simp only [nextCluster]
  refine Runs.get_bind (Runs.bind load ?_)
  rintro _ d' ⟨rfl, fetched⟩
  refine Runs.get_bind (Runs.pure ⟨?_, fetched⟩)
  exact congrArg (· % 2 ^ 28) (le_entryOffset_congr c fetched.loaded)

/-- A lookup of an entry in the first copy returns what the disk holds, if the cache does and
no read fails. -/
theorem nextCluster_stored (true_ : d.CacheTrue)
    (first : d.fs.fatStart ≤ d.fs.lookupSector c)
    (last : d.fs.lookupSector c < d.fs.fatStart + d.fs.sectorsPerFat)
    (works : d.fs.lookupSector c = d.fatCacheSector ∨ d.ata.fault d.ata.transfers = none) :
    Runs (nextCluster c) d fun r _ => r = d.stored c := by
  by_cases cached : d.fs.lookupSector c = d.fatCacheSector
  · refine ⟨_, d, nextCluster_cached cached, ?_⟩
    have same := true_ ⟨by omega, by omega⟩
    rw [Driver.stored, cached, le_entryOffset_congr c same]
  · exact (nextCluster_reads cached (works.resolve_left cached)).mono fun _ _ both => both.1

end Lookup

/-! ## Updates -/

/-- What `fat32_set_fat_entry` leaves of a run over `copies` copies from number `fat` on, of
which it wrote `done`: the transfers up to there worked, and the next one or the one after it
failed unless these are all. -/
structure Updated (d d' : Driver) (c x fat copies done : Nat) : Prop where
  done_le : done ≤ copies
  worked : ∀ n < 2 * done, d.ata.fault (d.ata.transfers + n) = none
  failed : done < copies → d.ata.fault (d.ata.transfers + 2 * done) ≠ none ∨
    d.ata.fault (d.ata.transfers + 2 * done + 1) ≠ none
  finished : done = copies → d'.ata.transfers = d.ata.transfers + 2 * copies
  rewrote : Rewrote d d' (fun l => ∃ i < done, l = lba28 (d.fs.copySector (fat + i) c))
    (entryOffset c) x

theorem Ata.store_zero (a : Ata) (channel : Channel) (drive : DriveSelect) (lba : Nat)
    (buffer : Buf) : a.store channel drive lba 0 buffer = a.media := by
  funext c d l
  rw [Ata.store, if_neg (by omega)]

theorem Updated.zero {d d' : Driver} (c x fat copies : Nat)
    (failed : 0 < copies → d.ata.fault d.ata.transfers ≠ none ∨
      d.ata.fault (d.ata.transfers + 1) ≠ none)
    (finished : 0 = copies → d'.ata.transfers = d.ata.transfers)
    (frame : ∃ t w, d' = { d with ata := { d.ata with transfers := t, writes := w } }) :
    Updated d d' c x fat copies 0 where
  done_le := Nat.zero_le _
  worked := fun n none => absurd none (Nat.not_lt_zero n)
  failed := failed
  finished := fun same => by rw [finished same, ← same, Nat.mul_zero, Nat.add_zero]
  rewrote := by
    obtain ⟨t, w, rfl⟩ := frame
    exact ⟨⟨d.ata.media, t, w, rfl⟩, fun l ⟨_, below, _⟩ => absurd below (Nat.not_lt_zero _),
      fun _ _ => rfl⟩

/-- A copy that is written is followed by the rest of the loop. -/
theorem Updated.succ {d d₁ d' : Driver} {c x fat copies done : Nat}
    (works : d.ata.fault d.ata.transfers = none)
    (works' : d.ata.fault (d.ata.transfers + 1) = none)
    (first : Rewrote d d₁ (fun l => l = lba28 (d.fs.copySector fat c)) (entryOffset c) x)
    (later : d₁.ata.transfers = d.ata.transfers + 2)
    (rest : Updated d₁ d' c x (fat + 1) copies done) :
    Updated d d' c x fat (copies + 1) (done + 1) where
  done_le := Nat.succ_le_succ rest.done_le
  worked := by
    intro n below
    obtain ⟨_, _, _, rfl⟩ := first.frame
    rcases n with _ | _ | n
    · exact works
    · exact works'
    · have there := rest.worked n (by omega)
      rw [later] at there
      rw [← there]
      exact congrArg d.ata.fault (by omega)
  failed := by
    intro below
    have there := rest.failed (by omega)
    obtain ⟨_, _, _, rfl⟩ := first.frame
    rw [later] at there
    have even : d.ata.transfers + 2 * (done + 1) = d.ata.transfers + 2 + 2 * done := by omega
    rw [even]
    exact there
  finished := by
    intro all
    rw [rest.finished (by omega), later]
    omega
  rewrote := by
    have fs_eq := first.fs_eq
    have hits := rest.rewrote.hits
    have others := rest.rewrote.others
    rw [fs_eq] at hits others
    refine ⟨?_, ?_, ?_⟩
    · obtain ⟨_, _, _, rfl⟩ := first.frame
      obtain ⟨media, t, w, is⟩ := rest.rewrote.frame
      exact ⟨media, t, w, is⟩
    · rintro l ⟨i, below, rfl⟩ o inside
      by_cases again : ∃ i' < done, lba28 (d.fs.copySector (fat + i) c) =
          lba28 (d.fs.copySector (fat + 1 + i') c)
      · rw [hits _ again o inside]
        by_cases same : lba28 (d.fs.copySector (fat + i) c) = lba28 (d.fs.copySector fat c)
        · -- the sector of a copy that was written before: the same bytes are put again
          have before := first.hits _ same o inside
          simp only [Buf.putLe] at before ⊢
          split
          · rfl
          · next outside => rwa [if_neg outside] at before
        · exact putLe_congr_at (congrFun (first.others _ same) o)
      · rw [others _ again]
        have zero : i = 0 := by
          by_contra positive
          exact again ⟨i - 1, by omega, by rw [show fat + 1 + (i - 1) = fat + i by omega]⟩
        exact first.hits _ (by rw [zero, Nat.add_zero]) o inside
    · intro l miss
      have missed : ¬ ∃ i < done, l = lba28 (d.fs.copySector (fat + 1 + i) c) := by
        rintro ⟨i, below, same⟩
        refine miss ⟨i + 1, by omega, ?_⟩
        rw [same, show fat + 1 + i = fat + (i + 1) by omega]
      rw [others l missed]
      exact first.others l fun same => miss ⟨0, by omega, same⟩

/-- The loop over the copies, with failing transfers. -/
theorem setFatCopies_updates {c x : Nat} : ∀ (copies fat : Nat) (d : Driver), d.ata.Clean →
    Runs (setFatCopies (c * 4 % 2 ^ 32 / 512) (entryOffset c) x fat copies) d fun ok d' =>
      ∃ done, Updated d d' c x fat copies done ∧ (ok = true ↔ done = copies)
  | 0, fat, d, _ => by
      refine Runs.pure ⟨0, Updated.zero c x fat 0 (fun none => absurd none (Nat.lt_irrefl 0))
        (fun _ => rfl) ⟨d.ata.transfers, d.ata.writes, rfl⟩, ?_⟩
      simp
  | copies + 1, fat, d, clean => by
      simp only [setFatCopies]
      refine Runs.get_bind ?_
      cases read : d.ata.fault d.ata.transfers with
      | some k =>
          refine Runs.step (ataReadSectors_failed read _ _ _ _) ?_
          rw [if_neg (show ¬ (-1 : Int) = 1 by decide)]
          refine Runs.pure ⟨0, Updated.zero c x fat (copies + 1) (fun _ => .inl ?_)
            (fun no => by omega) ⟨_, _, rfl⟩, ?_⟩
          · rw [read]
            exact Option.some_ne_none k
          · simp
      | none =>
          refine Runs.step (ataReadSectors_ok read _ _ _ _) ?_
          rw [if_pos (by rfl)]
          cases write : d.ata.fault (d.ata.transfers + 1) with
          | some k =>
              obtain rfl := clean _ k write
              have failed := ataWriteSectors_failed (d := d.ticked) write .table d.fs.disk
                (d.fs.copySector fat c) 1
              simp only [Nat.zero_min, Ata.store_zero] at failed
              refine Runs.step (failed _) ?_
              rw [if_neg (show ¬ (-1 : Int) = 1 by decide)]
              refine Runs.pure ⟨0, Updated.zero c x fat (copies + 1) (fun _ => .inr ?_)
                (fun no => by omega) ⟨_, _, rfl⟩, ?_⟩
              · rw [write]
                exact Option.some_ne_none 0
              · simp
          | none =>
              refine Runs.step (ataWriteSectors_ok (d := d.ticked) write _ _ _ _ _) ?_
              rw [if_pos (by rfl)]
              have first := rewrote_one (d.fs.copySector fat c) (entryOffset c) x
                (d.ata.transfers + 2) _ fun _ inside => d.sector_read _ (fun _ => 0) inside
              refine Runs.mono (setFatCopies_updates copies (fat + 1) _ clean) ?_
              rintro ok d' ⟨done, rest, all⟩
              exact ⟨done + 1, Updated.succ read write first rfl rest, by rw [all]; omega⟩

/-- `fat32_set_fat_entry`: the copies, and the cache if all of them were written. -/
theorem setFatEntry_updates (d : Driver) (clean : d.ata.Clean) (c x : Nat) :
    Runs (setFatEntry c x) d fun r d' => ∃ done d₁, Updated d d₁ c x 0 d.fs.numFats done ∧
      (r = 0 ∧ done = d.fs.numFats ∧ d' = (if d₁.fatCacheSector = d.fs.lookupSector c then
          { d₁ with fatSectorCache := d₁.fatSectorCache.putLe (entryOffset c) 4 x }
        else d₁) ∨
      r = -1 ∧ done < d.fs.numFats ∧ d' = d₁) := by
  simp only [setFatEntry]
  refine Runs.get_bind (Runs.bind (setFatCopies_updates d.fs.numFats 0 d clean) ?_)
  rintro ok d₁ ⟨done, updated, all⟩
  cases ok with
  | true =>
      rw [if_pos rfl]
      refine Runs.modify_bind (Runs.pure ⟨done, d₁, updated, .inl ⟨rfl, all.mp rfl, ?_⟩⟩)
      rw [updated.rewrote.fs_eq]
      rfl
  | false =>
      have fewer : done ≠ d.fs.numFats := fun same => absurd (all.mpr same) Bool.false_ne_true
      have bound := updated.done_le
      exact Runs.pure ⟨done, d₁, updated, .inr ⟨rfl, by omega, rfl⟩⟩

/-- A copy that lies where the cached sector does is written before a transfer fails. -/
def Driver.OverwritesCached (d : Driver) (c : Nat) : Prop :=
  ∃ k < d.fs.numFats, (∀ n < 2 * (k + 1), d.ata.fault (d.ata.transfers + n) = none) ∧
    lba28 (d.fs.copySector k c) = lba28 d.fatCacheSector

theorem Updated.overwrites_iff {d d' : Driver} {c x done : Nat}
    (updated : Updated d d' c x 0 d.fs.numFats done) :
    (∃ i < done, lba28 d.fatCacheSector = lba28 (d.fs.copySector (0 + i) c)) ↔
      d.OverwritesCached c := by
  have bound := updated.done_le
  constructor
  · rintro ⟨i, below, same⟩
    rw [Nat.zero_add] at same
    exact ⟨i, by omega, fun n before => updated.worked n (by omega), same.symm⟩
  · rintro ⟨k, copy, worked, same⟩
    refine ⟨k, ?_, by rw [Nat.zero_add]; exact same.symm⟩
    by_contra late
    rcases updated.failed (by omega) with fault | fault
    · exact fault (worked (2 * done) (by omega))
    · exact fault (worked (2 * done + 1) (by omega))

/-- What the disk holds where the sector was cached differs from the value. -/
def Driver.CachedDiffers (d : Driver) (c x : Nat) : Prop :=
  (d.sector (lba28 d.fatCacheSector)).le (entryOffset c) 4 ≠ x % 2 ^ 32

/-- After an update that failed, the cache is true unless a copy over the cached sector got a
new value. -/
theorem Updated.cacheTrue_iff {d d' : Driver} {c x done : Nat} (coherent : d.CacheTrue)
    (updated : Updated d d' c x 0 d.fs.numFats done) :
    d'.CacheTrue ↔ ¬ (d.Caches ∧ d.OverwritesCached c ∧ d.CachedDiffers c x) := by
  have hits := updated.rewrote.hits (lba28 d.fatCacheSector)
  have others := updated.rewrote.others (lba28 d.fatCacheSector)
  rw [updated.overwrites_iff] at hits others
  have same : (d'.Caches ↔ d.Caches) ∧ d'.fatSectorCache = d.fatSectorCache ∧
      d'.fatCacheSector = d.fatCacheSector := by
    obtain ⟨_, _, _, rfl⟩ := updated.rewrote.frame
    exact ⟨Iff.rfl, rfl, rfl⟩
  rw [Driver.CacheTrue, same.1, same.2.1, same.2.2]
  constructor
  · rintro still ⟨caches, overwrites, differs⟩
    -- the cache holds the entry of before, the disk the new one
    have old := coherent caches
    have new : (d'.sector (lba28 d.fatCacheSector)).le (entryOffset c) 4 = x % 2 ^ 32 := by
      rw [le_entryOffset_congr c (hits overwrites), Buf.le_putLe, show 256 ^ 4 = 2 ^ 32 by decide]
    apply differs
    rw [← new, ← le_entryOffset_congr c (still caches), le_entryOffset_congr c old]
  · intro fine caches o inside
    rw [coherent caches o inside]
    by_cases overwrites : d.OverwritesCached c
    · have equal : (d.sector (lba28 d.fatCacheSector)).le (entryOffset c) 4 = x % 256 ^ 4 := by
        by_contra differs
        exact fine ⟨caches, overwrites, differs⟩
      rw [hits overwrites o inside, Buf.putLe_of_le_eq equal]
    · rw [others overwrites]

/-- For every state with a true cache, every entry and value, and every pattern of failing
transfers: when `fat32_set_fat_entry` returns -1, the cached sector is still what the first
table copy holds on disk, and lookups return what the disk holds, if and only if no copy over
the cached sector was given a new value before the transfer that failed. -/
theorem failed_update_coherent_iff (d : Driver) (clean : d.ata.Clean) (coherent : d.CacheTrue)
    (c x : Nat) :
    Runs (setFatEntry c x) d fun r d' => r = -1 →
      ((d'.CacheTrue ∧
        ∀ y, d'.fs.fatStart ≤ d'.fs.lookupSector y →
          d'.fs.lookupSector y < d'.fs.fatStart + d'.fs.sectorsPerFat →
          (d'.fs.lookupSector y = d'.fatCacheSector ∨
            d'.ata.fault d'.ata.transfers = none) →
          Runs (nextCluster y) d' fun s _ => s = d'.stored y) ↔
        ¬ (d.Caches ∧ d.OverwritesCached c ∧ d.CachedDiffers c x)) := by
  refine Runs.mono (setFatEntry_updates d clean c x) ?_
  rintro r d' ⟨done, d₁, updated, ⟨rfl, -, -⟩ | ⟨rfl, -, rfl⟩⟩ failed
  · cases failed
  · rw [← updated.cacheTrue_iff coherent]
    exact ⟨fun both => both.1, fun still =>
      ⟨still, fun y first last works => nextCluster_stored still first last works⟩⟩

/-- Two tables of one sector, the first of them cached, and a drive that fails the read of the
second copy. -/
def secondCopyFails : Driver :=
  { formatted with
    ata := { formatted.ata with fault := fun n => if n = 2 then some 0 else none }
    fs := { formatted.fs with numFats := 2, dataStart := 3 }
    fatSectorCache := Buf.putLe (fun _ => 0) 8 4 0x0FFFFFFF
    fatCacheSector := 1 }

theorem secondCopyFails_cacheTrue : secondCopyFails.CacheTrue := fun _ _ _ => rfl

theorem secondCopyFails_clean : secondCopyFails.ata.Clean := by
  intro n k fails
  change (if n = 2 then some 0 else none) = some k at fails
  split at fails
  · cases fails
    rfl
  · cases fails

/-- The entry of cluster 3 is set on disk, and the cache goes on saying that it is free. -/
theorem second_copy_leaves_stale :
    ¬ ∀ (d : Driver), d.ata.Clean → d.CacheTrue → ∀ c x,
      Runs (setFatEntry c x) d fun r d' => r = -1 → d'.CacheTrue := by
  intro all
  have runs := all secondCopyFails secondCopyFails_clean secondCopyFails_cacheTrue 3 0x0FFFFFFF
  have failed : Runs (setFatEntry 3 0x0FFFFFFF) secondCopyFails fun r d' =>
      (decide (r = -1) && decide (d'.fatSectorCache 12 ≠ d'.sector 1 12) &&
        decide (d'.fatCacheSector = 1) && decide (d'.fs.fatStart = 1) &&
        decide (d'.fs.sectorsPerFat = 1)) = true :=
    Runs.of_check (by decide +kernel)
  obtain ⟨r, d', ran, holds⟩ := failed
  simp only [Bool.and_eq_true, decide_eq_true_eq] at holds
  obtain ⟨⟨⟨⟨minus, stale⟩, tag⟩, start⟩, size⟩ := holds
  have still := runs.of_returned ran minus
  have same := still ⟨by omega, by omega⟩ 12 (by decide)
  rw [tag] at same
  exact stale same

/-- The same volume with nothing cached. -/
def secondCopyUncached : Driver := { secondCopyFails with fatCacheSector := 0xFFFFFFFF }

/-- The same volume, on a drive that fails the read of the first copy. -/
def firstCopyFails : Driver :=
  { secondCopyFails with
    ata := { formatted.ata with fault := fun n => if n = 0 then some 0 else none } }

theorem firstCopyFails_clean : firstCopyFails.ata.Clean := by
  intro n k fails
  change (if n = 0 then some 0 else none) = some k at fails
  split at fails
  · cases fails
    rfl
  · cases fails

/-- The failure does no harm to a cache of something else, nor before a copy is written. -/
theorem failures_spare_cache :
    (Runs (setFatEntry 3 0x0FFFFFFF) secondCopyUncached fun r d' => r = -1 ∧ d'.CacheTrue) ∧
      Runs (setFatEntry 3 0x0FFFFFFF) firstCopyFails fun r d' =>
        r = -1 ∧ d'.CacheTrue ∧ Runs (nextCluster 2) d' fun s _ => s = d'.stored 2 := by
  constructor
  · have uncached : ¬ secondCopyUncached.Caches := by decide
    have fails : Runs (setFatEntry 3 0x0FFFFFFF) secondCopyUncached fun r _ =>
        decide (r = -1) = true := Runs.of_check (by decide +kernel)
    obtain ⟨r, d', ran, minus⟩ := fails
    have holds := (failed_update_coherent_iff secondCopyUncached secondCopyFails_clean
      (fun caches => absurd caches uncached) 3 0x0FFFFFFF).of_returned ran (of_decide_eq_true minus)
    exact ⟨r, d', ran, of_decide_eq_true minus, (holds.mpr fun both => uncached both.1).1⟩
  · have untouched : ¬ firstCopyFails.OverwritesCached 3 := by
      rintro ⟨k, -, worked, -⟩
      cases worked 0 (by omega)
    have fails : Runs (setFatEntry 3 0x0FFFFFFF) firstCopyFails fun r d' =>
        (decide (r = -1) && decide (d'.fs.fatStart ≤ d'.fs.lookupSector 2) &&
          decide (d'.fs.lookupSector 2 < d'.fs.fatStart + d'.fs.sectorsPerFat) &&
          decide (d'.fs.lookupSector 2 = d'.fatCacheSector)) = true :=
      Runs.of_check (by decide +kernel)
    obtain ⟨r, d', ran, found⟩ := fails
    simp only [Bool.and_eq_true, decide_eq_true_eq] at found
    obtain ⟨⟨⟨minus, first⟩, last⟩, cached⟩ := found
    have holds := (failed_update_coherent_iff firstCopyFails firstCopyFails_clean
      (fun _ _ _ => rfl) 3 0x0FFFFFFF).of_returned ran minus
    obtain ⟨coherent, lookups⟩ := holds.mpr fun all => untouched all.2.1
    exact ⟨r, d', ran, minus, coherent, lookups 2 first last (.inl cached)⟩

end XosKernel.Fat32
