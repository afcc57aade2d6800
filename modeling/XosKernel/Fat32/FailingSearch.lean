/-
# Fat32.FailingSearch -- the search for a free cluster when table sectors cannot be read

`fat32_next_cluster` answers 0 when a table sector cannot be read, and 0 is the entry of a free
cluster.  The search walks the table sector by sector, so what it returns is the first cluster
whose entry is 0 or at which a sector has to be brought in and cannot be
(`findFreeCluster_finds`).  Nothing is assumed about which transfers fail, nor about what the
table and the cache hold.

An allocation is a run of searches and links (`Searches`).
-/
import XosKernel.Fat32.FailingTable

namespace XosKernel.Fat32

open XosKernel.Theory

set_option autoImplicit false

/-! ## One sector after the other -/

/-- The sector with the entry of cluster 2 is cached. -/
def Driver.Primed (d : Driver) : Prop := d.fatCacheSector = d.fs.entrySector 2

instance (d : Driver) : Decidable d.Primed := inferInstanceAs (Decidable (_ = _))

/-- The entry of `c` as the search finds it if it can read its sector: from the sector that is
cached at the start, from the disk otherwise. -/
def Driver.shown (d : Driver) (c : Nat) : Nat :=
  if d.Primed ∧ c < 128 then entryIn d.fatSectorCache c else d.entry c

/-- The search brings in a sector for `c`, because `c` is the first cluster of its sector. -/
def Driver.BringsIn (d : Driver) (c : Nat) : Prop := (c = 2 ∧ ¬ d.Primed) ∨ c % 128 = 0

/-- The number of the transfer that brings in the sector of `c`. -/
def Driver.bringing (d : Driver) (c : Nat) : Nat :=
  d.ata.transfers + c / 128 - (if d.Primed then 1 else 0)

/-- The sector of `c` cannot be brought in. -/
def Driver.Unreadable (d : Driver) (c : Nat) : Prop :=
  d.BringsIn c ∧ d.ata.fault (d.bringing c) ≠ none

/-- The search takes `c` for free. -/
def Driver.LooksFree (d : Driver) (c : Nat) : Prop := d.Unreadable c ∨ d.shown c = 0

instance (d : Driver) (c : Nat) : Decidable (d.BringsIn c) := inferInstanceAs (Decidable (_ ∨ _))

instance (d : Driver) (c : Nat) : Decidable (d.Unreadable c) := inferInstanceAs (Decidable (_ ∧ _))

instance (d : Driver) (c : Nat) : Decidable (d.LooksFree c) := inferInstanceAs (Decidable (_ ∨ _))

section Places

variable {fs : Fs} (g : Geometry fs) {c : Nat} (inTable : fs.InTable c)
include g inTable

theorem Geometry.lookupSector_eq : fs.lookupSector c = fs.entrySector c := by
  have offset : c * 4 % 2 ^ 32 = c * 4 := Nat.mod_eq_of_lt (by have := inTable.1; omega)
  rw [Fs.lookupSector, offset]
  exact (g.table0_sector inTable.2).1

omit g in
theorem entryOffset_eq : entryOffset c = c * 4 % 512 := by
  have offset : c * 4 % 2 ^ 32 = c * 4 := Nat.mod_eq_of_lt (by have := inTable.1; omega)
  rw [entryOffset, offset]

end Places

theorem Driver.stored_eq {d : Driver} (g : Geometry d.fs) {c : Nat} (inTable : d.fs.InTable c) :
    d.stored c = d.entry c := by
  have small : lba28 (d.fs.entrySector c) = d.fs.entrySector c := (g.table0_sector inTable.2).2
  rw [Driver.stored, g.lookupSector_eq inTable, small, entryOffset_eq inTable]
  rfl

theorem Driver.vol_fat_eq {d : Driver} {c : Nat} (range : d.vol.InRange c) :
    d.vol.fat c = d.entry c := Driver.vol_fat d range.2

/-- From `d` to `d'` the clusters before `c` were looked up, all with success. -/
structure Searching (d d' : Driver) (c : Nat) : Prop where
  fs_eq : d'.fs = d.fs
  media : d'.ata.media = d.ata.media
  fault : d'.ata.fault = d.ata.fault
  start : c = 2 → d' = d
  cached : 2 < c → d'.fatCacheSector = d.fs.entrySector (c - 1)
  transfers : 2 < c →
    d'.ata.transfers = d.ata.transfers + (c - 1) / 128 + (if d.Primed then 0 else 1)
  entries : 2 < c → ∀ y, y / 128 = (c - 1) / 128 → entryIn d'.fatSectorCache y = d.shown y

theorem Searching.refl (d : Driver) : Searching d d 2 :=
  ⟨rfl, rfl, rfl, fun _ => rfl, fun no => by omega, fun no => by omega, fun no => by omega⟩

section Search

variable {d d' : Driver} {c : Nat}

/-- A sector is brought in where another one is cached. -/
theorem Searching.bringsIn_iff (low : 2 ≤ c) (searching : Searching d d' c) :
    d.BringsIn c ↔ d.fs.entrySector c ≠ d'.fatCacheSector := by
  by_cases first : c = 2
  · rw [searching.start first, first, Driver.BringsIn, Driver.Primed]
    simp [eq_comm]
  · rw [searching.cached (by omega), Driver.BringsIn, Fs.entrySector, Fs.entrySector]
    omega

/-- The transfers before it were one for each sector. -/
theorem Searching.transfers_eq (low : 2 ≤ c) (searching : Searching d d' c)
    (brings : d.BringsIn c) : d'.ata.transfers = d.bringing c := by
  unfold Driver.bringing
  by_cases first : c = 2
  · have cold : ¬ d.Primed := by
      rcases brings with ⟨-, cold⟩ | other
      · exact cold
      · omega
    rw [searching.start first, if_neg cold, first]
    omega
  · have block : c % 128 = 0 := by
      rcases brings with ⟨no, -⟩ | block
      · exact absurd no first
      · exact block
    rw [searching.transfers (by omega)]
    split
    · omega
    · omega

/-- A lookup that needs no transfer finds the entry as it is shown. -/
theorem Searching.entry_cached (low : 2 ≤ c) (searching : Searching d d' c)
    (held : ¬ d.BringsIn c) {y : Nat} (block : y / 128 = c / 128) :
    entryIn d'.fatSectorCache y = d.shown y := by
  rw [Driver.BringsIn, not_or, not_and, not_not] at held
  by_cases first : c = 2
  · rw [searching.start first, Driver.shown, if_pos ⟨held.1 first, by omega⟩]
  · exact searching.entries (by omega) y (by omega)

/-- A sector that is brought in shows the entries on disk. -/
theorem Driver.shown_of_bringsIn (low : 2 ≤ c) (brings : d.BringsIn c) {y : Nat}
    (block : y / 128 = c / 128) : d.shown y = d.entry y := by
  refine if_neg fun ⟨primed, early⟩ => ?_
  rcases brings with ⟨-, cold⟩ | late
  · exact cold primed
  · omega

theorem Searching.after_cached (low : 2 ≤ c) (searching : Searching d d' c)
    (held : ¬ d.BringsIn c) : Searching d d' (c + 1) where
  fs_eq := searching.fs_eq
  media := searching.media
  fault := searching.fault
  start := fun no => by omega
  cached := by
    intro _
    have same := not_not.mp fun other => held ((searching.bringsIn_iff low).mpr other)
    rw [Nat.add_sub_cancel]
    exact same.symm
  transfers := by
    intro _
    rw [Driver.BringsIn, not_or, not_and, not_not] at held
    rw [Nat.add_sub_cancel]
    by_cases first : c = 2
    · rw [searching.start first, if_pos (held.1 first), first]
      rfl
    · rw [searching.transfers (by omega)]
      omega
  entries := fun _ y block => searching.entry_cached low held (by rwa [Nat.add_sub_cancel] at block)

theorem Searching.after_read (low : 2 ≤ c) (searching : Searching d d' c) (brings : d.BringsIn c)
    {d'' : Driver} (fetched : Fetched d' d'' (d.fs.entrySector c))
    (small : lba28 (d.fs.entrySector c) = d.fs.entrySector c) : Searching d d'' (c + 1) := by
  have sector : d'.sector (d.fs.entrySector c) = d.sector (d.fs.entrySector c) := by
    rw [Driver.sector, Driver.sector, searching.fs_eq, searching.media]
  have loaded := fetched.loaded
  rw [small, sector] at loaded
  have number := searching.transfers_eq low brings
  have frame := fetched.frame
  have fs_eq := searching.fs_eq
  have media := searching.media
  have fault := searching.fault
  refine ⟨?_, ?_, ?_, fun no => by omega, fun _ => ?_, fun _ => ?_, fun _ y block => ?_⟩
  · obtain ⟨_, rfl⟩ := frame
    exact fs_eq
  · obtain ⟨_, rfl⟩ := frame
    exact media
  · obtain ⟨_, rfl⟩ := frame
    exact fault
  · obtain ⟨_, rfl⟩ := frame
    rw [Nat.add_sub_cancel]
  · obtain ⟨_, rfl⟩ := frame
    change d'.ata.transfers + 1 = _
    rw [number, Driver.bringing, Nat.add_sub_cancel]
    split
    · next primed =>
        have late : c % 128 = 0 := by
          rcases brings with ⟨-, cold⟩ | late
          · exact absurd primed cold
          · exact late
        omega
    · omega
  · rw [Nat.add_sub_cancel] at block
    have same : d.fs.entrySector y = d.fs.entrySector c := by
      rw [Fs.entrySector, Fs.entrySector]
      omega
    rw [d.shown_of_bringsIn low brings block, Driver.entry, same]
    exact entryIn_congr loaded

/-- One lookup of the search. -/
theorem Searching.lookup (g : Geometry d.fs) (range : d.vol.InRange c)
    (searching : Searching d d' c) :
    Runs (nextCluster c) d' fun r d'' => (r = 0 ↔ d.LooksFree c) ∧
      (¬ d.Unreadable c → Searching d d'' (c + 1)) ∧ (d.Unreadable c → d'' = d'.ticked) := by
  have low := range.1
  have inTable : d.fs.InTable c := g.inTable range
  have g' : Geometry d'.fs := by
    rw [searching.fs_eq]
    exact g
  have inTable' : d'.fs.InTable c := by
    rw [searching.fs_eq]
    exact inTable
  have place : d'.fs.lookupSector c = d.fs.entrySector c := by
    rw [searching.fs_eq]
    exact g.lookupSector_eq inTable
  by_cases brings : d.BringsIn c
  · have absent := (searching.bringsIn_iff low).mp brings
    rw [← place] at absent
    have number := searching.transfers_eq low brings
    cases fails : d'.ata.fault d'.ata.transfers with
    | some k =>
        refine ⟨0, _, nextCluster_fails absent fails, ?_⟩
        have unreadable : d.Unreadable c := by
          refine ⟨brings, ?_⟩
          rw [← number, ← searching.fault, fails]
          exact Option.some_ne_none k
        exact ⟨iff_of_true rfl (.inl unreadable), fun no => absurd unreadable no, fun _ => rfl⟩
    | none =>
        refine (nextCluster_reads absent fails).mono ?_
        rintro r d'' ⟨rfl, fetched⟩
        rw [place] at fetched
        have small : lba28 (d.fs.entrySector c) = d.fs.entrySector c :=
          (g.table0_sector inTable.2).2
        have entry : d'.entry c = d.entry c := by
          rw [Driver.entry, Driver.entry, Driver.sector, Driver.sector, searching.fs_eq,
            searching.media]
        have readable : ¬ d.Unreadable c := by
          rintro ⟨-, failed⟩
          rw [← number, ← searching.fault] at failed
          exact failed fails
        refine ⟨?_, fun _ => searching.after_read low brings fetched small,
          fun no => absurd no readable⟩
        rw [Driver.stored_eq g' inTable', entry, ← d.shown_of_bringsIn low brings rfl]
        exact ⟨.inr, fun free => free.resolve_left readable⟩
  · have cached : d'.fs.lookupSector c = d'.fatCacheSector := by
      rw [place]
      exact not_not.mp fun other => brings ((searching.bringsIn_iff low).mpr other)
    have readable : ¬ d.Unreadable c := fun unreadable => brings unreadable.1
    refine ⟨_, d', nextCluster_cached cached, ?_, fun _ => searching.after_cached low brings,
      fun no => absurd no readable⟩
    rw [entryOffset_eq inTable]
    change entryIn d'.fatSectorCache c = 0 ↔ _
    rw [searching.entry_cached low brings rfl]
    exact ⟨.inr, fun free => free.resolve_left readable⟩

theorem findFreeFrom_finds (g : Geometry d.fs) : ∀ (n c : Nat) (d' : Driver), 2 ≤ c →
    c + n ≤ d.fs.totalClusters + 2 → Searching d d' c →
    Runs (findFreeFrom c n) d' fun r _ => r = (List.range' c n).find? fun c => d.LooksFree c
  | 0, c, d', _, _, _ => Runs.pure rfl
  | n + 1, c, d', low, bound, searching => by
      have range : d.vol.InRange c := by
        have total : d.vol.total = d.fs.totalClusters := rfl
        exact ⟨low, by omega⟩
      unfold findFreeFrom
      refine Runs.bind (searching.lookup g range) ?_
      rintro r d'' ⟨zero, next, -⟩
      rw [List.range'_succ]
      by_cases free : d.LooksFree c
      · rw [if_pos (zero.mpr free),
          List.find?_cons_of_pos (p := fun c => decide (d.LooksFree c)) (decide_eq_true free)]
        exact Runs.pure rfl
      · rw [if_neg fun is => free (zero.mp is),
          List.find?_cons_of_neg (p := fun c => decide (d.LooksFree c)) (by simpa using free)]
        exact findFreeFrom_finds g n (c + 1) d'' (by omega) (by omega)
          (next fun unreadable => free (.inl unreadable))

/-- `fat32_find_free_cluster` returns the first cluster that looks free. -/
theorem findFreeCluster_finds (g : Geometry d.fs) : Runs findFreeCluster d fun r _ =>
    r = (List.range' 2 d.fs.totalClusters).find? fun c => d.LooksFree c := by
  have bound := g.total_le
  have count : (d.fs.totalClusters + 2) % 2 ^ 32 - 2 = d.fs.totalClusters := by omega
  unfold findFreeCluster
  refine Runs.get_bind ?_
  rw [count]
  exact findFreeFrom_finds g _ 2 d (Nat.le_refl 2) (by omega) (Searching.refl d)

end Search

/-- A cluster whose entry is set does not look free, unless an earlier one does. -/
def Trusted (d : Driver) : Prop :=
  ∀ c, d.vol.InRange c → d.vol.fat c ≠ 0 → (∀ b, 2 ≤ b → b < c → ¬ d.LooksFree b) →
    ¬ d.LooksFree c

/-- With a true cache the search is shown what the disk holds. -/
theorem Driver.shown_eq_fat {d : Driver} (g : Geometry d.fs) (coherent : d.CacheTrue) {c : Nat}
    (range : d.vol.InRange c) : d.shown c = d.vol.fat c := by
  rw [Driver.vol_fat_eq range, Driver.shown]
  split
  · next primed =>
      have index := g.table_index_lt range.2
      have same : d.fatCacheSector = d.fs.entrySector c := by
        have first : d.fatCacheSector = d.fs.fatStart + 2 * 4 / 512 := primed.1
        rw [first, Fs.entrySector]
        omega
      have small : lba28 (d.fs.entrySector c) = d.fs.entrySector c := (g.table0_sector index).2
      have held := coherent (by
        rw [Driver.Caches, same, Fs.entrySector]
        omega)
      rw [same, small] at held
      exact entryIn_congr held
  · rfl

/-- With a true cache: every sector that cannot be read lies behind the first free cluster. -/
theorem trusted_iff_of_cacheTrue {d : Driver} (g : Geometry d.fs) (coherent : d.CacheTrue) :
    Trusted d ↔ ∀ c, d.vol.InRange c → d.Unreadable c →
      ∃ b, 2 ≤ b ∧ b ≤ c ∧ d.vol.fat b = 0 := by
  have shown := fun {c} => Driver.shown_eq_fat (c := c) g coherent
  constructor
  · intro trusted c range unreadable
    by_contra none
    have set : ∀ b, 2 ≤ b → b ≤ c → d.vol.fat b ≠ 0 :=
      fun b low high zero => none ⟨b, low, high, zero⟩
    -- the first cluster that looks free is one that cannot be read
    have some_ : ∃ x, 2 ≤ x ∧ x ≤ c ∧ d.LooksFree x := ⟨c, range.1, Nat.le_refl c, .inl unreadable⟩
    obtain ⟨low, high, free⟩ := Nat.find_spec some_
    refine trusted (Nat.find some_) ⟨low, Nat.lt_of_le_of_lt high range.2⟩ (set _ low high) ?_ free
    intro b low' before free'
    exact Nat.find_min some_ before ⟨low', by omega, free'⟩
  · intro behind c range set before free
    have unreadable : d.Unreadable c := by
      refine free.resolve_right fun zero => set ?_
      rwa [shown range] at zero
    obtain ⟨b, low, high, zero⟩ := behind c range unreadable
    rcases Nat.lt_or_eq_of_le high with earlier | rfl
    · refine before b low earlier (.inr ?_)
      rw [shown ⟨low, Nat.lt_trans earlier range.2⟩]
      exact zero
    · exact set zero

/-! ## Allocating -/

/-- `fat32_allocate_cluster_chain`, with `n` passes left and `prev` as the last cluster, calls
`fat32_find_free_cluster` in the state `s`. -/
inductive Searches : Nat → Nat → Driver → Driver → Prop
  | here (n prev : Nat) (d : Driver) : Searches (n + 1) prev d d
  | later {n prev c : Nat} {d d₁ d₂ s : Driver}
      (found : findFreeCluster.run d = .ok (some c, d₁))
      (linked : (linkPrevious prev c).run d₁ = .ok (true, d₂))
      (rest : Searches n c d₂ s) : Searches (n + 1) prev d s

theorem inert_table : ReadInert fun d : Driver => (d.fs, d.ata.media) :=
  ⟨fun _ _ => rfl, fun _ _ => rfl, fun _ _ => rfl⟩

section Allocate

variable {d d' : Driver}

theorem Driver.inRange_iff (fs_eq : d'.fs = d.fs) (c : Nat) :
    d'.vol.InRange c ↔ d.vol.InRange c := by
  rw [Vol.InRange, Vol.InRange, Driver.vol, Driver.vol, fs_eq]

/-- A search leaves the disk, and returns a cluster of the volume. -/
theorem findFreeCluster_returns (g : Geometry d.fs) {r : Option Nat}
    (returned : findFreeCluster.run d = .ok (r, d')) :
    d'.fs = d.fs ∧ d'.vol = d.vol ∧ ∀ c, r = some c → d.vol.InRange c := by
  have same := Keeps.get_bind (fun d => findFreeFrom_keeps inert_table _ 2) _ _ _ returned
  have fs_eq : d'.fs = d.fs := congrArg Prod.fst same
  have media : d'.ata.media = d.ata.media := congrArg Prod.snd same
  refine ⟨fs_eq, Driver.vol_of_media fs_eq media, fun c is => ?_⟩
  have found := (findFreeCluster_finds g).of_returned returned
  rw [is, eq_comm, List.find?_range'_eq_some, List.mem_range'_1] at found
  have total : d.vol.total = d.fs.totalClusters := rfl
  have inside := found.2.1
  rw [Vol.InRange, total]
  omega

/-- Setting an entry leaves the entries of the other clusters, also when it fails. -/
theorem setFatEntry_others (g : Geometry d.fs) {c : Nat} (range : d.vol.InRange c) (x : Nat) :
    Runs (setFatEntry c x) d fun _ d' => d'.fs = d.fs ∧
      ∀ y, d.vol.InRange y → y ≠ c → d'.vol.fat y = d.vol.fat y := by
  have inTable : d.fs.InTable c := g.inTable range
  have offset : c * 4 % 2 ^ 32 = c * 4 := Nat.mod_eq_of_lt (by have := inTable.1; omega)
  simp only [setFatEntry]
  refine Runs.get_bind ?_
  simp only [offset]
  refine Runs.bind (setFatCopies_copied d.fs.numFats 0 g inTable (by omega)) ?_
  rintro ok d₁ ⟨copied, -⟩
  have fs_eq := copied.inside.fs_eq
  have others : ∀ y, d.vol.InRange y → y ≠ c → d₁.vol.fat y = d.vol.fat y := by
    intro y range' other
    have range₁ : d₁.vol.InRange y := (Driver.inRange_iff fs_eq y).mpr range'
    rw [Driver.vol_fat_eq range₁, Driver.vol_fat_eq range']
    exact (copied.entries y (g.inTable range')).resolve_right fun set => other set.2.1
  cases ok with
  | true =>
      rw [if_pos rfl]
      refine Runs.modify_bind (Runs.pure ?_)
      split
      · exact ⟨fs_eq, others⟩
      · exact ⟨fs_eq, others⟩
  | false => exact Runs.pure ⟨fs_eq, others⟩

theorem linkPrevious_others (g : Geometry d.fs) {prev : Nat}
    (valid : prev = 0 ∨ d.vol.InRange prev) (x : Nat) :
    Runs (linkPrevious prev x) d fun _ d' => d'.fs = d.fs ∧
      ∀ y, d.vol.InRange y → y ≠ prev → d'.vol.fat y = d.vol.fat y := by
  unfold linkPrevious
  by_cases none : prev = 0
  · rw [if_pos none]
    exact Runs.pure ⟨rfl, fun _ _ _ => rfl⟩
  · rw [if_neg none]
    exact Runs.bind (setFatEntry_others g (valid.resolve_left none) x) fun _ _ h => Runs.pure h

/-- A search and the link of the cluster before, when both succeed. -/
theorem search_link_returns (g : Geometry d.fs) {prev c : Nat} {d₁ d₂ : Driver} {ok : Bool}
    (valid : prev = 0 ∨ d.vol.InRange prev)
    (found : findFreeCluster.run d = .ok (some c, d₁))
    (linked : (linkPrevious prev c).run d₁ = .ok (ok, d₂)) :
    d₂.fs = d.fs ∧ d.vol.InRange c ∧
      ∀ y, d.vol.InRange y → y ≠ prev → d₂.vol.fat y = d.vol.fat y := by
  obtain ⟨fs_eq, vol, range⟩ := findFreeCluster_returns g found
  have g₁ : Geometry d₁.fs := fs_eq.symm ▸ g
  have others := linkPrevious_others g₁ (valid.imp_right (Driver.inRange_iff fs_eq prev).mpr) c
  obtain ⟨fs_eq₂, same⟩ := others.of_returned linked
  refine ⟨fs_eq₂.trans fs_eq, range c rfl, fun y inside other => ?_⟩
  rw [same y ((Driver.inRange_iff fs_eq y).mpr inside) other, vol]

theorem Searches.fs_eq {n prev : Nat} {s : Driver} (g : Geometry d.fs)
    (valid : prev = 0 ∨ d.vol.InRange prev) (searches : Searches n prev d s) : s.fs = d.fs := by
  induction searches with
  | here => rfl
  | later found linked _ ih =>
      obtain ⟨fs_eq, range, -⟩ := search_link_returns g valid found linked
      exact (ih (fs_eq.symm ▸ g) (.inr ((Driver.inRange_iff fs_eq _).mpr range))).trans fs_eq

end Allocate

end XosKernel.Fat32
