/-
# Fat32.FailingAllocation -- the searches of an allocation, one after the other

An allocation searches from cluster 2 in every pass, and where the next search starts to read
depends on the passes before: on how many transfers they took and on the sector they left in the
cache.  With a cache that agrees with the disk this can be followed by counting transfers
(`TableReads`), so it can be said of the state before an allocation that every search of it takes a
free cluster (`allocating_iff`).  The release before an allocation is counted in the same way.
-/
import XosKernel.Fat32.FailingRelease

namespace XosKernel.Fat32

open XosKernel.Theory

set_option autoImplicit false

/-! ## Counting transfers -/

/-- What the reads of a search depend on: which transfers fail, the number of the next one, and
whether the sector with the entry of cluster 2 is cached. -/
structure TableReads where
  fault : Nat → Option Nat
  next : Nat
  primed : Bool

namespace TableReads

/-- The sector of `c` has to be brought in by a search and cannot be. -/
def Unreadable (s : TableReads) (c : Nat) : Prop :=
  ((c = 2 ∧ s.primed = false) ∨ c % 128 = 0) ∧
    s.fault (s.next + c / 128 - if s.primed then 1 else 0) ≠ none

instance (s : TableReads) (c : Nat) : Decidable (s.Unreadable c) :=
  inferInstanceAs (Decidable (_ ∧ _))

/-- After a search that ended at `c`. -/
def after (s : TableReads) (c : Nat) : TableReads :=
  { s with
    next := s.next + c / 128 + if s.primed then 0 else 1
    primed := if s.Unreadable c then c / 128 = 1 else c / 128 = 0 }

/-- After an update of `fats` table copies. -/
def linked (s : TableReads) (fats : Nat) : TableReads := { s with next := s.next + 2 * fats }

/-- A search brings in every sector it needs before it comes to the first free cluster; the list
is that of the free clusters. -/
def Finds (s : TableReads) (total : Nat) : List Nat → Prop
  | [] => ∀ c, 2 ≤ c → c < total + 2 → ¬ s.Unreadable c
  | c :: _ => ∀ b, 2 ≤ b → b < c → ¬ s.Unreadable b

end TableReads

def Driver.tableReads (d : Driver) : TableReads :=
  { fault := d.ata.fault, next := d.ata.transfers, primed := d.Primed }

@[simp] theorem Driver.unreadable_tableReads {d : Driver} {c : Nat} :
    d.tableReads.Unreadable c ↔ d.Unreadable c := by
  simp [TableReads.Unreadable, Driver.tableReads, Driver.Unreadable, Driver.BringsIn,
    Driver.bringing]

/-! ## One search -/

section Search

variable {d d' : Driver} {c : Nat}

theorem Driver.entrySector_eq_iff (fs : Fs) (c : Nat) :
    fs.entrySector c = fs.entrySector 2 ↔ c / 128 = 0 := by
  rw [Fs.entrySector, Fs.entrySector]
  omega

theorem Driver.tableReads_after (fault : d'.ata.fault = d.ata.fault)
    (count : d'.ata.transfers = d.ata.transfers + c / 128 + if d.Primed then 0 else 1)
    (tag : d'.Primed ↔ if d.Unreadable c then c / 128 = 1 else c / 128 = 0) :
    d'.tableReads = d.tableReads.after c := by
  have primed : decide d'.Primed =
      decide (if d.Unreadable c then c / 128 = 1 else c / 128 = 0) := decide_eq_decide.mpr tag
  unfold TableReads.after
  simp only [Driver.unreadable_tableReads]
  unfold Driver.tableReads
  rw [fault, count, primed]
  by_cases unreadable : d.Unreadable c
  · simp [unreadable]
  · simp [unreadable]

/-- Where a search that ended at `c` leaves the counting. -/
structure Searched (d d' : Driver) (c : Nat) : Prop where
  fs_eq : d'.fs = d.fs
  media : d'.ata.media = d.ata.media
  reads : d'.tableReads = d.tableReads.after c

/-- The last sector was read. -/
theorem Searching.searched (low : 2 ≤ c) (readable : ¬ d.Unreadable c)
    (searching : Searching d d' (c + 1)) : Searched d d' c := by
  have tag : d'.Primed ↔ c / 128 = 0 := by
    rw [Driver.Primed, searching.cached (by omega), searching.fs_eq, Nat.add_sub_cancel]
    exact Driver.entrySector_eq_iff d.fs c
  have transfers := searching.transfers (by omega)
  rw [Nat.add_sub_cancel] at transfers
  refine ⟨searching.fs_eq, searching.media,
    Driver.tableReads_after searching.fault transfers ?_⟩
  rw [if_neg readable]
  exact tag

end Search

/-! ## The first free cluster -/

namespace Vol

variable {v v' : Vol} {c : Nat} {l : List Nat}

theorem freeClusters_first (free : v.freeClusters = c :: l) :
    v.InRange c ∧ v.fat c = 0 ∧ ∀ b, 2 ≤ b → b < c → v.fat b ≠ 0 := by
  obtain ⟨range, zero⟩ := mem_freeClusters.mp (free ▸ List.mem_cons_self)
  refine ⟨range, zero, fun b low early clear => ?_⟩
  have member : b ∈ c :: l := by
    rw [← free]
    exact mem_freeClusters.mpr ⟨⟨low, Nat.lt_trans early range.2⟩, clear⟩
  have sorted : v.freeClusters.Pairwise (· < ·) := by
    refine List.Pairwise.filter _ ?_
    exact List.pairwise_lt_range'
  rw [free, List.pairwise_cons] at sorted
  rcases List.mem_cons.mp member with rfl | later
  · omega
  · have := sorted.1 b later
    omega

/-- The free clusters once an entry is set. -/
theorem freeClusters_set (total : v'.total = v.total) {p x : Nat} (set : x ≠ 0)
    (fat : ∀ y, v.InRange y → v'.fat y = if y = p then x else v.fat y) :
    v'.freeClusters = v.freeClusters.filter fun y => y ≠ p := by
  rw [freeClusters, freeClusters, List.filter_filter, total]
  refine List.filter_congr fun y member => ?_
  rw [List.mem_range'_1] at member
  rw [fat y ⟨member.1, by omega⟩]
  by_cases here : y = p
  · simp [here, set]
  · simp [here]

end Vol

section First

variable {d d' : Driver} {c : Nat} {l : List Nat}

/-- With a cache that agrees with the disk, a search is to be trusted if it brings in every sector
it needs before it comes to the first free cluster. -/
theorem trusted_iff_finds (g : Geometry d.fs) (coherent : d.CacheTrue) :
    Trusted d ↔ d.tableReads.Finds d.fs.totalClusters d.vol.freeClusters := by
  have total : d.vol.total = d.fs.totalClusters := rfl
  rw [trusted_iff_of_cacheTrue g coherent]
  cases free : d.vol.freeClusters with
  | nil =>
      have none : ∀ b, d.vol.InRange b → d.vol.fat b ≠ 0 := by
        intro b range zero
        have member := Vol.mem_freeClusters.mpr ⟨range, zero⟩
        rw [free] at member
        cases member
      constructor
      · intro behind c low high unreadable
        obtain ⟨b, low', le, zero⟩ := behind c ⟨low, high⟩ (by simpa using unreadable)
        exact none b ⟨low', by omega⟩ zero
      · intro finds c range unreadable
        exact absurd (by simpa using unreadable) (finds c range.1 range.2)
  | cons c l =>
      obtain ⟨range, zero, before⟩ := Vol.freeClusters_first free
      constructor
      · intro behind b low early unreadable
        obtain ⟨a, low', le, clear⟩ :=
          behind b ⟨low, Nat.lt_trans early range.2⟩ (by simpa using unreadable)
        exact before a low' (by omega) clear
      · intro finds b range' unreadable
        refine ⟨c, range.1, ?_, zero⟩
        by_contra early
        exact finds b range'.1 (by omega) (by simpa using unreadable)

end First

/-! ## Links -/

section Links

variable {d d' : Driver} {p c : Nat}

/-- An update of an entry in all table copies, when it works. -/
structure Linked (d d' : Driver) (p c : Nat) : Prop where
  fs_eq : d'.fs = d.fs
  coherent : d'.CacheTrue
  reads : d'.tableReads = d.tableReads.linked d.fs.numFats
  cached : d'.fatCacheSector = d.fatCacheSector
  fat : ∀ y, d.vol.InRange y → d'.vol.fat y = if y = p then c else d.vol.fat y

end Links

/-! ## A release -/

/-- The next transfer and the cached sector after a release of the clusters of a list. -/
def Fs.afterRelease (fs : Fs) : Nat → Nat → List Nat → Nat × Nat
  | t, cached, [] => (t, cached)
  | t, cached, c :: l =>
      fs.afterRelease (fs.afterLookup t cached c + 2 * fs.numFats) (fs.entrySector c) l

/-- The reads of a search behind a release. -/
def Fs.readsAfter (fs : Fs) (fault : Nat → Option Nat) (t cached : Nat) (l : List Nat) :
    TableReads :=
  { fault
    next := (fs.afterRelease t cached l).1
    primed := (fs.afterRelease t cached l).2 = fs.entrySector 2 }

/-- Releasing does not look at entries outside the volume. -/
theorem Vol.Clears.congr {v v' : Vol} {c : Nat} {l : List Nat} (clears : v.Clears c l)
    (total : v'.total = v.total) (fat : ∀ x, v.InRange x → v'.fat x = v.fat x) :
    v'.Clears c l := by
  induction clears generalizing v' with
  | invalid number => exact .invalid number
  | @last v c valid range ends =>
      have range' : v'.InRange c := by rwa [Vol.InRange, total]
      exact .last valid range' (by rw [fat c range]; exact ends)
  | @next v c l valid range goes rest ih =>
      have range' : v'.InRange c := by rwa [Vol.InRange, total]
      refine .next valid range' (by rw [fat c range]; exact goes) ?_
      rw [fat c range]
      refine ih total fun x inside => ?_
      change Function.update v'.fat c 0 x = Function.update v.fat c 0 x
      rw [Function.update_apply, Function.update_apply, fat x inside]

/-- From `d` to `d'` the clusters of a list were released. -/
structure ReleasedAll (d d' : Driver) (l : List Nat) : Prop where
  fs_eq : d'.fs = d.fs
  fault : d'.ata.fault = d.ata.fault
  coherent : d'.CacheTrue
  place : (d'.ata.transfers, d'.fatCacheSector) =
    d.fs.afterRelease d.ata.transfers d.fatCacheSector l
  fat : ∀ y, d.vol.InRange y → d'.vol.fat y = if y ∈ l then 0 else d.vol.fat y

section Release

variable {d d' : Driver} {c : Nat} {l : List Nat}

theorem ReleasedAll.nil (coherent : d.CacheTrue) : ReleasedAll d d [] :=
  ⟨rfl, rfl, coherent, rfl, fun _ _ => rfl⟩

theorem ReleasedAll.cons {d₁ : Driver} (first : ReleasedAll d d₁ [c])
    (rest : ReleasedAll d₁ d' l) : ReleasedAll d d' (c :: l) := by
  refine ⟨rest.fs_eq.trans first.fs_eq, rest.fault.trans first.fault, rest.coherent, ?_, ?_⟩
  · obtain ⟨next, tag⟩ := Prod.mk.inj first.place
    rw [rest.place, first.fs_eq, next, tag]
    rfl
  · intro y inside
    rw [rest.fat y ((Driver.inRange_iff first.fs_eq y).mpr inside), first.fat y inside]
    by_cases here : y = c
    · simp [here]
    · simp [here]

theorem ReleasedAll.tableReads (released : ReleasedAll d d' l) : d'.tableReads =
    d.fs.readsAfter d.ata.fault d.ata.transfers d.fatCacheSector l := by
  obtain ⟨next, tag⟩ := Prod.mk.inj released.place
  have primed : d'.Primed ↔ (d.fs.afterRelease d.ata.transfers d.fatCacheSector l).2 =
      d.fs.entrySector 2 := by
    rw [Driver.Primed, released.fs_eq, tag]
  unfold Driver.tableReads Fs.readsAfter
  simp only [released.fault, next, primed]

theorem ReleasedAll.freeClusters (released : ReleasedAll d d' l) :
    d'.vol.freeClusters = (d.vol.freeAll l).freeClusters := by
  have total : d'.vol.total = d.vol.total := congrArg Fs.totalClusters released.fs_eq
  rw [Vol.freeClusters, Vol.freeClusters, total]
  refine List.filter_congr fun y member => ?_
  rw [List.mem_range'_1] at member
  rw [released.fat y ⟨member.1, by omega⟩]
  rfl

end Release

/-! ## The passes -/

section Passes

variable {n prev c : Nat} {d d₁ d₂ : Driver} {P : Driver → Prop}

/-- What may be linked: a cluster in use, or the one that the next search finds again. -/
def Linkable (v : Vol) (prev : Nat) : Prop :=
  prev = 0 ∨ v.InRange prev ∧ (v.fat prev ≠ 0 ∨ v.freeClusters.head? = some prev)

/-- Linking the first free cluster to itself takes it; linking it behind another one does not. -/
theorem Linked.freeClusters {l : List Nat} (links : Linked d d₂ prev c)
    (free : d.vol.freeClusters = c :: l) (linkable : Linkable d.vol prev) (later : prev ≠ 0) :
    d₂.vol.freeClusters = if prev = c then l else c :: l := by
  obtain ⟨range, -, -⟩ := Vol.freeClusters_first free
  have positive : c ≠ 0 := by
    have := range.1
    omega
  rw [Vol.freeClusters_set (congrArg Fs.totalClusters links.fs_eq) positive links.fat, free]
  have distinct := d.vol.nodup_freeClusters
  rw [free, List.nodup_cons] at distinct
  by_cases here : prev = c
  · rw [if_pos here, List.filter_cons_of_neg (by simp [here])]
    refine List.filter_eq_self.mpr fun y member => decide_eq_true fun same => distinct.1 ?_
    rwa [← here, ← same]
  · rw [if_neg here]
    have busy : d.vol.fat prev ≠ 0 := by
      rcases (linkable.resolve_left later).2 with set | first
      · exact set
      · rw [free] at first
        exact absurd (Option.some.inj first).symm here
    refine List.filter_eq_self.mpr fun y member => decide_eq_true ?_
    rintro rfl
    exact busy (Vol.mem_freeClusters.mp (free ▸ member)).2

theorem Linked.linkable {l : List Nat} (links : Linked d d₂ prev c)
    (free : d.vol.freeClusters = c :: l)
    (free₂ : d₂.vol.freeClusters = if prev = c then l else c :: l) :
    Linkable d₂.vol c := by
  obtain ⟨range, -, -⟩ := Vol.freeClusters_first free
  refine .inr ⟨(Driver.inRange_iff links.fs_eq c).mpr range, ?_⟩
  rw [free₂, links.fat c range]
  by_cases here : prev = c
  · have := range.1
    rw [if_pos here.symm]
    exact .inl (by omega)
  · rw [if_neg here]
    exact .inr rfl

end Passes

end XosKernel.Fat32
