/-
# Fat32.TableMap -- the allocation table as a map

Through the cache and the copies on disk, the table is a map from numbers to entries.  `Maps`
ties a driver state to such a map: every copy holds it, and the cached sector is the one on
disk.  `fat32_next_cluster` reads the map and `fat32_set_fat_entry` updates it; the other
functions are made of these two, so each has a counterpart on maps (`findIn`, `allocateIn`,
`freeIn`) and every interleaving of the calls, with writes to the data region in between,
follows the map (`table_refines_map`).

Nothing is assumed about the links: releasing a chain ends and clears what the walk visits
also where chains run into cycles or merge (`free_clears_visited`).
-/
import XosKernel.Fat32.Confined
import XosKernel.Fat32.Calls
import XosKernel.Theory.Walk
import Mathlib.Tactic.IntervalCases

namespace XosKernel.Fat32

open XosKernel.Theory

set_option autoImplicit false

/-! ## Entries -/

/-- An entry in a table copy, all 32 bits of it. -/
def Driver.copyEntry (d : Driver) (k c : Nat) : Nat :=
  (d.sector (d.fs.tableSector k (c * 4 / 512))).le (c * 4 % 512) 4

/-- The first table copy holds the entries of the map, and so do the given copies. -/
structure Driver.Maps (d : Driver) (copies : Nat → Prop) (m : Nat → Nat) : Prop where
  lookable : d.Lookable
  equal : ∀ k, k < d.fs.numFats → copies k → ∀ j, j < d.fs.sectorsPerFat → ∀ o, o < 512 →
    d.sector (d.fs.fatStart + k * d.fs.sectorsPerFat + j) o = d.sector (d.fs.fatStart + j) o
  first : ∀ c, d.fs.InTable c → d.copyEntry 0 c = m c

/-- With equal copies, the first one is the map of all. -/
theorem Driver.Tabled.maps {d : Driver} (tabled : d.Tabled) :
    d.Maps (fun _ => True) (d.copyEntry 0) :=
  ⟨tabled.lookable, fun k copy _ => tabled.copies k copy, fun _ _ => rfl⟩

theorem Driver.Lookable.maps {d : Driver} (lookable : d.Lookable) :
    d.Maps (fun _ => False) (d.copyEntry 0) :=
  ⟨lookable, fun _ _ none => none.elim, fun _ _ => rfl⟩

theorem Driver.Maps.tabled {d : Driver} {m : Nat → Nat} (maps : d.Maps (fun _ => True) m) :
    d.Tabled :=
  ⟨maps.lookable.tables, maps.lookable.noFault, fun k copy => maps.equal k copy trivial,
    maps.lookable.coherent⟩

theorem Driver.Maps.entries {d : Driver} {copies : Nat → Prop} {m : Nat → Nat}
    (maps : d.Maps copies m) {k : Nat} (copy : k < d.fs.numFats) (given : copies k) {c : Nat}
    (inTable : d.fs.InTable c) : d.copyEntry k c = m c := by
  rw [← maps.first c inTable, Driver.copyEntry, Driver.copyEntry, Fs.tableSector_zero]
  exact Buf.le_congr fun i _ _ => maps.equal k copy given _ inTable.2 i (by omega)

/-- The 28 bits of the entries that count. -/
def links (m : Nat → Nat) (c : Nat) : Nat := m c % 2 ^ 28

theorem links_update (m : Nat → Nat) (c x : Nat) :
    links (Function.update m c (x % 2 ^ 32)) = Function.update (links m) c (x % 2 ^ 28) := by
  funext y
  by_cases same : y = c
  · rw [same, links, Function.update_self, Function.update_self]
    omega
  · rw [links, Function.update_of_ne same, Function.update_of_ne same, links]

variable {copies : Nat → Prop}

/-- The driver went from `d` to `d'` and left the table `m`; the cached sector is the same, or
one of the first table. -/
structure TableEffect (copies : Nat → Prop) (d d' : Driver) (m : Nat → Nat) : Prop where
  maps : d'.Maps copies m
  fs_eq : d'.fs = d.fs
  tag : d'.fatCacheSector = d.fatCacheSector ∨
    ∃ j < d.fs.sectorsPerFat, d'.fatCacheSector = d.fs.fatStart + j

theorem TableEffect.refl {d : Driver} {m : Nat → Nat} (maps : d.Maps copies m) :
    TableEffect copies d d m := ⟨maps, rfl, .inl rfl⟩

theorem TableEffect.trans {d d' d'' : Driver} {m m' : Nat → Nat}
    (first : TableEffect copies d d' m) (second : TableEffect copies d' d'' m') :
    TableEffect copies d d'' m' := by
  refine ⟨second.maps, second.fs_eq.trans first.fs_eq, ?_⟩
  rcases second.tag with same | ⟨j, bound, is⟩
  · rw [same]
    exact first.tag
  · rw [first.fs_eq] at bound is
    exact .inr ⟨j, bound, is⟩

section Primitives

variable {d : Driver} {m : Nat → Nat} {c : Nat}

/-- `fat32_next_cluster` reads the map. -/
theorem nextCluster_maps (maps : d.Maps copies m) (inTable : d.fs.InTable c) :
    Runs (nextCluster c) d fun r d' => r = links m c ∧ TableEffect copies d d' m := by
  have lookable := maps.lookable
  refine Runs.mono (nextCluster_looks lookable inTable.1 inTable.2) ?_
  rintro r d' ⟨rfl, looked⟩
  have entry := maps.first c inTable
  rw [Driver.copyEntry, Fs.tableSector_zero] at entry
  refine ⟨by rw [entry, links], ?_⟩
  have loaded := looked.loaded
  obtain ⟨cache, t, rfl⟩ := looked.frame
  exact ⟨⟨⟨lookable.tables, lookable.noFault, fun _ _ => loaded⟩, maps.equal, maps.first⟩, rfl,
    .inr ⟨_, inTable.2, rfl⟩⟩

/-- `fat32_set_fat_entry` updates the map. -/
theorem setFatEntry_maps (maps : d.Maps copies m) (inTable : d.fs.InTable c) (x : Nat) :
    Runs (setFatEntry c x) d fun r d' =>
      r = 0 ∧ TableEffect copies d d' (Function.update m c (x % 2 ^ 32)) := by
  have tables := maps.lookable.tables
  refine Runs.mono (setFatEntry_rewrites maps.lookable inTable.1 inTable.2 x) ?_
  rintro r d' ⟨rfl, d₁, rewrote, rfl⟩
  have fs_eq := rewrote.fs_eq
  refine ⟨rfl, ⟨rewrote.lookable maps.lookable inTable.2, fun k copy given j index o bound => ?_,
    fun y other => ?_⟩, by rw [Driver.syncCache_fs, fs_eq], .inl ?_⟩
  · simp only [Driver.syncCache_fs, Driver.syncCache_sector, fs_eq] at copy index ⊢
    exact rewrote.copy tables inTable.2 copy (maps.equal k copy given) index bound
  · rw [Driver.syncCache_fs, fs_eq] at other
    rw [Driver.copyEntry, Driver.syncCache_fs, Driver.syncCache_sector, fs_eq,
      rewrote.entry inTable.2 tables.one_le_fats other.2]
    by_cases same : y = c
    · rw [if_pos same, same, Function.update_self]
    · rw [if_neg same, Function.update_of_ne same]
      exact maps.first y other
  · rw [Driver.syncCache_fatCacheSector]
    obtain ⟨_, _, _, rfl⟩ := rewrote.frame
    rfl

end Primitives

theorem Tables.inTable {fs : Fs} (tables : Tables fs) {c : Nat} (bound : c < fs.totalClusters + 2) :
    fs.InTable c := by
  have small := tables.range_lt_end
  have fits := tables.table_fits
  exact ⟨by omega, by omega⟩

/-! ## The search for a free cluster -/

/-- The first cluster without a link. -/
def findIn (total : Nat) (m : Nat → Nat) : Option Nat :=
  (List.range' 2 total).find? fun c => m c = 0

theorem findFreeFrom_maps {m : Nat → Nat} : ∀ (n c : Nat) (d : Driver), d.Maps copies m →
    c + n ≤ d.fs.totalClusters + 2 →
    Runs (findFreeFrom c n) d fun r d' =>
      r = (List.range' c n).find? (fun c => links m c = 0) ∧ TableEffect copies d d' m
  | 0, c, d, maps, _ => Runs.pure ⟨rfl, TableEffect.refl maps⟩
  | n + 1, c, d, maps, bound => by
      unfold findFreeFrom
      refine Runs.bind (nextCluster_maps maps (maps.lookable.tables.inTable (by omega))) ?_
      rintro _ d' ⟨rfl, effect⟩
      rw [List.range'_succ]
      by_cases free : links m c = 0
      · rw [if_pos free, List.find?_cons_of_pos (by simpa using free)]
        exact Runs.pure ⟨rfl, effect⟩
      · rw [if_neg free, List.find?_cons_of_neg (by simpa using free)]
        refine Runs.mono (findFreeFrom_maps n (c + 1) d' effect.maps (by
          rw [effect.fs_eq]; omega)) ?_
        rintro r d'' ⟨rfl, effect'⟩
        exact ⟨rfl, effect.trans effect'⟩

theorem findFreeCluster_maps {d : Driver} {m : Nat → Nat} (maps : d.Maps copies m) :
    Runs findFreeCluster d fun r d' =>
      r = findIn d.fs.totalClusters (links m) ∧ TableEffect copies d d' m := by
  have bound := maps.lookable.tables.range_lt_end
  unfold findFreeCluster
  refine Runs.get_bind ?_
  have count : (d.fs.totalClusters + 2) % 2 ^ 32 - 2 = d.fs.totalClusters := by omega
  rw [count]
  exact findFreeFrom_maps _ 2 d maps (by omega)

theorem findIn_some {total c : Nat} {m : Nat → Nat} (found : findIn total m = some c) :
    2 ≤ c ∧ c < total + 2 := by
  have member := List.mem_of_find?_eq_some found
  rw [List.mem_range'_1] at member
  omega

/-! ## Allocating a chain -/

/-- Set a link, unless there is no previous cluster. -/
def linkIn (m : Nat → Nat) (prev cluster : Nat) : Nat → Nat :=
  if prev = 0 then m else Function.update m prev (cluster % 2 ^ 28)

/-- The loop of `fat32_allocate_cluster_chain` on a map. -/
def allocateLoopIn (total : Nat) : Nat → Nat → Nat → (Nat → Nat) →
    Option (Nat × Nat) × (Nat → Nat)
  | 0, first, prev, m => (some (first, prev), m)
  | n + 1, first, prev, m =>
      match findIn total m with
      | none => (none, m)
      | some cluster =>
          allocateLoopIn total n (if first = 0 then cluster else first) cluster
            (linkIn m prev cluster)

/-- `fat32_allocate_cluster_chain` on a map. -/
def allocateIn (total n : Nat) (m : Nat → Nat) : Option Nat × (Nat → Nat) :=
  match allocateLoopIn total n 0 0 m with
  | (none, m) => (none, m)
  | (some (first, prev), m) => (some first, linkIn m prev 0x0FFFFFFF)

/-- The clusters without a link. -/
def freeIn (total : Nat) (m : Nat → Nat) : List Nat :=
  (List.range' 2 total).filter fun c => m c = 0

section Free

variable {total : Nat} {m : Nat → Nat} {p x : Nat} {l : List Nat}

theorem findIn_eq : findIn total m = (freeIn total m).head? := List.head?_filter.symm

theorem mem_freeIn : p ∈ freeIn total m ↔ (2 ≤ p ∧ p < total + 2) ∧ m p = 0 := by
  rw [freeIn, List.mem_filter, List.mem_range'_1, decide_eq_true_eq]
  omega

theorem nodup_freeIn : (freeIn total m).Nodup := List.Nodup.filter _ List.nodup_range'

theorem freeIn_update (set : x ≠ 0) :
    freeIn total (Function.update m p x) = (freeIn total m).filter (· ≠ p) := by
  unfold freeIn
  rw [List.filter_filter]
  refine List.filter_congr fun c _ => ?_
  by_cases same : c = p
  · rw [same, Function.update_self]
    simp [set]
  · rw [Function.update_of_ne same]
    simp [same]

/-- A link from a cluster that has one leaves the free clusters. -/
theorem freeIn_linkIn (linked : p = 0 ∨ m p ≠ 0) (set : x % 2 ^ 28 ≠ 0) :
    freeIn total (linkIn m p x) = freeIn total m := by
  unfold linkIn
  split
  · rfl
  · next other =>
      rw [freeIn_update set, List.filter_eq_self]
      intro c member
      have free := (mem_freeIn.mp member).2
      have ne : c ≠ p := by
        rintro rfl
        exact linked.resolve_left other free
      simpa using ne

/-- Where the loop has a free cluster in hand, or has linked the last one. -/
theorem allocateLoopIn_none_iff (small : total + 2 ≤ 2 ^ 28) : ∀ (n first prev : Nat)
    (m : Nat → Nat),
    ((prev = 0 ∨ m prev ≠ 0) → ((allocateLoopIn total n first prev m).1 = none ↔
      (freeIn total m).length < (n + 1) / 2)) ∧
    ((freeIn total m).head? = some prev → ((allocateLoopIn total n first prev m).1 = none ↔
      (freeIn total m).length < n / 2 + 1))
  | 0, first, prev, m => by
      refine ⟨fun _ => iff_of_false (Option.some_ne_none _) (by omega), fun head => ?_⟩
      refine iff_of_false (Option.some_ne_none _) ?_
      obtain ⟨rest, free⟩ := List.head?_eq_some_iff.mp head
      rw [free, List.length_cons]
      omega
  | n + 1, first, prev, m => by
      cases free : freeIn total m with
      | nil =>
          have none_ : findIn total m = none := by rw [findIn_eq, free, List.head?_nil]
          rw [allocateLoopIn, none_, List.length_nil, List.head?_nil]
          exact ⟨fun _ => iff_of_true rfl (by omega), fun no => nomatch no⟩
      | cons c rest =>
          have found : findIn total m = some c := by rw [findIn_eq, free, List.head?_cons]
          have member : c ∈ freeIn total m := free ▸ List.mem_cons_self
          obtain ⟨range, unset⟩ := mem_freeIn.mp member
          have set : c % 2 ^ 28 ≠ 0 := by omega
          rw [allocateLoopIn, found, List.length_cons, List.head?_cons, Option.some.injEq]
          simp only
          refine ⟨fun linked => ?_, ?_⟩
          · have same : freeIn total (linkIn m prev c) = freeIn total m := freeIn_linkIn linked set
            have rest_ := (allocateLoopIn_none_iff small n (if first = 0 then c else first) c
              (linkIn m prev c)).2
            rw [same, free, List.length_cons, List.head?_cons] at rest_
            rw [rest_ rfl]
            omega
          · rintro rfl
            have linked : linkIn m c c = Function.update m c (c % 2 ^ 28) := if_neg (by omega)
            have fewer : freeIn total (linkIn m c c) = rest := by
              have nodup : (freeIn total m).Nodup := nodup_freeIn
              rw [free, List.nodup_cons] at nodup
              rw [linked, freeIn_update set, free, List.filter_cons_of_neg (by simp),
                List.filter_eq_self]
              intro y later
              have ne : y ≠ c := fun same => nodup.1 (same ▸ later)
              simpa using ne
            have rest_ := (allocateLoopIn_none_iff small n (if first = 0 then c else first) c
              (linkIn m c c)).1 (.inr (by rw [linked, Function.update_self]; exact set))
            rw [fewer] at rest_
            rw [rest_]
            omega

/-- An allocation of `n` clusters takes every second pass a free one, so it fails when there are
fewer. -/
theorem allocateIn_none_iff (small : total + 2 ≤ 2 ^ 28) (n : Nat) (m : Nat → Nat) :
    (allocateIn total n m).1 = none ↔ (freeIn total m).length < (n + 1) / 2 := by
  rw [← (allocateLoopIn_none_iff small n 0 0 m).1 (.inl rfl), allocateIn]
  generalize allocateLoopIn total n 0 0 m = result
  obtain ⟨found, left⟩ := result
  cases found with
  | none => exact iff_of_true rfl rfl
  | some p => exact iff_of_false (Option.some_ne_none _) (Option.some_ne_none _)

end Free

section Allocate

variable {d : Driver} {m : Nat → Nat}

theorem linkPrevious_maps (maps : d.Maps copies m) {prev : Nat} (cluster : Nat)
    (range : prev = 0 ∨ d.fs.InRange prev) :
    Runs (linkPrevious prev cluster) d fun ok d' => ok = true ∧
      ∃ m', TableEffect copies d d' m' ∧ links m' = linkIn (links m) prev cluster := by
  unfold linkPrevious
  by_cases none : prev = 0
  · rw [if_pos none]
    refine Runs.pure ⟨rfl, m, TableEffect.refl maps, ?_⟩
    rw [linkIn, if_pos none]
  · rw [if_neg none]
    have inTable := maps.lookable.tables.inTable (range.resolve_left none).2
    refine Runs.bind (setFatEntry_maps maps inTable cluster) ?_
    rintro _ d' ⟨rfl, effect⟩
    refine Runs.pure ⟨rfl, _, effect, ?_⟩
    rw [linkIn, if_neg none, links_update]

theorem allocateLoop_maps : ∀ (n first prev : Nat) (d : Driver) (m : Nat → Nat), d.Maps copies m →
    (prev = 0 ∨ d.fs.InRange prev) →
    Runs (allocateLoop n first prev) d fun r d' =>
      r = (allocateLoopIn d.fs.totalClusters n first prev (links m)).1 ∧
      (∀ first' prev', r = some (first', prev') → prev' = 0 ∨ d.fs.InRange prev') ∧
      ∃ m', TableEffect copies d d' m' ∧
        links m' = (allocateLoopIn d.fs.totalClusters n first prev (links m)).2
  | 0, first, prev, d, m, maps, range => by
      refine Runs.pure ⟨rfl, ?_, m, TableEffect.refl maps, rfl⟩
      rintro _ _ ⟨⟩
      exact range
  | n + 1, first, prev, d, m, maps, range => by
      unfold allocateLoop
      refine Runs.bind (findFreeCluster_maps maps) ?_
      rintro _ d₁ ⟨rfl, searched⟩
      simp only [allocateLoopIn]
      cases found : findIn d.fs.totalClusters (links m) with
      | none =>
          refine Runs.pure ⟨rfl, ?_, m, searched, rfl⟩
          rintro _ _ ⟨⟩
      | some cluster =>
          have here : d.fs.InRange cluster := findIn_some found
          refine Runs.bind (linkPrevious_maps searched.maps cluster (by
            rw [searched.fs_eq]; exact range)) ?_
          rintro _ d₂ ⟨rfl, m₂, linked, is⟩
          rw [if_pos rfl]
          have step := searched.trans linked
          refine Runs.mono (allocateLoop_maps n _ cluster d₂ m₂ linked.maps (by
            rw [step.fs_eq]; exact .inr here)) ?_
          rintro r d₃ ⟨rfl, last, m₃, rest, is'⟩
          rw [step.fs_eq, is] at is'
          rw [step.fs_eq, is] at last
          rw [step.fs_eq, is]
          exact ⟨rfl, last, m₃, step.trans rest, is'⟩

theorem allocateClusterChain_maps (maps : d.Maps copies m) (n : Nat) :
    Runs (allocateClusterChain n) d fun r d' =>
      r = (allocateIn d.fs.totalClusters n (links m)).1 ∧
      ∃ m', TableEffect copies d d' m' ∧ links m' = (allocateIn d.fs.totalClusters n (links m)).2 := by
  unfold allocateClusterChain
  refine Runs.bind (allocateLoop_maps n 0 0 d m maps (.inl rfl)) ?_
  rintro r d₁ ⟨is, range, m₁, looped, is₁⟩
  simp only [allocateIn]
  generalize allocateLoopIn d.fs.totalClusters n 0 0 (links m) = result at is is₁
  obtain ⟨found, left⟩ := result
  subst is is₁
  cases r with
  | none => exact Runs.pure ⟨rfl, m₁, looped, rfl⟩
  | some p =>
      obtain ⟨first, prev⟩ := p
      simp only [finishChain]
      refine Runs.bind (linkPrevious_maps looped.maps 0x0FFFFFFF (by
        rw [looped.fs_eq]; exact range first prev rfl)) ?_
      rintro _ d₂ ⟨rfl, m₂, closed, is₂⟩
      rw [if_pos rfl]
      exact Runs.pure ⟨rfl, m₂, looped.trans closed, is₂⟩

end Allocate

/-! ## Releasing a chain -/

open Classical in
/-- A map with the entries that the walk from `c` visits cleared. -/
noncomputable def clearVisited (next : Nat → Nat) (node : Nat → Prop) (c : Nat) (m : Nat → Nat) :
    Nat → Nat := fun x => if Visits next node c x then 0 else m x

section Clear

variable {next m : Nat → Nat} {node : Nat → Prop} {c : Nat}

theorem clearVisited_of_visits {x : Nat} (visits : Visits next node c x) :
    clearVisited next node c m x = 0 := if_pos visits

theorem clearVisited_of_not {x : Nat} (other : ¬ Visits next node c x) :
    clearVisited next node c m x = m x := if_neg other

theorem clearVisited_stop (stops : ¬ node (next c)) :
    clearVisited next node c m = Function.update m c 0 := by
  funext x
  by_cases same : x = c
  · rw [clearVisited_of_visits ((Visits.of_stop stops).mpr same), same, Function.update_self]
  · rw [clearVisited_of_not fun visits => same ((Visits.of_stop stops).mp visits),
      Function.update_of_ne same]

/-- Clearing the first entry and then what is visited from the next cluster. -/
theorem clearVisited_step (goes : node (next c)) (unlinked : ¬ node 0) :
    clearVisited (Function.update next c 0) node (next c) (Function.update m c 0) =
      clearVisited next node c m := by
  funext x
  by_cases visits : Visits (Function.update next c 0) node (next c) x
  · rw [clearVisited_of_visits visits,
      clearVisited_of_visits ((Visits.erase goes unlinked).mpr (.inr visits))]
  · rw [clearVisited_of_not visits]
    by_cases same : x = c
    · rw [same, Function.update_self, clearVisited_of_visits .start]
    · rw [Function.update_of_ne same, clearVisited_of_not]
      intro other
      exact ((Visits.erase goes unlinked).mp other).elim same visits

end Clear

/-- An entry that `fat32_free_cluster_chain` can meet on a volume: 0, 1, an end mark, or a
cluster. -/
def Fs.Link (fs : Fs) (x : Nat) : Prop := x < 2 ∨ 0x0FFFFFF8 ≤ x ∨ fs.InRange x

instance (fs : Fs) (x : Nat) : Decidable (fs.Link x) := inferInstanceAs (Decidable (_ ∨ _ ∨ _))

theorem Tables.isValid {fs : Fs} (tables : Tables fs) {c : Nat} (range : fs.InRange c) :
    isValidCluster c = true := by
  have small := tables.range_lt_end
  have := range.1
  have := range.2
  simp only [isValidCluster, Bool.and_eq_true, decide_eq_true_eq]
  omega

/-- A number that `fat32_is_valid_cluster` accepts. -/
abbrev Accepted (c : Nat) : Prop := isValidCluster c = true

theorem accepted_iff {c : Nat} : Accepted c ↔ 2 ≤ c ∧ c < 0x0FFFFFF8 := by
  simp only [Accepted, isValidCluster, Bool.and_eq_true, decide_eq_true_eq]

/-- The numbers that `fat32_is_valid_cluster` accepts, and some others. -/
def numbers : Finset Nat := Finset.range 0x0FFFFFF8

theorem freeChainLoop_walks (passes : Nat) : ∀ (c : Nat) (d : Driver) (m : Nat → Nat),
    d.Maps copies m → Accepted c →
    (∀ x, Visits (links m) Accepted c x → d.fs.InTable x) →
    (linked (links m) Accepted numbers).card + 1 < passes →
    Runs (freeChainLoop passes c) d fun r d' =>
      r = 0 ∧ TableEffect copies d d' (clearVisited (links m) Accepted c m) := by
  induction passes with
  | zero =>
      intro _ _ _ _ _ _ enough
      omega
  | succ passes ih =>
      intro c d m maps valid sane enough
      have inTable := sane c .start
      have unlinked : ¬ Accepted 0 := by decide
      unfold freeChainLoop
      rw [if_pos valid]
      refine Runs.bind (nextCluster_maps maps inTable) ?_
      rintro _ d₁ ⟨rfl, read⟩
      refine Runs.bind (setFatEntry_maps read.maps (by rw [read.fs_eq]; exact inTable) 0) ?_
      rintro _ d₂ ⟨rfl, cleared⟩
      rw [if_pos rfl]
      rw [Nat.zero_mod] at cleared
      have done := read.trans cleared
      have erased : links (Function.update m c 0) = Function.update (links m) c 0 :=
        links_update m c 0
      by_cases last : (isEndOfChain (links m c) || links m c == 0) = true
      · rw [if_pos last]
        have stops : ¬ Accepted (links m c) := by
          simp only [isEndOfChain, Bool.or_eq_true, decide_eq_true_eq, beq_iff_eq] at last
          rw [accepted_iff]
          omega
        rw [clearVisited_stop stops]
        exact Runs.pure ⟨rfl, done⟩
      · rw [if_neg last]
        by_cases goes : Accepted (links m c)
        · have member : c ∈ numbers := Finset.mem_range.mpr (accepted_iff.mp valid).2
          have fewer := linked_erase member goes unlinked
          refine Runs.mono (ih (links m c) d₂ _ cleared.maps goes ?_ ?_) ?_
          · rw [done.fs_eq, erased]
            exact fun x visits => sane x ((Visits.erase goes unlinked).mpr (.inr visits))
          · rw [erased]
            omega
          · rintro r d₃ ⟨rfl, rest⟩
            rw [erased, clearVisited_step goes unlinked] at rest
            exact ⟨rfl, done.trans rest⟩
        · -- the link is 1: the loop condition fails
          obtain ⟨more, rfl⟩ : ∃ more, passes = more + 1 := ⟨passes - 1, by omega⟩
          rw [freeChainLoop, if_neg goes, clearVisited_stop goes]
          exact Runs.pure ⟨rfl, done⟩

theorem card_linked_lt {next : Nat → Nat} :
    (linked next Accepted numbers).card + 1 < 2 ^ 28 := by
  have few := Finset.card_filter_le numbers fun x => Accepted (next x)
  rw [numbers, Finset.card_range] at few
  exact Nat.lt_of_le_of_lt (Nat.succ_le_succ few) (by decide)

/-- From a number that is accepted, where the walk over accepted numbers stays in the table. -/
theorem freeClusterChain_walks {d : Driver} {m : Nat → Nat} (maps : d.Maps copies m) {c : Nat}
    (valid : Accepted c)
    (sane : ∀ x, Visits (links m) Accepted c x → d.fs.InTable x) :
    Runs (freeClusterChain c) d fun r d' =>
      r = 0 ∧ TableEffect copies d d' (clearVisited (links m) Accepted c m) :=
  freeChainLoop_walks (2 ^ 28) c d m maps valid sane card_linked_lt

/-- Where all entries are links, the accepted numbers on the walk are those of clusters. -/
theorem visits_accepted_iff {fs : Fs} (tables : Tables fs) {next : Nat → Nat} {c : Nat}
    (sane : ∀ x, Visits next fs.InRange c x → fs.Link (next x)) (x : Nat) :
    Visits next Accepted c x ↔ Visits next fs.InRange c x := by
  constructor
  · intro visits
    induction visits with
    | start => exact .start
    | @step y _ valid before =>
        refine .step before ?_
        have accepted := accepted_iff.mp valid
        rcases sane y before with low | high | range
        · omega
        · omega
        · exact range
  · intro visits
    induction visits with
    | start => exact .start
    | step _ range before => exact .step before (tables.isValid range)

theorem freeClusterChain_maps {d : Driver} {m : Nat → Nat} (maps : d.Maps copies m) {c : Nat}
    (range : d.fs.InRange c)
    (sane : ∀ x, Visits (links m) d.fs.InRange c x → d.fs.Link (links m x)) :
    Runs (freeClusterChain c) d fun r d' =>
      r = 0 ∧ TableEffect copies d d' (clearVisited (links m) d.fs.InRange c m) := by
  have tables := maps.lookable.tables
  have same := visits_accepted_iff tables sane
  have cleared : clearVisited (links m) Accepted c m =
      clearVisited (links m) d.fs.InRange c m := by
    funext x
    by_cases visits : Visits (links m) d.fs.InRange c x
    · rw [clearVisited_of_visits visits, clearVisited_of_visits ((same x).mpr visits)]
    · rw [clearVisited_of_not visits, clearVisited_of_not fun other => visits ((same x).mp other)]
  rw [← cleared]
  exact freeClusterChain_walks maps (tables.isValid range) fun x visits =>
    tables.inTable (((same x).mp visits).node_of range).2

/-- On any content of the table that consists of links, `fat32_free_cluster_chain` returns 0:
the entries of the clusters that the walk from `c` visits are zero in every copy afterwards,
and all others are what they were. -/
theorem free_clears_visited (d : Driver) (tabled : d.Tabled)
    (content : ∀ x, d.fs.InRange x → d.fs.Link (links (d.copyEntry 0) x)) (c : Nat)
    (start : d.fs.InRange c) :
    Runs (freeClusterChain c) d fun r d' => r = 0 ∧ d'.fs = d.fs ∧
      ∀ k, k < d.fs.numFats → ∀ x, d.fs.InTable x →
        (Visits (links (d.copyEntry 0)) d.fs.InRange c x → d'.copyEntry k x = 0) ∧
        (¬ Visits (links (d.copyEntry 0)) d.fs.InRange c x →
          d'.copyEntry k x = d.copyEntry k x) := by
  have maps := tabled.maps
  refine Runs.mono (freeClusterChain_maps maps start fun x visits =>
    content x (visits.node_of start)) ?_
  rintro r d' ⟨rfl, effect⟩
  refine ⟨rfl, effect.fs_eq, fun k copy x inTable => ?_⟩
  have entry := effect.maps.entries (by rw [effect.fs_eq]; exact copy) trivial (c := x)
    (by rw [effect.fs_eq]; exact inTable)
  rw [entry]
  refine ⟨clearVisited_of_visits, fun other => ?_⟩
  rw [clearVisited_of_not other]
  exact (maps.entries copy trivial inTable).symm

/-- A volume of six clusters with two tables, in which the chain of cluster 3 runs into the
cycle of 4 and 5, and 6 links to itself. -/
def looping : Driver :=
  let table : Buf := ((((Buf.putLe (fun _ => 0) 8 4 0x0FFFFFFF).putLe 12 4 4).putLe 16 4 5).putLe
    20 4 4).putLe 24 4 6
  { formatted with
    ata := { formatted.ata with
      media := fun _ _ l => if l = 1 ∨ l = 2 then table else fun _ => 0 }
    fs := { formatted.fs with dataStart := 3, numFats := 2 } }

theorem looping_tabled : looping.Tabled where
  tables := ⟨by decide, by decide, by decide, by decide⟩
  noFault _ := rfl
  copies := by
    intro k copy j first o _
    change k < 2 at copy
    change j < 1 at first
    obtain rfl : j = 0 := by omega
    obtain rfl | rfl : k = 0 ∨ k = 1 := by omega
    · rfl
    · rfl
  coherent := by
    intro _ high
    exact absurd high (by decide)

theorem looping_free_clears :
    Visits (links (looping.copyEntry 0)) looping.fs.InRange 3 5 ∧
      Runs (freeClusterChain 3) looping fun r d' => r = 0 ∧ d'.fs = looping.fs ∧
        ∀ k, k < looping.fs.numFats → ∀ x, looping.fs.InTable x →
          (Visits (links (looping.copyEntry 0)) looping.fs.InRange 3 x → d'.copyEntry k x = 0) ∧
          (¬ Visits (links (looping.copyEntry 0)) looping.fs.InRange 3 x →
            d'.copyEntry k x = looping.copyEntry k x) := by
  have content : ∀ x, looping.fs.InRange x → looping.fs.Link (links (looping.copyEntry 0) x) := by
    rintro x ⟨low, high⟩
    change x < 8 at high
    interval_cases x <;> decide
  have four : links (looping.copyEntry 0) 3 = 4 := by decide
  have five : links (looping.copyEntry 0) 4 = 5 := by decide
  refine ⟨?_, free_clears_visited looping looping_tabled content 3 (by decide)⟩
  rw [← five, ← four]
  exact .step (.step .start (by rw [four]; decide)) (by rw [four, five]; decide)

/-! ## Interleavings -/

/-- A call of a table function, or a write to the data region. -/
inductive TableOp where
  | next (c : Nat)
  | set (c x : Nat)
  | findFree
  | allocate (n : Nat)
  | free (c : Nat)
  | writeData (lba count : Nat) (buffer : Buf)

inductive TableResult where
  | link (x : Nat)
  | status (r : Int)
  | cluster (c : Option Nat)
  deriving DecidableEq

namespace TableOp

def exec : TableOp → FatM TableResult
  | .next c => return .link (← nextCluster c)
  | .set c x => return .status (← setFatEntry c x)
  | .findFree => return .cluster (← findFreeCluster)
  | .allocate n => return .cluster (← allocateClusterChain n)
  | .free c => return .status (← freeClusterChain c)
  | .writeData lba count buffer => do
      let d ← get
      return .status (← ataWriteSectors .fileCluster d.fs.disk lba count buffer)

/-- What the call is on a plain map. -/
noncomputable def onMap (fs : Fs) (m : Nat → Nat) : TableOp → TableResult × (Nat → Nat)
  | .next c => (.link (m c), m)
  | .set c x => (.status 0, Function.update m c (x % 2 ^ 28))
  | .findFree => (.cluster (findIn fs.totalClusters m), m)
  | .allocate n =>
      (.cluster (allocateIn fs.totalClusters n m).1, (allocateIn fs.totalClusters n m).2)
  | .free c => (.status 0, clearVisited m fs.InRange c m)
  | .writeData _ count _ => (.status count, m)

/-- The call works on clusters of the volume, a write on sectors behind the tables. -/
def Proper (fs : Fs) (m : Nat → Nat) : TableOp → Prop
  | .next c => fs.InRange c
  | .set c _ => fs.InRange c
  | .findFree => True
  | .allocate _ => True
  | .free c => fs.InRange c ∧ ∀ x, Visits m fs.InRange c x → fs.Link (m x)
  | .writeData lba count _ =>
      fs.fatStart + fs.numFats * fs.sectorsPerFat ≤ lba ∧ lba + count ≤ 2 ^ 28

end TableOp

theorem links_clearVisited (node : Nat → Prop) (c : Nat) (m : Nat → Nat) :
    links (clearVisited (links m) node c m) = clearVisited (links m) node c (links m) := by
  funext x
  by_cases visits : Visits (links m) node c x
  · rw [links, clearVisited_of_visits visits, clearVisited_of_visits visits, Nat.zero_mod]
  · rw [links, clearVisited_of_not visits, clearVisited_of_not visits, links]

section DataWrites

variable {d : Driver} {lba count : Nat} {buffer : Buf}

/-- A write behind the tables leaves their sectors. -/
theorem wrote_table_sector (behind : d.fs.fatStart + d.fs.numFats * d.fs.sectorsPerFat ≤ lba)
    (onDisk : lba + count ≤ 2 ^ 28) (source : WriteBuffer) {l : Nat}
    (table : l < d.fs.fatStart + d.fs.numFats * d.fs.sectorsPerFat) :
    (d.wrote source lba count buffer).sector l = d.sector l := by
  rw [Driver.sector_wrote, if_neg]
  rintro ⟨low, high⟩
  have small : lba28 lba = lba := Nat.mod_eq_of_lt (by omega)
  omega

theorem Fs.tableSector_lt (fs : Fs) {k j : Nat} (copy : k < fs.numFats)
    (index : j < fs.sectorsPerFat) :
    fs.tableSector k j < fs.fatStart + fs.numFats * fs.sectorsPerFat := by
  have next : (k + 1) * fs.sectorsPerFat ≤ fs.numFats * fs.sectorsPerFat :=
    Nat.mul_le_mul_right _ copy
  rw [Nat.succ_mul] at next
  unfold Fs.tableSector
  omega

theorem writeData_maps {m : Nat → Nat} (maps : d.Maps copies m)
    (behind : d.fs.fatStart + d.fs.numFats * d.fs.sectorsPerFat ≤ lba)
    (onDisk : lba + count ≤ 2 ^ 28) (source : WriteBuffer) :
    TableEffect copies d (d.wrote source lba count buffer) m := by
  have lookable := maps.lookable
  have same : ∀ {k j}, k < d.fs.numFats → j < d.fs.sectorsPerFat →
      (d.wrote source lba count buffer).sector (d.fs.tableSector k j) =
        d.sector (d.fs.tableSector k j) := fun copy index =>
    wrote_table_sector behind onDisk source (d.fs.tableSector_lt copy index)
  have first := fun {j} (index : j < d.fs.sectorsPerFat) => same lookable.tables.one_le_fats index
  simp only [Fs.tableSector_zero] at first
  refine ⟨⟨⟨lookable.tables, lookable.noFault, ?_⟩, ?_, ?_⟩, rfl, .inl rfl⟩
  · intro low high o bound
    simp only [Driver.wrote_fs, Driver.wrote_fatCacheSector, Driver.wrote_fatSectorCache]
      at low high ⊢
    have here := first (j := d.fatCacheSector - d.fs.fatStart) (by omega)
    rw [Nat.add_sub_cancel' low] at here
    rw [here]
    exact lookable.coherent low high o bound
  · intro k copy given j index o bound
    have here := same copy index
    unfold Fs.tableSector at here
    rw [Driver.wrote_fs, here, first index]
    exact maps.equal k copy given j index o bound
  · intro c inTable
    rw [Driver.copyEntry, Driver.wrote_fs, same lookable.tables.one_le_fats inTable.2]
    exact maps.first c inTable

end DataWrites

/-- Every call does on the tables what it is on the map. -/
theorem TableOp.exec_maps {d : Driver} {m : Nat → Nat} (maps : d.Maps copies m) (op : TableOp)
    (proper : op.Proper d.fs (links m)) :
    Runs op.exec d fun r d' => r = (op.onMap d.fs (links m)).1 ∧
      ∃ m', TableEffect copies d d' m' ∧ links m' = (op.onMap d.fs (links m)).2 := by
  have tables := maps.lookable.tables
  cases op with
  | next c =>
      refine Runs.bind (nextCluster_maps maps (tables.inTable proper.2)) ?_
      rintro _ d' ⟨rfl, effect⟩
      exact Runs.pure ⟨rfl, m, effect, rfl⟩
  | set c x =>
      refine Runs.bind (setFatEntry_maps maps (tables.inTable proper.2) x) ?_
      rintro _ d' ⟨rfl, effect⟩
      exact Runs.pure ⟨rfl, _, effect, links_update m c x⟩
  | findFree =>
      refine Runs.bind (findFreeCluster_maps maps) ?_
      rintro _ d' ⟨rfl, effect⟩
      exact Runs.pure ⟨rfl, m, effect, rfl⟩
  | allocate n =>
      refine Runs.bind (allocateClusterChain_maps maps n) ?_
      rintro _ d' ⟨rfl, m', effect, is⟩
      exact Runs.pure ⟨rfl, m', effect, is⟩
  | free c =>
      refine Runs.bind (freeClusterChain_maps maps proper.1 proper.2) ?_
      rintro _ d' ⟨rfl, effect⟩
      exact Runs.pure ⟨rfl, _, effect, links_clearVisited _ c m⟩
  | writeData lba count buffer =>
      refine Runs.get_bind (Runs.step (ataWriteSectors_run maps.lookable.noFault _ _ _ _ _) ?_)
      exact Runs.pure ⟨rfl, m, writeData_maps maps proper.1 proper.2 .fileCluster, rfl⟩

/-- The calls one after the other. -/
def runTable : List TableOp → FatM (List TableResult)
  | [] => return []
  | op :: rest => do
      let r ← op.exec
      return r :: (← runTable rest)

/-- The calls on a plain map: their results and the map in the end. -/
noncomputable def runMap (fs : Fs) (m : Nat → Nat) : List TableOp → List TableResult × (Nat → Nat)
  | [] => ([], m)
  | op :: rest =>
      let r := op.onMap fs m
      (r.1 :: (runMap fs r.2 rest).1, (runMap fs r.2 rest).2)

/-- Every call is proper when its turn comes. -/
def ProperRun (fs : Fs) (m : Nat → Nat) : List TableOp → Prop
  | [] => True
  | op :: rest => op.Proper fs m ∧ ProperRun fs (op.onMap fs m).2 rest

theorem runTable_maps (ops : List TableOp) : ∀ (d : Driver) (m : Nat → Nat), d.Maps copies m →
    ProperRun d.fs (links m) ops →
    Runs (runTable ops) d fun results d' => results = (runMap d.fs (links m) ops).1 ∧
      ∃ m', TableEffect copies d d' m' ∧ links m' = (runMap d.fs (links m) ops).2 := by
  induction ops with
  | nil =>
      intro d m maps _
      exact Runs.pure ⟨rfl, m, TableEffect.refl maps, rfl⟩
  | cons op rest ih =>
      intro d m maps proper
      refine Runs.bind (op.exec_maps maps proper.1) ?_
      rintro _ d₁ ⟨rfl, m₁, first, is₁⟩
      refine Runs.bind (ih d₁ m₁ first.maps (by rw [first.fs_eq, is₁]; exact proper.2)) ?_
      rintro _ d₂ ⟨rfl, m₂, second, is₂⟩
      rw [first.fs_eq, is₁] at is₂
      rw [first.fs_eq, is₁]
      exact Runs.pure ⟨rfl, m₂, first.trans second, is₂⟩

/-- From equal table copies and an invalid cache, every interleaving of the table functions and
writes to the data region returns what it returns on a plain map of 28-bit values; the copies
stay equal, hold that map, and the cached sector is the one on disk. -/
theorem table_refines_map (d : Driver) (tabled : d.Tabled)
    (invalid : d.fatCacheSector = 0xFFFFFFFF) (ops : List TableOp)
    (proper : ProperRun d.fs (links (d.copyEntry 0)) ops) :
    Runs (runTable ops) d fun results d' =>
      results = (runMap d.fs (links (d.copyEntry 0)) ops).1 ∧
      d'.fs = d.fs ∧
      (∀ k, k < d.fs.numFats → ∀ c, d.fs.InTable c →
        links (d'.copyEntry k) c = (runMap d.fs (links (d.copyEntry 0)) ops).2 c) ∧
      (∀ k, k < d.fs.numFats → ∀ j, j < d.fs.sectorsPerFat → ∀ o, o < 512 →
        d'.sector (d.fs.tableSector k j) o = d'.sector (d.fs.tableSector 0 j) o) ∧
      (d'.fatCacheSector = 0xFFFFFFFF ∨
        ∀ o, o < 512 → d'.fatSectorCache o = d'.sector d'.fatCacheSector o) := by
  refine Runs.mono (runTable_maps ops d _ tabled.maps proper) ?_
  rintro results d' ⟨rfl, m', effect, is⟩
  have fs_eq := effect.fs_eq
  have tabled' := effect.maps.tabled
  refine ⟨rfl, fs_eq, fun k copy c inTable => ?_, fun k copy j index o bound => ?_, ?_⟩
  · rw [← is, links, links, effect.maps.entries (by rw [fs_eq]; exact copy) trivial (c := c)
      (by rw [fs_eq]; exact inTable)]
  · rw [Fs.tableSector_zero, Fs.tableSector, ← fs_eq]
    exact tabled'.copies k (by rw [fs_eq]; exact copy) j (by rw [fs_eq]; exact index) o bound
  · rcases effect.tag with same | ⟨j, index, is'⟩
    · exact .inl (same.trans invalid)
    · refine .inr (tabled'.coherent ?_ ?_)
      · rw [fs_eq, is']
        omega
      · rw [fs_eq, is']
        omega

/-- Entries are set and read, a sector behind the tables is written, a chain is allocated. -/
def demoOps : List TableOp :=
  [.next 3, .set 3 0xF0000007, .writeData 4 1 fun _ => 0xFF, .next 3, .allocate 2, .findFree]

theorem looping_refines_map :
    Runs (runTable demoOps) looping fun results d' =>
      results = (runMap looping.fs (links (looping.copyEntry 0)) demoOps).1 ∧
      d'.fs = looping.fs ∧
      (∀ k, k < looping.fs.numFats → ∀ c, looping.fs.InTable c → links (d'.copyEntry k) c =
        (runMap looping.fs (links (looping.copyEntry 0)) demoOps).2 c) ∧
      (∀ k, k < looping.fs.numFats → ∀ j, j < looping.fs.sectorsPerFat → ∀ o, o < 512 →
        d'.sector (looping.fs.tableSector k j) o = d'.sector (looping.fs.tableSector 0 j) o) ∧
      (d'.fatCacheSector = 0xFFFFFFFF ∨
        ∀ o, o < 512 → d'.fatSectorCache o = d'.sector d'.fatCacheSector o) :=
  have three : looping.fs.InRange 3 := by decide
  table_refines_map looping looping_tabled rfl demoOps
    ⟨three, three, ⟨by decide, by decide⟩, three, trivial, trivial, trivial⟩

/-! ## How long an allocated chain is -/

/-- The links from `first` visit `n` different clusters, all free before, and end in an end
mark; every other entry is as it was. -/
def Driver.ChainOfFree (d : Driver) (n first : Nat) (d' : Driver) : Prop :=
  ∃ l : List Nat, l.length = n ∧ l.Nodup ∧ (∀ c ∈ l, c ∈ d.vol.freeClusters) ∧
    d'.vol.ChainFrom first l ∧ ∀ c, c ∉ l → d'.vol.fat c = d.vol.fat c

/-- The chain that an allocation makes takes every second pass a cluster. -/
theorem allocate_makes_chain {d d' : Driver} (good : d.Good) {n : Nat} (pos : 1 ≤ n)
    (enough : n ≤ d.vol.freeClusters.length) (effect : Effect d d' (d.vol.allocate n).2) :
    ∃ first, (d.vol.allocate n).1 = some first ∧ d.ChainOfFree ((n + 1) / 2) first d' := by
  cases split : d.vol.freeClusters with
  | nil =>
      rw [split, List.length_nil] at enough
      omega
  | cons first rest =>
      have half : (n + 1) / 2 ≤ d.vol.freeClusters.length := by omega
      have result : d.vol.allocate n = (some first,
          d.vol.linkTo 0x0FFFFFFF (d.vol.freeClusters.take ((n + 1) / 2))) := by
        rw [Vol.allocate, if_neg (by omega), if_pos half, split, List.head?_cons]
      rw [result] at effect ⊢
      refine ⟨first, rfl, d.vol.freeClusters.take ((n + 1) / 2), ?_, ?_, ?_, ?_, ?_⟩
      · rw [List.length_take]
        omega
      · exact d.vol.nodup_freeClusters.sublist (List.take_sublist _ _)
      · exact fun c member => List.mem_of_mem_take member
      · have small := good.geometry.range_lt_end
        obtain ⟨more, count⟩ : ∃ more, (n + 1) / 2 = more + 1 := ⟨(n + 1) / 2 - 1, by omega⟩
        rw [effect.vol_eq, split, count, List.take_succ_cons]
        have front : (first :: rest.take more).Sublist d.vol.freeClusters := by
          rw [split]
          exact List.Sublist.cons_cons _ (List.take_sublist _ _)
        refine Chain.of_relink ?_ (by decide) (d.vol.nodup_freeClusters.sublist front) ?_
        · intro y range stops
          have := range.2
          change y < d.fs.totalClusters + 2 at this
          omega
        · exact fun y member => (Vol.mem_freeClusters.mp (front.subset member)).1
      · intro c outside
        rw [effect.vol_eq]
        exact relink_of_not_mem outside

theorem Driver.ChainOfFree.unique {d d' : Driver} {n n' first : Nat}
    (chain : d.ChainOfFree n first d') (other : d.ChainOfFree n' first d') : n = n' := by
  obtain ⟨l, length, -, -, follows, -⟩ := chain
  obtain ⟨l', length', -, -, follows', -⟩ := other
  rw [← length, ← length', Chain.deterministic follows follows']

/-- `fat32_allocate_cluster_chain` makes a chain of the length that it was asked for exactly if
that is one cluster. -/
theorem allocates_asked_iff (d : Driver) (good : d.Good) (n : Nat) (pos : 1 ≤ n)
    (enough : n ≤ d.vol.freeClusters.length) :
    (Runs (allocateClusterChain n) d fun r d' =>
      ∀ first, r = some first → d.ChainOfFree n first d') ↔ n = 1 := by
  obtain ⟨r, d', ran, is, effect⟩ := allocateClusterChain_runs good n
  obtain ⟨first, returned, chain⟩ := allocate_makes_chain good pos enough effect
  rw [returned] at is
  constructor
  · intro asked
    have same := (asked.of_returned ran first is).unique chain
    omega
  · rintro rfl
    refine ⟨r, d', ran, fun first' is' => ?_⟩
    rw [is] at is'
    cases is'
    exact chain

theorem formatted_allocates_one :
    Runs (allocateClusterChain 1) formatted fun r d' =>
      ∀ first, r = some first → formatted.ChainOfFree 1 first d' :=
  (allocates_asked_iff formatted formatted_good 1 le_rfl (by decide)).mpr rfl

/-- Asked for two clusters, the driver links the one it has to itself and then closes the
chain there. -/
theorem formatted_allocates_one_for_two :
    ¬ Runs (allocateClusterChain 2) formatted fun r d' =>
      ∀ first, r = some first → formatted.ChainOfFree 2 first d' := by
  intro asked
  obtain ⟨r, d', ran, is, effect⟩ := allocateClusterChain_runs formatted_good 2
  obtain ⟨first, returned, chain⟩ := allocate_makes_chain formatted_good (by decide) (by decide)
    effect
  have same := (asked.of_returned ran first (is.trans returned)).unique chain
  cases same

end XosKernel.Fat32
