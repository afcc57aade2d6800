/-
# Fat32.UnsetLocals -- outputs that navigation did not set

`fat32_navigate_path` sets the parent cluster and the file name of its caller only if the
components before the last slash lead to a directory and something comes behind that slash.
`fat32_mkdir` looks at the result only to refuse a name that exists, and `fat32_write` only to
refuse a path that leads nowhere; otherwise both go on with what the locals happen to hold.

So `fat32_mkdir` minds its locals exactly for paths with a parent and a last component, or on a
volume without a free cluster, where it gives up first; `fat32_write` exactly for paths with a
last component, with no parent, or into a directory that has no place for any name
(`locals_minded_iff`).
-/
import XosKernel.Fat32.Navigation

namespace XosKernel.Fat32

open XosKernel.Theory

set_option autoImplicit false

/-! ## Write commands -/

/-- How many times `ata_write_sectors` was called. -/
def Driver.commands (d : Driver) : Nat := d.ata.writes.length

theorem grows_commands : Grows Driver.commands :=
  ⟨⟨fun _ _ => rfl, fun _ _ => rfl, fun _ _ => rfl⟩, fun _ _ _ => Nat.le_succ _⟩

theorem ataWriteSectors_adds {source : WriteBuffer} {disk lba count : Nat} {b : Buf}
    {d d' : Driver} {r : Int}
    (returned : (ataWriteSectors source disk lba count b).run d = .ok (r, d')) :
    d'.commands = d.commands + 1 := by
  cases returned
  unfold Ata.writeSectors
  split <;> rfl

/-- An entry is not set without a write. -/
theorem setFatEntry_adds {c x : Nat} {d d' : Driver} (fats : 0 < d.fs.numFats)
    (returned : (setFatEntry c x).run d = .ok (0, d')) : d.commands < d'.commands := by
  unfold setFatEntry at returned
  obtain ⟨_, _, got, rest⟩ := bind_returns returned
  cases got
  obtain ⟨ok, d₁, copied, rest⟩ := bind_returns rest
  cases ok with
  | false => cases rest
  | true =>
      rw [if_pos rfl] at rest
      obtain ⟨_, d₂, synced, last⟩ := bind_returns rest
      cases synced
      cases last
      have same : Driver.commands (if d₁.fatCacheSector =
          (d₁.fs.fatStart + c * 4 % 2 ^ 32 / 512) % 2 ^ 32 then
          { d₁ with fatSectorCache := d₁.fatSectorCache.putLe (c * 4 % 2 ^ 32 % 512) 4 x }
          else d₁) = d₁.commands := by
        split <;> rfl
      rw [same]
      obtain ⟨n, is⟩ : ∃ n, d.fs.numFats = n + 1 := ⟨d.fs.numFats - 1, by omega⟩
      rw [is] at copied
      unfold setFatCopies at copied
      obtain ⟨_, _, got, rest⟩ := bind_returns copied
      cases got
      obtain ⟨read, d₃, reading, rest⟩ := bind_returns rest
      have before := ataReadSectors_keeps grows_commands.steady _ _ _ _ _ _ _ reading
      split at rest
      · obtain ⟨written, d₄, writing, rest⟩ := bind_returns rest
        have more := ataWriteSectors_adds writing
        split at rest
        · have later := setFatCopies_rises grows_commands _ _ _ _ _ _ _ _ rest
          omega
        · cases rest
      · cases rest

/-- A directory is not written back without a write. -/
theorem writeDirectoryCluster_adds {c : Nat} {b : Buf} {d d' : Driver} {r : Bool}
    (returned : (writeDirectoryCluster c b).run d = .ok (r, d')) :
    d'.commands = d.commands + 1 := by
  unfold writeDirectoryCluster at returned
  obtain ⟨_, _, got, rest⟩ := bind_returns returned
  cases got
  split at rest
  · cases rest
  · obtain ⟨written, d₁, writing, last⟩ := bind_returns rest
    cases last
    exact ataWriteSectors_adds writing

theorem addDirectory_rises (parent new : Nat) (b : Buf) (name : Name83) :
    Rises Driver.commands (addDirectory parent new b name) := by
  refine Rises.get_bind fun d => ?_
  split
  · exact Rises.bind (endOfEntries_keeps _).rises fun _ => giveUp_rises grows_commands new
  · refine Rises.bind (writeDirectoryCluster_rises grows_commands _ _) fun written => ?_
    refine Rises.ite ?_ (giveUp_rises grows_commands new)
    exact Rises.bind (refreshRoot_rises grows_commands (fun _ _ => rfl) parent) fun _ => Rises.pure _

theorem mkdirAllocated_rises (parent : Nat) (name : List UInt8) (new : Nat) :
    Rises Driver.commands (mkdirAllocated parent name new) := by
  refine Rises.bind (writeDirectoryCluster_rises grows_commands _ _) fun written =>
    Rises.ite ?_ (giveUp_rises grows_commands new)
  refine Rises.bind (loadDirectoryCluster_keeps grows_commands.steady _).rises fun loaded => ?_
  split
  · exact giveUp_rises grows_commands new
  · split
    · exact giveUp_rises grows_commands new
    · exact addDirectory_rises _ _ _ _

/-! ## What navigation sets -/

/-- The components before the last slash lead to a directory, and something comes behind it. -/
def NamesParent (d : Driver) (path : List UInt8) : Prop :=
  d.parentOf path ≠ none ∧ lastComponent slash path ≠ []

section Navigated

variable {d : Driver} {path : List UInt8}

theorem navigated_named (named : NamesParent d path) :
    ∃ c name, (d.navigated path).parentCluster = some c ∧
      (d.navigated path).filename = some name := by
  obtain ⟨parent, last⟩ := named
  obtain ⟨c, is⟩ := Option.ne_none_iff_exists'.mp parent
  simp only [Driver.navigated, is, if_neg last]
  cases d.find c (lastComponent slash path) with
  | none => exact ⟨c, _, rfl, rfl⟩
  | some e => exact ⟨c, _, rfl, rfl⟩

theorem unnamed_cases (unnamed : ¬ NamesParent d path) :
    d.parentOf path = none ∨ ∃ c, d.parentOf path = some c ∧ lastComponent slash path = [] := by
  unfold NamesParent at unnamed
  cases parent : d.parentOf path with
  | none => exact .inl rfl
  | some c =>
      refine .inr ⟨c, rfl, ?_⟩
      by_contra last
      exact unnamed ⟨by rw [parent]; exact Option.some_ne_none c, last⟩

end Navigated

/-! ## Make directory -/

/-- `fat32_mkdir` uses its locals only where navigation set them, and without a parent or a
last component it returns -1 and writes nothing. -/
structure MkdirMinds (d : Driver) (path : CStr) : Prop where
  set : NamesParent d path.1 → ∀ l l', (fat32Mkdir l path).run d = (fat32Mkdir l' path).run d
  unset : ¬ NamesParent d path.1 → ∀ l, Runs (fat32Mkdir l path) d fun r d' =>
    r = -1 ∧ d'.ata.writes = d.ata.writes

theorem inert_writes : ReadInert fun d : Driver => d.ata.writes :=
  ⟨fun _ _ => rfl, fun _ _ => rfl, fun _ _ => rfl⟩

/-- Allocating one cluster: a search, and an entry for what it found. -/
theorem allocate_one_returns {d d' : Driver} {r : Option Nat}
    (returned : (allocateClusterChain 1).run d = .ok (r, d')) :
    ∃ found d₁, findFreeCluster.run d = .ok (found, d₁) ∧
      ((found = none ∧ r = none ∧ d' = d₁) ∨ found = some 0 ∨
        ∃ c set, found = some c ∧ (setFatEntry c 0x0FFFFFFF).run d₁ = .ok (set, d') ∧
          (set = 0 → r = some c) ∧ (set ≠ 0 → r = none)) := by
  unfold allocateClusterChain at returned
  obtain ⟨pair, d₂, looped, finished⟩ := bind_returns returned
  unfold allocateLoop at looped
  obtain ⟨found, d₁, searched, rest⟩ := bind_returns looped
  refine ⟨found, d₁, searched, ?_⟩
  cases found with
  | none =>
      cases rest
      cases finished
      exact .inl ⟨rfl, rfl, rfl⟩
  | some c =>
      by_cases zero : c = 0
      · exact .inr (.inl (congrArg some zero))
      refine .inr (.inr ⟨c, ?_⟩)
      obtain ⟨ok, d₃, linked, rest⟩ := bind_returns rest
      cases linked
      cases rest
      obtain ⟨ok, d₄, closed, last⟩ := bind_returns finished
      unfold linkPrevious at closed
      rw [if_neg zero] at closed
      obtain ⟨set, d₅, wrote, answer⟩ := bind_returns closed
      cases answer
      by_cases done : set = 0
      · rw [if_pos (decide_eq_true done)] at last
        cases last
        exact ⟨set, rfl, wrote, fun _ => rfl, fun other => absurd done other⟩
      · rw [if_neg (by simpa using done)] at last
        cases last
        exact ⟨set, rfl, wrote, fun same => absurd same done, fun _ => rfl⟩

section Allocate

variable {d d' : Driver} (good : d.Good) {r : Option Nat}
  (returned : (allocateClusterChain 1).run d = .ok (r, d'))
include good returned

/-- A full volume is only read. -/
theorem allocate_one_full (full : d.vol.freeClusters = []) :
    r = none ∧ d'.ata.writes = d.ata.writes := by
  obtain ⟨found, d₁, searched, cases⟩ := allocate_one_returns returned
  obtain ⟨is, -⟩ := (findFreeCluster_runs good).of_returned searched
  rw [full] at is
  rcases cases with ⟨-, none, same⟩ | zero | ⟨c, set, some, -⟩
  · rw [same]
    refine ⟨none, ?_⟩
    exact Keeps.get_bind (fun d => findFreeFrom_keeps inert_writes _ 2) _ _ _ searched
  · rw [is] at zero
    cases zero
  · rw [is] at some
    cases some

/-- On a volume with a free cluster, allocating one writes to the disk. -/
theorem allocate_one_adds (free : d.vol.freeClusters ≠ []) :
    (∃ c, r = some c) ∧ d.commands < d'.commands := by
  obtain ⟨found, d₁, searched, cases⟩ := allocate_one_returns returned
  obtain ⟨is, effect⟩ := (findFreeCluster_runs good).of_returned searched
  obtain ⟨c, head⟩ : ∃ c, d.vol.freeClusters.head? = some c :=
    ⟨_, List.head?_eq_some_head free⟩
  have range := (Vol.mem_freeClusters.mp (List.mem_of_mem_head? head)).1
  rw [head] at is
  subst is
  rcases cases with ⟨none, -⟩ | zero | ⟨c', set, same, wrote, ok, -⟩
  · cases none
  · have low := range.1
    cases zero
    omega
  · cases same
    obtain ⟨set', d₂, wrote', zero, -⟩ := setFatEntry_runs effect.good
      ((effect.inRange_iff c).mpr range).2 0x0FFFFFFF
    rw [wrote] at wrote'
    cases wrote'
    have before := Keeps.get_bind (fun d => findFreeFrom_keeps inert_writes _ 2) _ _ _ searched
    refine ⟨⟨c, ok zero⟩, ?_⟩
    rw [zero] at wrote
    have fats : 0 < d₁.fs.numFats := effect.good.geometry.one_le_fats
    have more := setFatEntry_adds fats wrote
    unfold Driver.commands at more ⊢
    rwa [before] at more

end Allocate

/-- The state without its count of transfers. -/
def Driver.idle (d : Driver) : Driver := { d with ata := { d.ata with transfers := 0 } }

theorem steady_idle : Steady Driver.idle := fun _ _ => rfl

section Idle

variable {d d' : Driver} (same : d'.idle = d.idle)
include same

theorem Driver.good_of_idle (good : d.Good) : d'.Good := by
  have idle : d.idle.Good := ⟨good.geometry, good.mounted, good.noFault, good.copies, good.coherent⟩
  rw [← same] at idle
  exact ⟨idle.geometry, idle.mounted, idle.noFault, idle.copies, idle.coherent⟩

theorem Driver.vol_of_idle : d'.vol = d.vol := by
  have whole : d'.idle.vol = d.idle.vol := by rw [same]
  exact whole

theorem Driver.writes_of_idle : d'.ata.writes = d.ata.writes := by
  have whole : d'.idle.ata.writes = d.idle.ata.writes := by rw [same]
  exact whole

end Idle

/-- `fat32_mkdir` after navigation. -/
theorem fat32Mkdir_after {d d₁ : Driver} {path : CStr} {nav : Nav} (mounted : d.fsMounted = true)
    (navigated : (navigatePath path.1).run d = .ok (nav, d₁)) (fresh : nav.result ≠ 1)
    (l : Locals) :
    (fat32Mkdir l path).run d = ((allocateClusterChain 1) >>= fun allocated =>
      match allocated with
      | none => pure (-1)
      | some new => mkdirAllocated (nav.parentCluster.getD l.parentCluster)
          (nav.filename.getD l.filename.1) new).run d₁ := by
  have got : (get : FatM Driver).run d = .ok (d, d) := rfl
  unfold fat32Mkdir
  rw [run_bind_of_ok got, if_pos mounted, run_bind_of_ok navigated]
  exact congrArg (fun m : FatM Int => m.run d₁) (if_neg fresh)

theorem fat32Mkdir_exists {d d₁ : Driver} {path : CStr} {nav : Nav}
    (mounted : d.fsMounted = true)
    (navigated : (navigatePath path.1).run d = .ok (nav, d₁)) (found : nav.result = 1)
    (l : Locals) : (fat32Mkdir l path).run d = .ok (-1, d₁) := by
  have got : (get : FatM Driver).run d = .ok (d, d) := rfl
  unfold fat32Mkdir
  rw [run_bind_of_ok got, if_pos mounted, run_bind_of_ok navigated, if_pos found]
  rfl

section Mkdir

variable {d : Driver} (good : d.Good) (path : CStr)
include good

/-- With both outputs set, the locals do not matter. -/
theorem fat32Mkdir_named (named : NamesParent d path.1) (l l' : Locals) :
    (fat32Mkdir l path).run d = (fat32Mkdir l' path).run d := by
  obtain ⟨nav, d₁, ran, is, -⟩ :=
    navigatePath_navigates good.noFault good.geometry.roomy path.1
  obtain ⟨c, name, parent, file⟩ := navigated_named named
  rw [← is] at parent file
  by_cases found : nav.result = 1
  · rw [fat32Mkdir_exists good.mounted ran found, fat32Mkdir_exists good.mounted ran found]
  · rw [fat32Mkdir_after good.mounted ran found, fat32Mkdir_after good.mounted ran found,
      parent, file]
    rfl

/-- Without them, `fat32_mkdir` goes on to the allocation. -/
theorem fat32Mkdir_unnamed (unnamed : ¬ NamesParent d path.1) :
    ∃ d₁ : Driver, d₁.Good ∧ d₁.vol = d.vol ∧ d₁.ata.writes = d.ata.writes ∧
      ∀ l, ∃ parent name, (fat32Mkdir l path).run d = ((allocateClusterChain 1) >>= fun allocated =>
        match allocated with
        | none => pure (-1)
        | some new => mkdirAllocated parent name new).run d₁ := by
  obtain ⟨nav, d₁, ran, is, -⟩ :=
    navigatePath_navigates good.noFault good.geometry.roomy path.1
  have idle := navigatePath_keeps steady_idle _ _ _ _ ran
  have writes := Driver.writes_of_idle idle
  have fresh : nav.result ≠ 1 := by
    rw [is]
    rcases unnamed_cases unnamed with nowhere | ⟨c, parent, last⟩
    · rw [navigated_nowhere nowhere]
      exact (by decide : (-1 : Int) ≠ 1)
    · rw [navigated_no_last parent last]
      exact (by decide : (0 : Int) ≠ 1)
  exact ⟨d₁, Driver.good_of_idle idle good, Driver.vol_of_idle idle, writes,
    fun l => ⟨_, _, fat32Mkdir_after good.mounted ran fresh l⟩⟩

theorem mkdirMinds_iff :
    MkdirMinds d path ↔ NamesParent d path.1 ∨ d.vol.freeClusters = [] := by
  constructor
  · intro minds
    by_contra neither
    rw [not_or] at neither
    obtain ⟨unnamed, free⟩ := neither
    obtain ⟨d₁, good₁, vol, writes, goes⟩ := fat32Mkdir_unnamed good path unnamed
    obtain ⟨r, d₃, returned, -, same⟩ := minds.unset unnamed ⟨0, ⟨[], by simp⟩⟩
    obtain ⟨parent, name, after⟩ := goes ⟨0, ⟨[], by simp⟩⟩
    rw [after] at returned
    obtain ⟨allocated, d₂, allocating, rest⟩ := bind_returns returned
    rw [← vol] at free
    obtain ⟨⟨c, rfl⟩, more⟩ := allocate_one_adds good₁ allocating free
    have later := mkdirAllocated_rises _ _ _ _ _ _ rest
    unfold Driver.commands at more later
    rw [same, ← writes] at later
    omega
  · intro either
    refine ⟨fun named => fat32Mkdir_named good path named, fun unnamed l => ?_⟩
    have full := either.resolve_left unnamed
    obtain ⟨d₁, good₁, vol, writes, goes⟩ := fat32Mkdir_unnamed good path unnamed
    obtain ⟨parent, name, after⟩ := goes l
    rw [← vol] at full
    obtain ⟨allocated, d₂, allocating, -⟩ := allocateClusterChain_runs good₁ 1
    obtain ⟨rfl, same⟩ := allocate_one_full good₁ allocating full
    refine ⟨-1, d₂, ?_, rfl, same.trans writes⟩
    rw [after, run_bind_of_ok allocating]
    rfl

end Mkdir

/-! ## Write -/

/-- No name has a place in a directory: no slot is free, and no entry has a name that
`fat32_make_name83` makes. -/
def NoPlace (d : Driver) (c : Nat) : Prop :=
  ∀ (text : CStr) name, makeName83 text.1 = some name → choose name (d.listing c) = none

/-- `fat32_write` uses its locals only where navigation set them, and without a parent or a
last component it returns -1 and writes nothing. -/
structure WriteMinds (d : Driver) (path : CStr) : Prop where
  set : NamesParent d path.1 → ∀ l l' data,
    (fat32Write l path data).run d = (fat32Write l' path data).run d
  unset : ¬ NamesParent d path.1 → ∀ l data, Runs (fat32Write l path data) d fun r d' =>
    r = -1 ∧ d'.ata.writes = d.ata.writes

/-- The first half of `fat32_write` only reads. -/
theorem writeTarget_decides {d d' : Driver} (quiet : d.Quiet) {path : CStr} {l : Locals}
    {w : Option WriteTarget} (returned : (writeTarget l path).run d = .ok (w, d')) :
    w = d.writeSlot l (d.navigated path.1) ∧ d'.idle = d.idle := by
  obtain ⟨nav, d₁, navigating, slot⟩ := writeTarget_returns quiet returned
  rw [navigatePath_returns quiet navigating] at slot
  exact ⟨slot, writeTarget_keeps steady_idle _ _ _ _ _ returned⟩

section Write

variable {d : Driver} (quiet : d.Quiet) (roomy : d.Roomy) (path : CStr)
include quiet roomy

/-- It always returns, if the directory buffers hold a cluster. -/
theorem writeTarget_targets (l : Locals) : Runs (writeTarget l path) d fun w d' =>
    w = d.writeSlot l (d.navigated path.1) ∧ d'.idle = d.idle := by
  have ran : Runs (writeTarget l path) d fun _ _ => True := by
    refine Runs.bind (navigatePath_navigates quiet roomy path.1) ?_
    rintro nav d₁ ⟨-, disks⟩
    split
    · exact Runs.pure trivial
    simp only
    split
    · exact Runs.pure trivial
    split
    · exact Runs.pure trivial
    · refine Runs.bind (loadDirectoryCluster_loads (Driver.quiet_of_disks disks quiet) _) ?_
      rintro _ d₂ ⟨rfl, disks'⟩
      refine Runs.get_bind ?_
      split
      · exact Runs.pure trivial
      · exact Runs.pure trivial
      · refine Runs.step (endOfEntries_run ?_) (Runs.pure trivial)
        exact Driver.roomy_of_disks disks' (Driver.roomy_of_disks disks roomy)
  obtain ⟨w, d', returned, -⟩ := ran
  exact ⟨w, d', returned, writeTarget_decides quiet returned⟩

/-- With both outputs set, the locals do not matter. -/
theorem writeTarget_named (named : NamesParent d path.1) (l l' : Locals) :
    (writeTarget l path).run d = (writeTarget l' path).run d := by
  obtain ⟨nav, d₁, ran, is, -⟩ := navigatePath_navigates quiet roomy path.1
  obtain ⟨c, name, parent, file⟩ := navigated_named named
  rw [← is] at parent file
  unfold writeTarget
  rw [run_bind_of_ok ran, run_bind_of_ok ran, parent, file]
  rfl

variable (mounted : d.fsMounted = true)
include mounted

theorem fat32Write_named (named : NamesParent d path.1) (l l' : Locals) (data : List UInt8) :
    (fat32Write l path data).run d = (fat32Write l' path data).run d := by
  have got : (get : FatM Driver).run d = .ok (d, d) := rfl
  obtain ⟨w, d', returned, -⟩ := writeTarget_targets quiet roomy path l
  have returned' := returned
  rw [writeTarget_named quiet roomy path named l l'] at returned'
  unfold fat32Write
  rw [run_bind_of_ok got, run_bind_of_ok got, if_pos mounted, if_pos mounted,
    run_bind_of_ok returned, run_bind_of_ok returned']

/-- A write without a target. -/
theorem fat32Write_untargeted {l : Locals} (nothing : d.writeSlot l (d.navigated path.1) = none)
    (data : List UInt8) :
    Runs (fat32Write l path data) d fun r d' => r = -1 ∧ d'.idle = d.idle := by
  unfold fat32Write
  refine Runs.get_bind ?_
  rw [if_pos mounted]
  refine Runs.bind (writeTarget_targets quiet roomy path l) ?_
  rintro _ d₁ ⟨rfl, idle⟩
  rw [nothing]
  exact Runs.pure ⟨rfl, idle⟩

/-- A write with a target writes the directory of the target. -/
theorem fat32Write_targeted {l : Locals} {t : WriteTarget}
    (target : d.writeSlot l (d.navigated path.1) = some t) {r : Int} {d' : Driver}
    (returned : (fat32Write l path []).run d = .ok (r, d')) : d.commands < d'.commands := by
  have got : (get : FatM Driver).run d = .ok (d, d) := rfl
  obtain ⟨w, d₁, targeted, rfl, idle⟩ := writeTarget_targets quiet roomy path l
  have writes := Driver.writes_of_idle idle
  have before : d₁.commands = d.commands := congrArg List.length writes
  unfold fat32Write at returned
  rw [run_bind_of_ok got, if_pos mounted, run_bind_of_ok targeted, target] at returned
  obtain ⟨_, _, got₁, rest⟩ := bind_returns returned
  cases got₁
  obtain ⟨_, d₂, freed, rest⟩ := bind_returns rest
  have freeing := freeOldChain_rises grows_commands _ _ _ _ freed
  rw [if_pos rfl] at rest
  obtain ⟨ok, d₃, written, rest⟩ := bind_returns rest
  have writing := writeDirectoryCluster_adds written
  have refreshed : d₃.commands ≤ d'.commands := by
    cases ok with
    | false =>
        cases rest
        exact Nat.le_refl _
    | true =>
        obtain ⟨_, d₄, refreshing, last⟩ := bind_returns rest
        cases last
        exact refreshRoot_rises grows_commands (fun _ _ => rfl) _ _ _ _ refreshing
  omega

theorem writeMinds_iff : WriteMinds d path ↔
    ∀ c, d.parentOf path.1 = some c → lastComponent slash path.1 ≠ [] ∨ NoPlace d c := by
  constructor
  · intro minds c parent
    by_contra neither
    rw [not_or, not_not] at neither
    obtain ⟨last, place⟩ := neither
    have unnamed : ¬ NamesParent d path.1 := fun named => named.2 last
    simp only [NoPlace, not_forall] at place
    obtain ⟨text, name, made, chosen⟩ := place
    obtain ⟨s, chosen⟩ := Option.ne_none_iff_exists'.mp chosen
    obtain ⟨r, d', returned, -, same⟩ := minds.unset unnamed ⟨0, text⟩ []
    have target : d.writeSlot ⟨0, text⟩ (d.navigated path.1) =
        some ⟨c, d.directory c, name, s.1, s.2⟩ := by
      have nonempty : text.1 ≠ [] := by
        intro empty
        rw [empty] at made
        cases made
      rw [navigated_no_last parent last]
      simp [Driver.writeSlot, nonempty, made, chosen]
    have more := fat32Write_targeted quiet roomy path mounted target returned
    unfold Driver.commands at more
    rw [same] at more
    omega
  · intro condition
    refine ⟨fun named => fat32Write_named quiet roomy path mounted named, fun unnamed l data => ?_⟩
    refine Runs.mono (fat32Write_untargeted quiet roomy path mounted ?_ data) fun r d' h =>
      ⟨h.1, Driver.writes_of_idle h.2⟩
    rcases unnamed_cases unnamed with nowhere | ⟨c, parent, last⟩
    · rw [navigated_nowhere nowhere]
      simp [Driver.writeSlot]
    · have place := (condition c parent).resolve_left (not_not.mpr last)
      rw [navigated_no_last parent last]
      unfold Driver.writeSlot
      simp only [Option.getD_some, Option.getD_none]
      split
      · rfl
      · cases made : makeName83 l.filename.1 with
        | none => rfl
        | some name => simp [place l.filename name made]

end Write

/-- A write with a target, on a good volume. -/
theorem fat32Write_writes {d : Driver} (good : d.Good) {path : CStr} {l : Locals} {t : WriteTarget}
    (target : d.writeSlot l (d.navigated path.1) = some t) (root : d.vol.InRange d.vol.root)
    (parent : d.vol.InRange t.parentCluster) {old : List Nat}
    (clears : d.vol.Clears t.entry.firstCluster old) (data : List UInt8) :
    Runs (fat32Write l path data) d fun r d' =>
      r = (d.vol.writeOver t old data).1 ∧ d'.vol = (d.vol.writeOver t old data).2 ∧ d'.Good := by
  unfold fat32Write
  refine Runs.get_bind ?_
  rw [if_pos good.mounted]
  refine Runs.bind (writeTarget_targets good.noFault good.geometry.roomy path l) ?_
  rintro _ d₁ ⟨rfl, idle⟩
  rw [target]
  have vol := Driver.vol_of_idle idle
  refine Runs.mono (writeEntry_writes old (Driver.good_of_idle idle good) ?_ ?_ ?_) ?_
  · rw [vol]
    exact parent
  · rw [vol]
    exact root
  · rw [vol]
    exact clears
  · rintro r d' ⟨is, effect⟩
    have result := effect.vol_eq
    rw [vol] at is result
    exact ⟨is, result, effect.good⟩

/-- On every volume and for every path, `fat32_mkdir` minds which outputs navigation set exactly
if the path has a parent directory and a last component, or no cluster is free; `fat32_write`
exactly if it has a last component, no parent, or no name has a place in the parent. -/
theorem locals_minded_iff {d : Driver} (good : d.Good) (path : CStr) :
    (MkdirMinds d path ↔ NamesParent d path.1 ∨ d.vol.freeClusters = []) ∧
      (WriteMinds d path ↔
        ∀ c, d.parentOf path.1 = some c → lastComponent slash path.1 ≠ [] ∨ NoPlace d c) :=
  ⟨mkdirMinds_iff good path,
    writeMinds_iff good.noFault good.geometry.roomy path good.mounted⟩

/-- `mkdir a` on the formatted volume names a parent. -/
theorem simple_name_minded : MkdirMinds formatted (.ofBytes [0x61]) := by
  have named : NamesParent formatted [0x61] := ⟨by decide +kernel, by decide⟩
  exact (locals_minded_iff formatted_wellFormed.good (.ofBytes [0x61])).1.mpr (.inl named)

/-- `mkdir x/y` on the formatted volume, which has no directory `x`: if the locals hold the
root directory and the name `z`, the call makes `z` there and returns 0. -/
theorem missing_parent_made : ¬ MkdirMinds formatted (.ofBytes [0x78, 0x2F, 0x79]) := by
  have unnamed : ¬ NamesParent formatted [0x78, 0x2F, 0x79] := fun named =>
    named.1 (by decide +kernel)
  have made : Runs.check (fat32Mkdir ⟨2, .ofBytes [0x7A]⟩ (.ofBytes [0x78, 0x2F, 0x79])) formatted
      (fun r _ => r = 0) = true := by decide +kernel
  obtain ⟨r, d', ran, zero⟩ := Runs.of_check made
  intro minds
  obtain ⟨failed, -⟩ := (minds.unset unnamed ⟨2, .ofBytes [0x7A]⟩).of_returned ran
  rw [of_decide_eq_true zero] at failed
  exact absurd failed (by decide)

end XosKernel.Fat32
