/-
# Fat32.WriteBounds -- where the driver writes

`fat32_is_valid_cluster` does not know how many clusters there are.  A release writes outside the
tables when it comes to a number behind them, and a directory is updated outside the volume when
its cluster is none of the volume's.  On a consistent geometry nothing else goes wrong: every
other command goes to its exact address, whatever the table and the directories hold
(`writes_within_partition`).
-/
import XosKernel.Fat32.CountedReads
import XosKernel.Fat32.DirectoryUpdates
import XosKernel.Fat32.MountGeometry
import XosKernel.Fat32.StrayRelease

namespace XosKernel.Fat32

open XosKernel.Theory

set_option autoImplicit false

/-! ## Writing clusters -/

section Clusters

variable {d : Driver} {c : Nat}

theorem allows_cluster {fs : Fs} (g : Geometry fs) (range : fs.InRange c) {source : WriteBuffer}
    (cluster : source ≠ .table) {count : Nat} (fits : count ≤ fs.sectorsPerCluster) :
    fs.Allows ⟨source, (diskToAta fs.disk).1, (diskToAta fs.disk).2, fs.clusterToLba c, count⟩ where
  disk := rfl
  table := fun no => absurd no cluster
  cluster := fun _ => ⟨fits, c, range, g.lba_eq range⟩

/-- What is written to a cluster does not show in the table. -/
theorem arrived_still (g : Geometry d.fs) (range : d.fs.InRange c) {source : WriteBuffer}
    (cluster : source ≠ .table) {count n : Nat} (fits : count ≤ d.fs.sectorsPerCluster) (b : Buf) :
    Still d (d.arrived source (d.fs.clusterToLba c) count n b) := by
  refine ⟨Inside.arrived (allows_cluster g range cluster fits) n b, ?_⟩
  have entries : ∀ y, d.fs.InTable y →
      (d.arrived source (d.fs.clusterToLba c) count n b).entry y = d.entry y := by
    intro y inTable
    have below := g.table_sector_lt (k := 0) g.one_le_fats inTable.2
    rw [Driver.entry, Driver.entry, Driver.sector_arrived, g.lba28_eq range, if_neg]
    · rfl
    · rintro ⟨low, -⟩
      have place : d.fs.entrySector y = d.fs.fatStart + y * 4 / 512 := rfl
      change d.fs.dataStart + (c - 2) * d.fs.sectorsPerCluster ≤ d.fs.entrySector y at low
      omega
  rintro y inTable x (disk | cache)
  · exact .inl (.inl (disk.trans (entries y inTable)))
  · exact .inl (.inr cache)

theorem ataWriteCluster_still (g : Geometry d.fs) (range : d.fs.InRange c) {source : WriteBuffer}
    (cluster : source ≠ .table) {count : Nat} (fits : count ≤ d.fs.sectorsPerCluster) (b : Buf) :
    Runs (ataWriteSectors source d.fs.disk (d.fs.clusterToLba c) count b) d
      fun _ d' => Still d d' := by
  obtain ⟨r, n, ran, -, -⟩ := ataWriteSectors_cases d source (d.fs.clusterToLba c) count b
  exact ⟨r, _, ran, arrived_still g range cluster fits b⟩

theorem writeDirectoryCluster_still (g : Geometry d.fs) (range : d.fs.InRange c) (b : Buf) :
    Runs (writeDirectoryCluster c b) d fun _ d' => Still d d' := by
  have small := g.spc_le
  rw [writeDirectoryCluster]
  refine Runs.get_bind ?_
  rw [if_neg (by simp only [dirBufferSize]; omega)]
  exact Runs.bind (ataWriteCluster_still g range (by decide) le_rfl b)
    fun _ _ still => Runs.pure still

theorem saveRootDirectory_still (g : Geometry d.fs) (range : d.fs.InRange d.fs.rootDirCluster) :
    Runs saveRootDirectory d fun _ d' => Still d d' := by
  have fits : d.fs.dirSectors ≤ d.fs.sectorsPerCluster := by
    by_cases large : dirBufferSize < d.fs.sectorsPerCluster * 512
    · rw [Fs.dirSectors, if_pos large]
      simp only [dirBufferSize] at large ⊢
      omega
    · rw [Fs.dirSectors, if_neg large]
  rw [saveRootDirectory]
  refine Runs.get_bind ?_
  exact Runs.bind (ataWriteCluster_still g range (by decide) fits _)
    fun _ _ still => Runs.pure still

/-- The loop of `fat32_write` over a chain within clusters of the volume. -/
theorem writeLoop_still {T : Nat → Prop} (passes : Nat) (src : List UInt8) (remaining : Nat)
    (g : Geometry d.fs) (confined : Confined d T) (range : ∀ c, T c → d.fs.InRange c)
    (start : isValidCluster c = true → T c) :
    Runs (writeLoop (d.fs.sectorsPerCluster * 512) passes src remaining c) d
      fun _ d' => Still d d' := by
  have small := g.spc_le
  induction passes generalizing d src remaining c with
  | zero => exact Runs.pure (Step.refl _ d)
  | succ passes ih =>
      simp only [writeLoop]
      by_cases more : 0 < remaining ∧ isValidCluster c = true
      · rw [if_pos more]
        refine Runs.get_bind ?_
        rw [if_neg (by simp only [fileClusterBufSize]; omega)]
        generalize (d.fileClusterBuf.blit 0 (d.fs.sectorsPerCluster * 512) (fun _ => 0)).blit 0
          (min remaining (d.fs.sectorsPerCluster * 512)) (Buf.ofList src) = buffer
        refine Runs.modify_bind ?_
        have buffered : Still d { d with fileClusterBuf := buffer } :=
          Still.of_same rfl rfl rfl rfl rfl
        have member := start more.2
        refine Runs.bind (ataWriteCluster_still (d := { d with fileClusterBuf := buffer }) g
          (range c member) (show WriteBuffer.fileCluster ≠ .table by decide) le_rfl _) ?_
        intro written d₁ stored
        have here := buffered.trans stored
        by_cases complete : written = d.fs.sectorsPerCluster
        · rw [if_pos complete]
          refine Runs.bind (nextCluster_still (here.geometry g)
            ((confined.still here).inTable c member)) ?_
          rintro next d₂ ⟨still, read⟩
          have both := here.trans still
          by_cases last : (isEndOfChain next || next == 0) = true
          · rw [if_pos last]
            exact Runs.pure both
          · rw [if_neg last]
            have nonzero : next ≠ 0 := by
              rintro rfl
              exact last (by simp)
            have size : d.fs.sectorsPerCluster = d₂.fs.sectorsPerCluster := by rw [both.fs_eq]
            rw [size]
            refine Runs.mono (ih _ _ (both.geometry g) (confined.still both) ?_ ?_ (by omega)) ?_
            · rw [both.fs_eq]
              exact range
            · exact (confined.still here).sees c member next (read.resolve_left nonzero)
            · exact fun _ _ later => both.trans later
        · rw [if_neg complete]
          exact Runs.pure here
      · rw [if_neg more]
        exact Runs.pure (Step.refl _ d)

theorem ataReadSectors_ticked (d : Driver) (disk lba count : Nat) (b : Buf) :
    ∃ r, (ataReadSectors disk lba count b).run d = .ok (r, d.ticked) := by
  have state : { d with ata :=
      (d.ata.readSectors (diskToAta disk).1 (diskToAta disk).2 lba count b).2.2 } = d.ticked := by
    simp only [Ata.readSectors, Driver.ticked]
    split <;> rfl
  rw [← state]
  exact ⟨_, rfl⟩

theorem ticked_still (d : Driver) (b : Buf) : Still d { d.ticked with rootDirBuffer := b } :=
  Still.of_same rfl rfl rfl rfl rfl

theorem refreshRoot_still (p : Nat) : Runs (refreshRoot p) d fun _ d' => Still d d' := by
  rw [refreshRoot]
  refine Runs.get_bind ?_
  by_cases root : p = d.fs.rootDirCluster
  · rw [if_pos root, loadRootDirectory]
    refine Runs.get_bind ?_
    obtain ⟨r, ran⟩ := ataReadSectors_ticked d d.fs.disk (d.fs.clusterToLba d.fs.rootDirCluster)
      d.fs.dirSectors d.rootDirBuffer
    exact Runs.step ran (Runs.modify_bind (Runs.pure (ticked_still d _)))
  · rw [if_neg root]
    exact Runs.pure (Step.refl _ d)

end Clusters

/-! ## The second half of a write -/

section Write

variable {d : Driver} {target : WriteTarget}

theorem writeEmpty_inside (g : Geometry d.fs) (parent : d.fs.InRange target.parentCluster)
    (b : Buf) : Runs (writeEmpty target b) d fun _ d' => Inside d d' := by
  rw [writeEmpty]
  refine Runs.bind (writeDirectoryCluster_still g parent b) fun ok d₁ still => ?_
  cases ok with
  | false => exact Runs.pure still.inside
  | true =>
      refine Runs.bind (refreshRoot_still target.parentCluster) fun _ d₂ later => ?_
      exact Runs.pure (still.trans later).inside

theorem writeAllocated_inside {T : Nat → Prop} {first : Nat} (g : Geometry d.fs)
    (parent : d.fs.InRange target.parentCluster) (confined : Confined d T)
    (range : ∀ c, T c → d.fs.InRange c) (start : isValidCluster first = true → T first) (b : Buf)
    (data : List UInt8) :
    Runs (writeAllocated target b data first) d fun _ d' => Inside d d' := by
  -- Until the end nothing shows in the table, so the chain can be given back at any point.
  have back : ∀ d', Still d d' → Runs (giveUp first) d' fun _ d'' => Inside d d'' :=
    fun d' still => Runs.mono (giveUp_inside (still.geometry g) (confined.still still) start)
      fun _ _ inside => still.inside.trans inside
  simp only [writeAllocated]
  refine Runs.get_bind ?_
  refine Runs.bind (writeLoop_still _ _ _ g confined range start) fun ok d₁ still₁ => ?_
  cases ok with
  | false => exact back d₁ still₁
  | true =>
      refine Runs.bind (writeDirectoryCluster_still (still₁.geometry g)
        (by rw [still₁.fs_eq]; exact parent) _) fun ok d₂ still₂ => ?_
      have both := still₁.trans still₂
      cases ok with
      | false => exact back d₂ both
      | true =>
          refine Runs.bind (refreshRoot_still target.parentCluster) fun ok d₃ still₃ => ?_
          cases ok with
          | false => exact back d₃ (both.trans still₃)
          | true => exact Runs.pure (both.trans still₃).inside

/-- Nothing is left to update in a directory outside the volume: there is data, and no clusters
for it. -/
def FindsNone (d : Driver) (target : WriteTarget) (data : List UInt8) : Prop :=
  data ≠ [] ∧ ∀ d₁ d₂ first, (freeOldChain target.entry.firstCluster).run d = .ok ((), d₁) →
    (allocateClusterChain (clustersNeeded (d.fs.sectorsPerCluster * 512) data.length)).run d₁ ≠
      .ok (some first, d₂)

theorem writeEntry_inside (g : Geometry d.fs) (stays : d.ReleaseStays target.entry.firstCluster)
    {data : List UInt8} (parent : d.fs.InRange target.parentCluster ∨ FindsNone d target data) :
    Runs (writeEntry target data) d fun _ d' => Inside d d' := by
  simp only [writeEntry]
  refine Runs.get_bind ?_
  obtain ⟨_, d₁, freed, inside⟩ := freeOldChain_inside g stays
  refine Runs.step freed ?_
  have g₁ : Geometry d₁.fs := inside.fs_eq.symm ▸ g
  by_cases empty : data = []
  · rw [if_pos empty]
    have range := parent.resolve_right fun none => none.1 empty
    rw [← inside.fs_eq] at range
    exact Runs.mono (writeEmpty_inside g₁ range _) fun _ _ later => inside.trans later
  · rw [if_neg empty, if_neg (by have := g.one_le_spc; omega)]
    obtain ⟨allocated, d₂, allocating, later, chain⟩ := allocateClusterChain_inside
      (clustersNeeded (d.fs.sectorsPerCluster * 512) data.length) g₁
    refine Runs.step allocating ?_
    have both := inside.trans later
    cases allocated with
    | none => exact Runs.pure both
    | some first =>
        obtain ⟨T', range, confined', head, -⟩ := chain first rfl
        have inRange := parent.resolve_right fun none =>
          none.2 d₁ d₂ first freed allocating
        refine Runs.mono (writeAllocated_inside (T := T') ?_ ?_ confined' ?_ ?_ _ data)
          fun _ _ last => both.trans last
        · rw [both.fs_eq]
          exact g
        · rw [both.fs_eq]
          exact inRange
        · rw [later.fs_eq]
          exact range
        · intro valid
          refine head ?_
          rintro rfl
          cases valid

/-- A write releases the old chain first. -/
theorem WriteParts.freed {data : List UInt8} {r : Int} {d' : Driver}
    (parts : WriteParts target data d r d') :
    ∃ d₁, (freeOldChain target.entry.firstCluster).run d = .ok ((), d₁) ∧
      d'.Logged d₁.ata.writes := by
  have grows := fun d₁ : Driver => grows_logged d₁.ata.writes
  have root : ∀ (d₁ d : Driver) b, Driver.Logged d₁.ata.writes { d with rootDirBuffer := b } =
      d.Logged d₁.ata.writes := fun _ _ _ => rfl
  cases parts with
  | empty d₁ b _ freed stored =>
      refine ⟨d₁, freed, ?_⟩
      have rises : Rises (Driver.Logged d₁.ata.writes) (writeEmpty target b) :=
        Rises.bind (writeDirectoryCluster_rises (grows d₁) _ _) fun _ => Rises.ite
          (Rises.bind (refreshRoot_rises (grows d₁) (root d₁) _) fun _ => Rises.pure _)
          (Rises.pure _)
      exact rises _ _ _ stored List.suffix_rfl
  | short d₁ _ freed allocated _ =>
      exact ⟨d₁, freed,
        allocateClusterChain_rises (grows d₁) _ _ _ _ allocated List.suffix_rfl⟩
  | full d₁ d₂ b first _ freed allocated stored =>
      refine ⟨d₁, freed, ?_⟩
      have back := giveUp_rises (grows d₁) first
      have rises : Rises (Driver.Logged d₁.ata.writes) (writeAllocated target b data first) := by
        refine Rises.get_bind fun d => ?_
        refine Rises.bind (writeLoop_rises (grows d₁) (fun _ _ => rfl) _ _ _ _ _) fun ok => ?_
        refine Rises.ite (Rises.bind (writeDirectoryCluster_rises (grows d₁) _ _) fun ok => ?_) back
        refine Rises.ite (Rises.bind (refreshRoot_rises (grows d₁) (root d₁) _) fun ok => ?_) back
        exact Rises.ite (Rises.pure _) back
      exact rises _ _ _ stored
        (allocateClusterChain_rises (grows d₁) _ _ _ _ allocated List.suffix_rfl)

end Write

/-! ## The second half of mkdir -/

section Mkdir

variable {d : Driver} {T : Nat → Prop} {new parent : Nat} (g : Geometry d.fs)
  (confined : Confined d T) (member : T new)
include g confined member

theorem addDirectory_inside (b : Buf) (name : Name83)
    (inRange : scanFree (d.fs.entries b) 0 ≠ none → d.fs.InRange parent) :
    Runs (addDirectory parent new b name) d fun _ d' => Inside d d' := by
  have small := g.spc_le
  rw [addDirectory]
  refine Runs.get_bind ?_
  cases scanned : scanFree (d.fs.entries b) 0 with
  | none =>
      simp only [Fs.endOfEntries]
      rw [if_neg (by simp only [dirBufferSize, Fs.maxEntries, direntSize]; omega)]
      exact Runs.step rfl (giveUp_inside g confined fun _ => member)
  | some slot =>
      have range := inRange (by rw [scanned]; exact Option.some_ne_none slot)
      refine Runs.bind (writeDirectoryCluster_still g range _) fun ok d₁ still => ?_
      cases ok with
      | false =>
          exact Runs.mono (giveUp_inside (still.geometry g) (confined.still still) fun _ => member)
            fun _ _ inside => still.inside.trans inside
      | true =>
          refine Runs.bind (refreshRoot_still parent) fun _ d₂ later => ?_
          exact Runs.pure (still.trans later).inside

/-- The parent must be a cluster of the volume if the new entry gets a slot in it. -/
theorem mkdirAllocated_inside (range : ∀ c, T c → d.fs.InRange c) {dirname : List UInt8}
    (inRange : ∀ d₁, (writeDirectoryCluster new (newDirectoryBuffer new parent)).run d =
      .ok (true, d₁) → makeName83 dirname ≠ none → scanFree (d₁.listing parent) 0 ≠ none →
      d.fs.InRange parent) :
    Runs (mkdirAllocated parent dirname new) d fun _ d' => Inside d d' := by
  have back : ∀ d', Still d d' → Runs (giveUp new) d' fun _ d'' => Inside d d'' :=
    fun d' still => Runs.mono (giveUp_inside (still.geometry g) (confined.still still)
      fun _ => member) fun _ _ inside => still.inside.trans inside
  rw [mkdirAllocated]
  obtain ⟨ok, d₁, stored, still₁⟩ := writeDirectoryCluster_still g (range new member)
    (newDirectoryBuffer new parent)
  refine Runs.step stored ?_
  cases ok with
  | false => exact back d₁ still₁
  | true =>
      rw [if_pos rfl]
      refine Runs.step (loadDirectoryCluster_run d₁ parent) ?_
      have both := still₁.trans (ticked_still d₁ d₁.rootDirBuffer)
      by_cases works : d₁.ata.fault d₁.ata.transfers = none
      swap
      · rw [if_neg works]
        exact back _ both
      rw [if_pos works]
      cases made : makeName83 dirname with
      | none => exact back _ both
      | some name =>
          refine Runs.mono (addDirectory_inside (both.geometry g) (confined.still both) member
            _ name fun free => ?_) fun _ _ inside => both.inside.trans inside
          rw [both.fs_eq]
          exact inRange d₁ stored (by rw [made]; exact Option.some_ne_none name) free

end Mkdir

/-! ## Inside the partition -/

/-- A consistent geometry in a partition of the given number of sectors: tables and clusters lie
inside it, and it ends where 28-bit addresses do. -/
structure Consistent (fs : Fs) (sectors : Nat) : Prop extends Geometry fs where
  starts : fs.startLba ≤ fs.fatStart
  ends : fs.dataStart + fs.totalClusters * fs.sectorsPerCluster ≤ fs.startLba + sectors

/-- An allowed command, with all its sectors in the partition and below `2 ^ 28`. -/
structure Fs.Within (fs : Fs) (sectors : Nat) (w : WriteCommand) : Prop extends fs.Allows w where
  low : fs.startLba ≤ w.lba
  high : w.lba + w.count ≤ fs.startLba + sectors
  addressable : w.lba + w.count ≤ 2 ^ 28

theorem Fs.Allows.within {fs : Fs} {sectors : Nat} {w : WriteCommand} (allowed : fs.Allows w)
    (consistent : Consistent fs sectors) : fs.Within sectors w := by
  have starts := consistent.starts
  have ends := consistent.ends
  have disk := consistent.on_disk
  have after := consistent.data_after_tables
  have bounds : fs.startLba ≤ w.lba ∧ w.lba + w.count ≤ fs.startLba + sectors ∧
      w.lba + w.count ≤ 2 ^ 28 := by
    by_cases table : w.buffer = .table
    · obtain ⟨one, k, copy, j, index, place⟩ := allowed.table table
      have below := consistent.table_sector_lt copy index
      rw [Fs.tableSector] at place
      omega
    · obtain ⟨fits, c, range, place⟩ := allowed.cluster table
      have last := Geometry.cluster_end fs range
      omega
  exact ⟨allowed, bounds.1, bounds.2.1, bounds.2.2⟩

/-- The exact address of a cluster, whatever its number. -/
def Fs.address (fs : Fs) (c : Nat) : Int := fs.dataStart + ((c : Int) - 2) * fs.sectorsPerCluster

/-- From `d` to `d'` every write command is allowed and stays in the partition.  The updates of
directories are those of the clusters `dirs` in this order, or of the first of them, each at the
exact address. -/
structure WritesWithin (sectors : Nat) (d : Driver) (dirs : List Nat) (d' : Driver) : Prop where
  commands : ∃ new, d'.ata.writes = new ++ d.ata.writes ∧ ∀ w ∈ new, d.fs.Within sectors w
  directories : ∃ new, d'.updates = new ++ d.updates ∧
    new.reverse.map (fun w => (w.lba : Int)) <+: dirs.map d.fs.address

/-- From `d` to `d'` only allowed commands were given, and of the directories `dirs` the first ones
were updated, which are clusters of the volume. -/
structure Placed (d : Driver) (dirs : List Nat) (d' : Driver) : Prop where
  inside : Inside d d'
  updated : ∃ cs, Updates d cs d' ∧ cs <+: dirs ∧ ∀ c ∈ cs, d.fs.InRange c

section Places

variable {d d' : Driver} {sectors : Nat} {dirs : List Nat} {c : Nat}

theorem Geometry.address_eq {fs : Fs} (g : Geometry fs) (range : fs.InRange c) :
    (fs.clusterToLba c : Int) = fs.address c := by
  have low := range.1
  have number : ((c - 2 : Nat) : Int) = (c : Int) - 2 := by omega
  rw [g.lba_eq range, Fs.address]
  push_cast
  rw [number]

/-- A directory update at the exact address of a number shows that it is one of the clusters. -/
theorem Geometry.inRange_of_address {fs : Fs} (g : Geometry fs) {w : WriteCommand}
    (allowed : fs.Allows w) (directory : w.buffer = .directory)
    (place : (w.lba : Int) = fs.address c) : fs.InRange c := by
  obtain ⟨-, x, range, here⟩ := allowed.cluster (by rw [directory]; decide)
  have exact_ := g.address_eq range
  rw [g.lba_eq range, ← here, place] at exact_
  have some_ := g.one_le_spc
  have product : ((c : Int) - 2) * fs.sectorsPerCluster = ((x : Int) - 2) * fs.sectorsPerCluster :=
    Int.add_left_cancel exact_
  have same : (c : Int) - 2 = (x : Int) - 2 := Int.eq_of_mul_eq_mul_right (by omega) product
  obtain rfl : c = x := by omega
  exact range

theorem Placed.within (placed : Placed d dirs d') (consistent : Consistent d.fs sectors) :
    WritesWithin sectors d dirs d' := by
  obtain ⟨new, writes, allowed⟩ := placed.inside.writes
  obtain ⟨cs, ⟨-, new', updates, places⟩, known, range⟩ := placed.updated
  refine ⟨⟨new, writes, fun w member => (allowed w member).within consistent⟩, new', updates, ?_⟩
  have exact_ : new'.reverse.map (fun w => (w.lba : Int)) = cs.map d.fs.address := by
    calc new'.reverse.map (fun w => (w.lba : Int))
        = (new'.reverse.map WriteCommand.lba).map (Nat.cast : Nat → Int) := by
          rw [List.map_map]
          rfl
      _ = (cs.map d.fs.clusterToLba).map (Nat.cast : Nat → Int) := by rw [places]
      _ = cs.map d.fs.address := by
          rw [List.map_map]
          exact List.map_congr_left fun c member =>
            consistent.toGeometry.address_eq (range c member)
  rw [exact_]
  exact known.map _

theorem WritesWithin.inside (within : WritesWithin sectors d dirs d') (fs_eq : d'.fs = d.fs) :
    Inside d d' := by
  obtain ⟨new, writes, allowed⟩ := within.commands
  exact ⟨fs_eq, new, writes, fun w member => (allowed w member).toAllows⟩

/-- Where all of the directories were updated, all of them are clusters of the volume. -/
theorem WritesWithin.inRange (within : WritesWithin sectors d dirs d') (g : Geometry d.fs)
    {cs : List Nat} (updates : Updates d cs d') (all : cs.length = dirs.length) :
    ∀ c ∈ dirs, d.fs.InRange c := by
  obtain ⟨new, writes, allowed⟩ := within.commands
  obtain ⟨shown, same, places⟩ := within.directories
  obtain ⟨shown', same', lbas⟩ := updates.commands
  obtain rfl : shown = shown' := List.append_cancel_right (same.symm.trans same')
  have filtered : shown = new.filter fun w => w.buffer = .directory := by
    unfold Driver.updates at same
    rw [writes, List.filter_append] at same
    exact (List.append_cancel_right same).symm
  have count : shown.length = cs.length := by simpa using congrArg List.length lbas
  have exact_ := places.eq_of_length (by simp [count, all])
  intro c member
  have address : d.fs.address c ∈ dirs.map d.fs.address := List.mem_map_of_mem member
  rw [← exact_, List.mem_map] at address
  obtain ⟨w, given, place⟩ := address
  rw [List.mem_reverse, filtered, List.mem_filter, decide_eq_true_eq] at given
  exact g.inRange_of_address (allowed w given.1).toAllows given.2 place

/-- A search before changes nothing. -/
theorem Placed.after {d₁ : Driver} (inside : Inside d d₁) (updates : Updates d [] d₁)
    (placed : Placed d₁ dirs d') : Placed d dirs d' := by
  obtain ⟨cs, later, known, range⟩ := placed.updated
  refine ⟨inside.trans placed.inside, cs, updates.trans later, known, ?_⟩
  rw [← inside.fs_eq]
  exact range

end Places

/-! ## The conditions -/

section Conditions

variable (d : Driver) (locals : Locals) (path : CStr)

/-- There is data, and after the release fewer clusters are free than its allocation takes. -/
def Driver.Short (t : WriteTarget) (data : List UInt8) : Prop :=
  data ≠ [] ∧ (freeIn d.fs.totalClusters (d.released t.entry.firstCluster)).length <
    (clustersNeeded (d.fs.sectorsPerCluster * 512) data.length + 1) / 2

/-- The release of the chosen entry stays in the table, and the directory is a cluster of the
volume, unless it is not updated because clusters are short. -/
def Driver.WriteStays (data : List UInt8) : Prop :=
  ∀ t, d.writeSlot locals (d.navigated path.1) = some t →
    (d.later (d.loads path.1 + 1)).ReleaseStays t.entry.firstCluster ∧
      (d.fs.InRange t.parentCluster ∨ d.Lookable ∧ d.Short t data)

/-- The same for the entry that `fat32_delete` finds in the root directory, if that can be
loaded. -/
def Driver.DeleteStays : Prop :=
  d.FirstSucceeds → ∀ i e, d.deleteSlot path.1 = some (i, e) →
    (d.later 1).ReleaseStays e.firstCluster ∧ d.fs.InRange d.fs.rootDirCluster

/-- No cluster is free for a new directory; or its name has no 8.3 form, or the parent `p` shows no
free slot once the new directory is stored. -/
def Driver.NoRoom (p : Nat) (name : List UInt8) : Prop :=
  ∀ new, findIn d.fs.totalClusters d.entry = some new →
    makeName83 name = none ∨ scanFree ((d.withDirectory new p).listing p) 0 = none

/-- The name exists, or the parent is a cluster of the volume, or it is not updated for want of
room.  Where a load of the navigation fails, `fat32_mkdir` may go on with what its local variable
held. -/
def Driver.MkdirStays : Prop :=
  let nav := d.navigated path.1
  let parent := nav.parentCluster.getD locals.parentCluster
  (d.Works (d.loads path.1) ∧ nav.result = 1) ∨
    (d.fs.InRange parent ∧ (d.Works (d.loads path.1) ∨ d.fs.InRange locals.parentCluster)) ∨
    (d.Lookable ∧ d.NoRoom parent (nav.filename.getD locals.filename.1))

/-- The directory that `fat32_write` is going to update. -/
def Driver.writeParents : List Nat :=
  match (writeTarget locals path).run d with
  | .ok (some t, _) => [t.parentCluster]
  | _ => []

/-- The parent that `fat32_mkdir` goes on with. -/
def Driver.mkdirParent : Nat :=
  match (navigatePath path.1).run d with
  | .ok (nav, _) => nav.parentCluster.getD locals.parentCluster
  | .error _ => locals.parentCluster

variable (sectors : Nat)

/-- `fat32_write` returns, and writes where it should. -/
def Driver.WriteWithin (data : List UInt8) : Prop :=
  Runs (fat32Write locals path data) d fun _ d' =>
    WritesWithin sectors d (d.writeParents locals path) d'

/-- `fat32_delete` returns, and writes where it should. -/
def Driver.DeleteWithin : Prop :=
  Runs (fat32Delete path) d fun _ d' => WritesWithin sectors d [d.fs.rootDirCluster] d'

/-- `fat32_mkdir` returns, and writes where it should. -/
def Driver.MkdirWithin : Prop :=
  Runs (fat32Mkdir locals path) d fun _ d' =>
    ∃ new, WritesWithin sectors d [new, d.mkdirParent locals path] d'

end Conditions

/-! ## The searches -/

/-- Only the count of transfers and `root_dir_buffer` changed. -/
def Reads (d d' : Driver) : Prop :=
  ∃ n b, d' = { d with ata := { d.ata with transfers := n }, rootDirBuffer := b }

theorem Reads.still {d d' : Driver} (reads : Reads d d') : Still d d' := by
  obtain ⟨n, b, rfl⟩ := reads
  exact Still.of_same rfl rfl rfl rfl rfl

theorem reads_readSafe {d : Driver} (g : Geometry d.fs) : ReadSafe (Reads d) := by
  refine ⟨?_, ?_⟩
  · rintro d' ⟨n, b, rfl⟩
    exact ⟨g.one_le_spc, g.spc_le⟩
  · rintro d' m ⟨n, b, rfl⟩
    exact ⟨m, b, rfl⟩

/-- A search through directories returns. -/
theorem Safe.runs {α : Type} {m : FatM α} {d : Driver}
    (safe : Safe (Reads d) (fun _ => False) m) :
    Runs m d fun a d' => m.run d = .ok (a, d') ∧ Reads d d' := by
  obtain ⟨kept, stopped⟩ := safe d ⟨d.ata.transfers, d.rootDirBuffer, rfl⟩
  cases ran : m.run d with
  | error e => exact (stopped e ran).elim
  | ok r => exact ⟨r.1, r.2, ran, rfl, kept r.1 r.2 ran⟩

theorem Reads.updates {d d' : Driver} (reads : Reads d d') : Updates d [] d' := by
  obtain ⟨n, b, rfl⟩ := reads
  exact .of_log rfl

/-- `fat32_load_root_directory` is one transfer. -/
theorem loadRootDirectory_run (d : Driver) : ∃ b, loadRootDirectory.run d =
    .ok (decide d.FirstSucceeds, { d.later 1 with rootDirBuffer := b }) ∧
      (d.FirstSucceeds → d.fs.entries b = d.listing d.fs.rootDirCluster) := by
  have got : (get : FatM Driver).run d = .ok (d, d) := rfl
  unfold loadRootDirectory
  rw [run_bind_of_ok got]
  cases first : d.ata.fault d.ata.transfers with
  | some k =>
      have failed : ¬ d.FirstSucceeds := fun works => by
        rw [Driver.FirstSucceeds, first] at works
        cases works
      rw [run_bind_of_ok (ataReadSectors_failed first _ _ _ _), decide_eq_false failed]
      exact ⟨Buf.blit d.rootDirBuffer 0 (min k (d.fs.dirSectors - 1) * 512) (d.ata.stream
        (diskToAta d.fs.disk).1 (diskToAta d.fs.disk).2 (d.fs.clusterToLba d.fs.rootDirCluster)),
        rfl, fun works => absurd works failed⟩
  | none =>
      have works : d.FirstSucceeds := first
      rw [run_bind_of_ok (ataReadSectors_ok first _ _ _ _), decide_eq_true works]
      refine ⟨Buf.blit d.rootDirBuffer 0 (d.fs.dirSectors * 512) (d.ata.stream
        (diskToAta d.fs.disk).1 (diskToAta d.fs.disk).2 (d.fs.clusterToLba d.fs.rootDirCluster)),
        ?_, fun _ => Fs.entries_congr fun i hi => ?_⟩
      · simp only [decide_true]
        rfl
      · have inside : i < 0 + d.fs.dirSectors * 512 := by
          rw [Nat.zero_add]
          exact hi
        unfold Driver.directory
        rw [Buf.blit_of_inside (Nat.zero_le _) inside, Buf.blit_of_inside (Nat.zero_le _) inside]

/-- The search of `fat32_delete`, whatever its transfer does. -/
theorem deleteEntry_reads {d : Driver} (roomy : d.Roomy) (path : CStr) :
    ∃ b, (deleteEntry path).run d =
      .ok (if d.FirstSucceeds then d.deleteSlot path.1 else none,
        { d.later 1 with rootDirBuffer := b }) := by
  obtain ⟨b, loaded, contents⟩ := loadRootDirectory_run d
  refine ⟨b, ?_⟩
  unfold deleteEntry
  rw [run_bind_of_ok loaded]
  by_cases works : d.FirstSucceeds
  · rw [if_pos works, decide_eq_true works, if_pos rfl]
    unfold Driver.deleteSlot
    cases makeName83 (skipSlash path.1) with
    | none => rfl
    | some name =>
        have got : ∀ d : Driver, (get : FatM Driver).run d = .ok (d, d) := fun _ => rfl
        rw [run_bind_of_ok (got _), scanDirectory_run (by exact roomy), Option.bind_some,
          ← contents works]
        rfl
  · rw [if_neg works, decide_eq_false works, if_neg Bool.false_ne_true]
    rfl

/-! ## Writes -/

section Write

variable {d d' : Driver} {sectors : Nat} {t : WriteTarget} {data : List UInt8} {r : Int}
  (g : Geometry d.fs)
include g

/-- Whether the allocation after a release succeeds. -/
theorem allocates_none_iff (lookable : d.Lookable) {first n : Nat} {d₁ : Driver}
    {allocated : Option Nat} (stays : d.ReleaseStays first)
    (freed : (freeOldChain first).run d = .ok ((), d₁))
    (returned : (allocateClusterChain n).run d₁ = .ok (allocated, d')) :
    allocated = none ↔
      (freeIn d.fs.totalClusters (d.released first)).length < (n + 1) / 2 := by
  obtain ⟨fs_eq, m, maps, links_eq⟩ := (freeOldChain_released g lookable stays).of_returned freed
  obtain ⟨rfl, -⟩ := (allocateClusterChain_maps maps n).of_returned returned
  have small := g.range_lt_end
  rw [links_eq, fs_eq]
  exact allocateIn_none_iff (by omega) n _

theorem Driver.Short.findsNone (lookable : d.Lookable) (stays : d.ReleaseStays t.entry.firstCluster)
    (short : d.Short t data) : FindsNone d t data := by
  refine ⟨short.1, fun d₁ d₂ first freed allocated => ?_⟩
  cases (allocates_none_iff g lookable stays freed allocated).mpr short.2

theorem writeEntry_placed (stays : d.ReleaseStays t.entry.firstCluster)
    (parent : d.fs.InRange t.parentCluster ∨ FindsNone d t data) :
    Runs (writeEntry t data) d fun _ d' => Placed d [t.parentCluster] d' := by
  obtain ⟨r, d', ran, inside⟩ := writeEntry_inside g stays parent
  refine ⟨r, d', ran, inside, ?_⟩
  have parts := writeEntry_parts ran
  have updates := parts.updates
  rcases parent with range | none_
  · rcases updates with ⟨-, nothing⟩ | one
    · exact ⟨[], nothing, List.nil_prefix, by simp⟩
    · exact ⟨_, one, List.prefix_rfl, by simpa using range⟩
  · cases parts with
    | empty d₁ b nothing freed stored => exact absurd nothing none_.1
    | short d₁ given freed allocated failed =>
        refine ⟨[], ?_, List.nil_prefix, by simp⟩
        exact (Updates.of_keeps (freeOldChain_keeps inert_updateLog _) freed).trans
          (Updates.of_keeps (allocateClusterChain_keeps inert_updateLog _) allocated)
    | full d₁ d₂ b first given freed allocated stored =>
        exact absurd allocated (none_.2 d₁ d₂ first freed)

/-- What a write that stayed within bounds says about the state before. -/
theorem writeEntry_stays (returned : (writeEntry t data).run d = .ok (r, d'))
    (within : WritesWithin sectors d [t.parentCluster] d') :
    d.ReleaseStays t.entry.firstCluster ∧
      (d.Lookable → d.fs.InRange t.parentCluster ∨ d.Short t data) := by
  have parts := writeEntry_parts returned
  have updates := parts.updates
  have fs_eq : d'.fs = d.fs := updates.elim (fun none => none.2.fs_eq) Updates.fs_eq
  have range : Updates d [t.parentCluster] d' → d.fs.InRange t.parentCluster := fun one =>
    within.inRange g one rfl _ (List.mem_singleton_self _)
  obtain ⟨d₁, freed, later⟩ := parts.freed
  have stays : d.ReleaseStays t.entry.firstCluster := by
    have release := Updates.of_keeps (freeOldChain_keeps inert_updateLog _) freed
    have logged := freeOldChain_rises (grows_logged d.ata.writes) _ _ _ _ freed List.suffix_rfl
    exact freeOldChain_stays g freed ((within.inside fs_eq).split release.fs_eq logged later).1
  refine ⟨stays, fun lookable => ?_⟩
  cases parts with
  | empty d₁ b nothing freed stored =>
      rcases updates with ⟨failed, -⟩ | one
      · obtain rfl := nothing
        exact absurd (writeEntry_empty_done lookable.noFault returned) failed
      · exact .inl (range one)
  | short d₁ given freed allocated failed =>
      exact .inr ⟨given, (allocates_none_iff g lookable stays freed allocated).mp rfl⟩
  | full d₁ d₂ b first given freed allocated stored =>
      have quiet : d₂.Quiet := Driver.quiet_of_settings
        ((allocateClusterChain_keeps inert_settings _ _ _ _ allocated).trans
          (freeOldChain_keeps inert_settings _ _ _ _ freed)) lookable.noFault
      rcases updates with ⟨failed, -⟩ | one
      · exact absurd (writeAllocated_done quiet stored) failed
      · exact .inl (range one)

end Write

/-! ## Making directories -/

section Mkdir

variable {d d' : Driver} {sectors p : Nat} {name : List UInt8} (g : Geometry d.fs)
include g

omit g in
/-- What there is room for depends on the disks and on the table entries. -/
theorem Driver.NoRoom.of_disks {d₁ : Driver} (noRoom : d.NoRoom p name)
    (disks : d₁.disks = d.disks) (entries : d₁.entry = d.entry) : d₁.NoRoom p name := by
  intro new found
  have fs := Driver.fs_of_disks disks
  have same : (d₁.withDirectory new p).disks = (d.withDirectory new p).disks := by
    unfold Driver.withDirectory Driver.withEntry
    rw [fs]
    exact Driver.wrote_disks (Driver.foldl_withCopy_disks _ disks) _ _ _ _
  rw [entries, fs] at found
  rw [Driver.listing_of_disks same]
  exact noRoom new found

omit g in
/-- Which cluster an allocation of one returns. -/
theorem allocate_one_finds (lookable : d.Lookable) {allocated : Option Nat}
    (returned : (allocateClusterChain 1).run d = .ok (allocated, d')) :
    allocated = findIn d.fs.totalClusters d.entry := by
  obtain ⟨rfl, -⟩ := (allocateClusterChain_maps lookable.maps 1).of_returned returned
  rw [d.links_copyEntry]
  unfold allocateIn allocateLoopIn
  cases findIn d.fs.totalClusters d.entry with
  | none => rfl
  | some c => rfl

/-- The second half of `fat32_mkdir`. -/
theorem mkdir_placed (parent : d.fs.InRange p ∨ d.Lookable ∧ d.NoRoom p name) :
    Runs (do
      match ← allocateClusterChain 1 with
      | none => return -1
      | some new => mkdirAllocated p name new) d fun _ d' => ∃ new, Placed d [new, p] d' := by
  obtain ⟨allocated, d₁, allocating, inside, chain⟩ := allocateClusterChain_inside 1 g
  refine Runs.step allocating ?_
  have before := Updates.of_keeps (allocateClusterChain_keeps inert_updateLog 1) allocating
  cases allocated with
  | none => exact Runs.pure ⟨0, inside, [], before, List.nil_prefix, by simp⟩
  | some new =>
      obtain ⟨T, range, confined, head, started⟩ := chain new rfl
      have positive := started Nat.one_pos
      have member := head positive
      have g₁ : Geometry d₁.fs := inside.fs_eq.symm ▸ g
      -- a slot for the entry is found in a cluster of the volume only
      have inRange : ∀ d₂, (writeDirectoryCluster new (newDirectoryBuffer new p)).run d₁ =
          .ok (true, d₂) → makeName83 name ≠ none → scanFree (d₂.listing p) 0 ≠ none →
          d.fs.InRange p := by
        intro d₂ stored named free
        refine parent.resolve_right fun none_ => ?_
        obtain ⟨lookable, noRoom⟩ := none_
        have disks := Driver.withDirectory_disks lookable.noFault positive allocating stored
        rw [Driver.listing_of_disks disks] at free
        exact (noRoom new (allocate_one_finds lookable allocating).symm).elim named free
      obtain ⟨r, d', ran, later⟩ := mkdirAllocated_inside g₁ confined member
        (by rw [inside.fs_eq]; exact range) (by rw [inside.fs_eq]; exact inRange)
      refine ⟨r, d', ran, new, inside.trans later, ?_⟩
      obtain ⟨ok, d₂, stored, cases_⟩ := mkdirAllocated_updates ran
      rcases cases_ with ⟨one, -⟩ | ⟨both, rfl, named, free⟩
      · refine ⟨[new], before.trans one, ⟨[p], rfl⟩, ?_⟩
        simpa using range new member
      · refine ⟨[new, p], before.trans both, List.prefix_rfl, ?_⟩
        simpa using ⟨range new member, inRange d₂ stored named free⟩

/-- What a `fat32_mkdir` that stayed within bounds says about the state before. -/
theorem mkdir_stays (lookable : d.Lookable) {r : Int}
    (returned : (do
      match ← allocateClusterChain 1 with
      | none => return -1
      | some new => mkdirAllocated p name new : FatM Int).run d = .ok (r, d')) {new : Nat}
    (within : WritesWithin sectors d [new, p] d') : d.fs.InRange p ∨ d.NoRoom p name := by
  obtain ⟨allocated, d₁, allocating, rest⟩ := bind_returns returned
  have found := allocate_one_finds lookable allocating
  have before := Updates.of_keeps (allocateClusterChain_keeps inert_updateLog 1) allocating
  cases allocated with
  | none =>
      refine .inr fun new some_ => ?_
      rw [← found] at some_
      cases some_
  | some c =>
      have positive : c ≠ 0 := by
        have := (findIn_some found.symm).1
        omega
      obtain ⟨ok, d₂, stored, cases_⟩ := mkdirAllocated_updates rest
      have quiet₁ : d₁.Quiet := Driver.quiet_of_settings
        (allocateClusterChain_keeps inert_settings _ _ _ _ allocating) lookable.noFault
      obtain rfl := writeDirectoryCluster_done quiet₁ stored
      rcases cases_ with ⟨-, full⟩ | ⟨both, -⟩
      · refine .inr fun new some_ => ?_
        rw [← found] at some_
        cases some_
        have disks := Driver.withDirectory_disks lookable.noFault positive allocating stored
        rw [← Driver.listing_of_disks disks]
        exact full quiet₁
      · exact .inl (within.inRange g (before.trans both) rfl p (by simp))

end Mkdir

/-! ## The calls -/

section Calls

variable {d : Driver} {sectors : Nat} (g : Geometry d.fs) (mounted : d.fsMounted = true)
  {locals : Locals} {path : CStr}
include g mounted

theorem fat32Write_placed {data : List UInt8} (stays : d.WriteStays locals path data) :
    Runs (fat32Write locals path data) d fun _ d' => Placed d (d.writeParents locals path) d' := by
  simp only [fat32Write]
  refine Runs.get_bind ?_
  rw [if_pos mounted]
  obtain ⟨found, d₁, -, ran, reads⟩ :=
    Safe.runs (writeTarget_safe (reads_readSafe g) locals path)
  refine Runs.step ran ?_
  have parents : d.writeParents locals path = found.toList.map WriteTarget.parentCluster := by
    unfold Driver.writeParents
    rw [ran]
    cases found <;> rfl
  rw [parents]
  cases found with
  | none => exact Runs.pure ⟨reads.still.inside, [], reads.updates, List.nil_prefix, by simp⟩
  | some t =>
      obtain ⟨slot, rfl⟩ := writeTarget_either g.roomy ran
      obtain ⟨release, parent⟩ := stays t slot
      have parent' : (d.later (d.loads path.1 + 1)).fs.InRange t.parentCluster ∨
          FindsNone (d.later (d.loads path.1 + 1)) t data :=
        parent.imp_right fun both => Driver.Short.findsNone (d := d.later _) g
          ⟨both.1.tables, both.1.noFault, both.1.coherent⟩ release both.2
      exact Runs.mono (writeEntry_placed (d := d.later _) g release parent') fun _ _ placed =>
        placed.after reads.still.inside reads.updates

theorem fat32Write_stays {data : List UInt8} (lookable : d.Lookable)
    (within : d.WriteWithin locals path sectors data) : d.WriteStays locals path data := by
  obtain ⟨r, d', returned, within⟩ := within
  intro t slot
  have works : d.Works (d.loads path.1 + 1) := fun i _ => lookable.noFault _
  obtain ⟨n, ran, count⟩ := writeTarget_reads g.roomy locals works
  obtain rfl := count (by rw [slot]; exact Option.some_ne_none t)
  rw [slot] at ran
  have parents : d.writeParents locals path = [t.parentCluster] := by
    unfold Driver.writeParents
    rw [ran]
  rw [parents] at within
  unfold fat32Write at returned
  obtain ⟨_, _, got, rest⟩ := bind_returns returned
  cases got
  rw [if_pos mounted, run_bind_of_ok ran] at rest
  obtain ⟨release, parent⟩ := writeEntry_stays (d := d.later _) g rest
    ⟨within.commands, within.directories⟩
  refine ⟨release, (parent ⟨lookable.tables, lookable.noFault, lookable.coherent⟩).imp_right ?_⟩
  exact fun short => ⟨lookable, short⟩

theorem fat32Delete_iff (consistent : Consistent d.fs sectors) :
    d.DeleteWithin path sectors ↔ d.DeleteStays path := by
  obtain ⟨b, ran⟩ := deleteEntry_reads g.roomy path
  have reads : Reads d { d.later 1 with rootDirBuffer := b } := ⟨_, b, rfl⟩
  constructor
  · rintro ⟨r, d', returned, within⟩ works i e slot
    unfold fat32Delete at returned
    obtain ⟨_, _, got, rest⟩ := bind_returns returned
    cases got
    rw [if_pos mounted, run_bind_of_ok ran, if_pos works, slot] at rest
    obtain ⟨_, d₁, freed, rest⟩ := bind_returns rest
    obtain ⟨_, d₂, stored, saved⟩ := bind_returns rest
    cases stored
    have release := Updates.of_keeps (freeOldChain_keeps inert_updateLog _) freed
    have saves := saveRootDirectory_updates saved
    have root : d₁.fs.rootDirCluster = d.fs.rootDirCluster := by rw [release.fs_eq]; rfl
    have all : Updates d [d.fs.rootDirCluster] d' := by
      refine (reads.updates.trans release).trans (?_ : Updates d₁ _ d')
      rw [← root]
      exact ⟨saves.fs_eq, saves.commands⟩
    refine ⟨?_, within.inRange g all rfl _ (List.mem_singleton_self _)⟩
    have inside := within.inside all.fs_eq
    have early := freeOldChain_rises (grows_logged d.ata.writes) _ _ _ _ freed List.suffix_rfl
    have late : d'.Logged d₁.ata.writes := by
      have rises : Rises (Driver.Logged d₁.ata.writes) saveRootDirectory :=
        Rises.get_bind fun _ => Rises.bind
          (ataWriteSectors_rises (grows_logged _) _ _ _ _ _) fun _ => Rises.pure _
      exact rises _ _ _ saved List.suffix_rfl
    have first : Inside { d.later 1 with rootDirBuffer := b } d₁ :=
      (Inside.split (d := { d.later 1 with rootDirBuffer := b })
        ⟨inside.fs_eq, inside.writes⟩ release.fs_eq early late).1
    exact freeOldChain_stays (d := { d.later 1 with rootDirBuffer := b }) g freed first
  · intro stays
    refine Runs.mono (P := fun _ d' => Placed d [d.fs.rootDirCluster] d') ?_
      fun _ _ placed => placed.within consistent
    simp only [fat32Delete]
    refine Runs.get_bind ?_
    rw [if_pos mounted]
    refine Runs.step ran ?_
    have nothing : Placed d [d.fs.rootDirCluster] { d.later 1 with rootDirBuffer := b } :=
      ⟨reads.still.inside, [], reads.updates, List.nil_prefix, by simp⟩
    by_cases works : d.FirstSucceeds
    swap
    · rw [if_neg works]
      exact Runs.pure nothing
    rw [if_pos works]
    cases slot : d.deleteSlot path.1 with
    | none => exact Runs.pure nothing
    | some hit =>
        obtain ⟨i, e⟩ := hit
        obtain ⟨release, root⟩ := stays works i e slot
        obtain ⟨_, d₁, freed, inside⟩ := freeOldChain_inside
          (d := { d.later 1 with rootDirBuffer := b }) g release
        have updates := Updates.of_keeps (freeOldChain_keeps inert_updateLog _) freed
        have fs_eq : d₁.fs = d.fs := inside.fs_eq
        refine Runs.step freed (Runs.modify_bind ?_)
        obtain ⟨r, d', saved, still⟩ := saveRootDirectory_still
          (d := { d₁ with
            rootDirBuffer := Dirent.store d₁.rootDirBuffer (i * direntSize) e.deleted })
          (show Geometry d₁.fs by rw [fs_eq]; exact g)
          (show d₁.fs.InRange d₁.fs.rootDirCluster by rw [fs_eq]; exact root)
        have saves := saveRootDirectory_updates saved
        have last : Updates d₁ [d.fs.rootDirCluster] d' := by
          rw [← fs_eq]
          exact ⟨saves.fs_eq, saves.commands⟩
        refine ⟨r, d', saved, ?_, [d.fs.rootDirCluster], ?_, List.prefix_rfl, by simpa using root⟩
        · exact (reads.still.inside.trans inside).trans ⟨still.fs_eq, still.inside.writes⟩
        · exact (reads.updates.trans updates).trans last

theorem fat32Mkdir_placed (stays : d.MkdirStays locals path) :
    Runs (fat32Mkdir locals path) d fun _ d' =>
      ∃ new, Placed d [new, d.mkdirParent locals path] d' := by
  simp only [fat32Mkdir]
  refine Runs.get_bind ?_
  rw [if_pos mounted]
  obtain ⟨nav, d₁, -, ran, reads⟩ := Safe.runs (navigatePath_safe (reads_readSafe g) path.1)
  refine Runs.step ran ?_
  have parent : d.mkdirParent locals path = nav.parentCluster.getD locals.parentCluster := by
    unfold Driver.mkdirParent
    rw [ran]
  rw [parent]
  by_cases exists₁ : nav.result = 1
  · rw [if_pos exists₁]
    exact Runs.pure ⟨0, reads.still.inside, [], reads.updates, List.nil_prefix, by simp⟩
  rw [if_neg exists₁]
  have all : d.Works (d.loads path.1) → nav = d.navigated path.1 ∧ d₁ = d.later (d.loads path.1) :=
    fun works => by
      rw [navigatePath_reads g.roomy works] at ran
      exact ⟨(Prod.mk.inj (Except.ok.inj ran)).1.symm, (Prod.mk.inj (Except.ok.inj ran)).2.symm⟩
  have good : d₁.fs.InRange (nav.parentCluster.getD locals.parentCluster) ∨
      d₁.Lookable ∧ d₁.NoRoom (nav.parentCluster.getD locals.parentCluster)
        (nav.filename.getD locals.filename.1) := by
    rcases stays with ⟨works, found⟩ | ⟨range, other⟩ | ⟨lookable, noRoom⟩
    · exact absurd ((all works).1 ▸ found) exists₁
    · refine .inl ?_
      rw [reads.still.fs_eq]
      rcases navigatePath_either g.roomy ran with stopped | reached
      · rcases other with works | range'
        · rw [(all works).1]
          exact range
        · rw [stopped]
          exact range'
      · rw [reached.parent]
        exact range
    · obtain ⟨rfl, rfl⟩ := all fun i _ => lookable.noFault _
      refine .inr ⟨⟨lookable.tables, lookable.noFault, lookable.coherent⟩, ?_⟩
      exact noRoom.of_disks rfl rfl
  refine Runs.mono (mkdir_placed (reads.still.geometry g) good) ?_
  rintro _ d' ⟨new, placed⟩
  exact ⟨new, placed.after reads.still.inside reads.updates⟩

theorem fat32Mkdir_stays (lookable : d.Lookable)
    (within : d.MkdirWithin locals path sectors) : d.MkdirStays locals path := by
  obtain ⟨r, d', returned, new, within⟩ := within
  have works : d.Works (d.loads path.1) := fun i _ => lookable.noFault _
  have ran := navigatePath_reads g.roomy works
  have parent : d.mkdirParent locals path =
      (d.navigated path.1).parentCluster.getD locals.parentCluster := by
    unfold Driver.mkdirParent
    rw [ran]
  rw [parent] at within
  unfold fat32Mkdir at returned
  obtain ⟨_, _, got, rest⟩ := bind_returns returned
  cases got
  rw [if_pos mounted, run_bind_of_ok ran] at rest
  by_cases exists₁ : (d.navigated path.1).result = 1
  · exact .inl ⟨works, exists₁⟩
  rw [if_neg exists₁] at rest
  have changed : WritesWithin sectors (d.later (d.loads path.1))
      [new, (d.navigated path.1).parentCluster.getD locals.parentCluster] d' :=
    ⟨within.commands, within.directories⟩
  rcases mkdir_stays (d := d.later _) g ⟨lookable.tables, lookable.noFault, lookable.coherent⟩ rest
    changed with range | noRoom
  · exact .inr (.inl ⟨range, .inl works⟩)
  · exact .inr (.inr ⟨lookable, noRoom.of_disks rfl rfl⟩)

end Calls

/-- On every mounted volume with a consistent geometry, whatever its table and its directories hold
and whichever transfers fail: the writes of a call stay where they belong if what it releases stays
in the table and the directory it updates is a cluster of the volume, or is not updated.  For
`fat32_delete` always only then, for the others where no transfer fails. -/
theorem writes_within_partition {d : Driver} {sectors : Nat} (consistent : Consistent d.fs sectors)
    (mounted : d.fsMounted = true) (locals : Locals) (path : CStr) (data : List UInt8) :
    (d.WriteStays locals path data → d.WriteWithin locals path sectors data) ∧
      (d.MkdirStays locals path → d.MkdirWithin locals path sectors) ∧
      (d.DeleteWithin path sectors ↔ d.DeleteStays path) ∧
      (d.Lookable →
        (d.WriteWithin locals path sectors data ↔ d.WriteStays locals path data) ∧
        (d.MkdirWithin locals path sectors ↔ d.MkdirStays locals path)) := by
  have g := consistent.toGeometry
  have write : d.WriteStays locals path data → d.WriteWithin locals path sectors data :=
    fun stays => Runs.mono (fat32Write_placed g mounted stays) fun _ _ placed =>
      placed.within consistent
  have mkdir : d.MkdirStays locals path → d.MkdirWithin locals path sectors :=
    fun stays => Runs.mono (fat32Mkdir_placed g mounted stays) fun _ _ placed =>
      placed.imp fun _ placed => placed.within consistent
  exact ⟨write, mkdir, fat32Delete_iff g mounted consistent, fun lookable =>
    ⟨⟨fat32Write_stays g mounted lookable, write⟩, ⟨fat32Mkdir_stays g mounted lookable, mkdir⟩⟩⟩

/-- A chain of one cluster. -/
theorem Driver.ReleaseStays.single {d : Driver} {first : Nat} (inTable : d.fs.InTable first)
    (disk : ¬ Accepted (d.entry first)) (cache : ¬ Accepted (entryIn d.fatSectorCache first))
    (n : Nat) : (d.later n).ReleaseStays first := by
  unfold Driver.ReleaseStays
  obtain ⟨passes, is⟩ : ∃ passes, 2 ^ 28 = passes + 1 + 1 := ⟨2 ^ 28 - 2, rfl⟩
  rw [is]
  refine fun _ => ⟨Fs.not_strays inTable, fun _ _ goes => ?_⟩
  unfold Fs.held at goes
  split at goes
  · exact absurd goes cache
  · exact absurd goes disk

theorem withX_consistent : Consistent withX.fs 8 :=
  ⟨withX_wellFormed.good.geometry, by decide +kernel, by decide +kernel⟩

/-- Overwriting and deleting a file of one cluster, and a directory beside it. -/
theorem withX_writes_within : withX.WriteWithin .blank (.ofBytes [0x78]) 8 [1, 2] ∧
    withX.MkdirWithin .blank (.ofBytes [0x61]) 8 ∧ withX.DeleteWithin (.ofBytes [0x78]) 8 := by
  have root : withX.fs.InRange 2 := by decide +kernel
  have lookable : withX.Lookable := withX_wellFormed.good.tabled.lookable
  have table : withX.fs.InTable 3 ∧ ¬ Accepted (withX.entry 3) ∧
      ¬ Accepted (entryIn withX.fatSectorCache 3) := by decide +kernel
  have chain := Driver.ReleaseStays.single table.1 table.2.1 table.2.2
  have target : (withX.writeSlot .blank (withX.navigated [0x78])).map
      (fun t => (t.parentCluster, t.entry.firstCluster)) = some (2, 3) := by decide +kernel
  have entry : (withX.deleteSlot [0x78]).map (fun hit => hit.2.firstCluster) = some 3 := by
    decide +kernel
  have parent : (withX.navigated [0x61]).parentCluster = some 2 := by decide +kernel
  have all := writes_within_partition withX_consistent rfl .blank
  obtain ⟨-, -, delete, write⟩ := all (.ofBytes [0x78]) [1, 2]
  obtain ⟨-, mkdir, -, -⟩ := all (.ofBytes [0x61]) []
  refine ⟨(write lookable).1.mpr ?_, mkdir ?_, delete.mpr ?_⟩
  · intro t slot
    rw [show withX.writeSlot .blank (withX.navigated [0x78]) = some t from slot, Option.map_some,
      Option.some.injEq, Prod.mk.injEq] at target
    rw [target.1, target.2]
    exact ⟨chain _, .inl root⟩
  · refine .inr (.inl ⟨?_, .inl fun i _ => lookable.noFault _⟩)
    rw [show (withX.navigated (CStr.ofBytes [0x61]).1).parentCluster = some 2 from parent]
    exact root
  · intro _ i e slot
    rw [show withX.deleteSlot [0x78] = some (i, e) from slot, Option.map_some,
      Option.some.injEq] at entry
    rw [show e.firstCluster = 3 from entry]
    exact ⟨chain _, root⟩

/-- The formatted volume with an entry `X` whose first cluster is `0x0FFFFFF0`. -/
def damaged : Driver :=
  { formatted with ata := { formatted.ata with
      media := fun channel drive l =>
        if l = 2 then Dirent.store (fun _ => 0) 0
          ((Dirent.newFile ⟨0x58 :: List.replicate 10 space, rfl⟩).setFirstCluster 0x0FFFFFF0)
        else formatted.ata.media channel drive l } }

/-- Deleting `X` updates a table sector that is not there: six clusters need one sector of
entries, and the update goes to sector 2097152 of a partition of eight. -/
theorem damaged_entry_writes_outside :
    Consistent damaged.fs 8 ∧ damaged.fsMounted = true ∧
      ∃ d', (fat32Delete (.ofBytes [0x78])).run damaged = .ok (0, d') ∧
        ∀ dirs, ¬ WritesWithin 8 damaged dirs d' := by
  refine ⟨⟨formatted_good.geometry, by decide, by decide⟩, rfl, ?_⟩
  have ran : Runs.check (fat32Delete (.ofBytes [0x78])) damaged
      (fun r d' => r = 0 ∧ ∃ w ∈ d'.ata.writes, w.lba = 2097152) = true := by
    decide +kernel
  obtain ⟨r, d', returned, holds⟩ := Runs.of_check ran
  obtain ⟨rfl, w, member, place⟩ := of_decide_eq_true holds
  refine ⟨d', returned, ?_⟩
  rintro dirs ⟨⟨new, writes, within⟩, -⟩
  have none : damaged.ata.writes = [] := rfl
  have added : w ∈ new := by
    rwa [writes, none, List.append_nil] at member
  have high := (within w added).high
  rw [place] at high
  have start : damaged.fs.startLba = 0 := rfl
  omega

end XosKernel.Fat32
