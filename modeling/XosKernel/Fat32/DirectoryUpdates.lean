/-
# Fat32.DirectoryUpdates -- the directories that a call updates

Directory updates come from a buffer of their own, so the command log shows which directories
`fat32_write` and `fat32_mkdir` update, and in which order (`Updates`).  Where no transfer fails,
`fat32_mkdir` gets to the update of the parent unless that has no free slot once the new directory
is stored, and what the disk holds then can be said of the state before (`Driver.withDirectory`).
-/
import XosKernel.Fat32.CallDirectory
import XosKernel.Fat32.FailedWrite
import XosKernel.Fat32.FailingTable

namespace XosKernel.Fat32

open XosKernel.Theory

set_option autoImplicit false

/-! ## Updates in order -/

/-- From `d` to `d'` the directories of these clusters were updated, in this order. -/
structure Updates (d : Driver) (cs : List Nat) (d' : Driver) : Prop where
  fs_eq : d'.fs = d.fs
  commands : ∃ new, d'.updates = new ++ d.updates ∧
    new.reverse.map WriteCommand.lba = cs.map d.fs.clusterToLba

section Updates

variable {d d' d'' : Driver} {cs cs' : List Nat}

theorem Updates.of_log (same : d'.updateLog = d.updateLog) : Updates d [] d' :=
  ⟨congrArg Prod.fst same, [], congrArg Prod.snd same, rfl⟩

theorem Updates.of_keeps {α : Type} {m : FatM α} {r : α} (keeps : Keeps Driver.updateLog m)
    (returned : m.run d = .ok (r, d')) : Updates d [] d' :=
  .of_log (keeps _ _ _ returned)

theorem Updates.trans (first : Updates d cs d') (second : Updates d' cs' d'') :
    Updates d (cs ++ cs') d'' := by
  obtain ⟨new, updates, places⟩ := first.commands
  obtain ⟨new', updates', places'⟩ := second.commands
  refine ⟨second.fs_eq.trans first.fs_eq, new' ++ new, ?_, ?_⟩
  · rw [updates', updates, List.append_assoc]
  · rw [List.reverse_append, List.map_append, List.map_append, places, places', first.fs_eq]

theorem writeDirectoryCluster_updates {c : Nat} {b : Buf} {ok : Bool}
    (returned : (writeDirectoryCluster c b).run d = .ok (ok, d')) : Updates d [c] d' := by
  unfold writeDirectoryCluster at returned
  obtain ⟨_, _, got, rest⟩ := bind_returns returned
  cases got
  split at rest
  · cases rest
  obtain ⟨written, d₁, wrote, last⟩ := bind_returns rest
  cases last
  obtain ⟨r, n, ran, -, -⟩ := ataWriteSectors_cases d .directory (d.fs.clusterToLba c)
    d.fs.sectorsPerCluster b
  rw [ran] at wrote
  cases wrote
  exact ⟨rfl, [_], List.filter_cons_of_pos rfl, rfl⟩

theorem saveRootDirectory_updates {r : Int} (returned : saveRootDirectory.run d = .ok (r, d')) :
    Updates d [d.fs.rootDirCluster] d' := by
  unfold saveRootDirectory at returned
  obtain ⟨_, _, got, rest⟩ := bind_returns returned
  cases got
  obtain ⟨written, d₁, wrote, last⟩ := bind_returns rest
  cases last
  obtain ⟨r, n, ran, -, -⟩ := ataWriteSectors_cases d .directory
    (d.fs.clusterToLba d.fs.rootDirCluster) d.fs.dirSectors d.rootDirBuffer
  rw [ran] at wrote
  cases wrote
  exact ⟨rfl, [_], List.filter_cons_of_pos rfl, rfl⟩

theorem refreshRoot_updates {c : Nat} {ok : Bool}
    (returned : (refreshRoot c).run d = .ok (ok, d')) : Updates d [] d' := by
  have same := refreshRoot_keeps_log c _ _ _ returned
  have fs_eq : d'.fs = d.fs := congrArg Prod.fst same
  have writes : d'.ata.writes = d.ata.writes := congrArg Prod.snd same
  refine .of_log ?_
  unfold Driver.updateLog Driver.updates
  rw [fs_eq, writes]

theorem giveUp_updates {c : Nat} {r : Int} (returned : (giveUp c).run d = .ok (r, d')) :
    Updates d [] d' :=
  .of_keeps (Keeps.bind (freeChainLoop_keeps inert_updateLog _ _) fun _ => Keeps.pure _) returned

end Updates

/-! ## Write -/

section Write

variable {d d' : Driver} {t : WriteTarget}

/-- Data that has its clusters is followed by the update of the directory; a write that succeeds
has got there. -/
theorem writeAllocated_updates {b : Buf} {data : List UInt8} {first : Nat} {r : Int}
    (returned : (writeAllocated t b data first).run d = .ok (r, d')) :
    r ≠ 0 ∧ Updates d [] d' ∨ Updates d [t.parentCluster] d' := by
  unfold writeAllocated at returned
  obtain ⟨_, _, got, rest⟩ := bind_returns returned
  cases got
  obtain ⟨ok, d₁, looped, rest⟩ := bind_returns rest
  have stored := Updates.of_keeps
    (writeLoop_keeps inert_updateLog (fun _ _ => rfl) _ _ _ _ _) looped
  cases ok with
  | false =>
      rw [if_neg Bool.false_ne_true] at rest
      exact .inl ⟨fun zero => giveUp_not_zero (zero ▸ rest), stored.trans (giveUp_updates rest)⟩
  | true =>
      rw [if_pos rfl] at rest
      obtain ⟨ok, d₂, written, rest⟩ := bind_returns rest
      have both := stored.trans (writeDirectoryCluster_updates written)
      refine .inr ?_
      cases ok with
      | false =>
          rw [if_neg Bool.false_ne_true] at rest
          exact both.trans (giveUp_updates rest)
      | true =>
          rw [if_pos rfl] at rest
          obtain ⟨ok, d₃, refreshed, rest⟩ := bind_returns rest
          have all := both.trans (refreshRoot_updates refreshed)
          cases ok with
          | false =>
              rw [if_neg Bool.false_ne_true] at rest
              exact all.trans (giveUp_updates rest)
          | true =>
              cases rest
              exact all

/-- An empty file is an update of its directory. -/
theorem writeEmpty_updates {b : Buf} {r : Int}
    (returned : (writeEmpty t b).run d = .ok (r, d')) : Updates d [t.parentCluster] d' := by
  obtain ⟨ok, d₁, written, rest⟩ := bind_returns returned
  have first := writeDirectoryCluster_updates written
  cases ok with
  | false =>
      cases rest
      exact first
  | true =>
      obtain ⟨_, d₂, refreshed, last⟩ := bind_returns rest
      cases last
      exact first.trans (refreshRoot_updates refreshed)

/-- The second half of `fat32_write` in its parts. -/
inductive WriteParts (t : WriteTarget) (data : List UInt8) (d : Driver) (r : Int) (d' : Driver) :
    Prop
  | empty (d₁ : Driver) (b : Buf) (nothing : data = [])
      (freed : (freeOldChain t.entry.firstCluster).run d = .ok ((), d₁))
      (stored : (writeEmpty t b).run d₁ = .ok (r, d'))
  | short (d₁ : Driver) (given : data ≠ [])
      (freed : (freeOldChain t.entry.firstCluster).run d = .ok ((), d₁))
      (allocated : (allocateClusterChain (clustersNeeded (d.fs.sectorsPerCluster * 512)
        data.length)).run d₁ = .ok (none, d'))
      (failed : r = -1)
  | full (d₁ d₂ : Driver) (b : Buf) (first : Nat) (given : data ≠ [])
      (freed : (freeOldChain t.entry.firstCluster).run d = .ok ((), d₁))
      (allocated : (allocateClusterChain (clustersNeeded (d.fs.sectorsPerCluster * 512)
        data.length)).run d₁ = .ok (some first, d₂))
      (stored : (writeAllocated t b data first).run d₂ = .ok (r, d'))

variable {data : List UInt8} {r : Int}

theorem writeEntry_parts (returned : (writeEntry t data).run d = .ok (r, d')) :
    WriteParts t data d r d' := by
  unfold writeEntry at returned
  obtain ⟨_, _, got, rest⟩ := bind_returns returned
  cases got
  obtain ⟨_, d₁, freed, rest⟩ := bind_returns rest
  by_cases empty : data = []
  · rw [if_pos empty] at rest
    exact .empty d₁ _ empty freed rest
  simp only [if_neg empty] at rest
  split at rest
  · cases rest
  obtain ⟨allocated, d₂, allocating, rest⟩ := bind_returns rest
  cases allocated with
  | none =>
      cases rest
      exact .short d₁ empty freed allocating rfl
  | some first => exact .full d₁ d₂ _ first empty freed allocating rest

/-- The directory is updated at most once. -/
theorem WriteParts.updates (parts : WriteParts t data d r d') :
    r ≠ 0 ∧ Updates d [] d' ∨ Updates d [t.parentCluster] d' := by
  have release : ∀ {d₁}, (freeOldChain t.entry.firstCluster).run d = .ok ((), d₁) →
      Updates d [] d₁ := fun freed =>
    .of_keeps (freeOldChain_keeps inert_updateLog _) freed
  have allocation : ∀ {n d₁ d₂ f}, (allocateClusterChain n).run d₁ = .ok (f, d₂) →
      Updates d₁ [] d₂ := fun allocated =>
    .of_keeps (allocateClusterChain_keeps inert_updateLog _) allocated
  cases parts with
  | empty d₁ b _ freed stored => exact .inr ((release freed).trans (writeEmpty_updates stored))
  | short d₁ _ freed allocated failed =>
      refine .inl ⟨?_, (release freed).trans (allocation allocated)⟩
      rw [failed]
      decide
  | full d₁ d₂ b first _ freed allocated stored =>
      have before := (release freed).trans (allocation allocated)
      exact (writeAllocated_updates stored).imp (And.imp_right before.trans) before.trans

end Write

/-! ## Make directory -/

/-- `fat32_mkdir` updates the new directory and, if it can add the entry, the parent. -/
theorem mkdirAllocated_updates {d d' : Driver} {p new : Nat} {dirname : List UInt8} {r : Int}
    (returned : (mkdirAllocated p dirname new).run d = .ok (r, d')) :
    ∃ ok d₁, (writeDirectoryCluster new (newDirectoryBuffer new p)).run d = .ok (ok, d₁) ∧
      (Updates d [new] d' ∧
          (d.Quiet → makeName83 dirname = none ∨ scanFree (d₁.listing p) 0 = none) ∨
        Updates d [new, p] d' ∧ ok = true ∧ makeName83 dirname ≠ none ∧
          scanFree (d₁.listing p) 0 ≠ none) := by
  obtain ⟨ok, d₁, written, rest⟩ := bind_returns returned
  have first := writeDirectoryCluster_updates written
  refine ⟨ok, d₁, written, ?_⟩
  cases ok with
  | false =>
      rw [if_neg Bool.false_ne_true] at rest
      refine .inl ⟨first.trans (giveUp_updates rest), fun quiet => ?_⟩
      cases writeDirectoryCluster_done quiet written
  | true =>
      rw [if_pos rfl, run_bind_of_ok (loadDirectoryCluster_run d₁ p)] at rest
      have loaded : Updates d₁ [] { d₁ with ata := { d₁.ata with
          transfers := d₁.ata.transfers + 1 } } := .of_log rfl
      by_cases works : d₁.ata.fault d₁.ata.transfers = none
      swap
      · rw [if_neg works] at rest
        refine .inl ⟨(first.trans loaded).trans (giveUp_updates rest), fun quiet => ?_⟩
        exact absurd (Driver.quiet_of_settings
          (writeDirectoryCluster_keeps fixed_settings _ _ _ _ _ written) quiet _) works
      rw [if_pos works] at rest
      cases made : makeName83 dirname with
      | none =>
          rw [made] at rest
          exact .inl ⟨(first.trans loaded).trans (giveUp_updates rest), fun _ => .inl rfl⟩
      | some name =>
          rw [made] at rest
          obtain ⟨_, _, got, rest⟩ := bind_returns rest
          cases got
          rw [show d₁.fs.entries (d₁.directory p) = d₁.listing p from rfl] at rest
          cases scanned : scanFree (d₁.listing p) 0 with
          | none =>
              rw [scanned] at rest
              obtain ⟨_, d₂, ended, rest⟩ := bind_returns rest
              have last := Updates.of_keeps (endOfEntries_keeps _) ended
              exact .inl ⟨((first.trans loaded).trans last).trans (giveUp_updates rest),
                fun _ => .inr rfl⟩
          | some slot =>
              rw [scanned] at rest
              obtain ⟨ok, d₂, stored, rest⟩ := bind_returns rest
              have both := (first.trans loaded).trans (writeDirectoryCluster_updates stored)
              refine .inr ⟨?_, rfl, Option.some_ne_none _, Option.some_ne_none _⟩
              cases ok with
              | false =>
                  rw [if_neg Bool.false_ne_true] at rest
                  exact both.trans (giveUp_updates rest)
              | true =>
                  obtain ⟨_, d₃, refreshed, last⟩ := bind_returns rest
                  cases last
                  exact both.trans (refreshRoot_updates refreshed)

/-! ## The disk with a new directory -/

/-- A sector of the mounted disk, as a transfer brings it into a cleared buffer. -/
def Driver.fetched (d : Driver) (l : Nat) : Buf :=
  Buf.blit (fun _ => 0) 0 (1 * 512)
    (d.ata.stream (diskToAta d.fs.disk).1 (diskToAta d.fs.disk).2 l)

/-- The entry of `c` is set to `x` in table copy `k`. -/
def Driver.withCopy (d : Driver) (c x k : Nat) : Driver :=
  d.wrote .table (d.fs.copySector k c) 1
    ((d.fetched (d.fs.copySector k c)).putLe (entryOffset c) 4 x)

/-- The entry of `c` is set to `x` in all table copies. -/
def Driver.withEntry (d : Driver) (c x : Nat) : Driver :=
  (List.range' 0 d.fs.numFats).foldl (fun d k => d.withCopy c x k) d

/-- The cluster `new` is allocated, and holds a new directory whose parent is `p`. -/
def Driver.withDirectory (d : Driver) (new p : Nat) : Driver :=
  (d.withEntry new 0x0FFFFFFF).wrote .directory (d.fs.clusterToLba new) d.fs.sectorsPerCluster
    (newDirectoryBuffer new p)

section Disk

variable {d d' : Driver} {c x new p : Nat}

theorem Driver.wrote_disks (same : d'.disks = d.disks) (source : WriteBuffer) (lba count : Nat)
    (b : Buf) : (d'.wrote source lba count b).disks = (d.wrote source lba count b).disks := by
  simp only [Driver.disks, Prod.mk.injEq] at same ⊢
  obtain ⟨fs, mounted, fault, media⟩ := same
  refine ⟨fs, mounted, fault, ?_⟩
  simp only [Driver.wrote, fs]
  unfold Ata.store
  rw [media]

theorem Driver.withCopy_disks (same : d'.disks = d.disks) (k : Nat) :
    (d'.withCopy c x k).disks = (d.withCopy c x k).disks := by
  have fs := Driver.fs_of_disks same
  have media : d'.ata.media = d.ata.media := congrArg (fun x => x.2.2.2) same
  unfold Driver.withCopy Driver.fetched Ata.stream
  rw [fs, media]
  exact Driver.wrote_disks same _ _ _ _

theorem Driver.foldl_withCopy_disks (l : List Nat) (same : d'.disks = d.disks) :
    (l.foldl (fun d k => d.withCopy c x k) d').disks =
      (l.foldl (fun d k => d.withCopy c x k) d).disks := by
  induction l generalizing d d' with
  | nil => exact same
  | cons k l ih => exact ih (Driver.withCopy_disks same k)

theorem Driver.foldl_withCopy_fs (l : List Nat) :
    (l.foldl (fun d k => d.withCopy c x k) d).fs = d.fs := by
  induction l generalizing d with
  | nil => rfl
  | cons k l ih => exact ih

theorem setFatCopies_disks (copies fat : Nat) (quiet : d.Quiet) :
    Runs (setFatCopies (c * 4 % 2 ^ 32 / 512) (entryOffset c) x fat copies) d fun ok d' =>
      ok = true ∧
        d'.disks = ((List.range' fat copies).foldl (fun d k => d.withCopy c x k) d).disks := by
  induction copies generalizing d fat with
  | zero => exact Runs.pure ⟨rfl, rfl⟩
  | succ copies ih =>
      rw [setFatCopies]
      refine Runs.get_bind ?_
      refine Runs.step (ataReadSectors_run quiet _ _ _ _) ?_
      rw [if_pos (by rfl)]
      refine Runs.step (ataWriteSectors_run (d := d.ticked) (by exact quiet) _ _ _ _ _) ?_
      rw [if_pos (by rfl)]
      refine Runs.mono (ih (fat + 1) ?_) fun ok d₂ rest => ⟨rest.1, rest.2.trans ?_⟩
      · exact quiet
      · exact Driver.foldl_withCopy_disks _ rfl

theorem setFatEntry_disks (quiet : d.Quiet) :
    Runs (setFatEntry c x) d fun z d' => z = 0 ∧ d'.disks = (d.withEntry c x).disks := by
  unfold setFatEntry
  refine Runs.get_bind ?_
  refine Runs.bind (setFatCopies_disks d.fs.numFats 0 quiet) ?_
  rintro _ d₁ ⟨rfl, disks⟩
  rw [if_pos rfl]
  refine Runs.modify_bind (Runs.pure ⟨rfl, ?_⟩)
  split
  · exact disks
  · exact disks

/-- An allocation of one cluster sets its entry. -/
theorem allocate_one_disks (quiet : d.Quiet) (positive : new ≠ 0)
    (returned : (allocateClusterChain 1).run d = .ok (some new, d')) :
    d'.disks = (d.withEntry new 0x0FFFFFFF).disks := by
  obtain ⟨pair, d₁, looped, finished⟩ := bind_returns returned
  obtain ⟨found, d₂, searched, rest⟩ := bind_returns looped
  have same := Keeps.get_bind (fun d => findFreeFrom_keeps inert_disks _ 2) _ _ _ searched
  cases found with
  | none =>
      cases rest
      cases finished
  | some c =>
      obtain ⟨linked, d₃, linking, rest⟩ := bind_returns rest
      cases linking
      rw [if_pos rfl, if_pos rfl] at rest
      cases rest
      obtain ⟨closed, d₄, closing, last⟩ := bind_returns finished
      have chosen : c = new := by
        cases closed with
        | false => cases last
        | true =>
            cases last
            rfl
      subst chosen
      unfold linkPrevious at closing
      rw [if_neg positive] at closing
      obtain ⟨z, d₅, set, done⟩ := bind_returns closing
      obtain ⟨rfl, disks⟩ := (setFatEntry_disks (Driver.quiet_of_disks same quiet)).of_returned set
      cases done
      cases last
      have fs := Driver.fs_of_disks same
      rw [disks, Driver.withEntry, Driver.withEntry, fs]
      exact Driver.foldl_withCopy_disks _ same

/-- With the new directory stored, the disk is the one that follows from the state before. -/
theorem Driver.withDirectory_disks {d₁ d₂ : Driver} (quiet : d.Quiet) (positive : new ≠ 0)
    (allocated : (allocateClusterChain 1).run d = .ok (some new, d₁))
    (stored : (writeDirectoryCluster new (newDirectoryBuffer new p)).run d₁ = .ok (true, d₂)) :
    d₂.disks = (d.withDirectory new p).disks := by
  have same := allocate_one_disks quiet positive allocated
  have fs : d₁.fs = d.fs := (Driver.fs_of_disks same).trans (Driver.foldl_withCopy_fs _)
  obtain ⟨-, is⟩ := writeDirectoryCluster_wrote stored
  have wrote : d₂ = d₁.wrote .directory (d₁.fs.clusterToLba new) d₁.fs.sectorsPerCluster
      (newDirectoryBuffer new p) := is
  rw [wrote, fs]
  exact Driver.wrote_disks same _ _ _ _

end Disk

end XosKernel.Fat32
