/-
# Fat32.MountGeometry -- the geometry that `fat32_mount` installs

`fat32_mount` takes every field of a boot sector with the right signature as it is.  The rest
of the driver indexes buffers of fixed sizes with `sectors_per_cluster`, and computes addresses
in 32 bits.  `Usable` says what the driver relies on, as facts about the installed record and
about every later call; `mount_usable_iff` says which boot sectors give it.
-/
import XosKernel.Fat32.Paths
import XosKernel.Fat32.CurrentPath

namespace XosKernel.Fat32

open XosKernel.Theory

set_option autoImplicit false

/-! ## Later calls -/

/-- A call whose buffers depend on the geometry. -/
inductive BufferCall where
  | read (count : Nat)
  | write (locals : Locals) (path : CStr) (data : List UInt8)
  | openFile (path : CStr)
  | mkdir (locals : Locals) (path : CStr)
  | list (path : List UInt8)

def BufferCall.exec : BufferCall → FatM Unit
  | .read count => do let _ ← fat32Read count
  | .write locals path data => do let _ ← fat32Write locals path data
  | .openFile path => do let _ ← fat32Open path
  | .mkdir locals path => do let _ ← fat32Mkdir locals path
  | .list path => do let _ ← fat32ListDirectory path

/-- With this cluster size no call indexes outside a buffer or divides by zero, in whatever
state it is made: a call that does not return runs around a cyclic chain. -/
def CallsInBounds (sectorsPerCluster : Nat) : Prop :=
  ∀ (d : Driver), d.fs.sectorsPerCluster = sectorsPerCluster → ∀ (call : BufferCall) (e : Ub),
    call.exec.run d = .error e → e = .diverges

/-! ## Commands that read directories -/

/-- Clusters of one to eight sectors. -/
def SmallClusters (d : Driver) : Prop :=
  1 ≤ d.fs.sectorsPerCluster ∧ d.fs.sectorsPerCluster ≤ 8

section Reading

variable {P : Driver → Prop} {E : Ub → Prop}

/-- A condition on the state with small clusters, which does not count transfers. -/
structure ReadSafe (P : Driver → Prop) : Prop where
  small : ∀ d, P d → SmallClusters d
  ticks : ∀ d n, P d → P { d with ata := { d.ata with transfers := n } }

theorem endOfEntries_safe {d : Driver} (small : SmallClusters d) :
    Safe P E d.fs.endOfEntries := by
  refine Safe.ite (fun large => ?_) fun _ => Safe.pure _
  have bound := small.2
  simp only [dirBufferSize, Fs.maxEntries, direntSize] at large
  omega

variable (reads : ReadSafe P)
include reads

theorem ataReadSectors_safe (disk lba count : Nat) (b : Buf) :
    Safe P E (ataReadSectors disk lba count b) := by
  intro d holds
  refine ⟨fun r d' returned => ?_, fun e stopped => ?_⟩
  · cases returned
    simp only [Ata.readSectors]
    split <;> exact reads.ticks d _ holds
  · cases stopped

theorem loadDirectoryCluster_safe (c : Nat) : Safe P E (loadDirectoryCluster c) :=
  Safe.get_bind fun _ _ => Safe.bind (ataReadSectors_safe reads _ _ _ _) fun _ => Safe.pure _

theorem scanDirectory_safe (test : Dirent → Bool) (b : Buf) :
    Safe P E (scanDirectory test b) := by
  refine Safe.get_bind fun d holds => ?_
  cases scanLive test (d.fs.entries b) 0 with
  | found slot e => exact Safe.pure _
  | ended => exact Safe.pure _
  | exhausted => exact Safe.bind (endOfEntries_safe (reads.small d holds)) fun _ => Safe.pure _

theorem findInDirectory_safe (c : Nat) (name : List UInt8) :
    Safe P E (findInDirectory c name) := by
  refine Safe.bind (loadDirectoryCluster_safe reads c) fun loaded => ?_
  cases loaded with
  | none => exact Safe.pure _
  | some b => exact Safe.bind (scanDirectory_safe reads _ _) fun _ => Safe.pure _

theorem walkPath_safe (path : List UInt8) (c : Nat) (component : List UInt8) :
    Safe P E (walkPath path c component) := by
  induction path generalizing c component with
  | nil => exact Safe.pure _
  | cons ch path ih =>
      rw [walkPath]
      refine Safe.ite (fun _ => ?_) fun _ => ih _ _
      refine Safe.ite (fun _ => ih _ _) fun _ => ?_
      refine Safe.bind (findInDirectory_safe reads _ _) fun found => ?_
      cases found with
      | none => exact Safe.pure _
      | some e => exact Safe.ite (fun _ => ih _ _) fun _ => Safe.pure _

theorem navigatePath_safe (path : List UInt8) : Safe P E (navigatePath path) := by
  refine Safe.get_bind fun d _ => Safe.bind (walkPath_safe reads _ _ _) fun walked => ?_
  match walked with
  | none => exact Safe.pure _
  | some (c, []) => exact Safe.pure _
  | some (c, ch :: rest) =>
      refine Safe.bind (findInDirectory_safe reads _ _) fun found => ?_
      cases found with
      | none => exact Safe.pure _
      | some e => exact Safe.pure _

theorem writeTarget_safe (locals : Locals) (path : CStr) :
    Safe P E (writeTarget locals path) := by
  refine Safe.bind (navigatePath_safe reads _) fun nav => ?_
  refine Safe.ite (fun _ => Safe.pure _) fun _ => Safe.ite (fun _ => Safe.pure _) fun _ => ?_
  cases makeName83 (nav.filename.getD locals.filename.1) with
  | none => exact Safe.pure _
  | some name =>
      refine Safe.bind (loadDirectoryCluster_safe reads _) fun loaded => ?_
      cases loaded with
      | none => exact Safe.pure _
      | some b =>
          refine Safe.get_bind fun d holds => ?_
          cases scanWrite name (d.fs.entries b) 0 none with
          | existing slot => exact Safe.pure _
          | free slot => exact Safe.pure _
          | exhausted slot =>
              exact Safe.bind (endOfEntries_safe (reads.small d holds)) fun _ => Safe.pure _

end Reading

/-! ## Bounds -/

section Bounds

theorem reads_smallClusters : ReadSafe SmallClusters :=
  ⟨fun _ small => small, fun _ _ small => small⟩

/-- No access outside a buffer, no division by zero. -/
abbrev InBounds {α : Type} (m : FatM α) : Prop := Safe SmallClusters (fun e : Ub => e = .diverges) m

theorem ataWriteSectors_inBounds (source : WriteBuffer) (disk lba count : Nat) (b : Buf) :
    InBounds (ataWriteSectors source disk lba count b) := by
  intro d small
  refine ⟨fun r d' returned => ?_, fun e stopped => ?_⟩
  · cases returned
    exact small
  · cases stopped

theorem loadFatSector_inBounds (sector : Nat) : InBounds (loadFatSector sector) := by
  refine Safe.get_bind fun d _ => Safe.ite (fun _ => Safe.pure _) fun _ => ?_
  refine Safe.bind (ataReadSectors_safe reads_smallClusters _ _ _ _) fun read => ?_
  refine Safe.bind (Safe.modify fun d small => small) fun _ => Safe.ite (fun _ => ?_) fun _ =>
    Safe.pure _
  exact Safe.bind (Safe.modify fun d small => small) fun _ => Safe.pure _

theorem nextCluster_inBounds (c : Nat) : InBounds (nextCluster c) := by
  refine Safe.get_bind fun d _ => Safe.bind (loadFatSector_inBounds _) fun ok => ?_
  exact Safe.ite (fun _ => Safe.get_bind fun d _ => Safe.pure _) fun _ => Safe.pure _

theorem findFreeFrom_inBounds (n c : Nat) : InBounds (findFreeFrom c n) := by
  induction n generalizing c with
  | zero => exact Safe.pure _
  | succ n ih =>
      refine Safe.bind (nextCluster_inBounds c) fun next => ?_
      exact Safe.ite (fun _ => Safe.pure _) fun _ => ih (c + 1)

theorem setFatCopies_inBounds (j off x copies fat : Nat) :
    InBounds (setFatCopies j off x fat copies) := by
  induction copies generalizing fat with
  | zero => exact Safe.pure _
  | succ copies ih =>
      refine Safe.get_bind fun d _ =>
        Safe.bind (ataReadSectors_safe reads_smallClusters _ _ _ _) fun read => ?_
      refine Safe.ite (fun _ => ?_) fun _ => Safe.pure _
      refine Safe.bind (ataWriteSectors_inBounds _ _ _ _ _) fun written => ?_
      exact Safe.ite (fun _ => ih (fat + 1)) fun _ => Safe.pure _

theorem setFatEntry_inBounds (c x : Nat) : InBounds (setFatEntry c x) := by
  refine Safe.get_bind fun d _ => Safe.bind (setFatCopies_inBounds _ _ _ _ _) fun ok => ?_
  refine Safe.ite (fun _ => ?_) fun _ => Safe.pure _
  refine Safe.bind (Safe.modify fun d small => ?_) fun _ => Safe.pure _
  split <;> exact small

theorem freeChainLoop_inBounds (passes c : Nat) : InBounds (freeChainLoop passes c) := by
  induction passes generalizing c with
  | zero => exact Safe.throw rfl
  | succ passes ih =>
      refine Safe.ite (fun _ => ?_) fun _ => Safe.pure _
      refine Safe.bind (nextCluster_inBounds c) fun next => ?_
      refine Safe.bind (setFatEntry_inBounds c 0) fun r => ?_
      refine Safe.ite (fun _ => ?_) fun _ => Safe.pure _
      exact Safe.ite (fun _ => Safe.pure _) fun _ => ih next

theorem linkPrevious_inBounds (prev c : Nat) : InBounds (linkPrevious prev c) :=
  Safe.ite (fun _ => Safe.pure _) fun _ =>
    Safe.bind (setFatEntry_inBounds prev c) fun _ => Safe.pure _

theorem allocateLoop_inBounds (n first prev : Nat) : InBounds (allocateLoop n first prev) := by
  induction n generalizing first prev with
  | zero => exact Safe.pure _
  | succ n ih =>
      refine Safe.bind (Safe.get_bind fun d _ => findFreeFrom_inBounds _ _) fun found => ?_
      cases found with
      | none => exact Safe.pure _
      | some c =>
          refine Safe.bind (linkPrevious_inBounds prev c) fun ok => ?_
          exact Safe.ite (fun _ => ih _ _) fun _ => Safe.pure _

theorem allocateClusterChain_inBounds (n : Nat) : InBounds (allocateClusterChain n) := by
  refine Safe.bind (allocateLoop_inBounds n 0 0) fun linked => ?_
  cases linked with
  | none => exact Safe.pure _
  | some r =>
      refine Safe.bind (linkPrevious_inBounds _ _) fun ok => ?_
      exact Safe.ite (fun _ => Safe.pure _) fun _ => Safe.pure _

/-! ## The calls -/

theorem fat32Open_inBounds (path : CStr) : InBounds (fat32Open path) := by
  refine Safe.get_bind fun d _ => Safe.ite (fun _ => ?_) fun _ => Safe.pure _
  refine Safe.bind (Safe.get_bind fun d _ =>
    Safe.bind (loadDirectoryCluster_safe reads_smallClusters _) fun loaded => ?_) fun found => ?_
  · cases loaded with
    | none => exact Safe.pure _
    | some b =>
        cases makeName83 (skipSlash path.1) with
        | none => exact Safe.pure _
        | some name =>
            refine Safe.bind (scanDirectory_safe reads_smallClusters _ _) fun found => ?_
            cases found with
            | none => exact Safe.pure _
            | some r => exact Safe.pure _
  · cases found with
    | none => exact Safe.pure _
    | some r => exact Safe.bind (Safe.modify fun d small => small) fun _ => Safe.pure _

theorem fat32ListDirectory_inBounds (path : List UInt8) : InBounds (fat32ListDirectory path) := by
  have listed : ∀ c, InBounds (listCluster c) := by
    intro c
    refine Safe.bind (loadDirectoryCluster_safe reads_smallClusters c) fun loaded => ?_
    cases loaded with
    | none => exact Safe.pure _
    | some b =>
        refine Safe.get_bind fun d small => ?_
        obtain ⟨lines, ended⟩ := listLoop (d.fs.entries b)
        cases ended with
        | true => exact Safe.pure _
        | false => exact Safe.bind (endOfEntries_safe small) fun _ => Safe.pure _
  refine Safe.get_bind fun d _ => Safe.ite (fun _ => ?_) fun _ => Safe.pure _
  exact Safe.ite (fun _ => listed _) fun _ => Safe.ite (fun _ => listed _) fun _ => Safe.pure _

theorem readLoop_inBounds {clusterSize : Nat} (positive : clusterSize ≠ 0) (count passes : Nat)
    (out : List UInt8) : InBounds (readLoop clusterSize count passes out) := by
  induction passes generalizing out with
  | zero => exact Safe.pure _
  | succ passes ih =>
      rw [readLoop]
      refine Safe.get_bind fun d small => Safe.ite (fun _ => ?_) fun _ => Safe.pure _
      refine Safe.ite (fun large => ?_) fun _ => ?_
      · have bound := small.2
        simp only [fileClusterBufSize] at large
        omega
      refine Safe.bind (ataReadSectors_safe reads_smallClusters _ _ _ _) fun read => ?_
      refine Safe.bind (Safe.modify fun d small => small) fun _ => ?_
      refine Safe.ite (fun _ => ?_) fun _ => Safe.pure _
      refine Safe.ite (fun zero => absurd zero positive) fun _ => ?_
      refine Safe.bind (Safe.modify fun d small => small) fun _ => ?_
      refine Safe.ite (fun _ => ?_) fun _ => ih _
      refine Safe.bind (nextCluster_inBounds _) fun next => ?_
      refine Safe.ite (fun _ => Safe.pure _) fun _ => ?_
      exact Safe.bind (Safe.modify fun d small => small) fun _ => ih _

theorem fat32Read_inBounds (count : Nat) : InBounds (fat32Read count) := by
  refine Safe.get_bind fun d small => Safe.ite (fun _ => ?_) fun _ => Safe.pure _
  refine Safe.ite (fun _ => Safe.pure _) fun _ => ?_
  have positive : d.fs.sectorsPerCluster * 512 ≠ 0 := by
    have := small.1
    omega
  exact Safe.bind (readLoop_inBounds positive _ _ _) fun _ => Safe.pure _

theorem writeLoop_inBounds {clusterSize : Nat} (fits : clusterSize ≤ fileClusterBufSize)
    (passes : Nat) (src : List UInt8) (remaining c : Nat) :
    InBounds (writeLoop clusterSize passes src remaining c) := by
  induction passes generalizing src remaining c with
  | zero => exact Safe.pure _
  | succ passes ih =>
      rw [writeLoop]
      refine Safe.ite (fun _ => ?_) fun _ => Safe.pure _
      refine Safe.get_bind fun d _ => Safe.ite (fun large => ?_) fun _ => ?_
      · omega
      refine Safe.bind (Safe.modify fun d small => small) fun _ => ?_
      refine Safe.bind (ataWriteSectors_inBounds _ _ _ _ _) fun written => ?_
      refine Safe.ite (fun _ => ?_) fun _ => Safe.pure _
      refine Safe.bind (nextCluster_inBounds _) fun next => ?_
      exact Safe.ite (fun _ => Safe.pure _) fun _ => ih _ _ _

theorem refreshRoot_inBounds (parent : Nat) : InBounds (refreshRoot parent) := by
  refine Safe.get_bind fun d _ => Safe.ite (fun _ => ?_) fun _ => Safe.pure _
  refine Safe.get_bind fun d _ =>
    Safe.bind (ataReadSectors_safe reads_smallClusters _ _ _ _) fun read => ?_
  exact Safe.bind (Safe.modify fun d small => small) fun _ => Safe.pure _

theorem giveUp_inBounds (first : Nat) : InBounds (giveUp first) :=
  Safe.bind (freeChainLoop_inBounds _ _) fun _ => Safe.pure _

theorem writeDirectoryCluster_inBounds (c : Nat) (b : Buf) :
    InBounds (writeDirectoryCluster c b) := by
  refine Safe.get_bind fun d small => Safe.ite (fun large => ?_) fun _ => ?_
  · have bound := small.2
    simp only [dirBufferSize] at large
    omega
  · exact Safe.bind (ataWriteSectors_inBounds _ _ _ _ _) fun _ => Safe.pure _

theorem writeEntry_inBounds (target : WriteTarget) (data : List UInt8) :
    InBounds (writeEntry target data) := by
  refine Safe.get_bind fun d small => Safe.bind ?_ fun _ => ?_
  · refine Safe.ite (fun _ => ?_) fun _ => Safe.pure _
    exact Safe.bind (freeChainLoop_inBounds _ _) fun _ => Safe.pure _
  refine Safe.ite (fun _ => ?_) fun _ => Safe.ite (fun zero => ?_) fun _ => ?_
  · refine Safe.bind (writeDirectoryCluster_inBounds _ _) fun ok => ?_
    refine Safe.ite (fun _ => ?_) fun _ => Safe.pure _
    exact Safe.bind (refreshRoot_inBounds _) fun _ => Safe.pure _
  · have positive := small.1
    omega
  · refine Safe.bind (allocateClusterChain_inBounds _) fun allocated => ?_
    cases allocated with
    | none => exact Safe.pure _
    | some first =>
        refine Safe.get_bind fun d small => ?_
        have fits : d.fs.sectorsPerCluster * 512 ≤ fileClusterBufSize := by
          have bound := small.2
          simp only [fileClusterBufSize]
          omega
        refine Safe.bind (writeLoop_inBounds fits _ _ _ _) fun ok => ?_
        refine Safe.ite (fun _ => ?_) fun _ => giveUp_inBounds _
        refine Safe.bind (writeDirectoryCluster_inBounds _ _) fun ok => ?_
        refine Safe.ite (fun _ => ?_) fun _ => giveUp_inBounds _
        refine Safe.bind (refreshRoot_inBounds _) fun ok => ?_
        exact Safe.ite (fun _ => Safe.pure _) fun _ => giveUp_inBounds _

theorem fat32Write_inBounds (locals : Locals) (path : CStr) (data : List UInt8) :
    InBounds (fat32Write locals path data) := by
  refine Safe.get_bind fun d _ => Safe.ite (fun _ => ?_) fun _ => Safe.pure _
  refine Safe.bind (writeTarget_safe reads_smallClusters _ _) fun target => ?_
  cases target with
  | none => exact Safe.pure _
  | some target => exact writeEntry_inBounds target data

theorem fat32Mkdir_inBounds (locals : Locals) (path : CStr) :
    InBounds (fat32Mkdir locals path) := by
  refine Safe.get_bind fun d _ => Safe.ite (fun _ => ?_) fun _ => Safe.pure _
  refine Safe.bind (navigatePath_safe reads_smallClusters _) fun nav =>
    Safe.ite (fun _ => Safe.pure _) fun _ => ?_
  refine Safe.bind (allocateClusterChain_inBounds _) fun allocated => ?_
  cases allocated with
  | none => exact Safe.pure _
  | some new =>
      refine Safe.bind (writeDirectoryCluster_inBounds _ _) fun ok => ?_
      refine Safe.ite (fun _ => ?_) fun _ => giveUp_inBounds _
      refine Safe.bind (loadDirectoryCluster_safe reads_smallClusters _) fun loaded => ?_
      cases loaded with
      | none => exact giveUp_inBounds _
      | some b =>
          cases makeName83 (nav.filename.getD locals.filename.1) with
          | none => exact giveUp_inBounds _
          | some name =>
              refine Safe.get_bind fun d small => ?_
              cases scanFree (d.fs.entries b) 0 with
              | none =>
                  exact Safe.bind (endOfEntries_safe small) fun _ => giveUp_inBounds _
              | some slot =>
                  refine Safe.bind (writeDirectoryCluster_inBounds _ _) fun ok => ?_
                  refine Safe.ite (fun _ => ?_) fun _ => giveUp_inBounds _
                  exact Safe.bind (refreshRoot_inBounds _) fun _ => Safe.pure _

theorem BufferCall.inBounds (call : BufferCall) : InBounds call.exec := by
  cases call with
  | read count => exact Safe.bind (fat32Read_inBounds _) fun _ => Safe.pure _
  | write locals path data => exact Safe.bind (fat32Write_inBounds _ _ _) fun _ => Safe.pure _
  | openFile path => exact Safe.bind (fat32Open_inBounds _) fun _ => Safe.pure _
  | mkdir locals path => exact Safe.bind (fat32Mkdir_inBounds _ _) fun _ => Safe.pure _
  | list path => exact Safe.bind (fat32ListDirectory_inBounds _) fun _ => Safe.pure _

theorem callsInBounds_of_small {sectorsPerCluster : Nat} (low : 1 ≤ sectorsPerCluster)
    (high : sectorsPerCluster ≤ 8) : CallsInBounds sectorsPerCluster := by
  rintro d rfl call e stopped
  exact (call.inBounds d ⟨low, high⟩).2 e stopped

end Bounds

/-! ## The boot sector -/

/-- The boot sector that `fat32_mount` reads. -/
def Driver.bootSector (d : Driver) (disk : Nat) (part : Partition) : Buf :=
  (d.ata.readSectors (diskToAta disk).1 (diskToAta disk).2 part.startLba 1 fun _ => 0).2.1

/-- `reserved_sectors + num_fats * sectors_per_fat`, as a number without bounds. -/
def systemSectors (boot : Buf) : Nat := boot.le 14 2 + (boot 16).toNat * boot.le 36 4

/-- The rest of the driver can use the installed geometry: the addresses are the true ones,
clusters fit the buffers, and the table has an entry for every cluster. -/
structure Usable (part : Partition) (boot : Buf) (fs : Fs) : Prop where
  bytesPerSector : fs.bytesPerSector = 512
  divisor : 0 < fs.sectorsPerCluster
  dataStart : fs.dataStart = part.startLba + systemSectors boot
  totalClusters : (fs.totalClusters : Int) =
    ((boot.le 32 4 : Int) - systemSectors boot) / fs.sectorsPerCluster
  fileBuffer : fs.sectorsPerCluster * 512 ≤ fileClusterBufSize
  dirBuffers : fs.sectorsPerCluster * 512 ≤ dirBufferSize
  calls : CallsInBounds fs.sectorsPerCluster
  table : 1 ≤ fs.numFats ∧ fs.totalClusters + 2 ≤ fs.sectorsPerFat * 128

/-- The fields of a boot sector that give a usable geometry. -/
structure BootFields (part : Partition) (boot : Buf) : Prop where
  bytesPerSector : boot.le 11 2 = 512
  sectorsPerCluster : (boot 13).toNat ≤ 8
  addresses : part.startLba + systemSectors boot < 2 ^ 32
  total : systemSectors boot ≤ boot.le 32 4
  numFats : 1 ≤ (boot 16).toNat
  table : (boot.le 32 4 - systemSectors boot) / (boot 13).toNat + 2 ≤ boot.le 36 4 * 128

/-- What a successful mount installs. -/
theorem fat32Mount_returns {disk partition : Nat} {part : Partition} {d d' : Driver}
    (returned : (fat32Mount disk partition (some part)).run d = .ok (0, d')) :
    d'.fs = mountedFs disk partition part (d.bootSector disk part) ∧
      d.bootSector disk part 13 ≠ 0 := by
  simp only [fat32Mount] at returned
  split at returned
  · cases returned
  · obtain ⟨read, d₁, got, rest⟩ := bind_returns returned
    have boot : read.2 = d.bootSector disk part := by
      cases got
      rfl
    rw [boot] at rest
    split at rest
    · split at rest
      · cases rest
      · next nonzero =>
          obtain ⟨_, d₂, moved, last⟩ := bind_returns rest
          cases moved
          cases last
          exact ⟨rfl, nonzero⟩
    · cases rest

/-- The address that is installed is the true one exactly if nothing wraps. -/
theorem mounted_dataStart_iff (disk partition : Nat) (part : Partition) (boot : Buf) :
    (mountedFs disk partition part boot).dataStart = part.startLba + systemSectors boot ↔
      part.startLba + systemSectors boot < 2 ^ 32 := by
  simp only [mountedFs, systemSectors]
  generalize (boot 16).toNat * boot.le 36 4 = area
  omega

theorem mounted_totalClusters_iff (disk partition : Nat) (part : Partition) (boot : Buf)
    (divisor : 0 < (boot 13).toNat) :
    ((mountedFs disk partition part boot).totalClusters : Int) =
        ((boot.le 32 4 : Int) - systemSectors boot) / (boot 13).toNat ↔
      systemSectors boot ≤ boot.le 32 4 := by
  have total : boot.le 32 4 < 2 ^ 32 := Buf.le_lt boot 32 4
  have system : (boot.le 14 2 + (boot 16).toNat * boot.le 36 4 % 2 ^ 32) % 2 ^ 32 =
      systemSectors boot % 2 ^ 32 := by
    rw [Nat.add_mod_mod]
    rfl
  simp only [mountedFs, system]
  constructor
  · -- a negative number of data sectors is not the quotient of a natural number
    intro same
    by_contra short
    have negative : ((boot.le 32 4 : Int) - systemSectors boot) / (boot 13).toNat < 0 :=
      Int.ediv_neg_of_neg_of_pos (by omega) (by exact_mod_cast divisor)
    rw [← same] at negative
    exact absurd negative (not_lt.mpr (Int.natCast_nonneg _))
  · intro enough
    rw [show (boot.le 32 4 + 2 ^ 32 - systemSectors boot % 2 ^ 32) % 2 ^ 32 =
      boot.le 32 4 - systemSectors boot by omega, Int.natCast_ediv, Nat.cast_sub enough]

theorem mounted_clusters (disk partition : Nat) (part : Partition) (boot : Buf)
    (divisor : 0 < (boot 13).toNat) (enough : systemSectors boot ≤ boot.le 32 4) :
    (mountedFs disk partition part boot).totalClusters =
      (boot.le 32 4 - systemSectors boot) / (boot 13).toNat := by
  have quotient := (mounted_totalClusters_iff disk partition part boot divisor).mpr enough
  rw [← Nat.cast_sub enough, ← Int.natCast_ediv] at quotient
  exact_mod_cast quotient

/-- For every boot sector that `fat32_mount` accepts: the geometry is usable if and only if the
fields are those of `BootFields`. -/
theorem mount_usable_iff {disk partition : Nat} {part : Partition} {d d' : Driver}
    (returned : (fat32Mount disk partition (some part)).run d = .ok (0, d')) :
    Usable part (d.bootSector disk part) d'.fs ↔ BootFields part (d.bootSector disk part) := by
  obtain ⟨fs, nonzero⟩ := fat32Mount_returns returned
  generalize d.bootSector disk part = boot at fs nonzero
  have divisor : 0 < (boot 13).toNat := by
    rw [Nat.pos_iff_ne_zero]
    intro zero
    exact nonzero (UInt8.toNat_inj.mp zero)
  have address := mounted_dataStart_iff disk partition part boot
  have total := mounted_totalClusters_iff disk partition part boot divisor
  rw [fs]
  constructor
  · intro usable
    have enough := total.mp usable.totalClusters
    refine ⟨usable.bytesPerSector, ?_, address.mp usable.dataStart, enough, usable.table.1, ?_⟩
    · have fits : (boot 13).toNat * 512 ≤ 4096 := usable.fileBuffer
      omega
    · have table := usable.table.2
      rw [mounted_clusters disk partition part boot divisor enough] at table
      exact table
  · intro fields
    have small := fields.sectorsPerCluster
    refine ⟨fields.bytesPerSector, divisor, address.mpr fields.addresses, total.mpr fields.total,
      ?_, ?_, callsInBounds_of_small divisor small, fields.numFats, ?_⟩
    · show (boot 13).toNat * 512 ≤ 4096
      omega
    · show (boot 13).toNat * 512 ≤ 16384
      omega
    · rw [mounted_clusters disk partition part boot divisor fields.total]
      exact fields.table

/-- The boot sector of the formatted volume gives a usable geometry. -/
theorem formatted_usable :
    Usable ⟨partTypeFat32, 0⟩ (unmounted.bootSector 0 ⟨partTypeFat32, 0⟩) mountedAB.fs := by
  have passed : Runs.check (fat32Mount 0 0 (some ⟨partTypeFat32, 0⟩)) unmounted
      (fun r _ => r = 0) = true := by decide +kernel
  obtain ⟨_, ran, zero⟩ := leaves_of_check passed
  obtain rfl := of_decide_eq_true zero
  refine (mount_usable_iff ran).mpr ⟨?_, ?_, ?_, ?_, ?_, ?_⟩ <;> decide +kernel

/-- The same volume, with a boot sector that says 16 sectors a cluster. -/
def largeClusters : Driver :=
  { unmounted with
    ata := { unmounted.ata with
      media := fun channel drive l =>
        if l = 0 then Buf.putLe bootSector 13 1 16 else unmounted.ata.media channel drive l } }

/-- It is mounted, and clusters of 8192 bytes go through the 4096 bytes of `file_cluster_buf`. -/
theorem large_clusters_mounted :
    (fat32Mount 0 0 (some ⟨partTypeFat32, 0⟩)).run largeClusters =
        .ok (0, leaves (fat32Mount 0 0 (some ⟨partTypeFat32, 0⟩)) largeClusters) ∧
      ¬ Usable ⟨partTypeFat32, 0⟩ (largeClusters.bootSector 0 ⟨partTypeFat32, 0⟩)
        (leaves (fat32Mount 0 0 (some ⟨partTypeFat32, 0⟩)) largeClusters).fs := by
  have passed : Runs.check (fat32Mount 0 0 (some ⟨partTypeFat32, 0⟩)) largeClusters
      (fun r d => r = 0 && d.fs.sectorsPerCluster = 16) = true := by decide +kernel
  obtain ⟨r, ran, holds⟩ := leaves_of_check passed
  simp only [Bool.and_eq_true, decide_eq_true_eq] at holds
  obtain ⟨rfl, size⟩ := holds
  refine ⟨ran, fun usable => ?_⟩
  have fits := usable.fileBuffer
  rw [size] at fits
  exact absurd fits (by decide)

end XosKernel.Fat32
