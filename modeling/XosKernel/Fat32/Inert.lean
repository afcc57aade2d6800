/-
# Fat32.Inert -- what the commands leave alone in every state

A command of `fat32.c` reaches the state through few fields: the drives, the table cache and
the buffers.  A part of the state that does not depend on these fields survives the command
(`Keeps`), whatever the volume looks like.  The lemmas follow the definitions; no volume and
no invariant is involved.
-/
import XosKernel.Fat32.Files

namespace XosKernel.Fat32

open XosKernel.Theory

set_option autoImplicit false

variable {γ : Type} {part : Driver → γ}

/-- A part of the state that does not depend on the number of transfers. -/
def Steady (part : Driver → γ) : Prop :=
  ∀ d n, part { d with ata := { d.ata with transfers := n } } = part d

/-- A part of the state that loading sectors and caching them does not reach. -/
structure ReadInert (part : Driver → γ) : Prop where
  transfers : ∀ d n, part { d with ata := { d.ata with transfers := n } } = part d
  cache : ∀ d b, part { d with fatSectorCache := b } = part d
  cached : ∀ d n, part { d with fatCacheSector := n } = part d

theorem ReadInert.steady (inert : ReadInert part) : Steady part := inert.transfers

/-- A part of the state that writing table and data sectors does not reach either. -/
structure Inert (part : Driver → γ) : Prop extends ReadInert part where
  media : ∀ d m w, w.buffer ≠ .directory →
    part { d with ata := { d.ata with media := m, writes := w :: d.ata.writes } } = part d

/-- A part of the state that no write reaches. -/
structure Fixed (part : Driver → γ) : Prop extends Inert part where
  directory : ∀ d m w, w.buffer = .directory →
    part { d with ata := { d.ata with media := m, writes := w :: d.ata.writes } } = part d

/-! ## Commands that read -/

section Reading

variable (steady : Steady part)
include steady

theorem ataReadSectors_keeps (disk lba count : Nat) (b : Buf) :
    Keeps part (ataReadSectors disk lba count b) := by
  intro d r d' returned
  cases returned
  unfold Ata.readSectors
  split
  · exact steady d _
  · exact steady d _

theorem loadDirectoryCluster_keeps (c : Nat) : Keeps part (loadDirectoryCluster c) :=
  Keeps.get_bind fun _ => Keeps.bind (ataReadSectors_keeps steady _ _ _ _) fun _ => Keeps.pure _

omit steady in
theorem endOfEntries_keeps (fs : Fs) : Keeps part fs.endOfEntries :=
  Keeps.ite (Keeps.throw _) (Keeps.pure _)

omit steady in
theorem scanDirectory_keeps (test : Dirent → Bool) (b : Buf) :
    Keeps part (scanDirectory test b) := by
  refine Keeps.get_bind fun d => ?_
  cases scanLive test (d.fs.entries b) 0 with
  | found slot e => exact Keeps.pure _
  | ended => exact Keeps.pure _
  | exhausted => exact Keeps.bind (endOfEntries_keeps d.fs) fun _ => Keeps.pure _

theorem findInDirectory_keeps (c : Nat) (name : List UInt8) :
    Keeps part (findInDirectory c name) := by
  refine Keeps.bind (loadDirectoryCluster_keeps steady c) fun loaded => ?_
  cases loaded with
  | none => exact Keeps.pure _
  | some b => exact Keeps.bind (scanDirectory_keeps _ _) fun _ => Keeps.pure _

theorem walkPath_keeps : ∀ path c component, Keeps part (walkPath path c component)
  | [], c, component => Keeps.pure _
  | ch :: path, c, component => by
      refine Keeps.ite (Keeps.ite (walkPath_keeps path c []) ?_) (walkPath_keeps path c _)
      refine Keeps.bind (findInDirectory_keeps steady c component) fun found => ?_
      cases found with
      | none => exact Keeps.pure _
      | some e => exact Keeps.ite (walkPath_keeps path _ []) (Keeps.pure _)

theorem navigatePath_keeps (path : List UInt8) : Keeps part (navigatePath path) := by
  refine Keeps.get_bind fun d => Keeps.bind (walkPath_keeps steady _ _ _) fun reached => ?_
  cases reached with
  | none => exact Keeps.pure _
  | some q =>
      obtain ⟨c, component⟩ := q
      cases component with
      | nil => exact Keeps.pure _
      | cons ch rest =>
          refine Keeps.bind (findInDirectory_keeps steady c _) fun found => ?_
          cases found with
          | none => exact Keeps.pure _
          | some e => exact Keeps.pure _

theorem writeTarget_keeps (locals : Locals) (path : CStr) :
    Keeps part (writeTarget locals path) := by
  refine Keeps.bind (navigatePath_keeps steady _) fun nav => ?_
  refine Keeps.ite (Keeps.pure _) (Keeps.ite (Keeps.pure _) ?_)
  cases makeName83 (nav.filename.getD locals.filename.1) with
  | none => exact Keeps.pure _
  | some name =>
      refine Keeps.bind (loadDirectoryCluster_keeps steady _) fun loaded => ?_
      cases loaded with
      | none => exact Keeps.pure _
      | some b =>
          refine Keeps.get_bind fun d => ?_
          cases scanWrite name (d.fs.entries b) 0 none with
          | existing slot => exact Keeps.pure _
          | free slot => exact Keeps.pure _
          | exhausted slot => exact Keeps.bind (endOfEntries_keeps d.fs) fun _ => Keeps.pure _

end Reading

section Looking

variable (inert : ReadInert part)
include inert

theorem nextCluster_keeps (c : Nat) : Keeps part (nextCluster c) := by
  refine Keeps.get_bind fun d => Keeps.bind ?_ fun ok => ?_
  · refine Keeps.get_bind fun d => Keeps.ite (Keeps.pure _) ?_
    refine Keeps.bind (ataReadSectors_keeps inert.steady _ _ _ _) fun read => ?_
    refine Keeps.bind (Keeps.modify fun d => inert.cache d _) fun _ => ?_
    exact Keeps.ite (Keeps.bind (Keeps.modify fun d => inert.cached d _) fun _ => Keeps.pure _)
      (Keeps.pure _)
  · exact Keeps.ite (Keeps.get_bind fun d => Keeps.pure _) (Keeps.pure _)

theorem findFreeFrom_keeps : ∀ n c, Keeps part (findFreeFrom c n)
  | 0, c => Keeps.pure _
  | n + 1, c => by
      refine Keeps.bind (nextCluster_keeps inert c) fun next => ?_
      exact Keeps.ite (Keeps.pure _) (findFreeFrom_keeps n (c + 1))

end Looking

/-! ## Commands that write -/

section Writing

variable (inert : Inert part)
include inert

omit inert in
/-- One command, given what it does to the part when it is the last one of the log. -/
theorem ataWriteSectors_leaves (steady : Steady part) {source : WriteBuffer}
    (media : ∀ d m w, w.buffer = source →
      part { d with ata := { d.ata with media := m, writes := w :: d.ata.writes } } = part d)
    (disk lba count : Nat) (b : Buf) : Keeps part (ataWriteSectors source disk lba count b) := by
  have both : ∀ (d : Driver) m n w, w.buffer = source →
      part { d with ata := { d.ata with
        media := m, transfers := n, writes := w :: d.ata.writes } } = part d :=
    fun d m n w same =>
      (media { d with ata := { d.ata with transfers := n } } m w same).trans (steady d n)
  intro d r d' returned
  cases returned
  unfold Ata.writeSectors
  split
  · exact both d _ _ _ rfl
  · exact both d _ _ _ rfl

theorem ataWriteSectors_keeps {source : WriteBuffer} (other : source ≠ .directory)
    (disk lba count : Nat) (b : Buf) : Keeps part (ataWriteSectors source disk lba count b) :=
  ataWriteSectors_leaves inert.steady
    (fun d m w same => inert.media d m w (by rw [same]; exact other)) disk lba count b

theorem setFatCopies_keeps (j off x : Nat) : ∀ copies fat,
    Keeps part (setFatCopies j off x fat copies)
  | 0, fat => Keeps.pure _
  | copies + 1, fat => by
      refine Keeps.get_bind fun d => ?_
      refine Keeps.bind (ataReadSectors_keeps inert.steady _ _ _ _) fun read => ?_
      refine Keeps.ite (Keeps.bind (ataWriteSectors_keeps inert (by decide) _ _ _ _)
        fun written => ?_) (Keeps.pure _)
      exact Keeps.ite (setFatCopies_keeps j off x copies (fat + 1)) (Keeps.pure _)

theorem setFatEntry_keeps (c x : Nat) : Keeps part (setFatEntry c x) := by
  refine Keeps.get_bind fun d => Keeps.bind (setFatCopies_keeps inert _ _ _ _ _) fun ok => ?_
  refine Keeps.ite (Keeps.bind (Keeps.modify fun d => ?_) fun _ => Keeps.pure _) (Keeps.pure _)
  split
  · exact inert.cache d _
  · rfl

theorem freeChainLoop_keeps : ∀ passes c, Keeps part (freeChainLoop passes c)
  | 0, c => Keeps.throw _
  | passes + 1, c => by
      refine Keeps.ite (Keeps.bind (nextCluster_keeps inert.toReadInert c) fun next => ?_)
        (Keeps.pure _)
      refine Keeps.bind (setFatEntry_keeps inert c 0) fun r => ?_
      refine Keeps.ite (Keeps.ite (Keeps.pure _) ?_) (Keeps.pure _)
      exact freeChainLoop_keeps passes next

theorem freeOldChain_keeps (first : Nat) : Keeps part (freeOldChain first) :=
  Keeps.ite (Keeps.bind (freeChainLoop_keeps inert _ _) fun _ => Keeps.pure _) (Keeps.pure _)

theorem linkPrevious_keeps (prev c : Nat) : Keeps part (linkPrevious prev c) :=
  Keeps.ite (Keeps.pure _) (Keeps.bind (setFatEntry_keeps inert prev c) fun _ => Keeps.pure _)

theorem allocateLoop_keeps : ∀ n first prev, Keeps part (allocateLoop n first prev)
  | 0, first, prev => Keeps.pure _
  | n + 1, first, prev => by
      refine Keeps.bind (Keeps.get_bind fun d => findFreeFrom_keeps inert.toReadInert _ _)
        fun found => ?_
      cases found with
      | none => exact Keeps.pure _
      | some c =>
          refine Keeps.bind (linkPrevious_keeps inert prev c) fun ok => ?_
          exact Keeps.ite (allocateLoop_keeps n _ _) (Keeps.pure _)

theorem allocateClusterChain_keeps (n : Nat) : Keeps part (allocateClusterChain n) := by
  refine Keeps.bind (allocateLoop_keeps inert n 0 0) fun linked => ?_
  cases linked with
  | none => exact Keeps.pure _
  | some r =>
      exact Keeps.bind (linkPrevious_keeps inert _ _) fun _ =>
        Keeps.ite (Keeps.pure _) (Keeps.pure _)

/-- The data goes through `file_cluster_buf`. -/
theorem writeLoop_keeps (buffer : ∀ d b, part { d with fileClusterBuf := b } = part d)
    (clusterSize : Nat) : ∀ passes src remaining c,
    Keeps part (writeLoop clusterSize passes src remaining c)
  | 0, src, remaining, c => Keeps.pure _
  | passes + 1, src, remaining, c => by
      refine Keeps.ite (Keeps.get_bind fun d => Keeps.ite (Keeps.throw _) ?_) (Keeps.pure _)
      refine Keeps.bind (Keeps.modify fun d => buffer d _) fun _ => ?_
      refine Keeps.bind (ataWriteSectors_keeps inert (by decide) _ _ _ _) fun written => ?_
      refine Keeps.ite (Keeps.bind (nextCluster_keeps inert.toReadInert c) fun next => ?_)
        (Keeps.pure _)
      exact Keeps.ite (Keeps.pure _) (writeLoop_keeps buffer clusterSize passes _ _ next)

end Writing

theorem writeDirectoryCluster_keeps (fixed : Fixed part) (c : Nat) (b : Buf) :
    Keeps part (writeDirectoryCluster c b) :=
  Keeps.get_bind fun _ => Keeps.ite (Keeps.throw _)
    (Keeps.bind (ataWriteSectors_leaves fixed.steady fixed.directory _ _ _ _) fun _ => Keeps.pure _)

/-! ## Measures of the command log -/

/-- A measure that loading and caching sectors does not reach, and that no command lowers. -/
structure Grows [Preorder γ] (measure : Driver → γ) : Prop extends ReadInert measure where
  command : ∀ d m w,
    measure d ≤ measure { d with ata := { d.ata with media := m, writes := w :: d.ata.writes } }

section Growing

variable [Preorder γ] {measure : Driver → γ} (grows : Grows measure)
include grows

theorem ataWriteSectors_rises (source : WriteBuffer) (disk lba count : Nat) (b : Buf) :
    Rises measure (ataWriteSectors source disk lba count b) := by
  have one : ∀ (d : Driver) m n w, measure d ≤ measure { d with ata := { d.ata with
      media := m, transfers := n, writes := w :: d.ata.writes } } := fun d m n w =>
    le_trans (le_of_eq (grows.transfers d n).symm)
      (grows.command { d with ata := { d.ata with transfers := n } } m w)
  intro d r d' returned
  cases returned
  unfold Ata.writeSectors
  split
  · exact one d _ _ _
  · exact one d _ _ _

theorem setFatCopies_rises (j off x : Nat) : ∀ copies fat,
    Rises measure (setFatCopies j off x fat copies)
  | 0, fat => Rises.pure _
  | copies + 1, fat => by
      refine Rises.get_bind fun d => ?_
      refine Rises.bind (ataReadSectors_keeps grows.steady _ _ _ _).rises fun read => ?_
      refine Rises.ite (Rises.bind (ataWriteSectors_rises grows _ _ _ _ _) fun written => ?_)
        (Rises.pure _)
      exact Rises.ite (setFatCopies_rises j off x copies (fat + 1)) (Rises.pure _)

theorem setFatEntry_rises (c x : Nat) : Rises measure (setFatEntry c x) := by
  refine Rises.get_bind fun d => Rises.bind (setFatCopies_rises grows _ _ _ _ _) fun ok => ?_
  refine Rises.ite (Rises.bind (Keeps.rises (Keeps.modify fun d => ?_)) fun _ => Rises.pure _)
    (Rises.pure _)
  split
  · exact grows.cache d _
  · rfl

theorem freeChainLoop_rises : ∀ passes c, Rises measure (freeChainLoop passes c)
  | 0, c => Rises.throw _
  | passes + 1, c => by
      refine Rises.ite ?_ (Rises.pure _)
      refine Rises.bind (nextCluster_keeps grows.toReadInert c).rises fun next => ?_
      refine Rises.bind (setFatEntry_rises grows c 0) fun set => Rises.ite ?_ (Rises.pure _)
      exact Rises.ite (Rises.pure _) (freeChainLoop_rises passes next)

theorem freeOldChain_rises (first : Nat) : Rises measure (freeOldChain first) :=
  Rises.ite (Rises.bind (freeChainLoop_rises grows _ _) fun _ => Rises.pure _) (Rises.pure _)

theorem giveUp_rises (c : Nat) : Rises measure (giveUp c) :=
  Rises.bind (freeChainLoop_rises grows _ _) fun _ => Rises.pure _

theorem linkPrevious_rises (prev cluster : Nat) : Rises measure (linkPrevious prev cluster) :=
  Rises.ite (Rises.pure _) (Rises.bind (setFatEntry_rises grows _ _) fun _ => Rises.pure _)

theorem allocateLoop_rises : ∀ n first prev, Rises measure (allocateLoop n first prev)
  | 0, first, prev => Rises.pure _
  | n + 1, first, prev => by
      refine Rises.bind (Keeps.rises (Keeps.get_bind fun d =>
        findFreeFrom_keeps grows.toReadInert _ _)) fun found => ?_
      cases found with
      | none => exact Rises.pure _
      | some cluster =>
          exact Rises.bind (linkPrevious_rises grows prev cluster) fun linked =>
            Rises.ite (allocateLoop_rises n _ cluster) (Rises.pure _)

theorem allocateClusterChain_rises (count : Nat) : Rises measure (allocateClusterChain count) := by
  refine Rises.bind (allocateLoop_rises grows count 0 0) fun found => ?_
  cases found with
  | none => exact Rises.pure _
  | some p =>
      exact Rises.bind (linkPrevious_rises grows p.2 _) fun closed =>
        Rises.ite (Rises.pure _) (Rises.pure _)

theorem writeLoop_rises (buffer : ∀ d b, measure { d with fileClusterBuf := b } = measure d)
    (clusterSize : Nat) : ∀ passes src remaining c,
    Rises measure (writeLoop clusterSize passes src remaining c)
  | 0, src, remaining, c => Rises.pure _
  | passes + 1, src, remaining, c => by
      refine Rises.ite (Rises.get_bind fun d => Rises.ite (Rises.throw _) ?_) (Rises.pure _)
      refine Rises.bind (Keeps.rises (Keeps.modify fun d => buffer d _)) fun _ => ?_
      refine Rises.bind (ataWriteSectors_rises grows _ _ _ _ _) fun written => ?_
      refine Rises.ite (Rises.bind (nextCluster_keeps grows.toReadInert c).rises fun next => ?_)
        (Rises.pure _)
      exact Rises.ite (Rises.pure _) (writeLoop_rises buffer clusterSize passes _ _ next)

theorem writeDirectoryCluster_rises (c : Nat) (b : Buf) :
    Rises measure (writeDirectoryCluster c b) :=
  Rises.get_bind fun _ => Rises.ite (Rises.throw _)
    (Rises.bind (ataWriteSectors_rises grows _ _ _ _ _) fun _ => Rises.pure _)

theorem refreshRoot_rises (root : ∀ d b, measure { d with rootDirBuffer := b } = measure d)
    (c : Nat) : Rises measure (refreshRoot c) := by
  refine Rises.get_bind fun d => Rises.ite ?_ (Rises.pure _)
  refine Rises.get_bind fun d => ?_
  refine Rises.bind (ataReadSectors_keeps grows.steady _ _ _ _).rises fun read => ?_
  exact Rises.bind (Keeps.rises (Keeps.modify fun d => root d _)) fun _ => Rises.pure _

end Growing

theorem inert_rootDirBuffer : Inert Driver.rootDirBuffer :=
  ⟨⟨fun _ _ => rfl, fun _ _ => rfl, fun _ _ => rfl⟩, fun _ _ _ _ => rfl⟩

end XosKernel.Fat32
