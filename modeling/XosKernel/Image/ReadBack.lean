/-
# Image.ReadBack -- the kernel reads what the script wrote

The script and the driver agree on every offset: `partition_detect` finds the partition,
`fat32_mount` derives the script's constants from the boot sector (`imageFs`), and the volume
behind the mounted state is the table, the root directory and the clusters that the script
stored (`ImageVolume`).  On it the files are spread over their chains as `Fat32.ReadChain`
wants them, so every file is opened by its name and read back whole (`image_read_back`).
-/
import XosKernel.Fat32.NameSpec
import XosKernel.Fat32.Partition
import XosKernel.Fat32.ReadChain
import XosKernel.Image.Contents
import Mathlib.Data.List.TakeWhile

namespace XosKernel.Image

open XosKernel.Theory
open XosKernel.Fat32

set_option autoImplicit false

/-! ## Names -/

/-- A character of an upper-case 8.3 name. -/
def NameChar (c : UInt8) : Prop :=
  c ≠ 0 ∧ c.toNat < 0x80 ∧ c ≠ space ∧ c ≠ dot ∧ c ≠ slash ∧ ¬ (0x61 ≤ c ∧ c ≤ 0x7A)

instance (c : UInt8) : Decidable (NameChar c) := inferInstanceAs (Decidable (_ ∧ _))

/-- A name part of one to eight characters and an extension of at most three. -/
structure GivenFile.Named (f : GivenFile) : Prop where
  nonempty : f.name ≠ []
  name_le : f.name.length ≤ 8
  ext_le : f.ext.length ≤ 3
  chars : ∀ c ∈ f.name ++ f.ext, NameChar c

/-- The text of a name: `NAME.EXT`, or `NAME` without an extension. -/
def GivenFile.text (f : GivenFile) : List UInt8 :=
  f.name ++ if f.ext = [] then [] else dot :: f.ext

theorem upper_of_nameChar {c : UInt8} (char : NameChar c) : upper c = c :=
  if_neg char.2.2.2.2.2

/-- Padding as the driver does it and as the script does it. -/
theorem padField_eq_ljust {width : Nat} {s : List UInt8} (fits : s.length ≤ width)
    (chars : ∀ c ∈ s, NameChar c) : padField width s = ljust width s := by
  have whole : s.take width = s := List.take_of_length_le fits
  have same : s.map upper = s := by
    rw [List.map_congr_left fun c member => upper_of_nameChar (chars c member), List.map_id']
  apply List.ext_getElem
  · simp [padField, ljust, whole]
    omega
  · intro i low high
    simp only [padField, same, List.getElem_map, List.getElem_range, ljust, whole]
    by_cases inside : i < s.length
    · rw [List.getElem_append_left inside, List.getD_eq_getElem?_getD,
        List.getElem?_eq_getElem inside, Option.getD_some]
    · rw [List.getElem_append_right (by omega), List.getElem_replicate,
        List.getD_eq_getElem?_getD, List.getElem?_eq_none (by omega), Option.getD_none]
      rfl

/-- The characters of a name part are collected in front of the dot. -/
theorem splitName_base_append (s rest base : List UInt8) (chars : ∀ c ∈ s, NameChar c)
    (fits : base.length + s.length ≤ 8) :
    splitName (s ++ rest) base [] false = splitName rest (base ++ s) [] false := by
  induction s generalizing base with
  | nil => simp
  | cons c s ih =>
      have char := chars c List.mem_cons_self
      simp only [List.length_cons] at fits
      rw [List.cons_append, splitName, if_neg char.2.2.2.2.1, if_neg char.2.2.2.1, if_pos (by rfl),
        if_neg (by omega),
        ih (base ++ [c]) (fun x member => chars x (List.mem_cons_of_mem _ member))
          (by simp; omega),
        List.append_assoc, List.singleton_append]

/-- The characters of an extension behind it. -/
theorem splitName_ext_append (s base ext : List UInt8) (chars : ∀ c ∈ s, NameChar c)
    (fits : ext.length + s.length ≤ 3) : splitName s base ext true = some (base, ext ++ s) := by
  induction s generalizing ext with
  | nil => simp [splitName]
  | cons c s ih =>
      have char := chars c List.mem_cons_self
      simp only [List.length_cons] at fits
      rw [splitName, if_neg char.2.2.2.2.1, if_neg char.2.2.2.1, if_neg (by simp),
        if_neg (by omega), ih (ext ++ [c]) (fun x member => chars x (List.mem_cons_of_mem _ member))
          (by simp; omega), List.append_assoc, List.singleton_append]

section Named

variable {f : GivenFile} (named : f.Named)
include named

/-- The driver packs the text of a name into its two fields. -/
theorem makeName83_text : makeName83 (skipSlash f.text) = some (packName f.name f.ext) := by
  have nameChars : ∀ c ∈ f.name, NameChar c := fun c member =>
    named.chars c (List.mem_append_left _ member)
  have extChars : ∀ c ∈ f.ext, NameChar c := fun c member =>
    named.chars c (List.mem_append_right _ member)
  have noSlash : slash ∉ f.text := by
    rw [GivenFile.text, List.mem_append, not_or]
    refine ⟨fun member => (nameChars _ member).2.2.2.2.1 rfl, ?_⟩
    by_cases bare : f.ext = []
    · rw [if_pos bare]
      exact List.not_mem_nil
    · rw [if_neg bare, List.mem_cons, not_or]
      exact ⟨by decide, fun member => (extChars _ member).2.2.2.2.1 rfl⟩
  have split : splitName f.text [] [] false = some (f.name, f.ext) := by
    rw [GivenFile.text, splitName_base_append _ _ _ nameChars (by simpa using named.name_le),
      List.nil_append]
    by_cases bare : f.ext = []
    · rw [if_pos bare, bare, splitName]
    · rw [if_neg bare, splitName, if_neg (by decide), if_pos rfl, if_neg (by decide),
        splitName_ext_append _ _ _ extChars (by simpa using named.ext_le), List.nil_append]
  obtain ⟨c, rest, text⟩ : ∃ c rest, f.text = c :: rest := by
    cases name : f.name with
    | nil => exact absurd name named.nonempty
    | cons c rest => exact ⟨c, _, by rw [GivenFile.text, name, List.cons_append]⟩
  rw [makeName83, skipSlash_of_not_mem noSlash, skipSlash_of_not_mem noSlash, text]
  rw [text] at split
  simp only [split, Option.map_some]

end Named

/-- The bytes of a name in its directory entry. -/
def GivenFile.bytes (f : GivenFile) : List UInt8 := ljust 8 f.name ++ ljust 3 f.ext

theorem length_ljust (width : Nat) (s : List UInt8) : (ljust width s).length = width := by
  simp only [ljust, List.length_append, List.length_take, List.length_replicate]
  omega

theorem GivenFile.length_bytes (f : GivenFile) : f.bytes.length = 11 := by
  rw [GivenFile.bytes, List.length_append, length_ljust, length_ljust]

/-- A padded field shows its characters up to the first blank. -/
theorem takeWhile_ljust {width : Nat} {s : List UInt8} (fits : s.length ≤ width)
    (chars : ∀ c ∈ s, NameChar c) : (ljust width s).takeWhile (· ≠ space) = s := by
  have blanks : ∀ n, (List.replicate n (0x20 : UInt8)).takeWhile (· ≠ space) = [] := by
    intro n
    cases n with
    | zero => rfl
    | succ n => rfl
  rw [ljust, List.take_of_length_le fits, List.takeWhile_append_of_pos, blanks, List.append_nil]
  intro c member
  exact decide_eq_true (chars c member).2.2.1

section Packed

variable {f g : GivenFile}

theorem GivenFile.Named.packed (named : f.Named) : (packName f.name f.ext).1 = f.bytes := by
  show padField 8 f.name ++ padField 3 f.ext = f.bytes
  rw [padField_eq_ljust named.name_le fun c member => named.chars c (List.mem_append_left _ member),
    padField_eq_ljust named.ext_le fun c member => named.chars c (List.mem_append_right _ member)]
  rfl

/-- Different names have different bytes. -/
theorem GivenFile.Named.bytes_inj (namedF : f.Named) (namedG : g.Named)
    (same : f.bytes = g.bytes) : (f.name, f.ext) = (g.name, g.ext) := by
  have lengths : (ljust 8 f.name).length = (ljust 8 g.name).length := by
    rw [length_ljust, length_ljust]
  obtain ⟨names, exts⟩ := List.append_inj same lengths
  have nameF := takeWhile_ljust namedF.name_le fun c member =>
    namedF.chars c (List.mem_append_left _ member)
  have nameG := takeWhile_ljust namedG.name_le fun c member =>
    namedG.chars c (List.mem_append_left _ member)
  have extF := takeWhile_ljust namedF.ext_le fun c member =>
    namedF.chars c (List.mem_append_right _ member)
  have extG := takeWhile_ljust namedG.ext_le fun c member =>
    namedG.chars c (List.mem_append_right _ member)
  rw [← nameF, ← extF, names, exts, nameG, extG]

/-- A name starts with one of its characters. -/
theorem GivenFile.Named.first (named : f.Named) : NameChar (f.bytes.getD 0 0) := by
  cases name : f.name with
  | nil => exact absurd name named.nonempty
  | cons c rest =>
      have head : f.bytes.getD 0 0 = c := by
        simp [GivenFile.bytes, ljust, name]
      rw [head]
      exact named.chars c (List.mem_append_left _ (by rw [name]; exact List.mem_cons_self))

end Packed

/-! ## Directory entries -/

/-- The directory entry of a file. -/
def PlacedFile.dirent (f : PlacedFile) : Dirent :=
  { (Dirent.newFile ⟨f.toGivenFile.bytes, f.toGivenFile.length_bytes⟩).setFirstCluster
      f.firstCluster with fileSize := UInt32.ofNat f.data.length }

/-- Scans see the entry. -/
theorem GivenFile.Named.visible {f : PlacedFile} (named : f.toGivenFile.Named) :
    f.dirent.name0 ≠ 0 ∧ f.dirent.skipped = false := by
  have first := named.first
  have name0 : f.dirent.name0 = f.toGivenFile.bytes.getD 0 0 := rfl
  refine ⟨by rw [name0]; exact first.1, ?_⟩
  have ascii := first.2.1
  simp only [Dirent.skipped, Bool.or_eq_false_iff, decide_eq_false_iff_not]
  refine ⟨?_, show ¬ attrArchive = attrLfn by decide⟩
  rw [name0]
  intro deleted
  rw [deleted] at ascii
  exact absurd ascii (by decide)

section Entry

variable (f : PlacedFile)

/-- The script leaves the other fields of an entry at 0. -/
theorem entryBytes_zero {k : Nat} (gap : 12 ≤ k ∧ k < 20 ∨ 22 ≤ k ∧ k < 26) :
    entryBytes f k = 0 := by
  rw [entryBytes, Buf.putLe_of_outside (by omega), Buf.putLe_of_outside (by omega),
    Buf.putLe_of_outside (by omega), Buf.putLe_of_outside (by omega),
    Buf.blit_of_outside (by omega)]
  rfl

theorem entryBytes_zero16 {k : Nat} (gap : 12 ≤ k ∧ k + 1 < 20 ∨ 22 ≤ k ∧ k + 1 < 26) :
    UInt16.ofNat ((entryBytes f).le k 2) = 0 := by
  rw [Buf.le, Buf.le, Buf.le, entryBytes_zero f (by omega), entryBytes_zero f (by omega)]
  rfl

theorem entryBytes_name : (entryBytes f).toList 0 11 = f.toGivenFile.bytes := by
  have length := f.toGivenFile.length_bytes
  apply List.ext_getElem
  · rw [Buf.length_toList, length]
  · intro k low high
    have small : k < 11 := by simpa using low
    simp only [Buf.toList, List.getElem_map, List.getElem_range, Nat.zero_add]
    rw [entryBytes, Buf.putLe_of_outside (by omega), Buf.putLe_of_outside (by omega),
      Buf.putLe_of_outside (by omega), Buf.putLe_of_outside (by omega),
      Buf.blit_of_inside (by omega) (by omega), Nat.sub_zero, Buf.ofList]
    show f.toGivenFile.bytes.getD k 0 = _
    rw [List.getD_eq_getElem?_getD, List.getElem?_eq_getElem high, Option.getD_some]

theorem entryBytes_attributes : entryBytes f 11 = attrArchive := by
  rw [entryBytes, Buf.putLe_of_outside (by omega), Buf.putLe_of_outside (by omega),
    Buf.putLe_of_outside (by omega), Buf.putLe_of_inside (by omega) (by omega)]
  rfl

theorem entryBytes_high :
    UInt16.ofNat ((entryBytes f).le 20 2) = UInt16.ofNat (f.firstCluster / 2 ^ 16) := by
  rw [entryBytes, Buf.le_putLe_of_disjoint (by omega), Buf.le_putLe_of_disjoint (by omega),
    Buf.le_putLe]
  apply UInt16.toNat_inj.mp
  simp only [UInt16.toNat_ofNat']
  omega

theorem entryBytes_low :
    UInt16.ofNat ((entryBytes f).le 26 2) = UInt16.ofNat f.firstCluster := by
  rw [entryBytes, Buf.le_putLe_of_disjoint (by omega), Buf.le_putLe]
  apply UInt16.toNat_inj.mp
  simp only [UInt16.toNat_ofNat']
  omega

theorem entryBytes_size :
    UInt32.ofNat ((entryBytes f).le 28 4) = UInt32.ofNat f.data.length := by
  rw [entryBytes, Buf.le_putLe]
  apply UInt32.toNat_inj.mp
  simp only [UInt32.toNat_ofNat']
  omega

/-- The driver decodes the entry that the script encoded. -/
theorem load_entryBytes : Dirent.load (entryBytes f) 0 = f.dirent := by
  simp only [Dirent.load, Nat.zero_add, entryBytes_name, entryBytes_attributes, entryBytes_high,
    entryBytes_low, entryBytes_size, entryBytes_zero f (k := 12) (by omega),
    entryBytes_zero f (k := 13) (by omega), entryBytes_zero16 f (k := 14) (by omega),
    entryBytes_zero16 f (k := 16) (by omega), entryBytes_zero16 f (k := 18) (by omega),
    entryBytes_zero16 f (k := 22) (by omega), entryBytes_zero16 f (k := 24) (by omega)]
  rfl

end Entry

/-! ## Mounting the image -/

/-- The drives return the sectors of the image for disk 1, and every transfer succeeds. -/
structure Serves (d : Driver) (image : Buf) : Prop where
  quiet : ∀ n, d.ata.fault n = none
  sectors : ∀ l, l < imageSize / sectorSize → ∀ o, o < 512 →
    d.ata.media .primary .slave l o = image (l * 512 + o)

/-- The file system record that mounting the image installs. -/
def imageFs : Fs where
  disk := 1
  partition := 0
  startLba := 2048
  fatStart := 2080
  dataStart := 4128
  rootDirCluster := 2
  sectorsPerFat := 1024
  numFats := 2
  bytesPerSector := 512
  sectorsPerCluster := 8
  totalClusters := 15868
  currentDirCluster := 2
  currentPath := [slash]

theorem imageFs_geometry : Geometry imageFs :=
  ⟨by decide, by decide, by decide, by decide, by decide, by decide⟩

/-- A boot sector with the script's bytes gives the script's constants. -/
theorem mountedFs_bootSector {boot : Buf} (same : ∀ o, o < 512 → boot o = bootSector o) :
    mountedFs 1 0 ⟨0x0C, 2048⟩ boot = imageFs := by
  have field : ∀ off n, off + n ≤ 512 → boot.le off n = bootSector.le off n := fun off n bound =>
    Buf.le_congr fun i _ high => same i (by omega)
  simp only [mountedFs, field 14 2 (by omega), field 36 4 (by omega), field 32 4 (by omega),
    field 44 4 (by omega), field 11 2 (by omega), same 16 (by omega), same 13 (by omega)]
  rfl

/-- The partition that the script enters in the table. -/
def imagePartition : PartitionInfo where
  startLba := partitionStart
  sizeSectors := partitionSizeSectors
  type := 0x0C
  bootable := false
  disk := 1
  partitionIndex := 0

section Mount

variable {d : Driver} {given : List GivenFile} (serves : Serves d (createStorageImage given))
include serves

/-- A sector that is read from the image. -/
theorem Serves.read {l : Nat} (bound : l < imageSize / sectorSize) {o : Nat} (inside : o < 512) :
    Buf.blit (fun _ => 0) 0 (1 * 512)
      (d.ata.stream (diskToAta 1).1 (diskToAta 1).2 l) o =
        createStorageImage given (l * 512 + o) := by
  have small : lba28 l = l := Nat.mod_eq_of_lt (Nat.lt_trans bound (by decide))
  rw [Buf.blit_of_inside (Nat.zero_le _) (by omega), Nat.sub_zero]
  show d.ata.media .primary .slave (lba28 l + o / 512) (o % 512) = _
  rw [small, Nat.div_eq_of_lt inside, Nat.mod_eq_of_lt inside, Nat.add_zero]
  exact serves.sectors l bound o inside

theorem partitionDetect_image (table : PartitionTable) :
    (partitionDetect 1 table).run d = .ok ((1, [imagePartition]),
      { d with ata := { d.ata with transfers := d.ata.transfers + 1 } }) := by
  have read : ∀ o, o < 512 → Buf.blit (fun _ => 0) 0 (1 * 512)
      (d.ata.stream (diskToAta 1).1 (diskToAta 1).2 0) o = mbr o := by
    intro o inside
    rw [serves.read (by decide) inside, Nat.zero_mul, Nat.zero_add, image_mbr given inside]
  rw [partitionDetect, run_bind_of_ok (ataReadSectors_run serves.quiet _ _ _ _)]
  generalize Buf.blit (fun _ => 0) 0 (1 * 512)
    (d.ata.stream (diskToAta 1).1 (diskToAta 1).2 0) = sector at read
  have field : ∀ off n, off + n ≤ 512 → sector.le off n = mbr.le off n := fun off n bound =>
    Buf.le_congr fun i _ high => read i (by omega)
  have entries : usedEntries 1 sector = [imagePartition] := by
    have same : (List.range 4).map (partitionInfo 1 sector) =
        (List.range 4).map (partitionInfo 1 mbr) := by
      apply List.map_congr_left
      intro i member
      have bound := List.mem_range.mp member
      rw [partitionInfo, partitionInfo, mbrEntry,
        field _ 4 (show 446 + i * 16 + 8 + 4 ≤ 512 by omega),
        field _ 4 (show 446 + i * 16 + 12 + 4 ≤ 512 by omega),
        read (446 + i * 16 + 4) (by omega), read (446 + i * 16) (by omega)]
    rw [usedEntries, same]
    decide
  have signature : sector.le 510 2 = 0xAA55 := by
    rw [field 510 2 (by omega)]
    decide
  rw [if_pos ⟨rfl, signature⟩]
  simp only [entries]
  rfl

theorem fat32Mount_image :
    (fat32Mount 1 0 ((partitionGetInfo [imagePartition] 1 0).map PartitionInfo.mountable)).run d =
      .ok (0, { d with
        ata := { d.ata with transfers := d.ata.transfers + 1 }
        fs := imageFs
        fsMounted := true }) := by
  have read : ∀ o, o < 512 → Buf.blit (fun _ => 0) 0 (1 * 512)
      (d.ata.stream (diskToAta 1).1 (diskToAta 1).2 2048) o = bootSector o := by
    intro o inside
    rw [serves.read (by decide) inside]
    exact image_bootSector given inside
  have info : (partitionGetInfo [imagePartition] 1 0).map PartitionInfo.mountable =
      some ⟨0x0C, 2048⟩ := rfl
  rw [info]
  show (fat32Mount 1 0 (some ⟨0x0C, 2048⟩)).run d = _
  simp only [fat32Mount]
  rw [if_neg (by decide), run_bind_of_ok (ataReadSectors_run serves.quiet _ _ _ _)]
  generalize Buf.blit (fun _ => 0) 0 (1 * 512)
    (d.ata.stream (diskToAta 1).1 (diskToAta 1).2 2048) = boot at read
  have signature : boot.le 510 2 = 0xAA55 := by
    have same : boot.le 510 2 = bootSector.le 510 2 :=
      Buf.le_congr fun i _ high => read i (by omega)
    rw [same]
    decide
  have spc : boot 13 ≠ 0 := by
    rw [read 13 (by omega)]
    decide
  rw [if_pos ⟨rfl, signature⟩, if_neg spc]
  rw [mountedFs_bootSector read]
  rfl

end Mount

/-- A mounted state whose volume is the image's. -/
structure ImageVolume (d : Driver) (given : List GivenFile) : Prop where
  good : d.Good
  fs_eq : d.fs = imageFs
  fat : ∀ c, c < 15870 → d.vol.fat c = linkOf (fatTable (buildFileTable given)) c % 2 ^ 28
  bytes : ∀ c, d.vol.InRange c → ∀ o, o < clusterBytes →
    d.vol.bytes c o = createStorageImage given (clusterOffset c + o)

/-- The table cache holds no table sector of the image, or holds it as the image does. -/
def CacheAgrees (d : Driver) (image : Buf) : Prop :=
  fatStart ≤ d.fatCacheSector → d.fatCacheSector < fatStart + sectorsPerFat →
    ∀ o, o < 512 → d.fatSectorCache o = image (d.fatCacheSector * 512 + o)

theorem imageVolume_of_serves {d : Driver} {given : List GivenFile}
    (serves : Serves d (createStorageImage given)) (fs_eq : d.fs = imageFs)
    (mounted : d.fsMounted = true) (cache : CacheAgrees d (createStorageImage given)) :
    ImageVolume d given := by
  have sector : ∀ l, l < 131072 → ∀ o, o < 512 →
      d.sector l o = createStorageImage given (l * 512 + o) := by
    intro l bound o inside
    rw [Driver.sector, fs_eq]
    exact serves.sectors l bound o inside
  -- a table sector, in either copy
  have table : ∀ k, k < 2 → ∀ j, j < 1024 → ∀ o, o < 512 →
      d.sector (2080 + k * 1024 + j) o = fatTable (buildFileTable given) (j * 512 + o) := by
    intro k copy j index o inside
    rw [sector _ (by omega) o inside]
    obtain rfl | rfl : k = 0 ∨ k = 1 := by omega
    · rw [← image_fatTable given (o := j * 512 + o) (by omega)]
      congr 1
      omega
    · rw [← image_fatTable_copy given (o := j * 512 + o) (by omega)]
      congr 1
      omega
  refine ⟨⟨?_, mounted, serves.quiet, ?_, ?_⟩, fs_eq, ?_, ?_⟩
  · rw [fs_eq]
    exact imageFs_geometry
  · rw [fs_eq]
    intro k copy j index o inside
    have first := table 0 (by omega) j index o inside
    rw [Nat.zero_mul, Nat.add_zero] at first
    exact (table k copy j index o inside).trans first.symm
  · rw [fs_eq]
    intro low high o inside
    have bound : d.fatCacheSector < 131072 := Nat.lt_of_lt_of_le high (by decide)
    rw [sector _ bound o inside]
    exact cache low high o inside
  · intro c bound
    have first := table 0 (by omega) (c * 4 / 512) (by omega)
    rw [Nat.zero_mul, Nat.add_zero] at first
    have place : c * 4 / 512 * 512 + c * 4 % 512 = c * 4 := by omega
    rw [Driver.vol_fat d (by rw [fs_eq]; exact bound), fs_eq]
    show (d.sector (2080 + c * 4 / 512)).le (c * 4 % 512) 4 % 2 ^ 28 = _
    rw [Buf.le_congr fun i low high => first i (by omega), Buf.le_shift, place, linkOf]
  · intro c range o inside
    have total : d.fs.totalClusters = 15868 := by rw [fs_eq]; rfl
    have low : 2 ≤ c := range.1
    have high : c < d.fs.totalClusters + 2 := range.2
    simp only [clusterBytes, sectorsPerCluster, sectorSize] at inside
    rw [Driver.vol_bytes d ⟨low, high⟩ (by rw [fs_eq]; exact inside), fs_eq]
    show d.sector (4128 + (c - 2) * 8 + o / 512) (o % 512) = _
    rw [sector _ (by omega) _ (by omega), clusterOffset_eq]
    simp only [clusterBytes, sectorsPerCluster, sectorSize]
    congr 1
    omega

/-! ## Opening and reading the files -/

/-- Files that the script can store: at most 127, with different 8.3 names, and clusters up to
the end of the image. -/
structure Storable (given : List GivenFile) : Prop where
  count : given.length ≤ 127
  named : ∀ f ∈ given, f.Named
  distinct : (given.map fun f => (f.name, f.ext)).Nodup
  fits : clusterOffset (3 + clustersTaken given) ≤ imageSize

theorem Storable.taken_le {given : List GivenFile} (storable : Storable given) :
    clustersTaken given ≤ 15867 := by
  have fits := storable.fits
  rw [clusterOffset_eq] at fits
  simp only [clusterBytes, sectorsPerCluster, sectorSize, imageSize] at fits
  omega

section Files

variable {d : Driver} {given : List GivenFile} (volume : ImageVolume d given)
include volume

theorem ImageVolume.clusterSize_eq : d.vol.clusterSize = clusterBytes := by
  rw [Driver.vol_clusterSize, volume.fs_eq]
  rfl

theorem ImageVolume.inRange {c : Nat} (low : 2 ≤ c) (high : c < 15870) : d.vol.InRange c := by
  refine ⟨low, ?_⟩
  show c < d.fs.totalClusters + 2
  rw [volume.fs_eq]
  exact high

variable (storable : Storable given)
include storable

/-- Every file is spread over the clusters that it was given. -/
theorem ImageVolume.spread {f : PlacedFile} (placed : f ∈ buildFileTable given) :
    d.vol.Spread (fun k => f.firstCluster + k) f.clusterCount f.data := by
  have taken := storable.taken_le
  obtain ⟨low, high⟩ := placed_range placed
  have count := clusterCount_of_placed placed
  have fits := le_clustersNeeded f.data.length
  have size := volume.clusterSize_eq
  have links : ∀ k, k < f.clusterCount → d.vol.fat (f.firstCluster + k) = f.link k := by
    intro k bound
    rw [volume.fat _ (by omega), buildFileTable,
      linkOf_fatTable (by omega) placed bound]
    apply Nat.mod_eq_of_lt
    rw [PlacedFile.link]
    split <;> omega
  refine ⟨?_, ?_, ?_, ?_, ?_, ?_, ?_, ?_⟩
  · rw [count]
    exact clustersNeeded_pos _
  · rw [size, count]
    exact fits
  · rw [← count] at fits
    simp only [clusterBytes, sectorsPerCluster, sectorSize] at fits
    omega
  · exact fun k bound => volume.inRange (by omega) (by omega)
  · intro k bound
    simp only [isValidCluster, Bool.and_eq_true, decide_eq_true_eq]
    omega
  · intro k bound
    rw [links k (by omega), PlacedFile.link, if_neg (by omega)]
    rfl
  · have positive := clustersNeeded_pos f.data.length
    rw [links _ (by omega), PlacedFile.link, if_pos rfl]
    rfl
  · intro k bound o inside _
    rw [size] at inside ⊢
    rw [volume.bytes _ (volume.inRange (by omega) (by omega)) o inside,
      image_fileData given placed bound inside]

/-- The slots of the root directory: an entry for each file. -/
theorem ImageVolume.slot {i : Nat} {f : PlacedFile} (at_i : (buildFileTable given)[i]? = some f) :
    (d.vol.slots 2)[i]? = some f.dirent := by
  have count := storable.count
  have length : (buildFileTable given).length = given.length := by
    rw [← List.length_map PlacedFile.toGivenFile, buildFileTable, map_placeFrom]
  have index : i < given.length := by
    rw [← length]
    exact (List.getElem?_eq_some_iff.mp at_i).1
  have spc : d.vol.spc = 8 := congrArg Fs.sectorsPerCluster volume.fs_eq
  rw [Vol.slots, spc, List.getElem?_map, List.getElem?_range (by omega), Option.map_some,
    ← load_entryBytes]
  congr 1
  apply Dirent.load_congr
  intro k inside
  simp only [direntSize] at inside ⊢
  rw [volume.bytes 2 (volume.inRange (by omega) (by omega)) _
    (by simp only [clusterBytes, sectorsPerCluster, sectorSize]; omega), Nat.zero_add,
    ← rootDirectory_entry at_i inside, ← image_rootDirectory given (by omega)]
  rfl

/-- `fat32_open` finds the entry of every file under its name. -/
theorem ImageVolume.openMatch {f : PlacedFile} (placed : f ∈ buildFileTable given) :
    ∃ i, d.vol.openMatch 2 f.toGivenFile.text = some (2, i, f.dirent) := by
  have named : ∀ g ∈ buildFileTable given, g.toGivenFile.Named := by
    intro g member
    refine storable.named _ ?_
    rw [← map_placeFrom 3 given]
    exact List.mem_map_of_mem member
  obtain ⟨i, at_i⟩ := List.getElem?_of_mem placed
  have name : f.dirent.name = packName f.name f.ext :=
    Subtype.ext (named f placed).packed.symm
  have found : lookup (fun e => e.name = packName f.name f.ext) (d.vol.slots 2) =
      some (i, f.dirent) := by
    refine lookup_eq_some.mpr ⟨volume.slot storable at_i, (named f placed).visible.1,
      (named f placed).visible.2, decide_eq_true name, fun m before e at_m => ?_⟩
    have bound := (List.getElem?_eq_some_iff.mp at_i).1
    have at_g := List.getElem?_eq_getElem (Nat.lt_trans before bound)
    generalize (buildFileTable given)[m] = g at at_g
    have member := List.mem_of_getElem? at_g
    rw [volume.slot storable at_g] at at_m
    cases at_m
    refine ⟨(named g member).visible.1, .inr (decide_eq_false fun same => ?_)⟩
    -- a file before it has another name
    have bytes : g.bytes = f.bytes := by
      rw [← name] at same
      exact congrArg Subtype.val same
    have names := (named g member).bytes_inj (named f placed) bytes
    have keys : ∀ {j : Nat} {h : PlacedFile}, (buildFileTable given)[j]? = some h →
        (given.map fun f => (f.name, f.ext))[j]? = some (h.name, h.ext) := by
      intro j h at_j
      rw [← map_placeFrom 3 given, List.map_map, List.getElem?_map]
      rw [buildFileTable] at at_j
      rw [at_j]
      rfl
    have equal := (List.getElem?_inj (List.getElem?_eq_some_iff.mp (keys at_g)).1
      storable.distinct).mp ((keys at_g).trans (by rw [names, keys at_i]))
    omega
  refine ⟨i, ?_⟩
  have file : f.dirent.isDirectory = false :=
    show (attrArchive &&& attrDirectory != 0) = false by decide
  rw [Vol.openMatch, makeName83_text (named f placed), Option.bind_some, found, Option.bind_some]
  simp only [file]
  rfl


/-- A handle on a file stands at its first byte. -/
theorem ImageVolume.opened {f : PlacedFile} (placed : f ∈ buildFileTable given) :
    d.vol.At (fun k => f.firstCluster + k) f.clusterCount f.data (d.fs.handle f.dirent) 0 := by
  have taken := storable.taken_le
  have high := (placed_range placed).2
  have room := (volume.spread storable placed).small
  refine ⟨?_, rfl, Nat.zero_le _, ?_⟩
  · show (UInt32.ofNat f.data.length).toNat = f.data.length
    rw [UInt32.toNat_ofNat', Nat.mod_eq_of_lt (by omega)]
  · show f.dirent.firstCluster = _
    rw [Nat.zero_div, Nat.zero_min, Nat.add_zero]
    exact Dirent.firstCluster_setFirstCluster
      (Dirent.newFile ⟨f.toGivenFile.bytes, f.toGivenFile.length_bytes⟩) _ (by omega)

end Files

/-- The name of a file as a C string. -/
def GivenFile.path (f : GivenFile) : CStr :=
  ⟨f.text.takeWhile (· ≠ 0), fun member => by simpa using List.mem_takeWhile_imp member⟩

/-- Open a file and read it in pieces of the given sizes; `none` if it cannot be opened. -/
def readFile (path : CStr) (counts : List Nat) : FatM (Option (List (Int × List UInt8))) := do
  if ← fat32Open path then
    return some (← readAll counts)
  else
    return none

/-- Read one file after the other. -/
def readFiles : List (GivenFile × List Nat) → FatM (List (Option (List (Int × List UInt8))))
  | [] => return []
  | (f, counts) :: rest => do
      let contents ← readFile f.path counts
      let later ← readFiles rest
      return contents :: later

/-- What the kernel does with the disk at boot, and then the reads. -/
def mountAndRead (table : PartitionTable) (reads : List (GivenFile × List Nat)) :
    FatM (Int × Int × List (Option (List (Int × List UInt8)))) := do
  let detected ← partitionDetect 1 table
  let mounted ← fat32Mount 1 0
    ((partitionGetInfo detected.2 1 0).map PartitionInfo.mountable)
  let contents ← readFiles reads
  return (detected.1, mounted, contents)

theorem GivenFile.Named.path_eq {f : GivenFile} (named : f.Named) : f.path.1 = f.text := by
  have nonzero : ∀ c ∈ f.text, c ≠ 0 := by
    intro c member
    rcases List.mem_append.mp member with name | rest
    · exact (named.chars c (List.mem_append_left _ name)).1
    · by_cases bare : f.ext = []
      · rw [if_pos bare] at rest
        cases rest
      · rw [if_neg bare] at rest
        rcases List.mem_cons.mp rest with rfl | ext
        · decide
        · exact (named.chars c (List.mem_append_right _ ext)).1
  exact List.takeWhile_eq_self_iff.mpr fun c member => decide_eq_true (nonzero c member)

theorem readFile_image {d : Driver} {given : List GivenFile} (volume : ImageVolume d given)
    (storable : Storable given) {f : GivenFile} (known : f ∈ given) (counts : List Nat) :
    Runs (readFile f.path counts) d fun r d' =>
      r = some (slices f.data counts) ∧ ImageVolume d' given := by
  obtain ⟨p, placed, rfl⟩ : ∃ p ∈ buildFileTable given, p.toGivenFile = f := by
    rw [← map_placeFrom 3 given] at known
    exact List.mem_map.mp known
  have path := (storable.named _ known).path_eq
  have root : d.fs.openCluster p.toGivenFile.path.1 = 2 := by
    rw [volume.fs_eq, Fs.openCluster]
    split
    · rfl
    · rfl
  obtain ⟨i, hit⟩ := volume.openMatch storable placed
  have range : d.vol.InRange (d.fs.openCluster p.toGivenFile.path.1) := by
    rw [root]
    exact volume.inRange (by omega) (by omega)
  rw [readFile]
  refine Runs.bind (fat32Open_runs volume.good p.toGivenFile.path range) ?_
  rintro ok d₁ ⟨good, fs_eq, vol_eq, missed | ⟨c, j, e, found, rfl, handle⟩⟩
  · rw [root, path, hit] at missed
    cases missed.1
  · rw [root, path, hit] at found
    cases found
    have volume₁ : ImageVolume d₁ given :=
      ⟨good, fs_eq.trans volume.fs_eq, by rw [vol_eq]; exact volume.fat,
        by rw [vol_eq]; exact volume.bytes⟩
    have spread := volume₁.spread storable placed
    have start := volume₁.opened storable placed
    have opened : d₁.openFile = d₁.fs.handle p.dirent := by rw [handle, fs_eq]
    rw [← opened] at start
    have positive : 0 < d₁.vol.clusterSize := by
      rw [volume₁.clusterSize_eq]
      decide
    rw [if_pos rfl]
    refine Runs.bind (readAll_runs counts d₁ good (by rw [opened]; rfl) (start.readable spread)) ?_
    rintro _ d₂ ⟨rfl, good₂, fs_eq₂, vol_eq₂⟩
    refine Runs.pure ⟨?_, good₂, fs_eq₂.trans volume₁.fs_eq, ?_, ?_⟩
    · rw [Vol.readAll_spread spread positive counts start, List.drop_zero]
    · rw [vol_eq₂]
      exact volume₁.fat
    · rw [vol_eq₂]
      exact volume₁.bytes

theorem readFiles_image {d : Driver} {given : List GivenFile} (volume : ImageVolume d given)
    (storable : Storable given) (reads : List (GivenFile × List Nat))
    (known : ∀ r ∈ reads, r.1 ∈ given) :
    Runs (readFiles reads) d fun r d' =>
      r = (reads.map fun r => some (slices r.1.data r.2)) ∧ ImageVolume d' given := by
  induction reads generalizing d with
  | nil => exact Runs.pure ⟨rfl, volume⟩
  | cons head rest ih =>
      obtain ⟨f, counts⟩ := head
      rw [readFiles]
      refine Runs.bind (readFile_image volume storable (known _ List.mem_cons_self) counts) ?_
      rintro _ d₁ ⟨rfl, volume₁⟩
      refine Runs.bind (ih volume₁ fun r member => known r (List.mem_cons_of_mem _ member)) ?_
      rintro _ d₂ ⟨rfl, volume₂⟩
      exact Runs.pure ⟨rfl, volume₂⟩

/-- On the image of any storable files: the partition is found and mounted, and every file is
opened by its name and delivers its contents to reads of any sizes, in any order of files. -/
theorem image_read_back {given : List GivenFile} (storable : Storable given) {d : Driver}
    (serves : Serves d (createStorageImage given))
    (cache : CacheAgrees d (createStorageImage given)) (table : PartitionTable)
    (reads : List (GivenFile × List Nat)) (known : ∀ r ∈ reads, r.1 ∈ given) :
    Runs (mountAndRead table reads) d fun r _ =>
      r = (1, 0, reads.map fun r => some (slices r.1.data r.2)) := by
  rw [mountAndRead]
  refine Runs.step (partitionDetect_image serves table) ?_
  have serves₁ : Serves { d with ata := { d.ata with transfers := d.ata.transfers + 1 } }
      (createStorageImage given) := ⟨serves.quiet, serves.sectors⟩
  refine Runs.step (fat32Mount_image serves₁) ?_
  refine Runs.bind (readFiles_image ?_ storable reads known) ?_
  · refine imageVolume_of_serves ⟨?_, ?_⟩ rfl rfl ?_
    · exact serves.quiet
    · exact serves.sectors
    · exact cache
  · rintro _ d' ⟨rfl, -⟩
    exact Runs.pure rfl

/-- The demo files of the script. -/
def demoFiles : List GivenFile :=
  [{ name := [0x48, 0x45, 0x4C, 0x4C, 0x4F], ext := [0x54, 0x58, 0x54]
     data := [0x48, 0x65, 0x6C, 0x6C, 0x6F, 0x20, 0x66, 0x72, 0x6F, 0x6D, 0x20, 0x58, 0x4F, 0x53,
       0x21, 0x0A] },
    { name := [0x52, 0x45, 0x41, 0x44, 0x4D, 0x45], ext := [0x54, 0x58, 0x54]
      data := [0x46, 0x41, 0x54, 0x33, 0x32, 0x20, 0x6C, 0x69, 0x73, 0x74, 0x69, 0x6E, 0x67, 0x20,
        0x64, 0x65, 0x6D, 0x6F, 0x0A] }]

/-- The drivers at boot, with the image as the second disk of the first channel. -/
def bootedWith (image : Buf) : Driver where
  ata :=
    { media := fun channel drive l =>
        if channel = .primary ∧ drive = .slave then fun o => image (l * 512 + o) else fun _ => 0
      fault := fun _ => none
      transfers := 0 }
  fs := { imageFs with disk := 0, totalClusters := 0, currentPath := [] }
  fsMounted := false
  rootDirBuffer := fun _ => 0
  fatSectorCache := fun _ => 0
  fatCacheSector := 0xFFFFFFFF
  openFile := ⟨0, 0, 0, 0, 0, 0, 0, 0⟩
  fileClusterBuf := fun _ => 0

theorem demoFiles_storable : Storable demoFiles where
  count := by decide
  named := by
    intro f member
    simp only [demoFiles, List.mem_cons, List.not_mem_nil, or_false] at member
    rcases member with rfl | rfl
    · exact ⟨by decide, by decide, by decide, by decide +kernel⟩
    · exact ⟨by decide, by decide, by decide, by decide +kernel⟩
  distinct := by decide
  fits := by decide

theorem bootedWith_serves (image : Buf) : Serves (bootedWith image) image :=
  ⟨fun _ => rfl, fun _ _ _ _ => rfl⟩

theorem bootedWith_cache (image : Buf) : CacheAgrees (bootedWith image) image := by
  intro _ high
  exact absurd high (by show ¬ (0xFFFFFFFF < fatStart + sectorsPerFat); decide)

/-- `HELLO.TXT` of the demo image, in pieces of 6 and 100 bytes. -/
theorem demo_image_read_back :
    Runs (mountAndRead [] [(demoFiles.head (by decide), [6, 100])])
      (bootedWith (createStorageImage demoFiles)) fun r _ =>
      r = (1, 0, [some [(6, [0x48, 0x65, 0x6C, 0x6C, 0x6F, 0x20]),
        (10, [0x66, 0x72, 0x6F, 0x6D, 0x20, 0x58, 0x4F, 0x53, 0x21, 0x0A])]]) :=
  image_read_back demoFiles_storable (bootedWith_serves _) (bootedWith_cache _) []
    [(demoFiles.head (by decide), [6, 100])] (by decide)


end XosKernel.Image
