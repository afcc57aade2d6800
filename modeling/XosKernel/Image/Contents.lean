/-
# Image.Contents -- what stands where in the image

Each part of the script stores to a region of its own: the clusters of the files to clusters
that `build_file_table` gave to no other file (`placed_unique`), the entries of the table and of
the root directory to cells of their own.  So what a loop stores for one file is what stands
there in the end, whatever the other files are (`foldl_reaches`).
-/
import XosKernel.Image.Create

namespace XosKernel.Image

open XosKernel.Theory

set_option autoImplicit false

/-! ## The clusters of the files -/

theorem clustersNeeded_pos (size : Nat) : 0 < clustersNeeded size := by
  simp only [clustersNeeded, clusterBytes, sectorsPerCluster, sectorSize]
  split <;> omega

/-- The clusters of a file hold its contents. -/
theorem le_clustersNeeded (size : Nat) : size ≤ clustersNeeded size * clusterBytes := by
  simp only [clustersNeeded, clusterBytes, sectorsPerCluster, sectorSize]
  split <;> omega

/-- The clusters that the files take. -/
def clustersTaken (files : List GivenFile) : Nat :=
  (files.map fun f => clustersNeeded f.data.length).sum

section Placed

variable {next : Nat} {files : List GivenFile} {f g : PlacedFile}

theorem clusterCount_of_placed (placed : f ∈ placeFrom next files) :
    f.clusterCount = clustersNeeded f.data.length := by
  induction files generalizing next with
  | nil => cases placed
  | cons head rest ih =>
      rcases List.mem_cons.mp placed with rfl | later
      · rfl
      · exact ih later

theorem placed_range (placed : f ∈ placeFrom next files) :
    next ≤ f.firstCluster ∧ f.firstCluster + f.clusterCount ≤ next + clustersTaken files := by
  induction files generalizing next with
  | nil => cases placed
  | cons head rest ih =>
      have total : clustersTaken (head :: rest) =
          clustersNeeded head.data.length + clustersTaken rest := by
        simp [clustersTaken]
      rcases List.mem_cons.mp placed with rfl | later
      · simp only
        omega
      · have bounds := ih later
        omega

/-- A cluster belongs to one file. -/
theorem placed_unique (first : f ∈ placeFrom next files) (second : g ∈ placeFrom next files)
    {c : Nat} (inFirst : f.firstCluster ≤ c ∧ c < f.firstCluster + f.clusterCount)
    (inSecond : g.firstCluster ≤ c ∧ c < g.firstCluster + g.clusterCount) : f = g := by
  induction files generalizing next with
  | nil => cases first
  | cons head rest ih =>
      rcases List.mem_cons.mp first with rfl | laterF
      · rcases List.mem_cons.mp second with rfl | laterG
        · rfl
        · have bounds := placed_range laterG
          simp only at inFirst
          omega
      · rcases List.mem_cons.mp second with rfl | laterG
        · have bounds := placed_range laterF
          simp only at inSecond
          omega
        · exact ih laterF laterG

end Placed

/-- Placing the files keeps them and their order. -/
theorem map_placeFrom (next : Nat) (files : List GivenFile) :
    (placeFrom next files).map PlacedFile.toGivenFile = files := by
  induction files generalizing next with
  | nil => rfl
  | cons head rest ih => rw [placeFrom, List.map_cons, ih]

/-! ## File contents -/

/-- The first byte of a cluster in the image. -/
def clusterOffset (c : Nat) : Nat := lbaOfCluster c * sectorSize

theorem clusterOffset_eq (c : Nat) : clusterOffset c = 2113536 + (c - 2) * clusterBytes := by
  simp only [clusterOffset, lbaOfCluster, dataStart, fatStart, partitionStart, reservedSectors,
    numFats, sectorsPerFat, sectorsPerCluster, sectorSize, clusterBytes]
  omega

/-- Two clusters do not share a byte. -/
theorem clusterOffset_apart {c c' o : Nat} (low : 2 ≤ c) (low' : 2 ≤ c') (ne : c ≠ c')
    (inside : o < clusterBytes) : clusterOffset c + o < clusterOffset c' ∨
      clusterOffset c' + clusterBytes ≤ clusterOffset c + o := by
  rw [clusterOffset_eq, clusterOffset_eq]
  simp only [clusterBytes, sectorsPerCluster, sectorSize] at inside ⊢
  omega

theorem writeCluster_inside (image : Buf) (c : Nat) (data : List UInt8) {o : Nat}
    (inside : o < clusterBytes) :
    writeCluster image c data (clusterOffset c + o) = data.getD o 0 := by
  show image.blit (clusterOffset c) clusterBytes (Buf.ofList data) _ = _
  rw [Buf.blit_of_inside (by omega) (by omega), Nat.add_sub_cancel_left, Buf.ofList]

theorem writeCluster_outside (image : Buf) (c : Nat) (data : List UInt8) {p : Nat}
    (outside : p < clusterOffset c ∨ clusterOffset c + clusterBytes ≤ p) :
    writeCluster image c data p = image p :=
  Buf.blit_of_outside outside

section FileData

variable {f : PlacedFile} {image : Buf}

/-- A file's clusters hold its contents in order. -/
theorem writeFile_inside (low : 2 ≤ f.firstCluster) {i o : Nat} (index : i < f.clusterCount)
    (inside : o < clusterBytes) :
    writeFile image f (clusterOffset (f.firstCluster + i) + o) =
      f.data.getD (i * clusterBytes + o) 0 := by
  have chunk : ∀ image : Buf, writeFileCluster f image i (clusterOffset (f.firstCluster + i) + o) =
      f.data.getD (i * clusterBytes + o) 0 := by
    intro image
    rw [writeFileCluster, writeCluster_inside _ _ _ inside]
    simp only [List.getD_eq_getElem?_getD, List.getElem?_take, List.getElem?_drop, if_pos inside]
  refine foldl_reaches (P := fun image : Buf => image (clusterOffset (f.firstCluster + i) + o) =
    f.data.getD (i * clusterBytes + o) 0) (List.mem_range.mpr index) chunk ?_ image
  intro image holds j _
  by_cases same : j = i
  · rw [same]
    exact chunk image
  · rw [writeFileCluster, writeCluster_outside]
    · exact holds
    · exact clusterOffset_apart (by omega) (by omega) (by omega) inside

theorem writeFile_outside {p : Nat}
    (outside : ∀ i, i < f.clusterCount → p < clusterOffset (f.firstCluster + i) ∨
      clusterOffset (f.firstCluster + i) + clusterBytes ≤ p) : writeFile image f p = image p := by
  refine List.foldlRecOn (motive := fun b : Buf => b p = image p) _ (writeFileCluster f) rfl ?_
  intro b holds i member
  rw [writeFileCluster, writeCluster_outside _ _ _ (outside i (List.mem_range.mp member))]
  exact holds

/-- The clusters of every file hold its contents. -/
theorem makeFileData_inside {next : Nat} {given : List GivenFile} (low : 2 ≤ next)
    (placed : f ∈ placeFrom next given) {i o : Nat} (index : i < f.clusterCount)
    (inside : o < clusterBytes) :
    makeFileData image (placeFrom next given) (clusterOffset (f.firstCluster + i) + o) =
      f.data.getD (i * clusterBytes + o) 0 := by
  have start := (placed_range placed).1
  refine foldl_reaches (P := fun image : Buf => image (clusterOffset (f.firstCluster + i) + o) =
    f.data.getD (i * clusterBytes + o) 0) placed (fun _ => ?_) ?_ image
  · exact writeFile_inside (by omega) index inside
  · intro image holds g member
    by_cases same : g = f
    · rw [same]
      exact writeFile_inside (by omega) index inside
    · have startG := (placed_range member).1
      rw [writeFile_outside]
      · exact holds
      · intro j bound
        refine clusterOffset_apart (by omega) (by omega) (fun equal => same ?_) inside
        exact placed_unique member placed (c := f.firstCluster + i) (by omega) (by omega)

/-- Below the first cluster of the files nothing changes. -/
theorem makeFileData_below {next : Nat} {given : List GivenFile} (low : 2 ≤ next) {p : Nat}
    (below : p < clusterOffset next) : makeFileData image (placeFrom next given) p = image p := by
  refine List.foldlRecOn (motive := fun b : Buf => b p = image p) _ writeFile rfl ?_
  intro b holds g member
  have start := (placed_range member).1
  have before : ∀ i, p < clusterOffset (g.firstCluster + i) := by
    intro i
    refine Nat.lt_of_lt_of_le below ?_
    rw [clusterOffset_eq, clusterOffset_eq]
    have later : next - 2 ≤ g.firstCluster + i - 2 := by omega
    exact Nat.add_le_add_left (Nat.mul_le_mul_right _ later) _
  rw [writeFile_outside fun i _ => .inl (before i)]
  exact holds

end FileData

/-! ## The allocation table -/

/-- The link of a cluster in the table. -/
def linkOf (fat : Buf) (c : Nat) : Nat := fat.le (c * 4) 4

theorem linkOf_setFatEntry (fat : Buf) (c c' value : Nat) :
    linkOf (setFatEntry fat c value) c' = if c' = c then value % 2 ^ 28 else linkOf fat c' := by
  by_cases same : c' = c
  · rw [if_pos same, same, linkOf, setFatEntry, Buf.le_putLe]
    omega
  · rw [if_neg same, linkOf, setFatEntry, Buf.le_putLe_of_disjoint (by omega), linkOf]

/-- What stands in the table for cluster number `i` of a file. -/
def PlacedFile.link (f : PlacedFile) (i : Nat) : Nat :=
  if i = f.clusterCount - 1 then 0x0FFFFFFF else f.firstCluster + i + 1

section Table

variable {f : PlacedFile} {fat : Buf}

theorem linkOf_linkFileCluster (small : f.firstCluster + f.clusterCount < 2 ^ 28) {i : Nat}
    (index : i < f.clusterCount) (c : Nat) :
    linkOf (linkFileCluster f fat i) c =
      if c = f.firstCluster + i then f.link i else linkOf fat c := by
  by_cases last : i = f.clusterCount - 1
  · have mask : 0x0FFFFFFF % 2 ^ 28 = 0x0FFFFFFF := by decide
    rw [linkFileCluster, if_pos last, linkOf_setFatEntry, PlacedFile.link, if_pos last, mask]
  · rw [linkFileCluster, if_neg last, linkOf_setFatEntry, PlacedFile.link, if_neg last,
      Nat.mod_eq_of_lt (by omega)]

theorem linkOf_linkFile (small : f.firstCluster + f.clusterCount < 2 ^ 28) {i : Nat}
    (index : i < f.clusterCount) : linkOf (linkFile fat f) (f.firstCluster + i) = f.link i := by
  refine foldl_reaches (P := fun fat : Buf => linkOf fat (f.firstCluster + i) = f.link i)
    (List.mem_range.mpr index) (fun fat => ?_) ?_ fat
  · rw [linkOf_linkFileCluster small index, if_pos rfl]
  · intro fat holds j member
    rw [linkOf_linkFileCluster small (List.mem_range.mp member)]
    by_cases same : f.firstCluster + i = f.firstCluster + j
    · rw [if_pos same, Nat.add_left_cancel same]
    · rw [if_neg same]
      exact holds

theorem linkOf_linkFile_outside (small : f.firstCluster + f.clusterCount < 2 ^ 28) {c : Nat}
    (outside : c < f.firstCluster ∨ f.firstCluster + f.clusterCount ≤ c) :
    linkOf (linkFile fat f) c = linkOf fat c := by
  refine List.foldlRecOn (motive := fun b : Buf => linkOf b c = linkOf fat c) _
    (linkFileCluster f) rfl ?_
  intro b holds i member
  have index := List.mem_range.mp member
  rw [linkOf_linkFileCluster small index, if_neg (by omega)]
  exact holds

/-- The table links the clusters of every file in order. -/
theorem linkOf_fatTable {next : Nat} {given : List GivenFile}
    (room : next + clustersTaken given < 2 ^ 28) (placed : f ∈ placeFrom next given) {i : Nat}
    (index : i < f.clusterCount) :
    linkOf (fatTable (placeFrom next given)) (f.firstCluster + i) = f.link i := by
  have small : ∀ g ∈ placeFrom next given, g.firstCluster + g.clusterCount < 2 ^ 28 := by
    intro g member
    have bounds := (placed_range member).2
    omega
  refine foldl_reaches (P := fun fat : Buf => linkOf fat (f.firstCluster + i) = f.link i) placed
    (fun fat => linkOf_linkFile (small f placed) index) ?_ _
  intro fat holds g member
  by_cases same : g = f
  · rw [same]
    exact linkOf_linkFile (small f placed) index
  · rw [linkOf_linkFile_outside (small g member)]
    · exact holds
    · by_contra inside
      exact same (placed_unique member placed (c := f.firstCluster + i) (by omega) (by omega))

end Table

/-! ## The root directory -/

section Root

variable {files : List PlacedFile}

/-- The entry of each file stands in its slot. -/
theorem rootDirectory_entry {i : Nat} {f : PlacedFile} (at_i : files[i]? = some f) {k : Nat}
    (inside : k < 32) : rootDirectory files (i * 32 + k) = entryBytes f k := by
  have index : i < files.length := (List.getElem?_eq_some_iff.mp at_i).1
  have store : ∀ root : Buf,
      root.blit (i * 32) 32 (entryBytes f) (i * 32 + k) = entryBytes f k := by
    intro root
    rw [Buf.blit_of_inside (by omega) (by omega), Nat.add_sub_cancel_left]
  rw [rootDirectory, Buf.putLe_of_outside (by omega)]
  refine foldl_reaches (P := fun root : Buf => root (i * 32 + k) = entryBytes f k)
    (List.mk_mem_zipIdx_iff_getElem?.mpr at_i) store ?_ zeroed
  rintro root holds ⟨g, j⟩ member
  by_cases same : j = i
  · subst same
    have other := List.mk_mem_zipIdx_iff_getElem?.mp member
    rw [at_i] at other
    cases other
    exact store root
  · show root.blit (j * 32) 32 (entryBytes g) (i * 32 + k) = entryBytes f k
    rw [Buf.blit_of_outside (by omega)]
    exact holds

end Root

/-! ## The regions -/

section Regions

variable (given : List GivenFile)

/-- Below the clusters of the files stand the other parts, one after the other. -/
theorem createStorageImage_below {p : Nat} (below : p < 2117632) :
    createStorageImage given p =
      (((((zeroed.blit 0 512 mbr).blit 1048576 512 bootSector).blit 1064960 524288
        (fatTable (buildFileTable given))).blit 1589248 524288
        (fatTable (buildFileTable given))).blit 2113536 4096
        (rootDirectory (buildFileTable given))) p :=
  makeFileData_below (by decide) below

variable {o : Nat}

theorem image_mbr (inside : o < 512) : createStorageImage given o = mbr o := by
  rw [createStorageImage_below given (by omega), Buf.blit_of_outside (by omega),
    Buf.blit_of_outside (by omega), Buf.blit_of_outside (by omega), Buf.blit_of_outside (by omega),
    Buf.blit_of_inside (by omega) (by omega), Nat.sub_zero]

theorem image_bootSector (inside : o < 512) :
    createStorageImage given (1048576 + o) = bootSector o := by
  rw [createStorageImage_below given (by omega), Buf.blit_of_outside (by omega),
    Buf.blit_of_outside (by omega), Buf.blit_of_outside (by omega),
    Buf.blit_of_inside (by omega) (by omega), Nat.add_sub_cancel_left]

theorem image_fatTable (inside : o < 524288) :
    createStorageImage given (1064960 + o) = fatTable (buildFileTable given) o := by
  rw [createStorageImage_below given (by omega), Buf.blit_of_outside (by omega),
    Buf.blit_of_outside (by omega), Buf.blit_of_inside (by omega) (by omega),
    Nat.add_sub_cancel_left]

theorem image_fatTable_copy (inside : o < 524288) :
    createStorageImage given (1589248 + o) = fatTable (buildFileTable given) o := by
  rw [createStorageImage_below given (by omega), Buf.blit_of_outside (by omega),
    Buf.blit_of_inside (by omega) (by omega), Nat.add_sub_cancel_left]

theorem image_rootDirectory (inside : o < 4096) :
    createStorageImage given (2113536 + o) = rootDirectory (buildFileTable given) o := by
  rw [createStorageImage_below given (by omega), Buf.blit_of_inside (by omega) (by omega),
    Nat.add_sub_cancel_left]

theorem image_fileData {f : PlacedFile} (placed : f ∈ buildFileTable given) {i : Nat}
    (index : i < f.clusterCount) (inside : o < clusterBytes) :
    createStorageImage given (clusterOffset (f.firstCluster + i) + o) =
      f.data.getD (i * clusterBytes + o) 0 :=
  makeFileData_inside (by decide) placed index inside

end Regions

end XosKernel.Image
