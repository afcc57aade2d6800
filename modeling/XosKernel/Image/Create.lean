/-
# Image.Create -- the disk image of `create_storage_image.py`

The script fills a zeroed image: a partition table, a FAT32 boot sector, two copies of the
allocation table, a root directory and the contents of the files, which take consecutive
clusters from cluster 3 on.  A slice assignment `image[a:b] = bytes` is a `blit`, a
`struct.pack_into` a `putLe`; the loops are folds over the files and over the clusters of a
file, in the script's order.
-/
import XosKernel.Theory.Bytes

namespace XosKernel.Image

open XosKernel.Theory

set_option autoImplicit false

def sectorSize : Nat := 512
def imageSize : Nat := 64 * 1024 * 1024
def partitionStart : Nat := 2048
def partitionSizeSectors : Nat := imageSize / sectorSize - partitionStart
def sectorsPerCluster : Nat := 8
def reservedSectors : Nat := 32
def numFats : Nat := 2
def sectorsPerFat : Nat := 1024
def rootCluster : Nat := 2
def fatStart : Nat := partitionStart + reservedSectors
def dataStart : Nat := fatStart + numFats * sectorsPerFat
def clusterBytes : Nat := sectorsPerCluster * sectorSize

def lbaOfCluster (cluster : Nat) : Nat := dataStart + (cluster - 2) * sectorsPerCluster

def clustersNeeded (sizeBytes : Nat) : Nat :=
  if sizeBytes = 0 then 1 else (sizeBytes + clusterBytes - 1) / clusterBytes

/-- `bytearray(n)`. -/
def zeroed : Buf := fun _ => 0

/-! ## The files -/

/-- A file as it is given: the characters of its name and extension, and its contents. -/
structure GivenFile where
  name : List UInt8
  ext : List UInt8
  data : List UInt8
  deriving DecidableEq

/-- A file with its place. -/
structure PlacedFile extends GivenFile where
  clusterCount : Nat
  firstCluster : Nat

/-- The loop of `build_file_table`, from `next_cluster` on. -/
def placeFrom : Nat → List GivenFile → List PlacedFile
  | _, [] => []
  | next, f :: files =>
      let count := clustersNeeded f.data.length
      { f with clusterCount := count, firstCluster := next } :: placeFrom (next + count) files

/-- `build_file_table`, for any list of files. -/
def buildFileTable (files : List GivenFile) : List PlacedFile := placeFrom 3 files

/-! ## The parts of the image -/

/-- The sector that `make_mbr` builds. -/
def mbr : Buf :=
  let entry := 446
  ((((((((((zeroed.putLe (entry + 0) 1 0x00).putLe (entry + 1) 1 0x00).putLe (entry + 2) 1
    0x02).putLe (entry + 3) 1 0x00).putLe (entry + 4) 1 0x0C).putLe (entry + 5) 1
    0x00).putLe (entry + 6) 1 0x00).putLe (entry + 7) 1 0x00).putLe (entry + 8) 4
    partitionStart).putLe (entry + 12) 4
    partitionSizeSectors).putLe 510 2 0xAA55

def makeMbr (image : Buf) : Buf := image.blit 0 sectorSize mbr

/-- The sector that `make_fat32_boot_sector` builds. -/
def bootSector : Buf :=
  let b := zeroed.blit 0 3 (Buf.ofList [0xEB, 0x58, 0x90])
  let b := b.blit 3 8 (Buf.ofList [0x58, 0x4F, 0x53, 0x42, 0x4F, 0x4F, 0x54, 0x20])
  let b := b.putLe 11 2 sectorSize
  let b := b.putLe 13 1 sectorsPerCluster
  let b := b.putLe 14 2 reservedSectors
  let b := b.putLe 16 1 numFats
  let b := b.putLe 17 2 0
  let b := b.putLe 19 2 0
  let b := b.putLe 21 1 0xF8
  let b := b.putLe 22 2 0
  let b := b.putLe 24 2 63
  let b := b.putLe 26 2 255
  let b := b.putLe 28 4 partitionStart
  let b := b.putLe 32 4 partitionSizeSectors
  let b := b.putLe 36 4 sectorsPerFat
  let b := b.putLe 40 2 0
  let b := b.putLe 42 2 0
  let b := b.putLe 44 4 rootCluster
  let b := b.putLe 48 2 1
  let b := b.putLe 50 2 6
  let b := b.blit 52 12 zeroed
  let b := b.putLe 64 1 0x80
  let b := b.putLe 65 1 0
  let b := b.putLe 66 1 0x29
  let b := b.putLe 67 4 0x12345678
  let b := b.blit 71 11 (Buf.ofList
    [0x58, 0x4F, 0x53, 0x20, 0x53, 0x54, 0x4F, 0x52, 0x41, 0x47, 0x45])
  let b := b.blit 82 8 (Buf.ofList [0x46, 0x41, 0x54, 0x33, 0x32, 0x20, 0x20, 0x20])
  b.putLe 510 2 0xAA55

def makeFat32BootSector (image : Buf) : Buf :=
  image.blit (partitionStart * sectorSize) sectorSize bootSector

/-- `set_fat_entry`. -/
def setFatEntry (fat : Buf) (cluster value : Nat) : Buf :=
  fat.putLe (cluster * 4) 4 (value % 2 ^ 28)

/-- What `make_fat_tables` stores for cluster number `i` of a file. -/
def linkFileCluster (f : PlacedFile) (fat : Buf) (i : Nat) : Buf :=
  let c := f.firstCluster + i
  if i = f.clusterCount - 1 then setFatEntry fat c 0x0FFFFFFF else setFatEntry fat c (c + 1)

/-- The chain of one file. -/
def linkFile (fat : Buf) (f : PlacedFile) : Buf :=
  (List.range f.clusterCount).foldl (linkFileCluster f) fat

/-- The table that `make_fat_tables` builds. -/
def fatTable (files : List PlacedFile) : Buf :=
  let fat := setFatEntry zeroed 0 0x0FFFFFF8
  let fat := setFatEntry fat 1 0x0FFFFFFF
  let fat := setFatEntry fat rootCluster 0x0FFFFFFF
  files.foldl linkFile fat

def makeFatTables (image : Buf) (files : List PlacedFile) : Buf :=
  let fat := fatTable files
  let image := image.blit (fatStart * sectorSize) (sectorsPerFat * sectorSize) fat
  image.blit ((fatStart + sectorsPerFat) * sectorSize) (sectorsPerFat * sectorSize) fat

/-- `s[:width].ljust(width)`. -/
def ljust (width : Nat) (s : List UInt8) : List UInt8 :=
  s.take width ++ List.replicate (width - (s.take width).length) 0x20

/-- `write_entry`: the 32 bytes of an entry. -/
def entryBytes (f : PlacedFile) : Buf :=
  ((((zeroed.blit 0 11 (Buf.ofList (ljust 8 f.name ++ ljust 3 f.ext))).putLe 11 1 0x20).putLe 20 2
    (f.firstCluster / 2 ^ 16 % 2 ^ 16)).putLe 26 2 (f.firstCluster % 2 ^ 16)).putLe 28 4
    f.data.length

/-- The cluster that `make_root_directory` builds. -/
def rootDirectory (files : List PlacedFile) : Buf :=
  let root := files.zipIdx.foldl (fun root p => root.blit (p.2 * 32) 32 (entryBytes p.1)) zeroed
  root.putLe (files.length * 32) 1 0x00

def makeRootDirectory (image : Buf) (files : List PlacedFile) : Buf :=
  image.blit (lbaOfCluster rootCluster * sectorSize) clusterBytes (rootDirectory files)

/-- `write_cluster`. -/
def writeCluster (image : Buf) (cluster : Nat) (data : List UInt8) : Buf :=
  image.blit (lbaOfCluster cluster * sectorSize) clusterBytes (Buf.ofList data)

/-- The cluster number `i` of a file. -/
def writeFileCluster (f : PlacedFile) (image : Buf) (i : Nat) : Buf :=
  writeCluster image (f.firstCluster + i)
    ((f.data.drop (i * clusterBytes)).take clusterBytes)

/-- The clusters of one file. -/
def writeFile (image : Buf) (f : PlacedFile) : Buf :=
  (List.range f.clusterCount).foldl (writeFileCluster f) image

def makeFileData (image : Buf) (files : List PlacedFile) : Buf := files.foldl writeFile image

/-- `main`, up to the file it writes. -/
def createStorageImage (given : List GivenFile) : Buf :=
  let files := buildFileTable given
  makeFileData (makeRootDirectory (makeFatTables (makeFat32BootSector (makeMbr zeroed)) files)
    files) files

end XosKernel.Image
