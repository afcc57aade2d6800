/-
# Mm.Pmm -- the physical page allocator of `pmm.c`

One bit a page says whether the page is in use.  `pmm_alloc_page` hands out the first free
page from page 512 on and marks it; it returns the address of the page, or `NULL`, which is
`none` here.  `pmm_free_page` clears the bit of the page that a pointer is in.
-/
import XosKernel.Theory.Bytes
import Mathlib.Logic.Function.Basic

namespace XosKernel.Mm

open XosKernel.Theory

set_option autoImplicit false

/-- Pages of the 256 MB that the allocator knows. -/
def totalPages : Nat := 65536

/-- Bytes in a page. -/
def pageSize : Nat := 4096

/-- The first page that is not reserved for the kernel. -/
def firstPage : Nat := 512

/-- Mark a page as used. -/
def bitmapSet (bitmap : Buf) (bit : Nat) : Buf :=
  Function.update bitmap (bit / 8) (bitmap (bit / 8) ||| (1 <<< UInt8.ofNat (bit % 8)))

/-- Mark a page as free. -/
def bitmapClear (bitmap : Buf) (bit : Nat) : Buf :=
  Function.update bitmap (bit / 8) (bitmap (bit / 8) &&& ~~~(1 <<< UInt8.ofNat (bit % 8)))

/-- Is the page used? -/
def bitmapTest (bitmap : Buf) (bit : Nat) : Bool :=
  bitmap (bit / 8) &&& (1 <<< UInt8.ofNat (bit % 8)) != 0

/-- `pmm_init`: everything is used, and then all but the reserved pages are free. -/
def pmmInit (bitmap : Buf) : Buf :=
  (List.range' firstPage (totalPages - firstPage)).foldl bitmapClear fun i =>
    if i < totalPages / 8 then 0xFF else bitmap i

/-- `pmm_alloc_page`: the address of the page, and the bitmap afterwards. -/
def pmmAllocPage (bitmap : Buf) : Option Nat × Buf :=
  match (List.range' firstPage (totalPages - firstPage)).find? fun i => !bitmapTest bitmap i with
  | some i => (some (i * pageSize), bitmapSet bitmap i)
  | none => (none, bitmap)

/-- `pmm_get_stats`, the field `used_pages`. -/
def pmmUsedPages (bitmap : Buf) : Nat :=
  (List.range' firstPage (totalPages - firstPage)).countP (bitmapTest bitmap)

/-- `pmm_free_page`, for any pointer: pages out of range are left. -/
def pmmFreePage (bitmap : Buf) (ptr : Nat) : Buf :=
  let pageIdx := ptr / pageSize
  if firstPage ≤ pageIdx ∧ pageIdx < totalPages then bitmapClear bitmap pageIdx else bitmap

/-- `pmm_stats_t`. -/
structure PmmStats where
  totalPages : Nat
  reservedPages : Nat
  usedPages : Nat
  freePages : Nat
  pageSize : Nat
  deriving DecidableEq

/-- `pmm_get_stats`. -/
def pmmGetStats (bitmap : Buf) : PmmStats where
  totalPages := totalPages
  reservedPages := firstPage
  usedPages := pmmUsedPages bitmap
  freePages := totalPages - firstPage - pmmUsedPages bitmap
  pageSize := pageSize

/-- Pages allocated one after the other, until one is missing. -/
def pmmAllocPages (bitmap : Buf) : Nat → Bool × Buf
  | 0 => (true, bitmap)
  | count + 1 =>
      match pmmAllocPage bitmap with
      | (none, bitmap') => (false, bitmap')
      | (some _, bitmap') => pmmAllocPages bitmap' count

/-- `pmm_alloc_contiguous` of `rtl8139.c`: the address of the first page.  When a later page
is missing, it warns and returns what it has. -/
def pmmAllocContiguous (bitmap : Buf) (numPages : Nat) : Option Nat × Buf :=
  match pmmAllocPage bitmap with
  | (none, bitmap) => (none, bitmap)
  | (some first, bitmap) => (some first, (pmmAllocPages bitmap (numPages - 1)).2)

end XosKernel.Mm
