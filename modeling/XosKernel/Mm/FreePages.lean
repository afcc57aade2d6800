/-
# Mm.FreePages -- how many pages are left

`pmm_get_stats` counts the free pages.  Whatever the bitmap holds, `pmm_alloc_page` fails exactly
when none is left and takes exactly one otherwise (`pmmAllocPage_left`), so several calls in a row
take what they ask for or all that is left.
-/
import XosKernel.Mm.LiveSet

namespace XosKernel.Mm

open XosKernel.Theory

set_option autoImplicit false

/-- `pmm_get_stats`, the field `free_pages`. -/
def pmmFreePages (bitmap : Buf) : Nat := (pmmGetStats bitmap).freePages

/-- Every bitmap represents the set of its used pages. -/
theorem represents_used (bitmap : Buf) : Represents bitmap
    ((List.range' firstPage (totalPages - firstPage)).filter (bitmapTest bitmap)).toFinset := by
  refine ⟨fun i member => ?_, fun i page => ?_⟩
  · rw [List.mem_toFinset, List.mem_filter] at member
    exact mem_pages.mp member.1
  · rw [List.mem_toFinset, List.mem_filter, mem_pages]
    exact ⟨fun used => ⟨page, used⟩, fun member => member.2⟩

/-- Every page is used or left. -/
theorem pmmFreePages_add (bitmap : Buf) :
    pmmFreePages bitmap + pmmUsedPages bitmap = pageCount := by
  have most := Represents.usedPages_le bitmap
  unfold pmmFreePages pmmGetStats pageCount
  dsimp only
  omega

theorem Taken.freePages {bitmap : Buf} {n : Nat} (taken : Taken bitmap n) :
    pmmFreePages bitmap + n = pageCount := by
  rw [← pmmFreePages_add bitmap, taken.usedPages]

/-- A call takes one page, or there is none. -/
theorem pmmAllocPage_left (bitmap : Buf) :
    (pmmFreePages bitmap = 0 ∧ pmmAllocPage bitmap = (none, bitmap)) ∨
      ∃ ptr bitmap', pmmAllocPage bitmap = (some ptr, bitmap') ∧
        pmmFreePages bitmap' + 1 = pmmFreePages bitmap := by
  have rep := represents_used bitmap
  have before := pmmFreePages_add bitmap
  rw [rep.usedPages] at before
  obtain ⟨live', stepped, rep'⟩ := rep.alloc
  have after := pmmFreePages_add (pmmAllocPage bitmap).2
  rw [rep'.usedPages] at after
  rcases pmmAllocPage_cases bitmap with ⟨i, -, -, -, alloc⟩ | ⟨full, alloc⟩
  · rw [alloc] at stepped
    obtain ⟨j, least, -, rfl⟩ := stepped
    rw [Finset.card_insert_of_notMem least.1.2] at after
    rw [alloc] at after
    exact .inr ⟨_, _, alloc, by dsimp only at after; omega⟩
  · refine .inl ⟨?_, alloc⟩
    have all : pmmUsedPages bitmap = pageCount := by
      rw [pmmUsedPages, List.countP_eq_length.mpr fun i member => full i (mem_pages.mp member),
        List.length_range', pageCount]
    have sum := pmmFreePages_add bitmap
    omega

/-- Several calls take what they ask for, or all that is left. -/
theorem pmmAllocPages_left (bitmap : Buf) (count : Nat) :
    (∃ bitmap', pmmAllocPages bitmap count = (true, bitmap') ∧
        pmmFreePages bitmap' + count = pmmFreePages bitmap) ∨
      ∃ bitmap', pmmAllocPages bitmap count = (false, bitmap') ∧
        pmmFreePages bitmap < count ∧ pmmFreePages bitmap' = 0 := by
  induction count generalizing bitmap with
  | zero => exact .inl ⟨bitmap, rfl, rfl⟩
  | succ count ih =>
      rw [pmmAllocPages]
      obtain ⟨none_, alloc⟩ | ⟨ptr, next, alloc, one⟩ := pmmAllocPage_left bitmap
      · rw [alloc]
        exact .inr ⟨bitmap, rfl, by omega, none_⟩
      · rw [alloc]
        obtain ⟨after, taken, left⟩ | ⟨after, failed, few, left⟩ := ih next
        · exact .inl ⟨after, taken, by omega⟩
        · exact .inr ⟨after, failed, by omega, left⟩

end XosKernel.Mm
