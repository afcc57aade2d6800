/-
# Mm.Pages -- the pages in use are a prefix

`pmm_alloc_page` takes the first free page (`pmmAllocPage_some`).  Nothing in the kernel frees
a page, so from `pmm_init` on the pages in use are the first ones of the range, and how many
they are says all about the bitmap: `Taken bitmap n` is kept by every way to allocate, with the
next `n` and the addresses written out (`Taken.allocPage`, `Taken.allocPages`).
-/
import XosKernel.Mm.Pmm
import Mathlib.Data.Nat.Bitwise
import Mathlib.Tactic.IntervalCases

namespace XosKernel.Mm

open XosKernel.Theory

set_option autoImplicit false

/-! ## Bits -/

theorem bit_toNat {j : Nat} (bound : j < 8) : (1 <<< UInt8.ofNat j : UInt8).toNat = 2 ^ j := by
  interval_cases j <;> rfl

/-- Testing a bit of a byte by masking. -/
theorem and_bit_ne_zero (x : UInt8) {j : Nat} (bound : j < 8) :
    (x &&& (1 <<< UInt8.ofNat j) != 0) = x.toNat.testBit j := by
  have masked : (x &&& (1 <<< UInt8.ofNat j)).toNat = (x.toNat.testBit j).toNat * 2 ^ j := by
    rw [UInt8.toNat_and, bit_toNat bound, Nat.and_two_pow]
  rw [Bool.eq_iff_iff, bne_iff_ne, ne_eq, ← UInt8.toNat_inj, masked]
  cases x.toNat.testBit j <;> simp

/-- Clearing a bit of a byte by masking. -/
theorem clear_testBit (x : UInt8) {i j : Nat} (boundI : i < 8) (boundJ : j < 8) :
    (x &&& ~~~(1 <<< UInt8.ofNat i)).toNat.testBit j = (decide (j ≠ i) && x.toNat.testBit j) := by
  have mask : ∀ i : Fin 8, ∀ j : Fin 8,
      (~~~(1 <<< UInt8.ofNat i.val) : UInt8).toNat.testBit j.val = decide (j.val ≠ i.val) := by
    decide
  rw [UInt8.toNat_and, Nat.testBit_and, mask ⟨i, boundI⟩ ⟨j, boundJ⟩, Bool.and_comm]

theorem bitmapTest_eq (bitmap : Buf) (bit : Nat) :
    bitmapTest bitmap bit = (bitmap (bit / 8)).toNat.testBit (bit % 8) :=
  and_bit_ne_zero _ (Nat.mod_lt _ (by decide))

theorem bitmapTest_set (bitmap : Buf) (i j : Nat) :
    bitmapTest (bitmapSet bitmap i) j = (decide (j = i) || bitmapTest bitmap j) := by
  simp only [bitmapTest_eq, bitmapSet]
  by_cases byte : j / 8 = i / 8
  · rw [byte, Function.update_self, UInt8.toNat_or, Nat.testBit_or,
      bit_toNat (Nat.mod_lt _ (by decide)), Nat.testBit_two_pow]
    have same : i % 8 = j % 8 ↔ j = i := by omega
    rw [Bool.or_comm]
    simp [same]
  · rw [Function.update_of_ne byte]
    have different : j ≠ i := fun same => byte (by rw [same])
    simp [different]

theorem bitmapTest_clear (bitmap : Buf) (i j : Nat) :
    bitmapTest (bitmapClear bitmap i) j = (decide (j ≠ i) && bitmapTest bitmap j) := by
  simp only [bitmapTest_eq, bitmapClear]
  by_cases byte : j / 8 = i / 8
  · rw [byte, Function.update_self, clear_testBit _ (Nat.mod_lt _ (by decide))
      (Nat.mod_lt _ (by decide))]
    have same : j % 8 = i % 8 ↔ j = i := by omega
    simp [same]
  · rw [Function.update_of_ne byte]
    have different : j ≠ i := fun same => byte (by rw [same])
    simp [different]

theorem bitmapTest_clear_all (pages : List Nat) (bitmap : Buf) (j : Nat) :
    bitmapTest (pages.foldl bitmapClear bitmap) j =
      (decide (j ∉ pages) && bitmapTest bitmap j) := by
  induction pages generalizing bitmap with
  | nil => simp
  | cons page rest ih =>
      rw [List.foldl_cons, ih, bitmapTest_clear]
      by_cases now : j = page <;> simp [now]

/-! ## `pmm_alloc_page` -/

/-- The pages that the allocator hands out. -/
def Page (i : Nat) : Prop := firstPage ≤ i ∧ i < totalPages

instance (i : Nat) : Decidable (Page i) := inferInstanceAs (Decidable (_ ∧ _))

theorem mem_pages {i : Nat} : i ∈ List.range' firstPage (totalPages - firstPage) ↔ Page i := by
  rw [List.mem_range'_1, Page]
  have : firstPage + (totalPages - firstPage) = totalPages := by decide
  rw [this]

/-- The first free page, if there is one. -/
theorem pmmAllocPage_some {bitmap : Buf} {i : Nat} (page : Page i)
    (free : bitmapTest bitmap i = false)
    (before : ∀ j, firstPage ≤ j → j < i → bitmapTest bitmap j = true) :
    pmmAllocPage bitmap = (some (i * pageSize), bitmapSet bitmap i) := by
  have found : (List.range' firstPage (totalPages - firstPage)).find?
      (fun i => !bitmapTest bitmap i) = some i := by
    rw [List.find?_range'_eq_some]
    refine ⟨by simp [free], mem_pages.mpr page, fun j low high => ?_⟩
    simp [before j low high]
  rw [pmmAllocPage, found]

theorem pmmAllocPage_none {bitmap : Buf} (full : ∀ i, Page i → bitmapTest bitmap i = true) :
    pmmAllocPage bitmap = (none, bitmap) := by
  have none : (List.range' firstPage (totalPages - firstPage)).find?
      (fun i => !bitmapTest bitmap i) = none := by
    rw [List.find?_eq_none]
    intro i member
    simp [full i (mem_pages.mp member)]
  rw [pmmAllocPage, none]

/-- `pmm_alloc_page` takes the first free page, or there is none. -/
theorem pmmAllocPage_cases (bitmap : Buf) :
    (∃ i, Page i ∧ bitmapTest bitmap i = false ∧
        (∀ j, firstPage ≤ j → j < i → bitmapTest bitmap j = true) ∧
        pmmAllocPage bitmap = (some (i * pageSize), bitmapSet bitmap i)) ∨
      ((∀ i, Page i → bitmapTest bitmap i = true) ∧ pmmAllocPage bitmap = (none, bitmap)) := by
  by_cases left : ∃ i, Page i ∧ bitmapTest bitmap i = false
  · obtain ⟨page, free⟩ := Nat.find_spec left
    have before : ∀ j, firstPage ≤ j → j < Nat.find left → bitmapTest bitmap j = true := by
      intro j low high
      have taken := Nat.find_min left high
      simp only [not_and, Bool.not_eq_false] at taken
      exact taken ⟨low, Nat.lt_trans high page.2⟩
    exact .inl ⟨_, page, free, before, pmmAllocPage_some page free before⟩
  · have full : ∀ i, Page i → bitmapTest bitmap i = true := by
      intro i page
      by_contra free
      exact left ⟨i, page, Bool.eq_false_iff.mpr free⟩
    exact .inr ⟨full, pmmAllocPage_none full⟩

/-! ## A prefix of the pages -/

/-- How many pages there are to hand out. -/
def pageCount : Nat := totalPages - firstPage

/-- Exactly the first `n` pages are in use. -/
structure Taken (bitmap : Buf) (n : Nat) : Prop where
  bound : n ≤ pageCount
  used : ∀ i, Page i → bitmapTest bitmap i = decide (i < firstPage + n)

theorem taken_init (bitmap : Buf) : Taken (pmmInit bitmap) 0 := by
  refine ⟨Nat.zero_le _, fun i page => ?_⟩
  have member : i ∈ List.range' firstPage (totalPages - firstPage) := mem_pages.mpr page
  have low := page.1
  rw [pmmInit, bitmapTest_clear_all]
  simp [member, Nat.not_lt.mpr low]

/-- The statistics count the taken pages. -/
theorem Taken.usedPages {bitmap : Buf} {n : Nat} (taken : Taken bitmap n) :
    pmmUsedPages bitmap = n := by
  have bound := taken.bound
  have split : List.range' firstPage (totalPages - firstPage) =
      List.range' firstPage n ++ List.range' (firstPage + n) (pageCount - n) := by
    rw [List.range'_append_1, Nat.add_sub_cancel' bound, pageCount]
  have inRange : ∀ i ∈ List.range' firstPage (totalPages - firstPage), Page i :=
    fun i member => mem_pages.mp member
  rw [split] at inRange
  rw [pmmUsedPages, split, List.countP_append, List.countP_eq_length.mpr,
    List.countP_eq_zero.mpr, List.length_range', Nat.add_zero]
  · intro i member
    rw [taken.used i (inRange i (List.mem_append_right _ member))]
    have low := (List.mem_range'_1.mp member).1
    simpa using low
  · intro i member
    rw [taken.used i (inRange i (List.mem_append_left _ member))]
    have high := (List.mem_range'_1.mp member).2
    simpa using high

/-- The address of the page that comes after `n` taken ones. -/
def pageAddress (n : Nat) : Nat := (firstPage + n) * pageSize

theorem Taken.allocPage {bitmap : Buf} {n : Nat} (taken : Taken bitmap n) (left : n < pageCount) :
    (pmmAllocPage bitmap).1 = some (pageAddress n) ∧ Taken (pmmAllocPage bitmap).2 (n + 1) := by
  have page : Page (firstPage + n) := by
    simp only [Page, pageCount, firstPage, totalPages] at *
    omega
  have free : bitmapTest bitmap (firstPage + n) = false := by
    rw [taken.used _ page]
    simp
  have before : ∀ j, firstPage ≤ j → j < firstPage + n → bitmapTest bitmap j = true := by
    intro j low high
    rw [taken.used j ⟨low, Nat.lt_trans high page.2⟩]
    simpa using high
  rw [pmmAllocPage_some page free before]
  refine ⟨rfl, left, fun i within => ?_⟩
  rw [bitmapTest_set, taken.used i within]
  have split : i < firstPage + (n + 1) ↔ i = firstPage + n ∨ i < firstPage + n := by omega
  simp [split]

theorem Taken.allocPage_full {bitmap : Buf} (taken : Taken bitmap pageCount) :
    pmmAllocPage bitmap = (none, bitmap) := by
  refine pmmAllocPage_none fun i page => ?_
  rw [taken.used i page]
  have high := page.2
  simp only [pageCount, firstPage, totalPages] at *
  exact decide_eq_true high

theorem Taken.allocPage_cases {bitmap : Buf} {n : Nat} (taken : Taken bitmap n) :
    (n < pageCount ∧ (pmmAllocPage bitmap).1 = some (pageAddress n) ∧
        Taken (pmmAllocPage bitmap).2 (n + 1)) ∨
      (n = pageCount ∧ (pmmAllocPage bitmap).1 = none ∧ Taken (pmmAllocPage bitmap).2 n) := by
  by_cases left : n < pageCount
  · exact .inl ⟨left, taken.allocPage left⟩
  · obtain rfl : n = pageCount := Nat.le_antisymm taken.bound (Nat.not_lt.mp left)
    rw [taken.allocPage_full]
    exact .inr ⟨rfl, rfl, taken⟩

/-- Taking several pages: all of them, or all that are left. -/
theorem Taken.allocPages {bitmap : Buf} {n : Nat} (taken : Taken bitmap n) (count : Nat) :
    (pmmAllocPages bitmap count).1 = decide (n + count ≤ pageCount) ∧
      Taken (pmmAllocPages bitmap count).2 (min (n + count) pageCount) := by
  induction count generalizing bitmap n with
  | zero =>
      have bound := taken.bound
      simpa [pmmAllocPages, bound] using taken
  | succ count ih =>
      by_cases left : n < pageCount
      · obtain ⟨address, taken'⟩ := taken.allocPage left
        have rest := ih taken'
        simp only [pmmAllocPages]
        rw [show pmmAllocPage bitmap = (some (pageAddress n), (pmmAllocPage bitmap).2) from
          Prod.ext address rfl]
        rwa [Nat.add_right_comm, Nat.add_assoc] at rest
      · obtain rfl : n = pageCount := Nat.le_antisymm taken.bound (Nat.not_lt.mp left)
        simp only [pmmAllocPages, taken.allocPage_full]
        have enough : min (pageCount + (count + 1)) pageCount = pageCount := by omega
        rw [enough]
        exact ⟨by simp, taken⟩

theorem Taken.allocContiguous {bitmap : Buf} {n : Nat} (taken : Taken bitmap n) (numPages : Nat) :
    (n < pageCount ∧ (pmmAllocContiguous bitmap numPages).1 = some (pageAddress n) ∧
        Taken (pmmAllocContiguous bitmap numPages).2 (min (n + 1 + (numPages - 1)) pageCount)) ∨
      (n = pageCount ∧ (pmmAllocContiguous bitmap numPages).1 = none ∧
        Taken (pmmAllocContiguous bitmap numPages).2 n) := by
  simp only [pmmAllocContiguous]
  obtain ⟨left, address, taken'⟩ | ⟨full, address, taken'⟩ := taken.allocPage_cases
  · rw [show pmmAllocPage bitmap = (some (pageAddress n), (pmmAllocPage bitmap).2) from
      Prod.ext address rfl]
    exact .inl ⟨left, rfl, (taken'.allocPages (numPages - 1)).2⟩
  · rw [show pmmAllocPage bitmap = (none, (pmmAllocPage bitmap).2) from Prod.ext address rfl]
    exact .inr ⟨full, rfl, taken'⟩

end XosKernel.Mm
