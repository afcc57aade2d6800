/-
# Mm.Heap -- the bump allocator of `heap.c`

`malloc` cuts blocks off a page and takes a new page when the rest is too small.  It compares
the request with the rest of the old page only: a request of more than a page gets the start of
a single one, and `heap_remaining -= size` then wraps around.

`SoundBlocks` is what a heap is for: aligned and disjoint blocks in its own pages.
`malloc_sound_iff` says that it lasts through a run exactly as long as nobody gets a block of
more than a page.
-/
import XosKernel.Mm.Pages
import XosKernel.Theory.Steps

namespace XosKernel.Mm

open XosKernel.Theory

set_option autoImplicit false

/-! ## The allocator -/

/-- `heap_cursor` (0 is `NULL`), `heap_remaining` and the page allocator.  `obtained` lists the
addresses of the pages that `malloc` got, the last one first. -/
structure Heap where
  cursor : Nat
  remaining : Nat
  bitmap : Buf
  obtained : List Nat

/-- The size rounded up to a multiple of eight, in 64 bits. -/
def alignSize (size : Nat) : Nat :=
  if size % 8 ≠ 0 then (size + (8 - size % 8)) % 2 ^ 64 else size

/-- The end of `malloc`: the block starts at the cursor. -/
def Heap.bump (h : Heap) (size : Nat) : Option Nat × Heap :=
  (some h.cursor,
    { h with
      cursor := (h.cursor + size) % 2 ^ 64
      remaining := (h.remaining + 2 ^ 64 - size) % 2 ^ 64 })

/-- `malloc`. -/
def Heap.malloc (h : Heap) (size : UInt64) : Option Nat × Heap :=
  if size = 0 then (none, h)
  else
    let size := alignSize size.toNat
    if h.cursor = 0 ∨ h.remaining < size then
      match pmmAllocPage h.bitmap with
      | (none, bitmap) => (none, { h with cursor := 0, bitmap })
      | (some page, bitmap) =>
          { cursor := page, remaining := 4096, bitmap, obtained := page :: h.obtained : Heap }.bump
            size
    else h.bump size

/-- `free` does nothing. -/
def Heap.free (h : Heap) (_ptr : UInt64) : Heap := h

/-! ## Runs -/

/-- A block that was returned for a request of `size` bytes. -/
structure HeapBlock where
  start : Nat
  size : Nat
  deriving DecidableEq

/-- The addresses of the block. -/
def HeapBlock.Has (b : HeapBlock) (a : Nat) : Prop := b.start ≤ a ∧ a < b.start + b.size

inductive HeapCall where
  | malloc (size : UInt64)
  | free (ptr : UInt64)

/-- The heap, and the blocks that it has returned. -/
structure Allocations where
  heap : Heap
  blocks : List HeapBlock

/-- A call, and the block that it returns. -/
def Allocations.call (s : Allocations) : HeapCall → Allocations
  | .malloc size =>
      { heap := (s.heap.malloc size).2
        blocks := match (s.heap.malloc size).1 with
          | none => s.blocks
          | some start => ⟨start, size.toNat⟩ :: s.blocks }
  | .free ptr => { s with heap := s.heap.free ptr }

/-- Before the first call, with the page allocator in any state. -/
def Allocations.start (bitmap : Buf) : Allocations := ⟨⟨0, 0, bitmap, []⟩, []⟩

/-- The blocks are aligned, lie in pages that the heap obtained, and are disjoint. -/
structure SoundBlocks (s : Allocations) : Prop where
  aligned : ∀ b ∈ s.blocks, b.start % 8 = 0
  inPages : ∀ b ∈ s.blocks, ∀ a, b.Has a → ∃ page ∈ s.heap.obtained, page ≤ a ∧ a < page + 4096
  disjoint : s.blocks.Pairwise fun b c => ∀ a, ¬ (b.Has a ∧ c.Has a)

/-- No block of more than a page: the request is for at most a page, or there is no page left
and the call finds that out.  (A request within seven bytes of `2 ^ 64` is rounded to 0, so it
asks for a page only if there is no cursor.) -/
def Allocations.Modest (s : Allocations) : HeapCall → Prop
  | .malloc size => size.toNat ≤ 4096 ∨
      (∀ i, Page i → bitmapTest s.heap.bitmap i = true) ∧
        (size.toNat ≤ 2 ^ 64 - 8 ∨ s.heap.cursor = 0)
  | .free _ => True

/-! ## What a call does -/

theorem alignSize_small {size : Nat} (small : size ≤ 4096) :
    size ≤ alignSize size ∧ alignSize size ≤ 4096 ∧ alignSize size % 8 = 0 := by
  unfold alignSize
  split <;> omega

/-- A larger request is rounded to more than a page, or wraps around to 0. -/
theorem alignSize_large {size : Nat} (large : 4096 < size) (bound : size < 2 ^ 64) :
    if size ≤ 2 ^ 64 - 8 then 4096 < alignSize size else alignSize size = 0 := by
  unfold alignSize
  split <;> split <;> omega

/-- The heap after it got page `i`. -/
def Heap.withPage (h : Heap) (i : Nat) : Heap where
  cursor := i * pageSize
  remaining := 4096
  bitmap := bitmapSet h.bitmap i
  obtained := i * pageSize :: h.obtained

/-- `malloc` returns nothing for 0, cuts a block off the page it has, gets the first free page,
or finds that there is none. -/
theorem malloc_cases (h : Heap) (size : UInt64) :
    (size = 0 ∧ h.malloc size = (none, h)) ∨
    (h.cursor ≠ 0 ∧ alignSize size.toNat ≤ h.remaining ∧
      h.malloc size = h.bump (alignSize size.toNat)) ∨
    ((h.cursor = 0 ∨ h.remaining < alignSize size.toNat) ∧
      ((∃ i, Page i ∧ bitmapTest h.bitmap i = false ∧
          (∀ j, firstPage ≤ j → j < i → bitmapTest h.bitmap j = true) ∧
          h.malloc size = (h.withPage i).bump (alignSize size.toNat)) ∨
        ((∀ i, Page i → bitmapTest h.bitmap i = true) ∧
          h.malloc size = (none, { h with cursor := 0 })))) := by
  by_cases zero : size = 0
  · exact .inl ⟨zero, by rw [Heap.malloc, if_pos zero]⟩
  by_cases needs : h.cursor = 0 ∨ h.remaining < alignSize size.toNat
  · refine .inr (.inr ⟨needs, ?_⟩)
    simp only [Heap.malloc, if_neg zero, if_pos needs]
    rcases pmmAllocPage_cases h.bitmap with ⟨i, page, free, before, alloc⟩ | ⟨full, alloc⟩
    · exact .inl ⟨i, page, free, before, by rw [alloc]; rfl⟩
    · exact .inr ⟨full, by rw [alloc]⟩
  · refine .inr (.inl ⟨?_, ?_, by simp only [Heap.malloc, if_neg zero, if_neg needs]⟩)
    · exact fun null => needs (.inl null)
    · exact Nat.not_lt.mp fun short => needs (.inr short)

/-! ## The invariant -/

/-- Blocks are sound, the pages are below every free one, and what is left of the last page is
in no block. -/
structure Allocations.Inv (s : Allocations) : Prop where
  sound : SoundBlocks s
  pages : ∀ page ∈ s.heap.obtained, ∃ i, Page i ∧ page = i * pageSize ∧
    ∀ j, firstPage ≤ j → j ≤ i → bitmapTest s.heap.bitmap j = true
  remaining_le : s.heap.remaining ≤ 4096
  rest : s.heap.cursor ≠ 0 → ∃ page ∈ s.heap.obtained, page ≤ s.heap.cursor ∧
    s.heap.cursor + s.heap.remaining = page + 4096 ∧ s.heap.cursor % 8 = 0 ∧
    ∀ b ∈ s.blocks, ∀ a, b.Has a → a < s.heap.cursor ∨ page + 4096 ≤ a

/-- An address past the pages of a heap is in none of them. -/
theorem not_in_pages {pages : List Nat} {a : Nat} (high : ∀ page ∈ pages, page + 4096 ≤ a) :
    ¬ ∃ page ∈ pages, page ≤ a ∧ a < page + 4096 := by
  rintro ⟨page, obtained, -, below⟩
  have := high page obtained
  omega

theorem Allocations.Inv.start (bitmap : Buf) : (Allocations.start bitmap).Inv where
  sound := ⟨by simp [Allocations.start], by simp [Allocations.start], List.Pairwise.nil⟩
  pages := by simp [Allocations.start]
  remaining_le := Nat.zero_le _
  rest null := absurd rfl null

namespace Allocations.Inv

variable {s : Allocations} (inv : s.Inv)
include inv

theorem page_lt {page : Nat} (obtained : page ∈ s.heap.obtained) :
    0 < page ∧ page + 4096 ≤ 2 ^ 28 := by
  obtain ⟨i, inRange, rfl, -⟩ := inv.pages page obtained
  simp only [Page, firstPage, totalPages, pageSize] at *
  omega

/-- Without a cursor. -/
theorem dropped : Inv { s with heap := { s.heap with cursor := 0 } } where
  sound := ⟨inv.sound.aligned, inv.sound.inPages, inv.sound.disjoint⟩
  pages := inv.pages
  remaining_le := inv.remaining_le
  rest null := absurd rfl null

/-- The first free page comes after the pages that the heap has. -/
theorem obtained_lt {i : Nat} (free : bitmapTest s.heap.bitmap i = false) (low : firstPage ≤ i)
    {page : Nat} (obtained : page ∈ s.heap.obtained) : page + 4096 ≤ i * pageSize := by
  obtain ⟨k, -, rfl, used⟩ := inv.pages page obtained
  have before : k < i := by
    by_contra above
    rw [used i low (Nat.not_lt.mp above)] at free
    cases free
  simp only [pageSize]
  omega

/-- With a new page. -/
theorem paged {i : Nat} (page : Page i) (free : bitmapTest s.heap.bitmap i = false)
    (before : ∀ j, firstPage ≤ j → j < i → bitmapTest s.heap.bitmap j = true) :
    Inv { s with heap := s.heap.withPage i } where
  sound := by
    refine ⟨inv.sound.aligned, fun b member a has => ?_, inv.sound.disjoint⟩
    obtain ⟨old, obtained, within⟩ := inv.sound.inPages b member a has
    exact ⟨old, List.mem_cons_of_mem _ obtained, within⟩
  pages := by
    intro p obtained
    rcases List.mem_cons.mp obtained with rfl | old
    · refine ⟨i, page, rfl, fun j low high => ?_⟩
      simp only [Heap.withPage, bitmapTest_set, Bool.or_eq_true, decide_eq_true_eq]
      rcases Nat.eq_or_lt_of_le high with same | less
      · exact .inl same
      · exact .inr (before j low less)
    · obtain ⟨k, inRange, is, used⟩ := inv.pages p old
      refine ⟨k, inRange, is, fun j low high => ?_⟩
      simp only [Heap.withPage, bitmapTest_set, Bool.or_eq_true]
      exact .inr (used j low high)
  remaining_le := Nat.le_refl _
  rest _ := by
    refine ⟨i * pageSize, List.mem_cons_self, Nat.le_refl _, rfl, ?_, fun b member a has => ?_⟩
    · simp only [Heap.withPage, pageSize]
      omega
    · obtain ⟨old, obtained, -, high⟩ := inv.sound.inPages b member a has
      have := inv.obtained_lt free page.1 obtained
      exact .inl (Nat.lt_of_lt_of_le high this)

/-- A block is cut off what is left of the page. -/
theorem bumped (cursor : s.heap.cursor ≠ 0) {size r : Nat} (covers : size ≤ r)
    (fits : r ≤ s.heap.remaining) (aligned : r % 8 = 0) :
    Inv ⟨(s.heap.bump r).2, ⟨s.heap.cursor, size⟩ :: s.blocks⟩ := by
  obtain ⟨page, obtained, low, total, start, apart⟩ := inv.rest cursor
  have bounds := inv.page_lt obtained
  have least := inv.remaining_le
  have moved : (s.heap.cursor + r) % 2 ^ 64 = s.heap.cursor + r := Nat.mod_eq_of_lt (by omega)
  have left : (s.heap.remaining + 2 ^ 64 - r) % 2 ^ 64 = s.heap.remaining - r := by omega
  refine ⟨⟨?_, ?_, ?_⟩, inv.pages, ?_, fun _ => ⟨page, obtained, ?_, ?_, ?_, ?_⟩⟩
  · intro b member
    rcases List.mem_cons.mp member with rfl | old
    · exact start
    · exact inv.sound.aligned b old
  · intro b member a has
    rcases List.mem_cons.mp member with rfl | old
    · have within : s.heap.cursor ≤ a ∧ a < s.heap.cursor + size := has
      exact ⟨page, obtained, by omega, by omega⟩
    · exact inv.sound.inPages b old a has
  · refine List.Pairwise.cons (fun b member a both => ?_) inv.sound.disjoint
    have within : s.heap.cursor ≤ a ∧ a < s.heap.cursor + size := both.1
    rcases apart b member a both.2 with before | after <;> omega
  · show (s.heap.remaining + 2 ^ 64 - r) % 2 ^ 64 ≤ 4096
    omega
  · show page ≤ (s.heap.cursor + r) % 2 ^ 64
    omega
  · show (s.heap.cursor + r) % 2 ^ 64 + (s.heap.remaining + 2 ^ 64 - r) % 2 ^ 64 = page + 4096
    omega
  · show (s.heap.cursor + r) % 2 ^ 64 % 8 = 0
    omega
  · intro b member a has
    show a < (s.heap.cursor + r) % 2 ^ 64 ∨ page + 4096 ≤ a
    rw [moved]
    rcases List.mem_cons.mp member with rfl | old
    · have within : s.heap.cursor ≤ a ∧ a < s.heap.cursor + size := has
      omega
    · rcases apart b old a has with before | after <;> omega

/-- A modest call keeps the invariant. -/
theorem call_keeps (call : HeapCall) (modest : s.Modest call) : (s.call call).Inv := by
  cases call with
  | free ptr => exact inv
  | malloc size =>
      simp only [Allocations.call]
      rcases malloc_cases s.heap size with ⟨-, is⟩ | ⟨cursor, fits, is⟩ |
        ⟨needs, ⟨i, page, free, before, is⟩ | ⟨full, is⟩⟩
      · rw [is]
        exact inv
      · rw [is]
        have small : size.toNat ≤ 4096 := by
          rcases modest with small | ⟨full, whole | null⟩
          · exact small
          · by_contra large
            have rounded := alignSize_large (Nat.not_le.mp large) size.toNat_lt
            rw [if_pos whole] at rounded
            have := inv.remaining_le
            omega
          · exact absurd null cursor
        obtain ⟨covers, -, aligned⟩ := alignSize_small small
        exact inv.bumped cursor covers fits aligned
      · rw [is]
        have small : size.toNat ≤ 4096 := by
          rcases modest with small | ⟨full, -⟩
          · exact small
          · rw [full i page] at free
            cases free
        obtain ⟨covers, fits, aligned⟩ := alignSize_small small
        have inPage : (s.heap.withPage i).cursor ≠ 0 := by
          have low := page.1
          simp only [Heap.withPage, pageSize, firstPage] at *
          omega
        exact (inv.paged page free before).bumped inPage covers fits aligned
      · rw [is]
        exact inv.dropped

/-- Any other call returns a block that leaves the pages of the heap. -/
theorem call_breaks (call : HeapCall) (large : ¬ s.Modest call) : ¬ SoundBlocks (s.call call) := by
  intro sound
  cases call with
  | free ptr => exact large trivial
  | malloc size =>
      simp only [Allocations.Modest, not_or, not_and_or, not_le] at large
      obtain ⟨long, exceeds⟩ := large
      have rounded := alignSize_large long size.toNat_lt
      have inPages := sound.inPages
      simp only [Allocations.call] at inPages
      rcases malloc_cases s.heap size with ⟨zero, is⟩ | ⟨cursor, fits, is⟩ |
        ⟨needs, ⟨i, page, free, before, is⟩ | ⟨full, is⟩⟩
      · rw [zero] at long
        cases long
      · -- the request was rounded to 0: the block reaches beyond the memory
        rw [is] at inPages
        have bound := inv.remaining_le
        have wrapped : ¬ size.toNat ≤ 2 ^ 64 - 8 := by
          intro whole
          rw [if_pos whole] at rounded
          omega
        obtain ⟨page, obtained, -, total, -⟩ := inv.rest cursor
        have bounds := inv.page_lt obtained
        refine not_in_pages (fun p got => (inv.page_lt got).2)
          (inPages _ List.mem_cons_self (2 ^ 28) ?_)
        exact ⟨show s.heap.cursor ≤ 2 ^ 28 by omega,
          show 2 ^ 28 < s.heap.cursor + size.toNat by omega⟩
      · -- the block reaches into the page after the new one
        rw [is] at inPages
        refine not_in_pages (fun p got => ?_)
          (inPages _ List.mem_cons_self (i * pageSize + 4096) ⟨Nat.le_add_right _ _, ?_⟩)
        · rcases List.mem_cons.mp got with rfl | old
          · exact Nat.le_refl _
          · have := inv.obtained_lt free page.1 old
            omega
        · exact Nat.add_lt_add_left long _
      · -- nothing is left: only a wrapped request could have gone on with the old page
        rcases exceeds with some_ | ⟨wrapped, cursor⟩
        · exact some_ full
        · rw [if_neg (Nat.not_le.mpr wrapped)] at rounded
          rcases needs with null | short
          · exact cursor null
          · omega

end Allocations.Inv

/-- From any state of the page allocator and for every sequence of calls: the blocks are sound
after every call, if and only if no call asks for more than a page while it can get one. -/
theorem malloc_sound_iff (bitmap : Buf) (calls : List HeapCall) :
    Always Allocations.call SoundBlocks (.start bitmap) calls ↔
      EachStep Allocations.call Allocations.Modest (.start bitmap) calls :=
  always_iff_eachStep (fun _ inv => inv.sound) (fun _ call inv modest => inv.call_keeps call modest)
    (fun _ call inv large => inv.call_breaks call large) (Allocations.Inv.start bitmap)

/-- The bitmap that `pmm_init` leaves. -/
def initialBitmap : Buf := fun i => if i < 64 then 0xFF else 0

/-- `malloc(5000)` returns a single page. -/
theorem large_block_leaves_page :
    ¬ Always Allocations.call SoundBlocks (.start initialBitmap) [.malloc 5000] := by
  rintro ⟨-, sound⟩
  have got : ((Allocations.start initialBitmap).call (.malloc 5000)).blocks = [⟨0x200000, 5000⟩] ∧
      ((Allocations.start initialBitmap).call (.malloc 5000)).heap.obtained = [0x200000] := by
    decide +kernel
  obtain ⟨page, obtained, -, below⟩ := sound.inPages ⟨0x200000, 5000⟩ (by rw [got.1]; simp) 0x201000
    ⟨by decide, by decide⟩
  rw [got.2, List.mem_singleton] at obtained
  omega

end XosKernel.Mm
