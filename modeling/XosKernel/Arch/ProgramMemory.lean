/-
# Arch.ProgramMemory -- loaded programs and allocated pages

The loader writes where the program headers say; the allocator hands out pages from 2 MB up.
Neither knows of the other.  The pages in use are a prefix of the range, so a program is safe
for as long as its segments start behind the prefix, and `loads_apart_iff` says that a run
keeps programs and pages apart exactly if that is so at its end.
-/
import XosKernel.Arch.ElfWrites
import XosKernel.Sched.Stacks

namespace XosKernel.Arch

open XosKernel.Theory XosKernel.Fat32 XosKernel.Mm XosKernel.Sched

set_option autoImplicit false

/-! ## Runs -/

/-- An operation of the kernel that takes pages, or a call of `elf_load_user_program`. -/
inductive MemoryOp where
  | page (op : PageOp)
  | load (file : Option Content)

/-- The loader leaves the kernel's tables and the page bitmap alone. -/
def memoryStep (k : Kernel) : MemoryOp → Kernel
  | .page op => pageStep k op
  | .load _ => k

def memoryRun (k : Kernel) (ops : List MemoryOp) : Kernel := ops.foldl memoryStep k

/-- The byte belongs to a page that was handed out. -/
def HandedOut (k : Kernel) (a : Nat) : Prop :=
  Page (a / pageSize) ∧ bitmapTest k.pmmBitmap (a / pageSize) = true

/-- The byte belongs to the segment; addresses wrap. -/
def Phdr.Covers (p : Phdr) (a : Nat) : Prop := ∃ j < p.memsz, a = (p.vaddr + j) % 2 ^ 64

/-- The `PT_LOAD` segments of a file that is loaded. -/
def loadedSegments : Option Content → List Phdr
  | none => []
  | some content =>
      match headersOf content with
      | none => []
      | some (_, phdrs) =>
          if (segmentsOf content phdrs).1 then phdrs.filter fun p => p.type = ptLoad else []

/-- The segments that a run loads. -/
def runSegments : List MemoryOp → List Phdr
  | [] => []
  | .load file :: rest => loadedSegments file ++ runSegments rest
  | .page _ :: rest => runSegments rest

/-- A successful load writes to no byte of a page that was handed out. -/
def LoadApart (k : Kernel) (file : Option Content) : Prop :=
  Runs (elfLoadUserProgram (contentFile file)) 0 fun r _ =>
    r.1.isSome → ∀ w ∈ r.2, ∀ a, w.Touches a → ¬ HandedOut k a

/-- No page that the operation takes overlaps a segment loaded before. -/
def PagesApart (k : Kernel) (loaded : List Phdr) (op : PageOp) : Prop :=
  ∀ page, Page page → TakesPage k (pageStep k op) page →
    ∀ p ∈ loaded, ∀ a, p.Covers a → a / pageSize ≠ page

/-- Programs and pages stay apart in a run that starts with the segments `loaded`. -/
def RunApart (k : Kernel) (loaded : List Phdr) : List MemoryOp → Prop
  | [] => True
  | .load file :: rest => LoadApart k file ∧ RunApart k (loaded ++ loadedSegments file) rest
  | .page op :: rest => PagesApart k loaded op ∧ RunApart (pageStep k op) loaded rest

/-! ## Segments and the prefix of taken pages -/

/-- No byte of the segment lies in the first `n` pages of the range. -/
def Phdr.Avoids (p : Phdr) (n : Nat) : Prop :=
  ∀ a, p.Covers a → ¬ (userLoadMin ≤ a ∧ a < pageAddress n)

theorem Phdr.Avoids.mono {p : Phdr} {n n' : Nat} (grows : n ≤ n') (avoids : p.Avoids n') :
    p.Avoids n := by
  intro a covers inside
  refine avoids a covers ⟨inside.1, Nat.lt_of_lt_of_le inside.2 ?_⟩
  exact Nat.mul_le_mul_right _ (Nat.add_le_add_left grows _)

theorem handedOut_iff {k : Kernel} {n a : Nat} (taken : Taken k.pmmBitmap n) :
    HandedOut k a ↔ userLoadMin ≤ a ∧ a < pageAddress n := by
  have bound := taken.bound
  constructor
  · rintro ⟨page, used⟩
    rw [taken.used _ page, decide_eq_true_eq] at used
    simp only [Page, userLoadMin, pageAddress, firstPage, pageSize] at *
    omega
  · intro inside
    have page : Page (a / pageSize) := by
      simp only [Page, userLoadMin, pageAddress, firstPage, totalPages, pageSize, pageCount] at *
      omega
    refine ⟨page, ?_⟩
    rw [taken.used _ page, decide_eq_true_eq]
    simp only [pageAddress, firstPage, pageSize] at *
    omega

theorem takesPage_iff {k k' : Kernel} {n n' page : Nat} (before : Taken k.pmmBitmap n)
    (after : Taken k'.pmmBitmap n') (within : Page page) :
    TakesPage k k' page ↔ firstPage + n ≤ page ∧ page < firstPage + n' := by
  simp only [TakesPage, before.used page within, after.used page within, decide_eq_false_iff_not,
    decide_eq_true_eq, Nat.not_lt]

/-- The segment is empty, no page is in use, or the segment starts behind the pages in use and
does not come back to them from the end of the address space. -/
def Phdr.Behind (p : Phdr) (n : Nat) : Prop :=
  p.memsz = 0 ∨ n = 0 ∨ pageAddress n ≤ p.vaddr ∧ p.vaddr + p.memsz ≤ 2 ^ 64 + userLoadMin

theorem avoids_iff_behind {p : Phdr} (fits : p.Fits) (low : userLoadMin ≤ p.vaddr) {n : Nat}
    (bound : n ≤ pageCount) : p.Avoids n ↔ p.Behind n := by
  have ⟨vaddr, memsz⟩ := fits
  simp only [Phdr.Avoids, Phdr.Covers, Phdr.Behind, userLoadMin, pageAddress, firstPage, pageSize,
    pageCount, totalPages] at *
  constructor
  · intro avoids
    by_cases both : 0 < p.memsz ∧ 0 < n
    · have first := avoids p.vaddr ⟨0, both.1, by omega⟩
      refine .inr (.inr ⟨by omega, ?_⟩)
      by_contra wraps
      -- the byte at 2 MB, reached through the end of the address space
      have back := avoids 0x200000 ⟨2 ^ 64 + 0x200000 - p.vaddr, by omega, by omega⟩
      omega
    · omega
  · rintro behind a ⟨j, inside, rfl⟩ taken
    omega

/-! ## One operation -/

/-- A successful load writes exactly the bytes of its segments. -/
theorem segmentWrites_touches_iff {content : Content} {p : Phdr} (starts : Starts content p)
    (holds : Holds content p) (a : Nat) :
    (∃ w ∈ segmentWrites content p, w.Touches a) ↔ p.Covers a := by
  have sizes := (p.supported_iff.mp starts.1).1
  have length : ((content.1.drop p.offset).take p.filesz).length = p.filesz := by
    have inside := holds.1
    rw [List.length_take, List.length_drop]
    omega
  simp only [segmentWrites, holds, true_and, Phdr.Covers]
  constructor
  · rintro ⟨w, member, j, inside, rfl⟩
    rcases List.mem_cons.mp member with rfl | member
    · rw [Write.size, length] at inside
      exact ⟨j, by omega, rfl⟩
    · split at member
      · obtain rfl := List.mem_singleton.mp member
        simp only [Write.size, Write.address] at inside ⊢
        refine ⟨p.filesz + j, by omega, ?_⟩
        rw [Nat.mod_add_mod, Nat.add_assoc]
      · cases member
  · rintro ⟨j, inside, rfl⟩
    by_cases copied : j < p.filesz
    · refine ⟨_, List.mem_cons_self, j, ?_, rfl⟩
      rw [Write.size, length]
      exact copied
    · rw [if_pos (by omega)]
      refine ⟨_, List.mem_cons_of_mem _ List.mem_cons_self, j - p.filesz, ?_, ?_⟩
      · simp only [Write.size]
        omega
      · rw [Write.address, Nat.mod_add_mod]
        congr 1
        omega

theorem segmentsOf_loaded {content : Content} {phdrs : List Phdr}
    (ok : (segmentsOf content phdrs).1 = true) :
    (∀ p ∈ phdrs, p.type = ptLoad → Starts content p ∧ Holds content p) ∧
      (segmentsOf content phdrs).2 =
        (phdrs.filter fun p => p.type = ptLoad).flatMap (segmentWrites content) := by
  induction phdrs with
  | nil => simp [segmentsOf]
  | cons p rest ih =>
      simp only [segmentsOf] at ok ⊢
      by_cases load : p.type = ptLoad
      · by_cases starts : Starts content p
        · by_cases holds : Holds content p
          · simp only [load, starts, holds, if_true] at ok ⊢
            obtain ⟨all, writes⟩ := ih ok
            refine ⟨fun q member => ?_, ?_⟩
            · rcases List.mem_cons.mp member with rfl | later
              · exact fun _ => ⟨starts, holds⟩
              · exact all q later
            · rw [writes, List.filter_cons_of_pos (by simpa using load), List.flatMap_cons]
          · simp [load, starts, holds] at ok
        · simp [load, starts] at ok
      · simp only [load, if_false] at ok ⊢
        obtain ⟨all, writes⟩ := ih ok
        refine ⟨fun q member => ?_, ?_⟩
        · rcases List.mem_cons.mp member with rfl | later
          · exact fun h => absurd h load
          · exact all q later
        · rw [writes, List.filter_cons_of_neg (by simpa using load)]

/-- A segment of a file that is loaded passed the checks. -/
theorem loadedSegments_checked {file : Option Content} :
    ∀ p ∈ loadedSegments file, p.Fits ∧ userLoadMin ≤ p.vaddr := by
  cases file with
  | none => simp [loadedSegments]
  | some content =>
      simp only [loadedSegments]
      cases headers : headersOf content with
      | none => simp
      | some found =>
          obtain ⟨eh, phdrs⟩ := found
          simp only
          split
          · next ok =>
              intro p member
              obtain ⟨inside, load⟩ := List.mem_filter.mp member
              have starts := ((segmentsOf_loaded ok).1 p inside (by simpa using load)).1
              exact ⟨headersOf_fits headers p inside, (p.supported_iff.mp starts.1).2.1⟩
          · simp

/-- The bytes that a successful load writes are those of the loaded segments. -/
theorem elfLoad_touches_iff {file : Option Content} (ok : (elfLoad file).1.isSome = true)
    (a : Nat) :
    (∃ w ∈ (elfLoad file).2, w.Touches a) ↔ ∃ p ∈ loadedSegments file, p.Covers a := by
  cases file with
  | none => simp [elfLoad] at ok
  | some content =>
      simp only [elfLoad, loadedSegments] at ok ⊢
      cases headers : headersOf content with
      | none => simp [headers] at ok
      | some found =>
          obtain ⟨eh, phdrs⟩ := found
          simp only [headers] at ok ⊢
          split at ok
          · next loaded =>
              obtain ⟨all, writes⟩ := segmentsOf_loaded loaded
              rw [writes, if_pos loaded]
              have each : ∀ p ∈ phdrs.filter (fun p => p.type = ptLoad),
                  ((∃ w ∈ segmentWrites content p, w.Touches a) ↔ p.Covers a) := by
                intro p member
                obtain ⟨inside, load⟩ := List.mem_filter.mp member
                obtain ⟨starts, holds⟩ := all p inside (by simpa using load)
                exact segmentWrites_touches_iff starts holds a
              constructor
              · rintro ⟨w, member, touches⟩
                obtain ⟨p, inside, written⟩ := List.mem_flatMap.mp member
                exact ⟨p, inside, (each p inside).mp ⟨w, written, touches⟩⟩
              · rintro ⟨p, inside, covers⟩
                obtain ⟨w, written, touches⟩ := (each p inside).mpr covers
                exact ⟨w, List.mem_flatMap.mpr ⟨p, inside, written⟩, touches⟩
          · simp at ok

theorem loadedSegments_failed {file : Option Content} (failed : (elfLoad file).1.isSome = false) :
    loadedSegments file = [] := by
  cases file with
  | none => rfl
  | some content =>
      simp only [elfLoad, loadedSegments] at failed ⊢
      cases headers : headersOf content with
      | none => rfl
      | some found =>
          simp only [headers] at failed ⊢
          split at failed
          · cases failed
          · next stopped => rw [if_neg stopped]

theorem loadApart_iff {k : Kernel} {n : Nat} (taken : Taken k.pmmBitmap n)
    (file : Option Content) :
    LoadApart k file ↔ ∀ p ∈ loadedSegments file, p.Avoids n := by
  obtain ⟨pos', ran⟩ := elfLoad_content file 0
  have returned : LoadApart k file ↔ ((elfLoad file).1.isSome = true →
      ∀ w ∈ (elfLoad file).2, ∀ a, w.Touches a → ¬ HandedOut k a) :=
    ⟨fun h => h.of_returned ran, fun h => ⟨_, _, ran, h⟩⟩
  rw [returned]
  cases ok : (elfLoad file).1.isSome with
  | false => simp [loadedSegments_failed ok]
  | true =>
      simp only [true_implies]
      constructor
      · intro apart p member a covers inside
        obtain ⟨w, written, touches⟩ := (elfLoad_touches_iff ok a).mpr ⟨p, member, covers⟩
        exact apart w written a touches ((handedOut_iff taken).mpr inside)
      · intro avoids w written a touches handed
        obtain ⟨p, member, covers⟩ := (elfLoad_touches_iff ok a).mp ⟨w, written, touches⟩
        exact avoids p member a covers ((handedOut_iff taken).mp handed)

theorem pagesApart_iff {k : Kernel} {n n' : Nat} {op : PageOp} {loaded : List Phdr}
    (before : Taken k.pmmBitmap n) (after : Taken (pageStep k op).pmmBitmap n')
    (avoids : ∀ p ∈ loaded, p.Avoids n) :
    PagesApart k loaded op ↔ ∀ p ∈ loaded, p.Avoids n' := by
  have bound := after.bound
  constructor
  · intro apart p member a covers inside
    have free := avoids p member a covers
    have page : Page (a / pageSize) := by
      simp only [Page, userLoadMin, pageAddress, firstPage, totalPages, pageSize, pageCount] at *
      omega
    refine apart _ page ((takesPage_iff before after page).mpr ?_) p member a covers rfl
    simp only [userLoadMin, pageAddress, firstPage, pageSize] at *
    omega
  · rintro avoids' page within takes p member a covers rfl
    refine avoids' p member a covers ?_
    have range := (takesPage_iff before after within).mp takes
    simp only [userLoadMin, pageAddress, firstPage, pageSize] at *
    omega

/-! ## Whole runs -/

theorem pageStep_grows {k : Kernel} {n : Nat} (taken : Taken k.pmmBitmap n) (op : PageOp) :
    ∃ n', n ≤ n' ∧ Taken (pageStep k op).pmmBitmap n' := by
  obtain ⟨n', taken', obtains⟩ := pageStep_obtains taken op
  exact ⟨n', obtains.grows, taken'⟩

theorem memoryRun_taken {k : Kernel} {n : Nat} (taken : Taken k.pmmBitmap n)
    (ops : List MemoryOp) : ∃ n', n ≤ n' ∧ Taken (memoryRun k ops).pmmBitmap n' := by
  induction ops generalizing k n with
  | nil => exact ⟨n, Nat.le_refl _, taken⟩
  | cons op rest ih =>
      cases op with
      | load file => exact ih taken
      | page op =>
          obtain ⟨n₁, grows, taken₁⟩ := pageStep_grows taken op
          obtain ⟨n₂, grows', taken₂⟩ := ih taken₁
          exact ⟨n₂, grows.trans grows', taken₂⟩

/-- The run keeps programs and pages apart if and only if all segments avoid the pages in use
at its end.  Going backwards, a segment that avoids the pages in use at the end avoided them
at every earlier time. -/
theorem runApart_iff {k : Kernel} {n m : Nat} {loaded : List Phdr} {ops : List MemoryOp}
    (taken : Taken k.pmmBitmap n) (final : Taken (memoryRun k ops).pmmBitmap m)
    (avoids : ∀ p ∈ loaded, p.Avoids n) :
    RunApart k loaded ops ↔ ∀ p ∈ loaded ++ runSegments ops, p.Avoids m := by
  induction ops generalizing k n loaded with
  | nil =>
      have same : n = m := taken.usedPages.symm.trans final.usedPages
      subst same
      simp only [RunApart, runSegments, List.append_nil, true_iff]
      exact avoids
  | cons op rest ih =>
      cases op with
      | load file =>
          have final' : Taken (memoryRun k rest).pmmBitmap m := final
          obtain ⟨m', grows, taken'⟩ := memoryRun_taken taken rest
          have same : m' = m := taken'.usedPages.symm.trans final'.usedPages
          simp only [RunApart, runSegments]
          rw [loadApart_iff taken, ← List.append_assoc]
          constructor
          · rintro ⟨now, later⟩
            refine (ih taken final' fun p member => ?_).mp later
            rcases List.mem_append.mp member with old | new
            · exact avoids p old
            · exact now p new
          · intro all
            have now : ∀ p ∈ loaded ++ loadedSegments file, p.Avoids n := fun p member =>
              (all p (List.mem_append_left _ member)).mono (same ▸ grows)
            exact ⟨fun p member => now p (List.mem_append_right _ member),
              (ih taken final' now).mpr all⟩
      | page op =>
          obtain ⟨n₁, -, taken₁⟩ := pageStep_grows taken op
          have final' : Taken (memoryRun (pageStep k op) rest).pmmBitmap m := final
          obtain ⟨m', grows, taken'⟩ := memoryRun_taken taken₁ rest
          have same : m' = m := taken'.usedPages.symm.trans final'.usedPages
          simp only [RunApart, runSegments]
          rw [pagesApart_iff taken taken₁ avoids]
          constructor
          · rintro ⟨now, later⟩
            exact (ih taken₁ final' now).mp later
          · intro all
            have now : ∀ p ∈ loaded, p.Avoids n₁ := fun p member =>
              (all p (List.mem_append_left _ member)).mono (same ▸ grows)
            exact ⟨now, (ih taken₁ final' now).mpr all⟩

theorem runSegments_checked {ops : List MemoryOp} :
    ∀ p ∈ runSegments ops, p.Fits ∧ userLoadMin ≤ p.vaddr := by
  induction ops with
  | nil => simp [runSegments]
  | cons op rest ih =>
      cases op with
      | page op => exact ih
      | load file =>
          intro p member
          rcases List.mem_append.mp member with now | later
          · exact loadedSegments_checked p now
          · exact ih p later

theorem runApart_iff_behind {k : Kernel} (start : Taken k.pmmBitmap 0) (ops : List MemoryOp) :
    RunApart k [] ops ↔
      ∀ p ∈ runSegments ops, p.Behind (pmmUsedPages (memoryRun k ops).pmmBitmap) := by
  obtain ⟨m, -, final⟩ := memoryRun_taken start ops
  rw [runApart_iff start final (by simp), final.usedPages, List.nil_append]
  constructor
  · intro avoids p member
    obtain ⟨fits, low⟩ := runSegments_checked p member
    exact (avoids_iff_behind fits low final.bound).mp (avoids p member)
  · intro behind p member
    obtain ⟨fits, low⟩ := runSegments_checked p member
    exact (avoids_iff_behind fits low final.bound).mpr (behind p member)

/-- From `pmm_init` on, for every run: no load writes to a page handed out before, and no page
handed out later overlaps a loaded segment, if and only if every segment that the run loads
lies behind all pages in use at its end. -/
theorem loads_apart_iff (k : Kernel) (bitmap : Buf) (ops : List MemoryOp) :
    RunApart (k.withPmm bitmap) [] ops ↔
      ∀ p ∈ runSegments ops,
        p.Behind (pmmUsedPages (memoryRun (k.withPmm bitmap) ops).pmmBitmap) :=
  runApart_iff_behind (withPmm_taken k bitmap) ops

/-- An executable of one segment, linked at 0x210000 as the `Makefile` links `hello_user`. -/
def lowProgram : Content :=
  ⟨[0x7F, 0x45, 0x4C, 0x46, 2, 1, 1, 0, 0, 0, 0, 0, 0, 0, 0, 0,
    2, 0, 62, 0, 1, 0, 0, 0,
    0, 0, 0x21, 0, 0, 0, 0, 0,
    64, 0, 0, 0, 0, 0, 0, 0,
    0, 0, 0, 0, 0, 0, 0, 0,
    0, 0, 0, 0, 64, 0, 56, 0, 1, 0, 64, 0, 0, 0, 0, 0,
    1, 0, 0, 0, 5, 0, 0, 0,
    120, 0, 0, 0, 0, 0, 0, 0,
    0, 0, 0x21, 0, 0, 0, 0, 0,
    0, 0, 0x21, 0, 0, 0, 0, 0,
    2, 0, 0, 0, 0, 0, 0, 0,
    2, 0, 0, 0, 0, 0, 0, 0,
    0, 0x10, 0, 0, 0, 0, 0, 0,
    0xEB, 0xFE], by decide⟩

theorem memoryRun_pages (k : Kernel) (ops : List PageOp) :
    memoryRun k (ops.map .page) = pageRun k ops := by
  rw [memoryRun, pageRun, List.foldl_map]
  rfl

theorem runSegments_pages (ops : List PageOp) : runSegments (ops.map .page) = [] := by
  induction ops with
  | nil => rfl
  | cons op rest ih => exact ih

theorem seventeenth_page_overlaps {k : Kernel} (start : Taken k.pmmBitmap 0) :
    ¬ RunApart k [] (.load (some lowProgram) :: (List.replicate 17 .allocPage).map .page) := by
  have taken := pageRun_allocPages start 17 (by decide)
  have segment : loadedSegments (some lowProgram) = [⟨1, 120, 0x210000, 2, 2⟩] := by
    decide +kernel
  have final : memoryRun k (.load (some lowProgram) :: (List.replicate 17 .allocPage).map .page) =
      pageRun k (List.replicate 17 .allocPage) := memoryRun_pages k _
  rw [runApart_iff_behind start, final, taken.usedPages, runSegments, segment, runSegments_pages]
  intro behind
  have below := behind _ (List.mem_append_left _ List.mem_cons_self)
  simp only [Phdr.Behind, pageAddress, firstPage, pageSize] at below
  omega

/-- The program is loaded at 0x210000, and the 17th page handed out after it starts there too. -/
theorem page_overlaps_program :
    ¬ RunApart ((bootKernel fun _ => 0).withPmm fun _ => 0) []
      (.load (some lowProgram) :: (List.replicate 17 .allocPage).map .page) :=
  seventeenth_page_overlaps (withPmm_taken (bootKernel fun _ => 0) fun _ => 0)

end XosKernel.Arch
