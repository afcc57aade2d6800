/-
# Sched.Stacks -- the memory of tasks and buffers

`scheduler_create_task` takes four pages and keeps the address of the first one.  The pages in
use are always a prefix of the range (`Mm.Taken`), so the four pages follow each other, and a
run of page-consuming operations only moves the end of the prefix: what an operation obtains
lies between the old end and the new one (`Obtains`), which makes all of it disjoint.
-/
import XosKernel.Sched.OneRunning
import Mathlib.Tactic.Ring

namespace XosKernel.Sched

open XosKernel.Theory XosKernel.Mm

set_option autoImplicit false

/-! ## Operations -/

/-- An operation that can take pages.  Events that create no task take none. -/
inductive PageOp where
  | allocPage
  | allocContiguous (numPages : Nat)
  | event (e : Event)

/-- The kernel after an operation. -/
def pageStep (k : Kernel) : PageOp → Kernel
  | .allocPage => { k with pmmBitmap := (pmmAllocPage k.pmmBitmap).2 }
  | .allocContiguous numPages =>
      { k with pmmBitmap := (pmmAllocContiguous k.pmmBitmap numPages).2 }
  | .event e => (step k e).2

def pageRun (k : Kernel) (ops : List PageOp) : Kernel := ops.foldl pageStep k

/-- A range of memory. -/
structure Block where
  start : Nat
  size : Nat
  deriving DecidableEq, Repr

def Block.stop (b : Block) : Nat := b.start + b.size

def Block.Disjoint (a b : Block) : Prop := a.stop ≤ b.start ∨ b.stop ≤ a.start

/-- The stacks of a task: `[stack_top - TASK_STACK_SIZE, stack_top)`, and the user stack. -/
def Task.stackBlocks (t : Task) : List Block :=
  ⟨t.stackTop - taskStackSize, taskStackSize⟩ ::
    if t.isUser then [⟨t.userStackBottom, t.userStackTop - t.userStackBottom⟩] else []

/-- The memory that the caller of a successful operation takes to be its own. -/
def blocks (k : Kernel) : PageOp → List Block
  | .allocPage => (pmmAllocPage k.pmmBitmap).1.toList.map fun page => ⟨page, pageSize⟩
  | .allocContiguous numPages =>
      (pmmAllocContiguous k.pmmBitmap numPages).1.toList.map fun first =>
        ⟨first, numPages * pageSize⟩
  | .event e =>
      match createdBy k e with
      | none => []
      | some made => ((step k e).2.tasks made.1).stackBlocks

/-- The operation did not run out of pages on the way: only `pmm_alloc_contiguous` returns an
address when it did. -/
def complete (k : Kernel) : PageOp → Bool
  | .allocContiguous numPages =>
      (pmmAllocPages (pmmAllocPage k.pmmBitmap).2 (numPages - 1)).1
  | _ => true

/-- The memory of all operations of a run that got what they asked for. -/
def runBlocks (k : Kernel) : List PageOp → List Block
  | [] => []
  | op :: rest =>
      (if complete k op then blocks k op else []) ++ runBlocks (pageStep k op) rest

/-! ## What an operation obtains -/

theorem pageAddress_add (n pages : Nat) :
    pageAddress (n + pages) = pageAddress n + pages * pageSize := by
  simp only [pageAddress]
  ring

/-- The end of the taken pages moves from `n` to `n'`, and the blocks lie in between, one beside
the other. -/
structure Obtains (n : Nat) (l : List Block) (n' : Nat) : Prop where
  grows : n ≤ n'
  bound : n' ≤ pageCount
  within : ∀ b ∈ l, pageAddress n ≤ b.start ∧ b.stop ≤ pageAddress n'
  disjoint : l.Pairwise Block.Disjoint

theorem Obtains.nothing {n n' : Nat} (grows : n ≤ n') (bound : n' ≤ pageCount) :
    Obtains n [] n' :=
  ⟨grows, bound, by simp, List.Pairwise.nil⟩

theorem Obtains.block {n pages size : Nat} (bound : n + pages ≤ pageCount)
    (fits : size ≤ pages * pageSize) : Obtains n [⟨pageAddress n, size⟩] (n + pages) := by
  refine ⟨Nat.le_add_right _ _, bound, fun b member => ?_, List.pairwise_singleton _ _⟩
  obtain rfl := List.mem_singleton.mp member
  have next := pageAddress_add n pages
  simp only [Block.stop]
  omega

theorem Obtains.append {n n₁ n₂ : Nat} {l l' : List Block} (first : Obtains n l n₁)
    (second : Obtains n₁ l' n₂) : Obtains n (l ++ l') n₂ := by
  have low : pageAddress n ≤ pageAddress n₁ :=
    Nat.mul_le_mul_right _ (by have := first.grows; omega)
  have high : pageAddress n₁ ≤ pageAddress n₂ :=
    Nat.mul_le_mul_right _ (by have := second.grows; omega)
  refine ⟨first.grows.trans second.grows, second.bound, fun b member => ?_, ?_⟩
  · obtain early | late := List.mem_append.mp member
    · have := first.within b early
      omega
    · have := second.within b late
      omega
  · refine List.pairwise_append.mpr ⟨first.disjoint, second.disjoint, fun a early b late => .inl ?_⟩
    have := first.within a early
    have := second.within b late
    omega

/-! ## Page by page -/

/-- The four pages of a kernel stack follow each other. -/
theorem allocKernelStack_cases {bitmap : Buf} {n : Nat} (taken : Taken bitmap n) :
    (n + 4 ≤ pageCount ∧ (allocKernelStack bitmap).1 = some (pageAddress n) ∧
        Taken (allocKernelStack bitmap).2 (n + 4)) ∨
      (pageCount < n + 4 ∧ (allocKernelStack bitmap).1 = none ∧
        Taken (allocKernelStack bitmap).2 pageCount) := by
  simp only [allocKernelStack]
  obtain ⟨left, address, taken₁⟩ | ⟨full, address, taken₁⟩ := taken.allocPage_cases
  · rw [show pmmAllocPage bitmap = (some (pageAddress n), (pmmAllocPage bitmap).2) from
      Prod.ext address rfl]
    obtain ⟨all, taken₂⟩ := taken₁.allocPages 3
    simp only
    by_cases enough : n + 4 ≤ pageCount
    · have three : (pmmAllocPages (pmmAllocPage bitmap).2 3).1 = true := by
        rw [all]
        exact decide_eq_true (by omega)
      rw [show pmmAllocPages (pmmAllocPage bitmap).2 3 =
        (true, (pmmAllocPages (pmmAllocPage bitmap).2 3).2) from Prod.ext three rfl]
      rw [show min (n + 1 + 3) pageCount = n + 4 by omega] at taken₂
      exact .inl ⟨enough, rfl, taken₂⟩
    · have three : (pmmAllocPages (pmmAllocPage bitmap).2 3).1 = false := by
        rw [all]
        exact decide_eq_false (by omega)
      rw [show pmmAllocPages (pmmAllocPage bitmap).2 3 =
        (false, (pmmAllocPages (pmmAllocPage bitmap).2 3).2) from Prod.ext three rfl]
      rw [show min (n + 1 + 3) pageCount = pageCount by omega] at taken₂
      exact .inr ⟨by omega, rfl, taken₂⟩
  · rw [show pmmAllocPage bitmap = (none, (pmmAllocPage bitmap).2) from Prod.ext address rfl]
    subst full
    exact .inr ⟨by omega, rfl, taken₁⟩

/-! ## Creations -/

/-- A creation takes pages from the end of the prefix; if it succeeds, the stacks are the pages
that it took, without a gap. -/
structure CreatesStacks (n n' : Nat) (made : Option (Slot × Nat)) (k' : Kernel) : Prop where
  taken : Taken k'.pmmBitmap n'
  grows : n ≤ n'
  obtained : ∀ task, made = some task →
    (n' = n + 4 ∧ (k'.tasks task.1).stackBlocks = [⟨pageAddress n, taskStackSize⟩]) ∨
      (n' = n + 5 ∧ (k'.tasks task.1).stackBlocks =
        [⟨pageAddress n, taskStackSize⟩, ⟨pageAddress (n + 4), pageSize⟩])

theorem madeTask_failed (k : Kernel) : madeTask k (-1) = none := rfl

theorem madeTask_slot {k : Kernel} {result : Int} {slot : Slot} {task : Slot × Nat}
    (free : freeSlot k = some slot) (made : madeTask k result = some task) : task.1 = slot := by
  simp only [madeTask, free] at made
  split at made
  · cases made
  · cases made
    rfl

theorem createTask_stacks {k : Kernel} {n : Nat} (taken : Taken k.pmmBitmap n)
    (name : List UInt8) (entry : Nat) :
    ∃ n', CreatesStacks n n' (madeTask k (schedulerCreateTask k name entry).1)
      (schedulerCreateTask k name entry).2 := by
  simp only [schedulerCreateTask]
  split
  · exact ⟨n, taken, Nat.le_refl _, by simp [madeTask_failed]⟩
  · next slot free =>
      obtain ⟨enough, bottom, taken'⟩ | ⟨-, bottom, taken'⟩ := allocKernelStack_cases taken
      · rw [show allocKernelStack k.pmmBitmap =
          (some (pageAddress n), (allocKernelStack k.pmmBitmap).2) from Prod.ext bottom rfl]
        refine ⟨n + 4, taken', Nat.le_add_right _ _, fun task made => .inl ⟨rfl, ?_⟩⟩
        rw [madeTask_slot free made]
        simp [Kernel.setTask, Task.stackBlocks]
      · rw [show allocKernelStack k.pmmBitmap = (none, (allocKernelStack k.pmmBitmap).2) from
          Prod.ext bottom rfl]
        exact ⟨pageCount, taken', taken.bound, by simp [madeTask_failed]⟩

theorem createUserTask_stacks {k : Kernel} {n : Nat} (taken : Taken k.pmmBitmap n)
    (bootstrap : Nat) (name : List UInt8) (entry : Nat) :
    ∃ n', CreatesStacks n n' (madeTask k (schedulerCreateUserTask bootstrap k name entry).1)
      (schedulerCreateUserTask bootstrap k name entry).2 := by
  simp only [schedulerCreateUserTask]
  split
  · exact ⟨n, taken, Nat.le_refl _, by simp [madeTask_failed]⟩
  · next slot free =>
      obtain ⟨enough, bottom, taken'⟩ | ⟨-, bottom, taken'⟩ := allocKernelStack_cases taken
      · rw [show allocKernelStack k.pmmBitmap =
          (some (pageAddress n), (allocKernelStack k.pmmBitmap).2) from Prod.ext bottom rfl]
        dsimp only
        generalize (allocKernelStack k.pmmBitmap).2 = bitmap at taken'
        obtain ⟨left, user, taken''⟩ | ⟨-, user, taken''⟩ := taken'.allocPage_cases
        · rw [show pmmAllocPage bitmap = (some (pageAddress (n + 4)), (pmmAllocPage bitmap).2) from
            Prod.ext user rfl]
          refine ⟨n + 5, taken'', Nat.le_add_right _ _, fun task made => .inr ⟨rfl, ?_⟩⟩
          rw [madeTask_slot free made]
          simp [Kernel.setTask, Task.stackBlocks]
        · rw [show pmmAllocPage bitmap = (none, (pmmAllocPage bitmap).2) from Prod.ext user rfl]
          exact ⟨n + 4, taken'', Nat.le_add_right _ _, by simp [madeTask_failed]⟩
      · rw [show allocKernelStack k.pmmBitmap = (none, (allocKernelStack k.pmmBitmap).2) from
          Prod.ext bottom rfl]
        exact ⟨pageCount, taken', taken.bound, by simp [madeTask_failed]⟩

theorem tick_bitmap (k : Kernel) : (schedulerTick k).2.pmmBitmap = k.pmmBitmap := by
  have counted : (countTick k).pmmBitmap = k.pmmBitmap := by
    simp only [countTick]
    split <;> rfl
  simp only [schedulerTick]
  split
  · exact counted
  · split
    · exact counted
    · split <;> exact counted

theorem event_stacks {k : Kernel} {n : Nat} (taken : Taken k.pmmBitmap n) (event : Event) :
    ∃ n', CreatesStacks n n' (createdBy k event) (step k event).2 := by
  cases event with
  | createTask name entry => exact createTask_stacks taken name entry
  | createUserTask bootstrap name entry => exact createUserTask_stacks taken bootstrap name entry
  | tick | yield =>
      refine ⟨n, ?_, Nat.le_refl _, by simp [createdBy]⟩
      exact (tick_bitmap k).symm ▸ taken
  | syscall rax =>
      refine ⟨n, ?_, Nat.le_refl _, by simp [createdBy]⟩
      show Taken (syscallHandler k rax).2.2.pmmBitmap n
      obtain ticked | idle := syscallHandler_effect k rax
      · rw [ticked, tick_bitmap]
        exact taken
      · rw [idle]
        exact taken

theorem CreatesStacks.obtains {n n' : Nat} {task : Slot × Nat} {k' : Kernel}
    (creates : CreatesStacks n n' (some task) k') :
    Obtains n (k'.tasks task.1).stackBlocks n' := by
  have bound := creates.taken.bound
  have kernel : taskStackSize ≤ 4 * pageSize := by decide
  have page : pageSize ≤ 1 * pageSize := by decide
  obtain ⟨rfl, same⟩ | ⟨rfl, same⟩ := creates.obtained task rfl
  · rw [same]
    exact .block bound kernel
  · have stack : Obtains n [⟨pageAddress n, taskStackSize⟩] (n + 4) := .block (by omega) kernel
    have user : Obtains (n + 4) [⟨pageAddress (n + 4), pageSize⟩] (n + 4 + 1) := .block bound page
    rw [same]
    exact stack.append user

/-! ## Runs -/

theorem pageStep_obtains {k : Kernel} {n : Nat} (taken : Taken k.pmmBitmap n) (op : PageOp) :
    ∃ n', Taken (pageStep k op).pmmBitmap n' ∧
      Obtains n (if complete k op then blocks k op else []) n' := by
  cases op with
  | allocPage =>
      simp only [pageStep, complete, blocks, if_true]
      obtain ⟨left, address, taken'⟩ | ⟨rfl, address, taken'⟩ := taken.allocPage_cases
      · rw [address]
        exact ⟨n + 1, taken', .block left (Nat.le_of_eq (Nat.one_mul _).symm)⟩
      · rw [address]
        exact ⟨pageCount, taken', .nothing (Nat.le_refl _) (Nat.le_refl _)⟩
  | allocContiguous numPages =>
      obtain ⟨left, address, taken'⟩ | ⟨rfl, address, taken'⟩ := taken.allocContiguous numPages
      · refine ⟨_, taken', ?_⟩
        have all : complete k (.allocContiguous numPages) =
            decide (n + 1 + (numPages - 1) ≤ pageCount) :=
          ((taken.allocPage left).2.allocPages (numPages - 1)).1
        by_cases enough : n + 1 + (numPages - 1) ≤ pageCount
        · rw [if_pos (all.trans (decide_eq_true enough)), Nat.min_eq_left enough, Nat.add_assoc]
          simp only [blocks, address, Option.toList_some, List.map_cons, List.map_nil]
          exact .block (by omega) (Nat.mul_le_mul_right _ (by omega))
        · rw [if_neg (ne_true_of_eq_false (all.trans (decide_eq_false enough)))]
          exact .nothing (by omega) (Nat.min_le_right _ _)
      · refine ⟨pageCount, taken', ?_⟩
        simp only [blocks, address, Option.toList_none, List.map_nil, ite_self]
        exact .nothing (Nat.le_refl _) (Nat.le_refl _)
  | event e =>
      obtain ⟨n', creates⟩ := event_stacks taken e
      refine ⟨n', creates.taken, ?_⟩
      simp only [complete, blocks, if_true]
      cases made : createdBy k e with
      | none => exact .nothing creates.grows creates.taken.bound
      | some task =>
          rw [made] at creates
          exact creates.obtains

theorem runBlocks_obtains {k : Kernel} {n : Nat} (taken : Taken k.pmmBitmap n)
    (ops : List PageOp) : ∃ n', Obtains n (runBlocks k ops) n' := by
  induction ops generalizing k n with
  | nil => exact ⟨n, .nothing (Nat.le_refl _) taken.bound⟩
  | cons op rest ih =>
      obtain ⟨n₁, taken₁, first⟩ := pageStep_obtains taken op
      obtain ⟨n₂, second⟩ := ih taken₁
      exact ⟨n₂, first.append second⟩

theorem pageRun_taken {k : Kernel} {n : Nat} (taken : Taken k.pmmBitmap n) (ops : List PageOp) :
    ∃ n', Taken (pageRun k ops).pmmBitmap n' := by
  induction ops generalizing k n with
  | nil => exact ⟨n, taken⟩
  | cons op rest ih =>
      obtain ⟨n₁, taken₁, -⟩ := pageStep_obtains taken op
      exact ih taken₁

/-- The operation took the page. -/
def TakesPage (before after : Kernel) (page : Nat) : Prop :=
  bitmapTest before.pmmBitmap page = false ∧ bitmapTest after.pmmBitmap page = true

/-- The block holds the page. -/
def Block.HasPage (b : Block) (page : Nat) : Prop :=
  b.start ≤ page * pageSize ∧ (page + 1) * pageSize ≤ b.stop

theorem hasPage_iff {n pages page : Nat} :
    Block.HasPage ⟨pageAddress n, pages * pageSize⟩ page ↔
      firstPage + n ≤ page ∧ page < firstPage + (n + pages) := by
  simp only [Block.HasPage, Block.stop, pageAddress, pageSize]
  omega

/-- A successful creation takes exactly the pages of its stacks. -/
theorem CreatesStacks.takes_iff {k k' : Kernel} {n n' : Nat} {made : Option (Slot × Nat)}
    {task : Slot × Nat} (before : Taken k.pmmBitmap n) (creates : CreatesStacks n n' made k')
    (success : made = some task) {page : Nat} (within : Page page) :
    TakesPage k k' page ↔ ∃ b ∈ (k'.tasks task.1).stackBlocks, b.HasPage page := by
  have taken : TakesPage k k' page ↔ firstPage + n ≤ page ∧ page < firstPage + n' := by
    simp only [TakesPage, before.used page within, creates.taken.used page within,
      decide_eq_false_iff_not, decide_eq_true_eq, Nat.not_lt]
  have kernel : (⟨pageAddress n, taskStackSize⟩ : Block) = ⟨pageAddress n, 4 * pageSize⟩ := rfl
  have user : (⟨pageAddress (n + 4), pageSize⟩ : Block) = ⟨pageAddress (n + 4), 1 * pageSize⟩ := by
    rw [Nat.one_mul]
  rw [taken]
  obtain ⟨rfl, same⟩ | ⟨rfl, same⟩ := creates.obtained task success
  · rw [same, kernel]
    simp only [List.mem_singleton, exists_eq_left, hasPage_iff]
  · rw [same, kernel, user]
    simp only [List.mem_cons, List.not_mem_nil, or_false, exists_eq_or_imp, exists_eq_left,
      hasPage_iff]
    omega

/-- A task that is created gets exactly the pages of its stacks. -/
theorem created_takes {k : Kernel} {n : Nat} (taken : Taken k.pmmBitmap n) {event : Event}
    {task : Slot × Nat} (success : createdBy k event = some task) {page : Nat}
    (within : Page page) :
    TakesPage k (step k event).2 page ↔
      ∃ b ∈ ((step k event).2.tasks task.1).stackBlocks, b.HasPage page := by
  obtain ⟨n', creates⟩ := event_stacks taken event
  exact creates.takes_iff taken success within

/-- What a run obtains is disjoint and lies between 2 MB and 256 MB. -/
theorem runBlocks_disjoint {k : Kernel} {n : Nat} (taken : Taken k.pmmBitmap n)
    (ops : List PageOp) :
    (runBlocks k ops).Pairwise Block.Disjoint ∧
      ∀ b ∈ runBlocks k ops, 0x200000 ≤ b.start ∧ b.stop ≤ 0x10000000 := by
  obtain ⟨n', obtains⟩ := runBlocks_obtains taken ops
  refine ⟨obtains.disjoint, fun b member => ?_⟩
  have within := obtains.within b member
  have bound := obtains.bound
  simp only [pageAddress, firstPage, pageSize, pageCount, totalPages] at within bound
  omega

def Kernel.withBitmap (k : Kernel) (bitmap : Buf) : Kernel := { k with pmmBitmap := bitmap }

@[simp] theorem withBitmap_pmmBitmap (k : Kernel) (bitmap : Buf) :
    (k.withBitmap bitmap).pmmBitmap = bitmap := rfl

theorem withBitmap_freeSlot (k : Kernel) (bitmap : Buf) :
    freeSlot (k.withBitmap bitmap) = freeSlot k := rfl

/-- The kernel after `pmm_init`. -/
def Kernel.withPmm (k : Kernel) (bitmap : Buf) : Kernel := k.withBitmap (pmmInit bitmap)

theorem withPmm_taken (k : Kernel) (bitmap : Buf) : Taken (k.withPmm bitmap).pmmBitmap 0 := by
  rw [Kernel.withPmm, withBitmap_pmmBitmap]
  exact taken_init bitmap

/-- From `pmm_init` on, in any order and with any failures: a task that is created gets exactly
the pages of its stacks, and all stacks, pages and buffers that were obtained whole are
disjoint and lie between 2 MB and 256 MB. -/
theorem memory_disjoint (k : Kernel) (bitmap : Buf) (ops : List PageOp) :
    (∀ event task, createdBy (pageRun (k.withPmm bitmap) ops) event = some task →
      ∀ page, Page page →
        (TakesPage (pageRun (k.withPmm bitmap) ops)
            (step (pageRun (k.withPmm bitmap) ops) event).2 page ↔
          ∃ b ∈ ((step (pageRun (k.withPmm bitmap) ops) event).2.tasks task.1).stackBlocks,
            b.HasPage page)) ∧
      (runBlocks (k.withPmm bitmap) ops).Pairwise Block.Disjoint ∧
      ∀ b ∈ runBlocks (k.withPmm bitmap) ops, 0x200000 ≤ b.start ∧ b.stop ≤ 0x10000000 := by
  have start := withPmm_taken k bitmap
  obtain ⟨n, taken⟩ := pageRun_taken start ops
  exact ⟨fun event task success page within => created_takes taken success within,
    runBlocks_disjoint start ops⟩

theorem createTask_succeeds {k : Kernel} {n : Nat} {slot : Slot} (taken : Taken k.pmmBitmap n)
    (enough : n + 4 ≤ pageCount) (free : freeSlot k = some slot) (name : List UInt8)
    (entry : Nat) : createdBy k (.createTask name entry) = some (slot, k.nextTaskId) := by
  obtain ⟨-, bottom, -⟩ | ⟨few, -⟩ := allocKernelStack_cases taken
  · simp only [createdBy, schedulerCreateTask, free]
    rw [show allocKernelStack k.pmmBitmap =
      (some (pageAddress n), (allocKernelStack k.pmmBitmap).2) from Prod.ext bottom rfl]
    simp only [madeTask, free, Option.map_some]
    rw [if_neg (by omega)]
  · omega

/-- The first task of a kernel, for a variable kernel: a bitmap that is a value must not be
evaluated. -/
theorem first_stack_takes {k : Kernel} (taken : Taken k.pmmBitmap 0) (free : freeSlot k = some 0)
    (takes : ∀ event task, createdBy (pageRun k []) event = some task → ∀ page, Page page →
      (TakesPage (pageRun k []) (step (pageRun k []) event).2 page ↔
        ∃ b ∈ ((step (pageRun k []) event).2.tasks task.1).stackBlocks, b.HasPage page)) :
    TakesPage k (step k (.createTask [] 0x100000)).2 512 ↔
      ∃ b ∈ ((step k (.createTask [] 0x100000)).2.tasks 0).stackBlocks, b.HasPage 512 := by
  have made := createTask_succeeds taken (by decide) free [] 0x100000
  have page : Page 512 := ⟨by decide, by decide⟩
  exact takes _ _ made 512 page

/-- The shell's stack holds the first page of the range, which is taken for it. -/
theorem shell_stack_takes_pages :
    TakesPage ((bootKernel fun _ => 0).withPmm fun _ => 0)
        (step ((bootKernel fun _ => 0).withPmm fun _ => 0) (.createTask [] 0x100000)).2 512 ↔
      ∃ b ∈ ((step ((bootKernel fun _ => 0).withPmm fun _ => 0)
        (.createTask [] 0x100000)).2.tasks 0).stackBlocks, b.HasPage 512 := by
  have taken := withPmm_taken (bootKernel fun _ => 0) fun _ => 0
  have free : freeSlot ((bootKernel fun _ => 0).withPmm fun _ => 0) = some 0 := by
    rw [Kernel.withPmm, withBitmap_freeSlot]
    decide
  exact first_stack_takes taken free (memory_disjoint (bootKernel fun _ => 0) (fun _ => 0) []).1

theorem pageRun_allocPages {k : Kernel} {n : Nat} (taken : Taken k.pmmBitmap n) (count : Nat)
    (enough : n + count ≤ pageCount) :
    Taken (pageRun k (List.replicate count .allocPage)).pmmBitmap (n + count) := by
  induction count generalizing k n with
  | zero => exact taken
  | succ count ih =>
      have next : Taken (pageStep k .allocPage).pmmBitmap (n + 1) :=
        (taken.allocPage (by omega)).2
      have rest := ih next (by omega)
      rwa [Nat.add_right_comm, Nat.add_assoc] at rest

theorem allocContiguous_block {k : Kernel} {n : Nat} (taken : Taken k.pmmBitmap n)
    (left : n < pageCount) (numPages : Nat) :
    ⟨pageAddress n, numPages * pageSize⟩ ∈ blocks k (.allocContiguous numPages) := by
  obtain ⟨-, address, -⟩ | ⟨full, -⟩ := taken.allocContiguous numPages
  · simp only [blocks, address, Option.toList_some, List.map_cons, List.map_nil,
      List.mem_singleton]
  · omega

/-- With one page left, the two pages that `pmm_alloc_contiguous` says it has end beyond
256 MB. -/
theorem buffer_beyond_memory :
    ¬ ∀ b ∈ blocks (pageRun ((bootKernel fun _ => 0).withPmm fun _ => 0)
        (List.replicate 65023 .allocPage)) (.allocContiguous 2), b.stop ≤ 0x10000000 := by
  have taken := pageRun_allocPages (withPmm_taken (bootKernel fun _ => 0) fun _ => 0) 65023
    (by decide)
  intro within
  have buffer := within _ (allocContiguous_block taken (by decide) 2)
  simp only [Block.stop, pageAddress, firstPage, pageSize] at buffer
  omega

end XosKernel.Sched
