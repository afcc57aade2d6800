/-
# Sched.FailedCreation -- what a creation that fails leaves behind

`scheduler_create_task` takes the pages of the stack one at a time and returns -1 as soon as one
is missing; nothing gives back the pages it has taken by then.  So a failed creation leaves the
bitmap as it was only if there was no slot, or no page at all: with one to three pages left (one
to four for a user task) it takes them all and fails (`failed_creation_clean_iff`).  The tasks
that are ready or running are untouched in every case.
-/
import XosKernel.Sched.OneRunning
import XosKernel.Mm.FreePages

namespace XosKernel.Sched

open XosKernel.Theory XosKernel.Mm

set_option autoImplicit false

/-- If the creation failed, the bitmap is as before, and so are the tasks that are ready or
running. -/
def CleanIfFailed (k : Kernel) (made : Int × Kernel) : Prop :=
  made.1 = -1 → made.2.pmmBitmap = k.pmmBitmap ∧
    ∀ slot, (made.2.Alive slot ↔ k.Alive slot) ∧
      (k.Alive slot → made.2.tasks slot = k.tasks slot)

/-- The kernel stack takes four pages, or all that are left. -/
theorem allocKernelStack_left (bitmap : Buf) :
    (∃ bottom bitmap', allocKernelStack bitmap = (some bottom, bitmap') ∧
        pmmFreePages bitmap' + 4 = pmmFreePages bitmap) ∨
      ∃ bitmap', allocKernelStack bitmap = (none, bitmap') ∧
        pmmFreePages bitmap < 4 ∧ pmmFreePages bitmap' = 0 ∧
        (pmmFreePages bitmap = 0 → bitmap' = bitmap) := by
  unfold allocKernelStack
  obtain ⟨none_, alloc⟩ | ⟨bottom, next, alloc, one⟩ := pmmAllocPage_left bitmap
  · rw [alloc]
    exact .inr ⟨bitmap, rfl, by omega, none_, fun _ => rfl⟩
  · rw [alloc]
    dsimp only
    obtain ⟨after, taken, left⟩ | ⟨after, failed, few, left⟩ := pmmAllocPages_left next 3
    · rw [taken]
      exact .inl ⟨bottom, after, rfl, by omega⟩
    · rw [failed]
      exact .inr ⟨after, rfl, by omega, left, fun empty => by omega⟩

/-- Nothing happens to the tasks that are alive, whatever the creation returns. -/
theorem CreateEffect.alive_untouched {k k' : Kernel} {result : Int}
    (effect : CreateEffect k result k') (frame : CreateFrame k k') (failed : result = -1)
    (slot : Slot) :
    (k'.Alive slot ↔ k.Alive slot) ∧ (k.Alive slot → k'.tasks slot = k.tasks slot) := by
  refine ⟨?_, fun alive => frame.of_taken alive.not_available⟩
  cases effect with
  | full => exact Iff.rfl
  | @fails _ chosen free _ states =>
      unfold Kernel.Alive
      rw [states]
      by_cases same : slot = chosen
      · subst same
        have taken := available_of_freeSlot free
        rw [Function.update_self]
        refine iff_of_false (by simp) fun alive => ?_
        exact Kernel.Alive.not_available alive taken
      · rw [Function.update_of_ne same]
  | creates => omega

/-- A failed creation is clean exactly if it leaves the bitmap. -/
theorem cleanIfFailed_iff {k : Kernel} {made : Int × Kernel}
    (effect : CreateEffect k made.1 made.2) (frame : CreateFrame k made.2) :
    CleanIfFailed k made ↔ (made.1 = -1 → made.2.pmmBitmap = k.pmmBitmap) :=
  ⟨fun clean failed => (clean failed).1,
    fun same failed => ⟨same failed, effect.alive_untouched frame failed⟩⟩

/-- An allocation that took the last page and failed leaves the bitmap only if it took none. -/
theorem unchanged_iff {bitmap after : Buf} {slot : Slot} {need : Nat}
    (left : pmmFreePages after = 0) (few : pmmFreePages bitmap < need)
    (unchanged : pmmFreePages bitmap = 0 → after = bitmap) :
    ((-1 : Int) = -1 → after = bitmap) ↔
      some slot = none ∨ pmmFreePages bitmap = 0 ∨ need ≤ pmmFreePages bitmap := by
  constructor
  · intro same
    refine .inr (.inl ?_)
    rw [← same rfl]
    exact left
  · rintro (impossible | empty | many) -
    · cases impossible
    · exact unchanged empty
    · omega

theorem createTask_clean_iff (k : Kernel) (name : List UInt8) (entry : Nat) :
    CleanIfFailed k (schedulerCreateTask k name entry) ↔
      freeSlot k = none ∨ pmmFreePages k.pmmBitmap = 0 ∨ 4 ≤ pmmFreePages k.pmmBitmap := by
  rw [cleanIfFailed_iff (schedulerCreateTask_effect k name entry) (createTask_frame k name entry)]
  unfold schedulerCreateTask
  cases free : freeSlot k with
  | none => exact iff_of_true (fun _ => rfl) (.inl rfl)
  | some slot =>
      dsimp only
      obtain ⟨bottom, after, alloc, left⟩ | ⟨after, alloc, few, left, unchanged⟩ :=
        allocKernelStack_left k.pmmBitmap
      · rw [alloc]
        refine iff_of_true (fun failed => ?_) (.inr (.inr (by omega)))
        dsimp only at failed
        omega
      · rw [alloc]
        exact unchanged_iff left few unchanged

theorem createUserTask_clean_iff (bootstrap : Nat) (k : Kernel) (name : List UInt8)
    (entry : Nat) :
    CleanIfFailed k (schedulerCreateUserTask bootstrap k name entry) ↔
      freeSlot k = none ∨ pmmFreePages k.pmmBitmap = 0 ∨ 5 ≤ pmmFreePages k.pmmBitmap := by
  rw [cleanIfFailed_iff (schedulerCreateUserTask_effect bootstrap k name entry)
    (createUserTask_frame bootstrap k name entry)]
  unfold schedulerCreateUserTask
  cases free : freeSlot k with
  | none => exact iff_of_true (fun _ => rfl) (.inl rfl)
  | some slot =>
      dsimp only
      obtain ⟨bottom, stack, alloc, left⟩ | ⟨after, alloc, few, left, unchanged⟩ :=
        allocKernelStack_left k.pmmBitmap
      · rw [alloc]
        dsimp only
        obtain ⟨none_, user⟩ | ⟨ptr, after, user, one⟩ := pmmAllocPage_left stack
        · rw [user]
          exact unchanged_iff none_ (by omega) fun empty => by omega
        · rw [user]
          refine iff_of_true (fun failed => ?_) (.inr (.inr (by omega)))
          dsimp only at failed
          omega
      · rw [alloc]
        exact unchanged_iff left (by omega) unchanged

/-- A creation that fails leaves the bitmap and the tasks that are alive as they were if and only
if there was no free slot, or no page left, or enough pages for all its stacks (and then it does
not fail). -/
theorem failed_creation_clean_iff (bootstrap : Nat) (k : Kernel) (name : List UInt8)
    (entry : Nat) :
    (CleanIfFailed k (schedulerCreateTask k name entry) ↔
      freeSlot k = none ∨ pmmFreePages k.pmmBitmap = 0 ∨ 4 ≤ pmmFreePages k.pmmBitmap) ∧
    (CleanIfFailed k (schedulerCreateUserTask bootstrap k name entry) ↔
      freeSlot k = none ∨ pmmFreePages k.pmmBitmap = 0 ∨ 5 ≤ pmmFreePages k.pmmBitmap) :=
  ⟨createTask_clean_iff k name entry, createUserTask_clean_iff bootstrap k name entry⟩

/-- A kernel that has handed out all pages but two. -/
def almostFull : Kernel :=
  schedulerInit (bootKernel (pmmAllocPages (pmmInit fun _ => 0) (pageCount - 2)).2)

theorem schedulerInit_bitmap (bitmap : Buf) :
    (schedulerInit (bootKernel bitmap)).pmmBitmap = bitmap := rfl

theorem almostFull_left : pmmFreePages almostFull.pmmBitmap = 2 := by
  have taken := ((taken_init fun _ => 0).allocPages (pageCount - 2)).2
  rw [show min (0 + (pageCount - 2)) pageCount = pageCount - 2 by decide] at taken
  have sum := taken.freePages
  rw [almostFull, schedulerInit_bitmap]
  have enough : 2 ≤ pageCount := by decide
  omega

/-- A task needs four pages: two that are left are lost. -/
theorem two_pages_lost {k : Kernel} (left : pmmFreePages k.pmmBitmap = 2) {slot : Slot}
    (free : freeSlot k = some slot) (name : List UInt8) (entry : Nat) :
    ¬ CleanIfFailed k (schedulerCreateTask k name entry) := by
  rw [createTask_clean_iff, left, free]
  rintro (none_ | empty | many)
  · cases none_
  · cases empty
  · omega

theorem failed_creation_keeps_pages :
    ¬ CleanIfFailed almostFull (schedulerCreateTask almostFull [] 0x100000) :=
  two_pages_lost almostFull_left (show freeSlot almostFull = some 0 from rfl) [] 0x100000

end XosKernel.Sched
