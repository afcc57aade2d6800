/-
# Sched.OwnStacks -- every thread on a stack of its own

`Sched.Contexts` says with which registers a task goes on.  The caller of `context_switch` counts
on its stack too, where its own return address and the locals of all its callers are.

Each thread is on a stack of its own: `kernel_main` on the one of the entry code, below the pages
that the allocator hands out, a task on the pages that its creation took, and when an early
switch turns `kernel_main` into a task, it stays where it is (`Grounded`).  Threads keep off each
other's stacks and are on their own when they are switched out (`Disciplined`).  Then creations
take pages that no thread is on, and the one cell that `context_switch` writes is on the stack of
the task that it enters.  That is the invariant (`Guarded`), which every step keeps
(`Sched.GuardedStacks`), and so a thread finds what it left (`Sched.SwitchReturns`).
-/
import XosKernel.Sched.Contexts
import XosKernel.Sched.Stacks

namespace XosKernel.Sched

open XosKernel.Theory XosKernel.Mm

set_option autoImplicit false

/-! ## The stacks -/

/-- The system, and the cells of the stack that each thread is on. -/
structure Grounded where
  system : System
  ground : Option Slot → Set Nat

/-- The stack of the entry code is below the pages. -/
def kernelStack : Set Nat := {a | a < pageAddress 0}

/-- The stack of a task, by its top. -/
def taskStack (top : Nat) : Set Nat := {a | top - taskStackSize ≤ a ∧ a < top}

namespace Grounded

abbrev kernel (g : Grounded) : Kernel := g.system.machine.kernel

/-- A switch takes the executing thread and its stack into the old slot; a task that is marked
ready is on the stack that its creation gave it. -/
def next (bootstrap : Nat) (g : Grounded) (h : Happening) : Grounded where
  system := g.system.next bootstrap h
  ground := match h with
    | .tick | .yield =>
        match (schedulerTick g.kernel).1 with
        | none => g.ground
        | some switch => Function.update g.ground (some switch.old) (g.ground g.system.thread)
    | .advance =>
        match g.system.creations g.system.thread with
        | some (.build _ slot (.markReady :: _)) =>
            Function.update g.ground (some slot) (taskStack (g.kernel.tasks slot).stackTop)
        | _ => g.ground
    | _ => g.ground

def run (bootstrap : Nat) (g : Grounded) (hs : List Happening) : Grounded :=
  hs.foldl (next bootstrap) g

def boot (k : Kernel) (reg : Reg → Nat) (rip : Nat) (cells : Nat → Nat) : Grounded where
  system := System.boot k reg rip cells
  ground := fun _ => kernelStack

end Grounded

/-- The threads that there are: the one that executes, and those of the tasks that are ready or
running. -/
def System.Present (s : System) (th : Option Slot) : Prop :=
  th = s.thread ∨ ∃ slot, th = some slot ∧ s.machine.kernel.Alive slot

/-- A thread writes no cell of a stack that another one is on, and is on its own stack when it
is switched out. -/
def Grounded.Allows (g : Grounded) : Happening → Prop
  | .work _ _ cells => ∀ th, g.system.Present th → th ≠ g.system.thread →
      ∀ a ∈ g.ground th, cells a = g.system.machine.cells a
  | .tick | .yield => g.system.machine.reg .rsp ∈ g.ground g.system.thread
  | _ => True

def Disciplined (bootstrap : Nat) : Grounded → List Happening → Prop
  | _, [] => True
  | g, h :: rest => g.Allows h ∧ Disciplined bootstrap (g.next bootstrap h) rest

/-! ## The pages of a creation -/

/-- The pages that a creation in progress takes, with `n` taken so far, are none of the first
`base`: neither the cell that it writes nor the stack of the task that it marks ready. -/
def Fresh (base : Nat) : List Stmt → Vars → Task → Nat → Prop
  | [], _, _, _ => True
  | .takeId :: rest, v, t, n => ∀ id, Fresh base rest v { t with id := id } n
  | .assign f :: rest, v, t, n => Fresh base rest v (f v t) n
  | .compute f :: rest, v, t, n => Fresh base rest (f v t) t n
  | .copyName :: rest, v, t, n =>
      ∀ i name, Fresh base rest { v with i := i } { t with name := name } n
  | .alloc keep :: rest, v, t, n => Fresh base rest (keep v (pageAddress n)) t (n + 1)
  | .fillTop :: rest, v, t, n => pageAddress base ≤ v.sp ∧ Fresh base rest v t n
  | .markReady :: _, _, t, n =>
      ∃ m, base ≤ m ∧ m + 4 ≤ n ∧ t.stackTop = pageAddress m + taskStackSize
  | .finish :: _, _, _, _ => True

/-- A pass of the loop that copies the name. -/
theorem Fresh.copied {base n : Nat} {rest : List Stmt} {v : Vars} {t : Task}
    (fresh : Fresh base (.copyName :: rest) v t n) (i : Nat) (name : List UInt8) :
    Fresh base (.copyName :: rest) { v with i := i } { t with name := name } n :=
  fun i name => fresh i name

theorem finishStmts_fresh {base m n : Nat} {v : Vars} {t : Task} (low : base ≤ m)
    (room : m + 4 ≤ n) (top : t.stackTop = pageAddress m + taskStackSize) :
    Fresh base finishStmts v t n := by
  have above : pageAddress base ≤ t.stackTop - 8 := by
    rw [top]
    unfold pageAddress pageSize taskStackSize
    omega
  simp only [finishStmts, Fresh]
  exact ⟨above, m, low, room, top⟩

theorem allocStackStmts_fresh {base n : Nat} {rest : List Stmt} {v : Vars} {t : Task}
    (after : ∀ v', Fresh base rest v'
      { t with stackTop := pageAddress n + taskStackSize } (n + 4)) :
    Fresh base (allocStackStmts ++ rest) v t n := by
  simp only [allocStackStmts, List.cons_append, List.nil_append, Fresh]
  exact after _

theorem copyNameStmts_fresh {base n : Nat} {rest : List Stmt} {v : Vars} {t : Task}
    (after : ∀ v' name, Fresh base rest v' { t with name := name } n) :
    Fresh base (copyNameStmts ++ rest) v t n := by
  simp only [copyNameStmts, List.cons_append, List.nil_append, Fresh]
  exact fun i name => after _ _

/-- Both functions give a task the next pages. -/
theorem call_fresh (c : Call) (v : Vars) (t : Task) (n : Nat) : Fresh n c.stmts v t n := by
  have low := Nat.le_refl n
  simp only [Call.stmts]
  split
  · simp only [createUserTaskStmts, List.append_assoc, List.cons_append, List.nil_append, Fresh]
    intro id
    refine copyNameStmts_fresh fun v' name => ?_
    refine allocStackStmts_fresh fun v' => ?_
    simp only [Fresh]
    exact finishStmts_fresh low (by omega) rfl
  · simp only [createTaskStmts, List.append_assoc, List.cons_append, List.nil_append, Fresh]
    intro id
    refine copyNameStmts_fresh fun v' name => ?_
    refine allocStackStmts_fresh fun v' => ?_
    simp only [Fresh]
    exact finishStmts_fresh low (Nat.le_refl _) rfl

/-- A creation in a slot that is taken only has to return. -/
theorem Completes.ending {rest : List Stmt} {v : Vars} {t : Task} (completes : Completes rest v t)
    (taken : t.isFree = false) : rest = [] ∨ rest = [.finish] := by
  cases rest with
  | nil => exact .inl rfl
  | cons stmt rest =>
      cases stmt with
      | finish =>
          obtain rfl : rest = [] := completes
          exact .inr rfl
      | _ => exact absurd completes.1 (by simp [taken])

/-! ## What the scheduler leaves of the pages -/

theorem start_bitmap (k : Kernel) : (schedulerStart k).2.pmmBitmap = k.pmmBitmap := by
  unfold schedulerStart
  dsimp only
  split <;> rfl

theorem TickEffect.switched {k k' : Kernel} {sw : Switch} (effect : TickEffect k (some sw) k') :
    findNextReadyTask k = some sw.next ∧ k.currentTaskId = some sw.old ∧
      k'.currentTaskId = some sw.next := by
  cases effect with
  | switches found previous _ current _ => exact ⟨found, previous, current⟩

theorem StartEffect.current {k k' : Kernel} {next : Slot} (effect : StartEffect k (some next) k') :
    k'.currentTaskId = some next := by
  cases effect with
  | enters _ current => exact current

/-- Besides the context of the old slot, `context_switch` writes the cell on which it leaves. -/
theorem contextSwitch_cells (m : Machine) {s : Switch} (other : s.old ≠ s.next) :
    (m.execAll s.pointers contextSwitchCode).cells =
      Function.update m.cells (m.kernel.tasks s.next).ctx.rsp (m.kernel.tasks s.next).ctx.rip := by
  simp [contextSwitchCode, Machine.execAll, Machine.exec, Switch.pointers, Machine.setCtx,
    Kernel.setTask, Context.setWord, other.symm, Context.word]

/-! ## The invariant -/

/-- Every cell of a stack in use is below the pages that are left. -/
def Grounded.Below (g : Grounded) (n : Nat) : Prop :=
  ∀ th, g.system.Present th → ∀ a ∈ g.ground th, a < pageAddress n

structure Guarded (g : Grounded) (n : Nat) : Prop where
  kept : Kept g.system
  current : ∀ t, g.system.thread = some t → g.kernel.currentTaskId = some t
  apart : ∀ th th', g.system.Present th → g.system.Present th' → th ≠ th' →
    ∀ a ∈ g.ground th, a ∉ g.ground th'
  left : ∀ slot, g.kernel.Alive slot → g.system.thread ≠ some slot →
    (g.kernel.tasks slot).ctx.rsp ∈ g.ground (some slot)
  taken : Taken g.kernel.pmmBitmap n
  below : g.Below n
  building : ∀ th v slot rest, g.system.creations th = some (.build v slot rest) →
    ∃ base, Fresh base rest v (g.kernel.tasks slot) n ∧
      (rest ≠ [] → rest ≠ [.finish] → g.Below base)

theorem boot_guarded {k : Kernel} {n : Nat} (reg : Reg → Nat) (rip : Nat) (cells : Nat → Nat)
    (taken : Taken k.pmmBitmap n) : Guarded (Grounded.boot k reg rip cells) n := by
  have dead (slot : Slot) : ¬ (Grounded.boot k reg rip cells).kernel.Alive slot := by
    simp [Grounded.kernel, Grounded.boot, System.boot, schedulerInit, Kernel.Alive, Kernel.states]
  have only (th : Option Slot) (present : (Grounded.boot k reg rip cells).system.Present th) :
      th = none := by
    obtain rfl | ⟨slot, -, alive⟩ := present
    · rfl
    · exact absurd alive (dead slot)
  refine ⟨boot_kept k reg rip cells, fun t current => ?_, fun th th' present present' other => ?_,
    fun slot alive => absurd alive (dead slot), taken, fun th _ a member => ?_,
    fun th v slot rest building => ?_⟩
  · cases current
  · exact absurd ((only th present).trans (only th' present').symm) other
  · refine Nat.lt_of_lt_of_le member ?_
    unfold pageAddress
    exact Nat.mul_le_mul_right _ (Nat.add_le_add_left (Nat.zero_le n) _)
  · cases building

end XosKernel.Sched
