/-
# Sched.Scheduler -- the task table of `scheduler.c`

Eight slots, the index of the running one (`-1` is `none`) and the stack pointer that the
TSS hands to interrupts.  Every function of the scheduler works on this table.  The one
thing a function does beyond it is to call `context_switch`, always as its last action:
`scheduler_tick` reports which two slots it switches between, and what the switch does to
the CPU is said where the CPU is modelled.  `printf` leaves no trace here.
-/
import XosKernel.Mm.Pmm
import XosKernel.Theory.Cyclic

namespace XosKernel.Sched

open XosKernel.Theory XosKernel.Mm

set_option autoImplicit false

/-! ## Tasks -/

/-- Tasks that can exist at a time. -/
abbrev maxTasks : Nat := 8

instance maxTasks.neZero : NeZero maxTasks := ⟨by decide⟩

/-- Bytes of a kernel stack. -/
def taskStackSize : Nat := 16 * 1024

/-- An index into the task table. -/
abbrev Slot := Fin maxTasks

inductive TaskState where
  | unused
  | ready
  | running
  | blocked
  | dead
  deriving DecidableEq, Repr

/-- `task_context_t`: the registers a task is resumed with. -/
structure Context where
  r15 : Nat
  r14 : Nat
  r13 : Nat
  r12 : Nat
  rbx : Nat
  rbp : Nat
  rsp : Nat
  rip : Nat
  deriving DecidableEq, Repr

/-- `task_t` -/
structure Task where
  ctx : Context
  state : TaskState
  id : Nat
  stackTop : Nat
  userStackBottom : Nat
  userStackTop : Nat
  userEntry : Nat
  isUser : Bool
  tickCount : Nat
  name : List UInt8
  deriving DecidableEq, Repr

/-- The scheduler's variables, the page bitmap that it allocates stacks from, and `tss.rsp0`. -/
structure Kernel where
  tasks : Slot → Task
  currentTaskId : Option Slot
  nextTaskId : Nat
  tssRsp0 : Nat
  pmmBitmap : Buf

namespace Kernel

/-- Store a task control block. -/
def setTask (k : Kernel) (slot : Slot) (t : Task) : Kernel :=
  { k with tasks := Function.update k.tasks slot t }

/-- Store the state field of a slot. -/
def setState (k : Kernel) (slot : Slot) (state : TaskState) : Kernel :=
  k.setTask slot { k.tasks slot with state := state }

end Kernel

/-- The two slots that a call of `context_switch` goes between. -/
structure Switch where
  old : Slot
  next : Slot
  deriving DecidableEq, Repr

/-! ## Setting up -/

/-- `scheduler_init` -/
def schedulerInit (k : Kernel) : Kernel :=
  { k with
    tasks := fun slot =>
      { k.tasks slot with
        state := .unused
        id := 0
        stackTop := 0
        userStackBottom := 0
        userStackTop := 0
        userEntry := 0
        isUser := false
        tickCount := 0 }
    currentTaskId := none
    nextTaskId := 0 }

/-- A slot that a new task can take. -/
def Task.isFree (t : Task) : Bool := t.state == .unused || t.state == .dead

/-- The slot that the creating functions choose: the first free one. -/
def freeSlot (k : Kernel) : Option Slot :=
  (List.finRange maxTasks).find? fun slot => (k.tasks slot).isFree

/-- The 16 KB kernel stack: four pages, of which only the first one's address is kept. -/
def allocKernelStack (bitmap : Buf) : Option Nat × Buf :=
  match pmmAllocPage bitmap with
  | (none, bitmap) => (none, bitmap)
  | (some stackBottom, bitmap) =>
      match pmmAllocPages bitmap 3 with
      | (false, bitmap) => (none, bitmap)
      | (true, bitmap) => (some stackBottom, bitmap)

/-- The context of a task that has not run: it starts at `entry`, one slot below the top of
its stack. -/
def initialContext (entry stackTop : Nat) : Context :=
  { r15 := 0, r14 := 0, r13 := 0, r12 := 0, rbx := 0
    rbp := stackTop - 8, rsp := stackTop - 8, rip := entry }

/-- What fits of a name: at most 31 characters before its end. -/
def copyName (name : List UInt8) : List UInt8 := (name.takeWhile (· != 0)).take 31

/-- `scheduler_create_task`: the return value and the table afterwards. -/
def schedulerCreateTask (k : Kernel) (name : List UInt8) (entry : Nat) : Int × Kernel :=
  match freeSlot k with
  | none => (-1, k)
  | some slot =>
      let t := { k.tasks slot with
        id := k.nextTaskId, state := .unused, tickCount := 0, name := copyName name }
      let k := { k with nextTaskId := k.nextTaskId + 1 }
      match allocKernelStack k.pmmBitmap with
      | (none, bitmap) => (-1, { k with pmmBitmap := bitmap }.setTask slot t)
      | (some stackBottom, bitmap) =>
          let stackTop := stackBottom + taskStackSize
          let t := { t with
            stackTop := stackTop, userStackBottom := 0, userStackTop := 0, userEntry := 0
            isUser := false, ctx := initialContext entry stackTop, state := .ready }
          (t.id, { k with pmmBitmap := bitmap }.setTask slot t)

/-- `scheduler_create_user_task`; `bootstrap` is the address of `user_task_bootstrap`. -/
def schedulerCreateUserTask (bootstrap : Nat) (k : Kernel) (name : List UInt8) (entry : Nat) :
    Int × Kernel :=
  match freeSlot k with
  | none => (-1, k)
  | some slot =>
      let t := { k.tasks slot with
        id := k.nextTaskId, state := .unused, tickCount := 0, isUser := true
        userEntry := entry, name := copyName name }
      let k := { k with nextTaskId := k.nextTaskId + 1 }
      match allocKernelStack k.pmmBitmap with
      | (none, bitmap) => (-1, { k with pmmBitmap := bitmap }.setTask slot t)
      | (some stackBottom, bitmap) =>
          let t := { t with stackTop := stackBottom + taskStackSize }
          match pmmAllocPage bitmap with
          | (none, bitmap) => (-1, { k with pmmBitmap := bitmap }.setTask slot t)
          | (some userStackBottom, bitmap) =>
              let t := { t with
                userStackBottom := userStackBottom
                userStackTop := userStackBottom + pageSize
                ctx := initialContext bootstrap t.stackTop, state := .ready }
              (t.id, { k with pmmBitmap := bitmap }.setTask slot t)

/-! ## Switching -/

/-- `find_next_ready_task`: round robin from the slot after the current one, with `-1` before
slot 0.  `Slot` addition wraps at `maxTasks`. -/
def findNextReadyTask (k : Kernel) : Option Slot :=
  let start : Slot := match k.currentTaskId with
    | none => 0
    | some current => current + 1
  Cyclic.firstFrom start fun idx => (k.tasks idx).state == .ready

/-- `tss_set_kernel_stack` -/
def tssSetKernelStack (k : Kernel) (rsp0 : Nat) : Kernel := { k with tssRsp0 := rsp0 }

/-- `tasks[current_task_id].tick_count++`, if there is a current task. -/
def countTick (k : Kernel) : Kernel :=
  match k.currentTaskId with
  | none => k
  | some current =>
      k.setTask current { k.tasks current with tickCount := (k.tasks current).tickCount + 1 }

/-- `scheduler_tick`: the switch that it ends with, if any, and the table before the switch.
With no task before, nothing is saved and nothing is loaded. -/
def schedulerTick (k : Kernel) : Option Switch × Kernel :=
  let k := countTick k
  match findNextReadyTask k with
  | none => (none, k)
  | some next =>
      if k.currentTaskId = some next then (none, k)
      else
        match k.currentTaskId with
        | none =>
            let k := { k with currentTaskId := some next }.setState next .running
            (none, tssSetKernelStack k (k.tasks next).stackTop)
        | some old =>
            let k := { k with currentTaskId := some next }.setState old .ready
            let k := k.setState next .running
            (some ⟨old, next⟩, tssSetKernelStack k (k.tasks next).stackTop)

/-- `scheduler_start`: the slot whose context the CPU is loaded with, if a task is ready, and
the table. -/
def schedulerStart (k : Kernel) : Option Slot × Kernel :=
  let k := { k with currentTaskId := none }
  match (List.finRange maxTasks).find? fun slot => (k.tasks slot).state == .ready with
  | none => (none, k)
  | some next =>
      let tasks : Slot → Task := fun slot =>
        if (k.tasks slot).state = .running then { k.tasks slot with state := .ready }
        else k.tasks slot
      let k := { k with tasks := tasks }
      let k := { k with currentTaskId := some next }.setState next .running
      (some next, tssSetKernelStack k (k.tasks next).stackTop)

/-- What `scheduler_yield` does to the table, between its `cli` and its `sti`. -/
def schedulerYield (k : Kernel) : Option Switch × Kernel := schedulerTick k

/-! ## System calls -/

def sysWrite : UInt64 := 0
def sysYield : UInt64 := 1
def sysExit : UInt64 := 2

/-- `syscall_handler`, called with the number in `rax`: the value it leaves in `rax` when it
returns, and what it does to the table.  `SYS_EXIT` prints, and then does what `SYS_YIELD`
does. -/
def syscallHandler (k : Kernel) (rax : UInt64) : UInt64 × Option Switch × Kernel :=
  if rax = sysWrite then (0, none, k)
  else if rax = sysYield then (0, schedulerYield k)
  else if rax = sysExit then (0, schedulerYield k)
  else (-1, none, k)

/-! ## Boot -/

/-- The scheduler's static variables before anything runs. -/
def bootKernel (bitmap : Buf) : Kernel :=
  { tasks := fun _ =>
      { ctx := ⟨0, 0, 0, 0, 0, 0, 0, 0⟩, state := .unused, id := 0, stackTop := 0
        userStackBottom := 0, userStackTop := 0, userEntry := 0, isUser := false
        tickCount := 0, name := [] }
    currentTaskId := none
    nextTaskId := 0
    tssRsp0 := 0
    pmmBitmap := bitmap }

/-- The end of `kernel_main`: the scheduler is set up and started with the shell, whose entry
is `shellRun`. -/
def kernelMain (bitmap : Buf) (shellRun : Nat) : Kernel :=
  let k := schedulerInit (bootKernel bitmap)
  let k := (schedulerCreateTask k [115, 104, 101, 108, 108] shellRun).2
  (schedulerStart k).2

end XosKernel.Sched
