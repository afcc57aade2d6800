/-
# Sched.Machine -- the CPU under the scheduler

What `context_switch.asm` and `task_bootstrap.asm` do is given by their instructions, run on
the registers, the contexts in the task table and the 64-bit cells of the stacks.  Creating a
task is a list of statements here, so that a tick can come between any two of them: the call
in progress belongs to the thread that makes it and goes on when that thread is switched in.

Between its switches a thread sets its registers and writes cells as it likes.  The locals of
a call in progress are in the registers and on the stack of its own thread, which no other
thread writes.
-/
import XosKernel.Sched.Runs

namespace XosKernel.Sched

open XosKernel.Theory XosKernel.Mm

set_option autoImplicit false

/-! ## Instructions -/

inductive Reg where
  | r15
  | r14
  | r13
  | r12
  | rbx
  | rbp
  | rsp
  | rax
  deriving DecidableEq, Repr

/-- The registers that hold pointers to a `task_context_t`. -/
inductive Pointer where
  | rdi
  | rsi
  deriving DecidableEq, Repr

inductive Instr where
  /-- `mov [p + offset], r` -/
  | save (p : Pointer) (offset : Nat) (r : Reg)
  /-- `mov r, [p + offset]` -/
  | load (r : Reg) (p : Pointer) (offset : Nat)
  /-- `mov r, [rsp]` -/
  | peek (r : Reg)
  /-- `mov [rsp], r` -/
  | poke (r : Reg)
  deriving DecidableEq, Repr

/-- The word at an offset of a `task_context_t`, as `scheduler.h` lays it out. -/
def Context.word (c : Context) : Nat → Nat
  | 0 => c.r15
  | 8 => c.r14
  | 16 => c.r13
  | 24 => c.r12
  | 32 => c.rbx
  | 40 => c.rbp
  | 48 => c.rsp
  | 56 => c.rip
  | _ => 0

def Context.setWord (c : Context) (offset value : Nat) : Context :=
  match offset with
  | 0 => { c with r15 := value }
  | 8 => { c with r14 := value }
  | 16 => { c with r13 := value }
  | 24 => { c with r12 := value }
  | 32 => { c with rbx := value }
  | 40 => { c with rbp := value }
  | 48 => { c with rsp := value }
  | 56 => { c with rip := value }
  | _ => c

/-- Registers, the cells of the stacks, and the scheduler's table. -/
structure Machine where
  kernel : Kernel
  reg : Reg → Nat
  rip : Nat
  cells : Nat → Nat

namespace Machine

/-- Store into a context of the table. -/
def setCtx (m : Machine) (slot : Slot) (ctx : Context) : Machine :=
  { m with kernel := m.kernel.setTask slot { m.kernel.tasks slot with ctx := ctx } }

/-- One instruction; `at'` says which contexts the pointers point to. -/
def exec (at' : Pointer → Slot) (m : Machine) : Instr → Machine
  | .save p offset r =>
      m.setCtx (at' p) ((m.kernel.tasks (at' p)).ctx.setWord offset (m.reg r))
  | .load r p offset =>
      { m with reg := Function.update m.reg r ((m.kernel.tasks (at' p)).ctx.word offset) }
  | .peek r => { m with reg := Function.update m.reg r (m.cells (m.reg .rsp)) }
  | .poke r => { m with cells := Function.update m.cells (m.reg .rsp) (m.reg r) }

def execAll (at' : Pointer → Slot) (m : Machine) (code : List Instr) : Machine :=
  code.foldl (exec at') m

/-- `ret` -/
def ret (m : Machine) : Machine :=
  { m with
    rip := m.cells (m.reg .rsp)
    reg := Function.update m.reg .rsp ((m.reg .rsp + 8) % 2 ^ 64) }

/-- `jmp [p + offset]` -/
def jump (at' : Pointer → Slot) (m : Machine) (p : Pointer) (offset : Nat) : Machine :=
  { m with rip := (m.kernel.tasks (at' p)).ctx.word offset }

/-- The registers that a switch is about, with the address to go on at. -/
def frame (m : Machine) (resume : Nat) : Context :=
  { r15 := m.reg .r15, r14 := m.reg .r14, r13 := m.reg .r13, r12 := m.reg .r12
    rbx := m.reg .rbx, rbp := m.reg .rbp, rsp := m.reg .rsp, rip := resume }

/-- The address on top of the stack: where a `ret` goes. -/
def returnAddress (m : Machine) : Nat := m.cells (m.reg .rsp)

end Machine

/-- `context_switch`, up to its `ret`. -/
def contextSwitchCode : List Instr :=
  [ .save .rdi 0 .r15, .save .rdi 8 .r14, .save .rdi 16 .r13, .save .rdi 24 .r12
  , .save .rdi 32 .rbx, .save .rdi 40 .rbp, .save .rdi 48 .rsp
  , .peek .rax, .save .rdi 56 .rax
  , .load .r15 .rsi 0, .load .r14 .rsi 8, .load .r13 .rsi 16, .load .r12 .rsi 24
  , .load .rbx .rsi 32, .load .rbp .rsi 40, .load .rsp .rsi 48
  , .load .rax .rsi 56, .poke .rax ]

/-- `scheduler_start_first_task`, up to its `sti` and `jmp`. -/
def startFirstTaskCode : List Instr :=
  [ .load .r15 .rdi 0, .load .r14 .rdi 8, .load .r13 .rdi 16, .load .r12 .rdi 24
  , .load .rbx .rdi 32, .load .rbp .rdi 40, .load .rsp .rdi 48 ]

/-- `rdi` and `rsi` in a call of `context_switch`. -/
def Switch.pointers (s : Switch) : Pointer → Slot
  | .rdi => s.old
  | .rsi => s.next

/-! ## Creating a task, statement by statement -/

/-- A call of `scheduler_create_task`, or of `scheduler_create_user_task`. -/
structure Call where
  user : Bool
  name : List UInt8
  entry : Nat
  deriving DecidableEq, Repr

/-- The arguments and locals of a call in progress.  `start` is what the context's `rip` is to
be: the entry, or the address of `user_task_bootstrap`. -/
structure Vars where
  call : Call
  start : Nat
  i : Nat
  stackBottom : Nat
  userStackBottom : Nat
  sp : Nat

/-- A statement after the search for a slot, with `t` the task of that slot. -/
inductive Stmt where
  /-- `t->id = next_task_id++` -/
  | takeId
  /-- A store to a field of `*t`. -/
  | assign (f : Vars → Task → Task)
  /-- An assignment to a local. -/
  | compute (f : Vars → Task → Vars)
  /-- A pass of the loop that copies the name. -/
  | copyName
  /-- A call of `pmm_alloc_page`; without a page the function returns -1. -/
  | alloc (keep : Vars → Nat → Vars)
  /-- `*sp = entry` -/
  | fillTop
  /-- `t->state = TASK_READY` -/
  | markReady
  /-- `return t->id` -/
  | finish

/-- Copying the name, up to its end marker. -/
def copyNameStmts : List Stmt :=
  [ .compute fun v _ => { v with i := 0 }
  , .copyName
  , .assign fun v t => { t with name := t.name.take v.i } ]

/-- The four pages of the kernel stack. -/
def allocStackStmts : List Stmt :=
  [ .alloc fun v page => { v with stackBottom := page }
  , .alloc fun v _ => v
  , .alloc fun v _ => v
  , .alloc fun v _ => v
  , .assign fun v t => { t with stackTop := v.stackBottom + taskStackSize } ]

/-- The stack frame, the context and the state. -/
def finishStmts : List Stmt :=
  [ .compute fun v t => { v with sp := t.stackTop }
  , .compute fun v _ => { v with sp := v.sp - 8 }
  , .fillTop
  , .assign fun v t => { t with ctx := { t.ctx with rip := v.start } }
  , .assign fun v t => { t with ctx := { t.ctx with rsp := v.sp } }
  , .assign fun v t => { t with ctx := { t.ctx with rbp := v.sp } }
  , .assign fun _ t => { t with ctx := { t.ctx with rbx := 0 } }
  , .assign fun _ t => { t with ctx := { t.ctx with r12 := 0 } }
  , .assign fun _ t => { t with ctx := { t.ctx with r13 := 0 } }
  , .assign fun _ t => { t with ctx := { t.ctx with r14 := 0 } }
  , .assign fun _ t => { t with ctx := { t.ctx with r15 := 0 } }
  , .markReady
  , .finish ]

/-- `scheduler_create_task`, from `task_t *t = &tasks[slot]` on. -/
def createTaskStmts : List Stmt :=
  [ .takeId
  , .assign fun _ t => { t with state := .unused }
  , .assign fun _ t => { t with tickCount := 0 } ]
  ++ copyNameStmts ++ allocStackStmts ++
  [ .assign fun _ t => { t with userStackBottom := 0 }
  , .assign fun _ t => { t with userStackTop := 0 }
  , .assign fun _ t => { t with userEntry := 0 }
  , .assign fun _ t => { t with isUser := false } ]
  ++ finishStmts

/-- `scheduler_create_user_task`, from `task_t *t = &tasks[slot]` on. -/
def createUserTaskStmts : List Stmt :=
  [ .takeId
  , .assign fun _ t => { t with state := .unused }
  , .assign fun _ t => { t with tickCount := 0 }
  , .assign fun _ t => { t with isUser := true }
  , .assign fun v t => { t with userEntry := v.call.entry } ]
  ++ copyNameStmts ++ allocStackStmts ++
  [ .alloc fun v page => { v with userStackBottom := page }
  , .assign fun v t => { t with userStackBottom := v.userStackBottom }
  , .assign fun v t => { t with userStackTop := v.userStackBottom + pageSize } ]
  ++ finishStmts

def Call.stmts (c : Call) : List Stmt :=
  if c.user then createUserTaskStmts else createTaskStmts

/-- A creation in progress: in the loop that looks for a slot, or at a statement after it. -/
inductive Creation where
  | search (v : Vars) (i : Nat)
  | build (v : Vars) (slot : Slot) (rest : List Stmt)

/-! ## The system -/

/-- What the run shows of the switches. -/
inductive Entry where
  /-- The creation of a task that starts at `start` marks it ready. -/
  | born (slot : Slot) (start stackTop : Nat)
  /-- The registers of the slot when `context_switch` is entered to leave it. -/
  | left (slot : Slot) (frame : Context)
  /-- The registers that the slot gets, at the `ret` or `jmp` that enters it. -/
  | entered (slot : Slot) (frame : Context)
  deriving DecidableEq, Repr

/-- The machine with the thread that executes (`none` is `kernel_main`, before it is in the
table), the creations in progress of the threads, and the log, newest first. -/
structure System where
  machine : Machine
  thread : Option Slot
  creations : Option Slot → Option Creation
  log : List Entry

namespace System

def setKernel (s : System) (k : Kernel) : System :=
  { s with machine := { s.machine with kernel := k } }

def setCreation (s : System) (c : Option Creation) : System :=
  { s with creations := Function.update s.creations s.thread c }

/-- The call of `context_switch` at the end of `scheduler_tick`.  The thread that executed is
from now on the one of the old slot, also if it was `kernel_main`. -/
def contextSwitch (s : System) (switch : Switch) : System :=
  let m := s.machine.execAll switch.pointers contextSwitchCode
  { machine := m.ret
    thread := some switch.next
    creations := Function.update (Function.update s.creations s.thread none)
      (some switch.old) (s.creations s.thread)
    log := .entered switch.next (m.frame m.returnAddress) ::
      .left switch.old (s.machine.frame s.machine.returnAddress) :: s.log }

/-- `scheduler_tick` -/
def tick (s : System) : System :=
  let r := schedulerTick s.machine.kernel
  match r.1 with
  | none => s.setKernel r.2
  | some switch => (s.setKernel r.2).contextSwitch switch

/-- `scheduler_start`, which only `kernel_main` calls. -/
def start (s : System) : System :=
  if s.thread = none ∧ (s.creations none).isNone then
    let r := schedulerStart s.machine.kernel
    match r.1 with
    | none => s.setKernel r.2
    | some next =>
        let m := (s.setKernel r.2).machine.execAll (fun _ => next) startFirstTaskCode
        let m := m.jump (fun _ => next) .rdi 56
        { s with machine := m, thread := some next, log := .entered next (m.frame m.rip) :: s.log }
  else s

/-- The thread that executes calls one of the creating functions; `bootstrap` is the address
of `user_task_bootstrap`. -/
def create (bootstrap : Nat) (s : System) (c : Call) : System :=
  if (s.creations s.thread).isNone then
    s.setCreation (some (.search
      { call := c, start := if c.user then bootstrap else c.entry
        i := 0, stackBottom := 0, userStackBottom := 0, sp := 0 } 0))
  else s

/-- Execute a statement of a creation for a slot. -/
def execStmt (s : System) (v : Vars) (slot : Slot) (rest : List Stmt) : Stmt → System
  | .takeId =>
      let k := s.machine.kernel
      let k' := { k with nextTaskId := k.nextTaskId + 1 }.setTask slot
        { k.tasks slot with id := k.nextTaskId }
      (s.setKernel k').setCreation (some (.build v slot rest))
  | .assign f =>
      let k := s.machine.kernel
      (s.setKernel (k.setTask slot (f v (k.tasks slot)))).setCreation (some (.build v slot rest))
  | .compute f => s.setCreation (some (.build (f v (s.machine.kernel.tasks slot)) slot rest))
  | .copyName =>
      let c := v.call.name.getD v.i 0
      if c ≠ 0 ∧ v.i < 31 then
        let k := s.machine.kernel
        let t := k.tasks slot
        let name := t.name.take v.i ++ c :: t.name.drop (v.i + 1)
        (s.setKernel (k.setTask slot { t with name := name })).setCreation
          (some (.build { v with i := v.i + 1 } slot (.copyName :: rest)))
      else s.setCreation (some (.build v slot rest))
  | .alloc keep =>
      let k := s.machine.kernel
      let r := pmmAllocPage k.pmmBitmap
      let s := s.setKernel { k with pmmBitmap := r.2 }
      match r.1 with
      | none => s.setCreation none
      | some page => s.setCreation (some (.build (keep v page) slot rest))
  | .fillTop =>
      let m := { s.machine with cells := Function.update s.machine.cells v.sp v.start }
      { s with machine := m }.setCreation (some (.build v slot rest))
  | .markReady =>
      let k := s.machine.kernel
      { s.setKernel (k.setState slot .ready) with
        log := .born slot v.start (k.tasks slot).stackTop :: s.log }.setCreation
          (some (.build v slot rest))
  | .finish => s.setCreation none

/-- The next step of the creation that the executing thread is in. -/
def advance (s : System) : System :=
  match s.creations s.thread with
  | none => s
  | some (.search v i) =>
      if found : i < maxTasks then
        if (s.machine.kernel.tasks ⟨i, found⟩).isFree then
          s.setCreation (some (.build v ⟨i, found⟩ v.call.stmts))
        else s.setCreation (some (.search v (i + 1)))
      else s.setCreation none
  | some (.build _ _ []) => s.setCreation none
  | some (.build v slot (stmt :: rest)) => s.execStmt v slot rest stmt

end System

/-- What happens to the system. -/
inductive Happening where
  /-- The thread that executes goes on by itself. -/
  | work (reg : Reg → Nat) (rip : Nat) (cells : Nat → Nat)
  | tick
  | yield
  | start
  | create (c : Call)
  | advance

namespace System

def next (bootstrap : Nat) (s : System) : Happening → System
  | .work reg rip cells =>
      { s with machine := { s.machine with reg := reg, rip := rip, cells := cells } }
  | .tick => s.tick
  | .yield => s.tick
  | .start => s.start
  | .create c => s.create bootstrap c
  | .advance => s.advance

def run (bootstrap : Nat) (s : System) (hs : List Happening) : System :=
  hs.foldl (next bootstrap) s

/-- After `scheduler_init`: `kernel_main` executes. -/
def boot (k : Kernel) (reg : Reg → Nat) (rip : Nat) (cells : Nat → Nat) : System :=
  { machine := { kernel := schedulerInit k, reg := reg, rip := rip, cells := cells }
    thread := none
    creations := fun _ => none
    log := [] }

end System

end XosKernel.Sched
