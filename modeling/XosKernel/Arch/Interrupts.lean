/-
# Arch.Interrupts -- interrupts, acknowledgement and task switches

The CPU of `idt.c`, `interrupt_stubs.asm` and `context_switch.asm`, as far as it decides who
runs and which interrupts the PIC holds back.  Code is represented by what it is inside of: a
stack of frames, innermost first, empty in task code.  `context_switch` saves the stack of
the task it leaves and continues on the one of the task it enters; it does not touch the
interrupt flag, which the handlers clear and `iretq` restores.

The master PIC is in normal end-of-interrupt mode: a delivered line stays in service until
it is acknowledged, and blocks itself and the lines after it.
-/
import XosKernel.Sched.Runs

namespace XosKernel.Arch

open XosKernel.Theory XosKernel.Sched

set_option autoImplicit false

/-! ## The PIC -/

/-- An interrupt line of the master PIC; line 0 is the timer. -/
abbrev Line := Fin 8

/-- The mask that `idt_init` programs: the timer, the keyboard and the serial port are open. -/
def picMask : UInt8 := 0xEC

/-- The lines that were delivered and not acknowledged yet. -/
abbrev InService := Line → Bool

/-- The PIC passes a line on if it is open and neither it nor a line before it is in service. -/
def deliverable (inService : InService) (line : Line) : Bool :=
  picMask &&& (1 <<< UInt8.ofNat line.val) == 0 &&
    decide (∀ before, before ≤ line → inService before = false)

/-- `outb(0x20, 0x20)`: acknowledge the first line in service. -/
def eoi (inService : InService) : InService :=
  match (List.finRange 8).find? inService with
  | none => inService
  | some line => Function.update inService line false

/-! ## The CPU -/

/-- What the CPU can be inside of. -/
inductive Frame where
  /-- `isr_common_stub` and `interrupt_handler`, with the interrupt's number and the interrupt
  flag that `iretq` restores. -/
  | interrupt (intNo : Nat) (savedIf : Bool)
  /-- `scheduler_yield`, between its `cli` and its `sti`. -/
  | yield
  deriving DecidableEq, Repr

/-- `int_no` of a line: `idt_init` maps line 0 to 32. -/
def vectorOf (line : Line) : Nat := 32 + line.val

/-- The test by which `interrupt_handler` decides to acknowledge. -/
def isIrqVector (intNo : Nat) : Bool := 32 ≤ intNo && intNo ≤ 47

/-- `int 0x80` -/
def syscallVector : Nat := 0x80

/-- Where a slot's task goes on when it is switched to. -/
inductive Continuation where
  | notStarted
  | suspended (stack : List Frame)
  deriving DecidableEq, Repr

/-- The frames that a task is resumed inside of: a new task starts in task code. -/
def Continuation.frames : Continuation → List Frame
  | .notStarted => []
  | .suspended stack => stack

structure Machine where
  kernel : Kernel
  stack : List Frame
  continuation : Slot → Continuation
  interruptFlag : Bool
  inService : InService

namespace Machine

/-- `context_switch`, if there is a switch to make. -/
def contextSwitch (m : Machine) : Option Switch → Machine
  | none => m
  | some sw =>
      { m with
        stack := (m.continuation sw.next).frames
        continuation := Function.update m.continuation sw.old (.suspended m.stack) }

/-- `scheduler_tick`, called by the code on top of the stack. -/
def tick (m : Machine) : Machine :=
  contextSwitch { m with kernel := (schedulerTick m.kernel).2 } (schedulerTick m.kernel).1

/-- An interrupt gate: the flag is saved and cleared. -/
def enterInterrupt (m : Machine) (intNo : Nat) : Machine :=
  { m with stack := .interrupt intNo m.interruptFlag :: m.stack, interruptFlag := false }

/-- `scheduler_yield` up to where its `scheduler_tick` returns, in this task or the next. -/
def enterYield (m : Machine) : Machine :=
  tick { m with stack := .yield :: m.stack, interruptFlag := false }

/-- A task creation by task code; the chosen slot starts from its new context. -/
def created (m : Machine) (result : Int × Kernel) : Machine :=
  { m with
    kernel := result.2
    continuation := match freeSlot m.kernel with
      | none => m.continuation
      | some slot => Function.update m.continuation slot .notStarted }

end Machine

/-- What can happen next. -/
inductive Action where
  /-- The PIC interrupts the CPU; `pit_irq_handler` calls `scheduler_tick`. -/
  | irq (line : Line)
  /-- `interrupt_handler` returns, and `iretq`. -/
  | interruptReturn
  /-- Task code calls `scheduler_yield`. -/
  | yield
  /-- The `sti` of `scheduler_yield`, and its return. -/
  | yieldReturn
  /-- Task code executes `int 0x80` with this number in `rax`. -/
  | syscall (rax : UInt64)
  /-- Task code changes its interrupt flag: `cli`, `sti`, or the `iretq` into ring 3. -/
  | setInterruptFlag (value : Bool)
  | createTask (name : List UInt8) (entry : Nat)
  | createUserTask (bootstrap : Nat) (name : List UInt8) (entry : Nat)

/-- The two actions that leave the innermost frame. -/
def Action.isReturn : Action → Bool
  | .interruptReturn | .yieldReturn => true
  | _ => false

open Machine in
/-- One action, if it can happen. -/
def act (m : Machine) : Action → Option Machine
  | .irq line =>
      if m.interruptFlag && deliverable m.inService line then
        let m := { m with inService := Function.update m.inService line true }
        let m := m.enterInterrupt (vectorOf line)
        some (if line = 0 then m.tick else m)
      else none
  | .interruptReturn =>
      match m.stack with
      | .interrupt intNo savedIf :: rest => some { m with
          stack := rest
          interruptFlag := savedIf
          inService := if isIrqVector intNo then eoi m.inService else m.inService }
      | _ => none
  | .yield => if m.stack = [] then some m.enterYield else none
  | .yieldReturn =>
      match m.stack with
      | .yield :: rest => some { m with stack := rest, interruptFlag := true }
      | _ => none
  | .syscall rax =>
      if m.stack = [] then
        let m := m.enterInterrupt syscallVector
        some (if rax = sysYield ∨ rax = sysExit then m.enterYield else m)
      else none
  | .setInterruptFlag value =>
      if m.stack = [] then some { m with interruptFlag := value } else none
  | .createTask name entry =>
      if m.stack = [] then some (m.created (schedulerCreateTask m.kernel name entry)) else none
  | .createUserTask bootstrap name entry =>
      if m.stack = [] then
        some (m.created (schedulerCreateUserTask bootstrap m.kernel name entry))
      else none

/-- When an action can happen, and what it leaves. -/
inductive Acted (m : Machine) : Action → Machine → Prop where
  | timer (enabled : m.interruptFlag = true) (ready : deliverable m.inService 0 = true) :
      Acted m (.irq 0)
      (Machine.enterInterrupt
        { m with inService := Function.update m.inService 0 true } (vectorOf 0)).tick
  | line {line : Line} (enabled : m.interruptFlag = true)
      (ready : deliverable m.inService line = true) (other : line ≠ 0) :
      Acted m (.irq line) (Machine.enterInterrupt
        { m with inService := Function.update m.inService line true } (vectorOf line))
  | interruptReturn {intNo : Nat} {savedIf : Bool} {rest : List Frame}
      (inside : m.stack = .interrupt intNo savedIf :: rest) : Acted m .interruptReturn
      { m with
        stack := rest
        interruptFlag := savedIf
        inService := if isIrqVector intNo then eoi m.inService else m.inService }
  | yield (empty : m.stack = []) : Acted m .yield m.enterYield
  | yieldReturn {rest : List Frame} (inside : m.stack = .yield :: rest) :
      Acted m .yieldReturn { m with stack := rest, interruptFlag := true }
  | yieldingCall {rax : UInt64} (empty : m.stack = []) (yields : rax = sysYield ∨ rax = sysExit) :
      Acted m (.syscall rax) (m.enterInterrupt syscallVector).enterYield
  | otherCall {rax : UInt64} (empty : m.stack = [])
      (other : ¬ (rax = sysYield ∨ rax = sysExit)) :
      Acted m (.syscall rax) (m.enterInterrupt syscallVector)
  | setInterruptFlag {value : Bool} (empty : m.stack = []) :
      Acted m (.setInterruptFlag value) { m with interruptFlag := value }
  | createTask {name : List UInt8} {entry : Nat} (empty : m.stack = []) :
      Acted m (.createTask name entry) (m.created (schedulerCreateTask m.kernel name entry))
  | createUserTask {bootstrap : Nat} {name : List UInt8} {entry : Nat} (empty : m.stack = []) :
      Acted m (.createUserTask bootstrap name entry)
        (m.created (schedulerCreateUserTask bootstrap m.kernel name entry))

theorem act_effect {m m' : Machine} {action : Action} (acted : act m action = some m') :
    Acted m action m' := by
  cases action with
  | irq line =>
      simp only [act, Option.ite_none_right_eq_some, Bool.and_eq_true, Option.some.injEq] at acted
      obtain ⟨enabled, rfl⟩ := acted
      by_cases timer : line = 0
      · subst timer
        exact .timer enabled.1 enabled.2
      · rw [if_neg timer]
        exact .line enabled.1 enabled.2 timer
  | interruptReturn =>
      simp only [act] at acted
      split at acted
      · next inside =>
          cases acted
          exact .interruptReturn inside
      · cases acted
  | yield =>
      simp only [act, Option.ite_none_right_eq_some, Option.some.injEq] at acted
      obtain ⟨empty, rfl⟩ := acted
      exact .yield empty
  | yieldReturn =>
      simp only [act] at acted
      split at acted
      · next inside =>
          cases acted
          exact .yieldReturn inside
      · cases acted
  | syscall rax =>
      simp only [act, Option.ite_none_right_eq_some, Option.some.injEq] at acted
      obtain ⟨empty, rfl⟩ := acted
      split
      · next yields => exact .yieldingCall empty yields
      · next other => exact .otherCall empty other
  | setInterruptFlag value =>
      simp only [act, Option.ite_none_right_eq_some, Option.some.injEq] at acted
      obtain ⟨empty, rfl⟩ := acted
      exact .setInterruptFlag empty
  | createTask name entry =>
      simp only [act, Option.ite_none_right_eq_some, Option.some.injEq] at acted
      obtain ⟨empty, rfl⟩ := acted
      exact .createTask empty
  | createUserTask bootstrap name entry =>
      simp only [act, Option.ite_none_right_eq_some, Option.some.injEq] at acted
      obtain ⟨empty, rfl⟩ := acted
      exact .createUserTask empty

/-- The machine after a run of actions that can happen one after the other. -/
def acts (m : Machine) : List Action → Option Machine
  | [] => some m
  | action :: rest => (act m action).bind fun m' => acts m' rest

/-- The machine when `scheduler_start` has entered the shell: `scheduler_start_first_task`
enables interrupts and jumps to it. -/
def boot (bitmap : Buf) (shellRun : Nat) : Machine :=
  { kernel := kernelMain bitmap shellRun
    stack := []
    continuation := fun _ => .notStarted
    interruptFlag := true
    inService := fun _ => false }

/-! ## The task table -/

end XosKernel.Arch
