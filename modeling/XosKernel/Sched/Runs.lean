/-
# Sched.Runs -- what the scheduler's functions do to the table

`TickEffect` says once what a call of `scheduler_tick` can do, `CreateEffect` what a task
creation can, `StartEffect` what `scheduler_start` can: later facts cite them and unfold none.
An `Event` is one thing that happens to the scheduler after it was set up, and a run is a list
of them.
-/
import XosKernel.Sched.Scheduler

namespace XosKernel.Sched

open XosKernel.Theory XosKernel.Mm

set_option autoImplicit false

/-- The state fields of the table. -/
def Kernel.states (k : Kernel) (slot : Slot) : TaskState := (k.tasks slot).state

@[simp] theorem Kernel.setTask_states (k : Kernel) (slot : Slot) (t : Task) :
    (k.setTask slot t).states = Function.update k.states slot t.state := by
  funext s
  unfold Kernel.states Kernel.setTask
  by_cases same : s = slot
  · subst same
    simp
  · simp [Function.update_of_ne same]

@[simp] theorem Kernel.setState_states (k : Kernel) (slot : Slot) (state : TaskState) :
    (k.setState slot state).states = Function.update k.states slot state :=
  k.setTask_states slot _

theorem Kernel.setState_tasks (k : Kernel) (slot s : Slot) (state : TaskState) :
    (k.setState slot state).tasks s =
      if s = slot then { k.tasks s with state := state } else k.tasks s := by
  unfold Kernel.setState Kernel.setTask
  dsimp only
  rw [Function.update_apply]
  split
  · next same => rw [same]
  · rfl

/-! ## Ticks -/

@[simp] theorem countTick_currentTaskId (k : Kernel) :
    (countTick k).currentTaskId = k.currentTaskId := by
  unfold countTick
  split <;> rfl

@[simp] theorem countTick_states (k : Kernel) : (countTick k).states = k.states := by
  unfold countTick
  split
  · rfl
  · rw [Kernel.setTask_states]
    exact Function.update_eq_self _ _

/-- Where `find_next_ready_task` starts. -/
def searchStart (current : Option Slot) : Slot :=
  match current with
  | none => 0
  | some current => current + 1

theorem findNextReadyTask_eq (k : Kernel) :
    findNextReadyTask k =
      Cyclic.firstFrom (searchStart k.currentTaskId) fun idx => k.states idx == .ready := rfl

theorem found_ready {k : Kernel} {next : Slot} (found : findNextReadyTask k = some next) :
    k.states next = .ready := by
  rw [findNextReadyTask_eq, Cyclic.firstFrom_eq_some] at found
  simpa using found.1

/-- The search reads the current index and the states. -/
theorem findNextReadyTask_countTick (k : Kernel) :
    findNextReadyTask (countTick k) = findNextReadyTask k := by
  rw [findNextReadyTask_eq, findNextReadyTask_eq, countTick_currentTaskId, countTick_states]

/-- What a call of `scheduler_tick` can do. -/
inductive TickEffect (k : Kernel) : Option Switch → Kernel → Prop where
  | stays {k' : Kernel} (idle : ∀ next, findNextReadyTask k = some next →
        k.currentTaskId = some next) (current : k'.currentTaskId = k.currentTaskId)
      (states : k'.states = k.states) : TickEffect k none k'
  | starts {k' : Kernel} {next : Slot} (found : findNextReadyTask k = some next)
      (idle : k.currentTaskId = none) (current : k'.currentTaskId = some next)
      (states : k'.states = Function.update k.states next .running) : TickEffect k none k'
  | switches {k' : Kernel} {old next : Slot} (found : findNextReadyTask k = some next)
      (previous : k.currentTaskId = some old) (other : old ≠ next)
      (current : k'.currentTaskId = some next)
      (states : k'.states =
        Function.update (Function.update k.states old .ready) next .running) :
      TickEffect k (some ⟨old, next⟩) k'

theorem schedulerTick_effect (k : Kernel) :
    TickEffect k (schedulerTick k).1 (schedulerTick k).2 := by
  unfold schedulerTick
  simp only [findNextReadyTask_countTick, countTick_currentTaskId]
  cases found : findNextReadyTask k with
  | none => exact .stays (by simp [found]) (countTick_currentTaskId k) (countTick_states k)
  | some next =>
      by_cases same : k.currentTaskId = some next
      · simp only [if_pos same]
        refine .stays ?_ (countTick_currentTaskId k) (countTick_states k)
        intro next' found'
        rw [found] at found'
        rw [same, found']
      · simp only [if_neg same]
        cases previous : k.currentTaskId with
        | none =>
            refine .starts found previous rfl ?_
            change (Kernel.setState _ next .running).states = _
            rw [Kernel.setState_states]
            exact congrArg (Function.update · next _) (countTick_states k)
        | some old =>
            refine .switches found previous ?_ rfl ?_
            · rintro rfl
              exact same previous
            · change (Kernel.setState (Kernel.setState _ old .ready) next .running).states = _
              rw [Kernel.setState_states, Kernel.setState_states]
              exact congrArg (fun f => Function.update (Function.update f old _) next _)
                (countTick_states k)

/-! ## Creations -/

/-- What a call of `scheduler_create_task` or `scheduler_create_user_task` can do. -/
inductive CreateEffect (k : Kernel) : Int → Kernel → Prop where
  | full (taken : freeSlot k = none) : CreateEffect k (-1) k
  | fails {k' : Kernel} {slot : Slot} (free : freeSlot k = some slot)
      (current : k'.currentTaskId = k.currentTaskId)
      (states : k'.states = Function.update k.states slot .unused) : CreateEffect k (-1) k'
  | creates {k' : Kernel} {slot : Slot} (free : freeSlot k = some slot)
      (current : k'.currentTaskId = k.currentTaskId)
      (states : k'.states = Function.update k.states slot .ready) :
      CreateEffect k k.nextTaskId k'

theorem schedulerCreateTask_effect (k : Kernel) (name : List UInt8) (entry : Nat) :
    CreateEffect k (schedulerCreateTask k name entry).1 (schedulerCreateTask k name entry).2 := by
  unfold schedulerCreateTask
  cases free : freeSlot k with
  | none => exact .full free
  | some slot =>
      dsimp only
      split
      · exact .fails free rfl (Kernel.setTask_states _ _ _)
      · exact .creates free rfl (Kernel.setTask_states _ _ _)

theorem schedulerCreateUserTask_effect (bootstrap : Nat) (k : Kernel) (name : List UInt8)
    (entry : Nat) :
    CreateEffect k (schedulerCreateUserTask bootstrap k name entry).1
      (schedulerCreateUserTask bootstrap k name entry).2 := by
  unfold schedulerCreateUserTask
  cases free : freeSlot k with
  | none => exact .full free
  | some slot =>
      dsimp only
      split
      · exact .fails free rfl (Kernel.setTask_states _ _ _)
      · split
        · exact .fails free rfl (Kernel.setTask_states _ _ _)
        · exact .creates free rfl (Kernel.setTask_states _ _ _)

/-- A slot that a creation may take. -/
def Kernel.Available (k : Kernel) (slot : Slot) : Prop :=
  k.states slot = .unused ∨ k.states slot = .dead

theorem available_of_freeSlot {k : Kernel} {slot : Slot} (free : freeSlot k = some slot) :
    k.Available slot := by
  have met := List.find?_some free
  simpa [Task.isFree, Kernel.Available, Kernel.states] using met

/-! ## `scheduler_start` -/

/-- The state of a task after `scheduler_start` has entered the one in `next`. -/
def stateAfterStart (next slot : Slot) (state : TaskState) : TaskState :=
  if slot = next then .running else if state = .running then .ready else state

/-- What a call of `scheduler_start` can do.  Of a task it changes the state only. -/
inductive StartEffect (k : Kernel) : Option Slot → Kernel → Prop where
  | unfound (idle : ∀ s, k.states s ≠ .ready) : StartEffect k none { k with currentTaskId := none }
  | enters {k' : Kernel} {next : Slot}
      (first : (List.finRange maxTasks).find? (fun s => k.states s == .ready) = some next)
      (current : k'.currentTaskId = some next)
      (tasks : ∀ s, k'.tasks s =
        { k.tasks s with state := stateAfterStart next s (k.states s) })
      (tss : k'.tssRsp0 = (k.tasks next).stackTop) : StartEffect k (some next) k'

theorem schedulerStart_effect (k : Kernel) :
    StartEffect k (schedulerStart k).1 (schedulerStart k).2 := by
  unfold schedulerStart
  cases found : (List.finRange maxTasks).find? fun s => k.states s == .ready with
  | none =>
      have unfound : (List.finRange maxTasks).find? (fun s => (k.tasks s).state == .ready) =
          none := found
      simp only [unfound]
      refine .unfound fun s => ?_
      simpa using List.find?_eq_none.mp found s (List.mem_finRange s)
  | some next =>
      have first : (List.finRange maxTasks).find? (fun s => (k.tasks s).state == .ready) =
          some next := found
      simp only [first]
      refine .enters found rfl (fun s => ?_) ?_
      · show (Kernel.setState _ next .running).tasks s = _
        rw [Kernel.setState_tasks]
        unfold stateAfterStart Kernel.states
        by_cases now : s = next
        · simp only [if_pos now]
          split <;> rfl
        · simp only [if_neg now]
          split <;> rfl
      · show ((Kernel.setState _ next .running).tasks next).stackTop = _
        rw [Kernel.setState_tasks, if_pos rfl]
        dsimp only
        split <;> rfl

section StartEffect

variable {k k' : Kernel} {entered : Option Slot} {next : Slot}

theorem StartEffect.unentered (effect : StartEffect k none k') :
    (∀ s, k.states s ≠ .ready) ∧ k' = { k with currentTaskId := none } := by
  cases effect with
  | unfound idle => exact ⟨idle, rfl⟩

/-- The search takes the first task that is ready. -/
theorem StartEffect.first (effect : StartEffect k entered k') :
    entered = (List.finRange maxTasks).find? fun s => k.states s == .ready := by
  cases effect with
  | unfound idle =>
      refine (List.find?_eq_none.mpr fun s _ => ?_).symm
      simpa using idle s
  | enters first => exact first.symm

/-- What is started was ready. -/
theorem StartEffect.ready (effect : StartEffect k (some next) k') : k.states next = .ready := by
  simpa using List.find?_some effect.first.symm

theorem StartEffect.states (effect : StartEffect k (some next) k') (s : Slot) :
    k'.states s = stateAfterStart next s (k.states s) := by
  cases effect with
  | enters _ _ tasks => rw [Kernel.states, tasks]

/-- Of a task only the state changes. -/
theorem StartEffect.task (effect : StartEffect k entered k') (s : Slot) :
    k'.tasks s = { k.tasks s with state := k'.states s } := by
  cases effect with
  | unfound => rfl
  | enters _ _ tasks => rw [Kernel.states, tasks]

/-- Exactly the task that is started runs. -/
theorem StartEffect.states_running (effect : StartEffect k (some next) k') (s : Slot) :
    k'.states s = .running ↔ s = next := by
  rw [effect.states, stateAfterStart]
  by_cases now : s = next
  · rw [if_pos now]
    exact iff_of_true rfl now
  · rw [if_neg now]
    refine iff_of_false (fun running => ?_) now
    split at running
    · cases running
    · next idle => exact idle running

theorem StartEffect.running (effect : StartEffect k entered k') {c : Slot}
    (current : k'.currentTaskId = some c) : k'.states c = .running := by
  cases entered with
  | none =>
      rw [effect.unentered.2] at current
      cases current
  | some next =>
      refine (effect.states_running c).mpr ?_
      cases effect with
      | enters _ now => exact Option.some.inj (current.symm.trans now)

end StartEffect

/-! ## Runs -/

/-- What can happen to the scheduler: a timer tick, a yield, a system call of the running
task, a task creation. -/
inductive Event where
  | tick
  | yield
  | syscall (rax : UInt64)
  | createTask (name : List UInt8) (entry : Nat)
  | createUserTask (bootstrap : Nat) (name : List UInt8) (entry : Nat)

/-- The switch that an event ends with, and the table. -/
def step (k : Kernel) : Event → Option Switch × Kernel
  | .tick => schedulerTick k
  | .yield => schedulerYield k
  | .syscall rax => (syscallHandler k rax).2
  | .createTask name entry => (none, (schedulerCreateTask k name entry).2)
  | .createUserTask bootstrap name entry =>
      (none, (schedulerCreateUserTask bootstrap k name entry).2)

/-- The table after a run. -/
def run (k : Kernel) (events : List Event) : Kernel :=
  events.foldl (fun k event => (step k event).2) k

/-- The switches of a run, in order. -/
def switches (k : Kernel) : List Event → List Switch
  | [] => []
  | event :: rest => (step k event).1.toList ++ switches (step k event).2 rest

/-- The tables that boot, `scheduler_start` and the events after it lead to. -/
inductive Reachable : Kernel → Prop where
  | init (k : Kernel) : Reachable (schedulerInit k)
  | start {k : Kernel} (before : Reachable k) : Reachable (schedulerStart k).2
  | step {k : Kernel} (before : Reachable k) (event : Event) : Reachable (step k event).2

theorem Reachable.run {k : Kernel} (reach : Reachable k) (events : List Event) :
    Reachable (run k events) := by
  induction events generalizing k with
  | nil => exact reach
  | cons event rest ih => exact ih (reach.step event)

theorem kernelMain_reachable (bitmap : Buf) (shellRun : Nat) :
    Reachable (kernelMain bitmap shellRun) :=
  .start (.step (.init (bootKernel bitmap)) (.createTask [115, 104, 101, 108, 108] shellRun))

theorem syscallHandler_effect (k : Kernel) (rax : UInt64) :
    (syscallHandler k rax).2 = schedulerTick k ∨ (syscallHandler k rax).2 = (none, k) := by
  unfold syscallHandler schedulerYield
  split
  · exact .inr rfl
  · split
    · exact .inl rfl
    · split
      · exact .inl rfl
      · exact .inr rfl

/-- What an event can do: tick, create, or nothing. -/
theorem step_cases (k : Kernel) (event : Event) :
    TickEffect k (step k event).1 (step k event).2 ∨
      (∃ result, CreateEffect k result (step k event).2) ∨ (step k event).2 = k := by
  cases event with
  | tick => exact .inl (schedulerTick_effect k)
  | yield => exact .inl (schedulerTick_effect k)
  | syscall rax =>
      obtain ticked | idle := syscallHandler_effect k rax
      · refine .inl ?_
        change TickEffect k (syscallHandler k rax).2.1 (syscallHandler k rax).2.2
        rw [ticked]
        exact schedulerTick_effect k
      · exact .inr (.inr (congrArg Prod.snd idle))
  | createTask name entry => exact .inr (.inl ⟨_, schedulerCreateTask_effect k name entry⟩)
  | createUserTask bootstrap name entry =>
      exact .inr (.inl ⟨_, schedulerCreateUserTask_effect bootstrap k name entry⟩)

end XosKernel.Sched
