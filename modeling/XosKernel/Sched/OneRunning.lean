/-
# Sched.OneRunning -- exactly one task runs

Ticks and yields change state fields and tick counters only (`tick_identity`), a creation
changes the slot it chose and nothing else (`step_other`).  So from `scheduler_start` on the
task that runs is the current one and no other, the TSS holds the top of its stack, and no
task that was created is lost (`OneRuns.run`, `created_stays`).
-/
import XosKernel.Sched.Exit
import XosKernel.Mm.Pages

namespace XosKernel.Sched

open XosKernel.Theory XosKernel.Mm

set_option autoImplicit false

/-! ## What ticks do not touch -/

/-- A task without what ticks change. -/
def Task.identity (t : Task) : Task := { t with state := .unused, tickCount := 0 }

theorem setState_identity (k : Kernel) (slot s : Slot) (state : TaskState) :
    ((k.setState slot state).tasks s).identity = (k.tasks s).identity := by
  simp only [Kernel.setState, Kernel.setTask]
  by_cases same : s = slot
  · subst same
    simp [Task.identity]
  · rw [Function.update_of_ne same]

theorem countTick_identity (k : Kernel) (s : Slot) :
    ((countTick k).tasks s).identity = (k.tasks s).identity := by
  simp only [countTick]
  split
  · rfl
  · next current _ =>
      simp only [Kernel.setTask]
      by_cases same : s = current
      · subst same
        simp [Task.identity]
      · rw [Function.update_of_ne same]

theorem tick_identity (k : Kernel) (s : Slot) :
    ((schedulerTick k).2.tasks s).identity = (k.tasks s).identity := by
  simp only [schedulerTick]
  split
  · exact countTick_identity k s
  · split
    · exact countTick_identity k s
    · split
      · exact (setState_identity _ _ _ _).trans (countTick_identity k s)
      · refine (setState_identity _ _ _ _).trans ((setState_identity _ _ _ _).trans ?_)
        exact countTick_identity k s

theorem stackTop_of_identity {t t' : Task} (same : t'.identity = t.identity) :
    t'.stackTop = t.stackTop := by
  show t'.identity.stackTop = t.identity.stackTop
  rw [same]

/-- The TSS follows the current task. -/
theorem tick_tss (k : Kernel) :
    (schedulerTick k).2.tssRsp0 = k.tssRsp0 ∧
        (schedulerTick k).2.currentTaskId = k.currentTaskId ∨
      ∃ next, (schedulerTick k).2.currentTaskId = some next ∧
        (schedulerTick k).2.tssRsp0 = ((schedulerTick k).2.tasks next).stackTop := by
  have unchanged : (countTick k).tssRsp0 = k.tssRsp0 := by
    simp only [countTick]
    split <;> rfl
  simp only [schedulerTick]
  split
  · exact .inl ⟨unchanged, countTick_currentTaskId k⟩
  · next next _ =>
      split
      · exact .inl ⟨unchanged, countTick_currentTaskId k⟩
      · split
        · exact .inr ⟨next, rfl, rfl⟩
        · exact .inr ⟨next, rfl, rfl⟩

/-! ## What creations do not touch -/

/-- What every creation leaves, and the number that it gives to the slot it chose. -/
structure CreateFrame (k k' : Kernel) : Prop where
  other : ∀ s, freeSlot k ≠ some s → k'.tasks s = k.tasks s
  chosen : ∀ s, freeSlot k = some s → (k'.tasks s).id = k.nextTaskId
  tss : k'.tssRsp0 = k.tssRsp0

theorem CreateFrame.refl {k : Kernel} (full : freeSlot k = none) : CreateFrame k k :=
  ⟨fun _ _ => rfl, fun _ free => absurd (full.symm.trans free) (by simp), rfl⟩

/-- Storing a new task in the chosen slot. -/
theorem CreateFrame.of_setTask {k k₁ : Kernel} {slot : Slot} (free : freeSlot k = some slot)
    (tasks : k₁.tasks = k.tasks) (tss : k₁.tssRsp0 = k.tssRsp0) {t : Task}
    (id : t.id = k.nextTaskId) : CreateFrame k (k₁.setTask slot t) := by
  refine ⟨fun s other => ?_, fun s chosen => ?_, tss⟩
  · have different : s ≠ slot := fun same => other (same ▸ free)
    simp only [Kernel.setTask]
    rw [Function.update_of_ne different, tasks]
  · rw [free] at chosen
    cases chosen
    simpa [Kernel.setTask] using id

theorem createTask_frame (k : Kernel) (name : List UInt8) (entry : Nat) :
    CreateFrame k (schedulerCreateTask k name entry).2 := by
  simp only [schedulerCreateTask]
  split
  · next full => exact .refl full
  · next slot free =>
      split
      · refine .of_setTask free ?_ ?_ ?_ <;> rfl
      · refine .of_setTask free ?_ ?_ ?_ <;> rfl

theorem createUserTask_frame (bootstrap : Nat) (k : Kernel) (name : List UInt8) (entry : Nat) :
    CreateFrame k (schedulerCreateUserTask bootstrap k name entry).2 := by
  simp only [schedulerCreateUserTask]
  split
  · next full => exact .refl full
  · next slot free =>
      split
      · refine .of_setTask free ?_ ?_ ?_ <;> rfl
      · split
        · refine .of_setTask free ?_ ?_ ?_ <;> rfl
        · refine .of_setTask free ?_ ?_ ?_ <;> rfl

theorem CreateFrame.of_taken {k k' : Kernel} (frame : CreateFrame k k') {s : Slot}
    (taken : ¬ k.Available s) : k'.tasks s = k.tasks s :=
  frame.other s fun free => taken (available_of_freeSlot free)

/-! ## The task that an event creates -/

def Event.isCreation : Event → Bool
  | .createTask _ _ | .createUserTask _ _ _ => true
  | _ => false

/-- The slot and the number of the task that a successful creation made. -/
def madeTask (k : Kernel) (result : Int) : Option (Slot × Nat) :=
  if result = -1 then none else (freeSlot k).map fun slot => (slot, k.nextTaskId)

/-- The task that an event creates, if it does. -/
def createdBy (k : Kernel) : Event → Option (Slot × Nat)
  | .createTask name entry => madeTask k (schedulerCreateTask k name entry).1
  | .createUserTask bootstrap name entry =>
      madeTask k (schedulerCreateUserTask bootstrap k name entry).1
  | _ => none

/-- The tasks that a run creates. -/
def createdIn (k : Kernel) : List Event → List (Slot × Nat)
  | [] => []
  | event :: rest => (createdBy k event).toList ++ createdIn (step k event).2 rest

/-- The slot holds the task of that number, and it runs or waits for its turn. -/
def Kernel.Holds (k : Kernel) (made : Slot × Nat) : Prop :=
  k.Alive made.1 ∧ (k.tasks made.1).id = made.2

theorem made_holds {k k' : Kernel} {result : Int} (effect : CreateEffect k result k')
    (frame : CreateFrame k k') {made : Slot × Nat} (created : madeTask k result = some made) :
    k'.Holds made := by
  cases effect with
  | full => simp [madeTask] at created
  | fails => simp [madeTask] at created
  | @creates _ slot free _ states =>
      have number : (k.nextTaskId : Int) ≠ -1 := by omega
      rw [madeTask, if_neg number, free] at created
      cases created
      refine ⟨.inl ?_, frame.chosen slot free⟩
      rw [states, Function.update_self]

/-- What an event can do, with all that it leaves. -/
theorem step_effect (k : Kernel) (event : Event) :
    (step k event = schedulerTick k ∧ createdBy k event = none) ∨
      (∃ result, (step k event).1 = none ∧ CreateEffect k result (step k event).2 ∧
        CreateFrame k (step k event).2 ∧ createdBy k event = madeTask k result) ∨
      step k event = (none, k) ∧ createdBy k event = none := by
  cases event with
  | tick => exact .inl ⟨rfl, rfl⟩
  | yield => exact .inl ⟨rfl, rfl⟩
  | syscall rax =>
      obtain ticked | idle := syscallHandler_effect k rax
      · exact .inl ⟨ticked, rfl⟩
      · exact .inr (.inr ⟨idle, rfl⟩)
  | createTask name entry =>
      exact .inr (.inl ⟨_, rfl, schedulerCreateTask_effect k name entry,
        createTask_frame k name entry, rfl⟩)
  | createUserTask bootstrap name entry =>
      exact .inr (.inl ⟨_, rfl, schedulerCreateUserTask_effect bootstrap k name entry,
        createUserTask_frame bootstrap k name entry, rfl⟩)

theorem Kernel.Holds.step {k : Kernel} {made : Slot × Nat} (holds : k.Holds made)
    (event : Event) : (step k event).2.Holds made := by
  refine ⟨holds.1.step event, ?_⟩
  obtain ⟨ticked, -⟩ | ⟨result, -, -, frame, -⟩ | ⟨same, -⟩ := step_effect k event
  · rw [ticked]
    have same := congrArg Task.id (tick_identity k made.1)
    exact same.trans holds.2
  · rw [frame.of_taken holds.1.not_available]
    exact holds.2
  · rw [same]
    exact holds.2

theorem Kernel.Holds.run {k : Kernel} {made : Slot × Nat} (holds : k.Holds made)
    (events : List Event) : (run k events).Holds made := by
  induction events generalizing k with
  | nil => exact holds
  | cons event rest ih => exact ih (holds.step event)

/-- No task that a run created is lost in it. -/
theorem created_stays (k : Kernel) (events : List Event) {made : Slot × Nat}
    (created : made ∈ createdIn k events) : (run k events).Holds made := by
  induction events generalizing k with
  | nil => cases created
  | cons event rest ih =>
      obtain now | later := List.mem_append.mp created
      · have first : (step k event).2.Holds made := by
          obtain ⟨-, none⟩ | ⟨result, -, effect, frame, by_⟩ | ⟨-, none⟩ := step_effect k event
          · simp [none] at now
          · rw [by_] at now
            exact made_holds effect frame (by simpa using now)
          · simp [none] at now
        exact first.run rest
      · exact ih _ later

/-! ## One task runs -/

/-- The task in `c` is the current one, the only one that runs, and the one whose stack the
TSS holds. -/
structure OneRuns (k : Kernel) (c : Slot) : Prop where
  current : k.currentTaskId = some c
  running : ∀ s, k.states s = .running ↔ s = c
  tss : k.tssRsp0 = (k.tasks c).stackTop

theorem OneRuns.not_available {k : Kernel} {c : Slot} (one : OneRuns k c) : ¬ k.Available c :=
  not_available_of_running ((one.running c).mpr rfl)

theorem OneRuns.tick {k : Kernel} {c : Slot} (one : OneRuns k c) :
    ∃ c', OneRuns (schedulerTick k).2 c' := by
  have tss := tick_tss k
  have identity := tick_identity k
  have effect := schedulerTick_effect k
  generalize schedulerTick k = after at effect tss identity
  obtain ⟨sw, k'⟩ := after
  cases effect with
  | stays _ current states =>
      refine ⟨c, current.trans one.current, fun s => by rw [states]; exact one.running s, ?_⟩
      obtain ⟨same, -⟩ | ⟨next, current', holds⟩ := tss
      · rw [same, one.tss, stackTop_of_identity (identity c)]
      · rw [current, one.current] at current'
        cases current'
        exact holds
  | starts _ idle =>
      rw [one.current] at idle
      cases idle
  | @switches _ old next _ previous other current states =>
      rw [one.current] at previous
      cases previous
      refine ⟨next, current, fun s => ?_, ?_⟩
      · rw [states]
        by_cases now : s = next
        · simp [now]
        · rw [Function.update_of_ne now]
          by_cases before : s = c
          · simp [before, other]
          · rw [Function.update_of_ne before, one.running s]
            exact iff_of_false before now
      · obtain ⟨-, stays⟩ | ⟨next', current', holds⟩ := tss
        · rw [current, one.current] at stays
          exact absurd (Option.some.inj stays).symm other
        · rw [current] at current'
          cases current'
          exact holds

theorem OneRuns.create {k k' : Kernel} {c : Slot} (one : OneRuns k c) {result : Int}
    (effect : CreateEffect k result k') (frame : CreateFrame k k') : OneRuns k' c := by
  refine ⟨effect.current.trans one.current, fun s => ?_, ?_⟩
  · by_cases taken : k.Available s
    · have different : s ≠ c := fun same => one.not_available (same ▸ taken)
      refine iff_of_false (fun running => ?_) different
      exact different ((one.running s).mp (effect.running_before running))
    · rw [effect.states_of_taken taken]
      exact one.running s
  · rw [frame.tss, one.tss, frame.of_taken one.not_available]

theorem OneRuns.step {k : Kernel} {c : Slot} (one : OneRuns k c) (event : Event) :
    ∃ c', OneRuns (step k event).2 c' := by
  obtain ⟨ticked, -⟩ | ⟨result, -, effect, frame, -⟩ | ⟨same, -⟩ := step_effect k event
  · rw [ticked]
    exact one.tick
  · exact ⟨c, one.create effect frame⟩
  · rw [same]
    exact ⟨c, one⟩

theorem OneRuns.run {k : Kernel} {c : Slot} (one : OneRuns k c) (events : List Event) :
    ∃ c', OneRuns (run k events) c' := by
  induction events generalizing k c with
  | nil => exact ⟨c, one⟩
  | cons event rest ih =>
      obtain ⟨c', one'⟩ := one.step event
      exact ih one'

/-! ## `scheduler_start` -/

theorem StartEffect.oneRuns {k k' : Kernel} {next : Slot}
    (effect : StartEffect k (some next) k') : OneRuns k' next := by
  have running := effect.states_running
  cases effect with
  | enters _ current tasks tss =>
      refine ⟨current, running, tss.trans ?_⟩
      rw [tasks]

/-- With a ready task, `scheduler_start` leaves exactly one running. -/
theorem start_oneRuns {k : Kernel} {s : Slot} (ready : k.states s = .ready) :
    ∃ c, OneRuns (schedulerStart k).2 c := by
  have effect := schedulerStart_effect k
  cases entered : (schedulerStart k).1 with
  | none =>
      rw [entered] at effect
      exact absurd ready (effect.unentered.1 s)
  | some next =>
      rw [entered] at effect
      exact ⟨next, effect.oneRuns⟩

/-- `scheduler_start` loses no task. -/
theorem Kernel.Holds.start {k : Kernel} {made : Slot × Nat} (holds : k.Holds made) :
    (schedulerStart k).2.Holds made :=
  ⟨((schedulerStart_effect k).alive_iff made.1).mpr holds.1,
    (congrArg Task.id ((schedulerStart_effect k).task made.1)).trans holds.2⟩

theorem init_not_running (k : Kernel) (s : Slot) : (schedulerInit k).states s ≠ .running := by
  simp [schedulerInit, Kernel.states]

/-- Creations alone let nothing run. -/
theorem creations_not_running {k : Kernel} {creations : List Event}
    (only : ∀ e ∈ creations, e.isCreation = true) (none : ∀ s, k.states s ≠ .running) :
    ∀ s, (run k creations).states s ≠ .running := by
  induction creations generalizing k with
  | nil => exact none
  | cons event rest ih =>
      refine ih (fun e member => only e (List.mem_cons_of_mem _ member)) fun s running => ?_
      have effect : ∃ result, CreateEffect k result (step k event).2 := by
        have creation := only event List.mem_cons_self
        cases event with
        | createTask name entry => exact ⟨_, schedulerCreateTask_effect k name entry⟩
        | createUserTask bootstrap name entry =>
            exact ⟨_, schedulerCreateUserTask_effect bootstrap k name entry⟩
        | tick | yield | syscall => cases creation
      obtain ⟨result, effect⟩ := effect
      exact none s (effect.running_before running)

/-- From the moment that `scheduler_start` found a task: exactly one task runs, it is the
current one, the TSS holds its stack, and no task that was created is lost. -/
theorem one_task_runs (k : Kernel) (creations events : List Event)
    (only : ∀ e ∈ creations, e.isCreation = true)
    (made : createdIn (schedulerInit k) creations ≠ []) :
    (∃ c, OneRuns (run (schedulerStart (run (schedulerInit k) creations)).2 events) c) ∧
      ∀ task ∈ createdIn (schedulerInit k) creations ++
          createdIn (schedulerStart (run (schedulerInit k) creations)).2 events,
        (run (schedulerStart (run (schedulerInit k) creations)).2 events).Holds task := by
  constructor
  · obtain ⟨first, rest, split⟩ := List.exists_cons_of_ne_nil made
    have holds : (run (schedulerInit k) creations).Holds first :=
      created_stays _ _ (by rw [split]; exact List.mem_cons_self)
    have idle := creations_not_running only (init_not_running k) first.1
    have ready : (run (schedulerInit k) creations).states first.1 = .ready :=
      holds.1.resolve_right idle
    obtain ⟨c, one⟩ := start_oneRuns ready
    exact one.run events
  · intro task member
    obtain before | after := List.mem_append.mp member
    · exact ((created_stays _ _ before).start).run events
    · exact created_stays _ _ after

/-- The shell and a user task it created, after a tick. -/
theorem shell_and_user_task_run :
    (∃ c, OneRuns (run (schedulerStart (run (schedulerInit (bootKernel fun _ => 0))
        [.createTask [] 0x100000])).2 [.createUserTask 0x101000 [] 0x102000, .tick]) c) ∧
      ∀ task ∈ createdIn (schedulerInit (bootKernel fun _ => 0)) [.createTask [] 0x100000] ++
          createdIn (schedulerStart (run (schedulerInit (bootKernel fun _ => 0))
            [.createTask [] 0x100000])).2 [.createUserTask 0x101000 [] 0x102000, .tick],
        (run (schedulerStart (run (schedulerInit (bootKernel fun _ => 0))
          [.createTask [] 0x100000])).2 [.createUserTask 0x101000 [] 0x102000, .tick]).Holds task :=
  one_task_runs (bootKernel fun _ => 0) [.createTask [] 0x100000]
    [.createUserTask 0x101000 [] 0x102000, .tick] (by simp [Event.isCreation])
    (by decide +kernel)

theorem start_idle {k : Kernel} (idle : ∀ s, k.states s ≠ .ready) :
    (schedulerStart k).2.currentTaskId = none := by
  have effect := schedulerStart_effect k
  cases entered : (schedulerStart k).1 with
  | none =>
      rw [entered] at effect
      rw [effect.unentered.2]
  | some next =>
      rw [entered] at effect
      exact absurd effect.ready (idle next)

/-- A creation that fails makes no task ready. -/
theorem CreateEffect.idle {k k' : Kernel} {result : Int} (effect : CreateEffect k result k')
    (failed : result = -1) (idle : ∀ s, k.states s ≠ .ready) (s : Slot) : k'.states s ≠ .ready := by
  cases effect with
  | full => exact idle s
  | @fails _ slot _ _ states =>
      rw [states]
      by_cases chosen : s = slot
      · simp [chosen]
      · rw [Function.update_of_ne chosen]
        exact idle s
  | creates => omega

theorem createTask_no_stack {k : Kernel} (none : (allocKernelStack k.pmmBitmap).1 = none)
    (name : List UInt8) (entry : Nat) : (schedulerCreateTask k name entry).1 = -1 := by
  simp only [schedulerCreateTask]
  split
  · rfl
  · split
    · rfl
    · next stack =>
        rw [stack] at none
        cases none

theorem nothing_runs {k : Kernel} (idle : ∀ s, k.states s ≠ .ready)
    (none : (allocKernelStack k.pmmBitmap).1 = none) (name : List UInt8) (entry : Nat) :
    ¬ ∃ c, OneRuns (schedulerStart (run k [.createTask name entry])).2 c := by
  have failed :=
    (schedulerCreateTask_effect k name entry).idle (createTask_no_stack none name entry)
    idle
  rintro ⟨c, one⟩
  have current := one.current.symm.trans (start_idle failed)
  cases current

theorem full_memory : allocKernelStack (fun _ => 0xFF) = (none, fun _ => 0xFF) := by
  have noPage : pmmAllocPage (fun _ => 0xFF) = (none, fun _ => 0xFF) := by
    refine pmmAllocPage_none fun i _ => ?_
    rw [bitmapTest_eq]
    have bits := Nat.testBit_two_pow_sub_one 8 (i % 8)
    rwa [decide_eq_true (Nat.mod_lt i (by decide))] at bits
  rw [allocKernelStack, noPage]

/-- Without memory for the shell's stack, no task runs after `scheduler_start`. -/
theorem nothing_runs_without_memory :
    ¬ ∃ c, OneRuns (schedulerStart (run (schedulerInit (bootKernel fun _ => 0xFF))
      [.createTask [] 0x100000])).2 c := by
  have bitmap : (schedulerInit (bootKernel fun _ => 0xFF)).pmmBitmap = fun _ => 0xFF := rfl
  refine nothing_runs (fun s => ?_) ?_ [] 0x100000
  · simp [schedulerInit, Kernel.states]
  · rw [bitmap, full_memory]

end XosKernel.Sched
