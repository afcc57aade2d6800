/-
# Sched.Exit -- a task that exits stays

`SYS_EXIT` is meant to mark the task as dead, but it only yields.  A slot that is ready or
running stays one of the two along every run (`Alive.run`), so no creation can ever take the
slot of a task that exited; and the round robin comes back to every ready slot
(`comes_back`), so the task is switched to again (`exit_keeps_slot`).
-/
import XosKernel.Sched.Runs

namespace XosKernel.Sched

open XosKernel.Theory XosKernel.Mm

set_option autoImplicit false

/-! ## The current task is running -/

theorem TickEffect.running {k k' : Kernel} {sw : Option Switch} (effect : TickEffect k sw k')
    (running : ∀ c, k.currentTaskId = some c → k.states c = .running) {c : Slot}
    (current : k'.currentTaskId = some c) : k'.states c = .running := by
  cases effect with
  | stays _ same states => rw [states]; exact running c (same ▸ current)
  | starts _ _ next states =>
      rw [next] at current
      cases current
      rw [states, Function.update_self]
  | switches _ _ _ next states =>
      rw [next] at current
      cases current
      rw [states, Function.update_self]

theorem CreateEffect.states_of_taken {k k' : Kernel} {result : Int}
    (effect : CreateEffect k result k') {c : Slot} (taken : ¬ k.Available c) :
    k'.states c = k.states c := by
  cases effect with
  | full => rfl
  | fails free _ states | creates free _ states =>
      rw [states, Function.update_of_ne]
      rintro rfl
      exact taken (available_of_freeSlot free)

/-- A creation lets nothing run. -/
theorem CreateEffect.running_before {k k' : Kernel} {result : Int}
    (effect : CreateEffect k result k') {s : Slot} (running : k'.states s = .running) :
    k.states s = .running := by
  cases effect with
  | full => exact running
  | @fails _ slot _ _ states | @creates _ slot _ _ states =>
      rw [states] at running
      by_cases chosen : s = slot
      · simp [chosen] at running
      · rwa [Function.update_of_ne chosen] at running

theorem CreateEffect.current {k k' : Kernel} {result : Int} (effect : CreateEffect k result k') :
    k'.currentTaskId = k.currentTaskId := by
  cases effect with
  | full => rfl
  | fails _ current _ | creates _ current _ => exact current

theorem not_available_of_running {k : Kernel} {c : Slot} (running : k.states c = .running) :
    ¬ k.Available c := by
  unfold Kernel.Available
  simp [running]

/-- Whatever happens to the scheduler, the current task is marked as running. -/
theorem Reachable.running {k : Kernel} (reach : Reachable k) :
    ∀ c, k.currentTaskId = some c → k.states c = .running := by
  induction reach with
  | init k => intro c current; cases current
  | start => intro c current; exact (schedulerStart_effect _).running current
  | @step k _ event ih =>
      intro c current
      obtain effect | ⟨result, effect⟩ | same := step_cases k event
      · exact effect.running ih current
      · have running := ih c (effect.current ▸ current)
        rw [effect.states_of_taken (not_available_of_running running), running]
      · rw [same] at current ⊢
        exact ih c current

/-! ## A slot that is alive stays so -/

/-- The slot holds a task that runs or waits for its turn. -/
def Kernel.Alive (k : Kernel) (slot : Slot) : Prop :=
  k.states slot = .ready ∨ k.states slot = .running

theorem Kernel.Alive.not_available {k : Kernel} {c : Slot} (alive : k.Alive c) :
    ¬ k.Available c := by
  obtain ready | running := alive
  · unfold Kernel.Available
    simp [ready]
  · exact not_available_of_running running

/-- `scheduler_start` passes a task from ready to running or back. -/
theorem StartEffect.alive_iff {k k' : Kernel} {entered : Option Slot}
    (effect : StartEffect k entered k') (s : Slot) : k'.Alive s ↔ k.Alive s := by
  cases entered with
  | none =>
      rw [effect.unentered.2]
      exact Iff.rfl
  | some next =>
      unfold Kernel.Alive
      rw [effect.states, stateAfterStart]
      by_cases now : s = next
      · rw [if_pos now, now]
        exact iff_of_true (.inr rfl) (.inl effect.ready)
      · rw [if_neg now]
        by_cases was : k.states s = .running
        · rw [if_pos was]
          exact iff_of_true (.inl rfl) (.inr was)
        · rw [if_neg was]

theorem TickEffect.alive {k k' : Kernel} {sw : Option Switch} (effect : TickEffect k sw k')
    {c : Slot} (alive : k.Alive c) : k'.Alive c := by
  unfold Kernel.Alive at *
  cases effect with
  | stays _ _ states => rwa [states]
  | @starts _ next _ _ _ states =>
      rw [states]
      by_cases same : c = next
      · simp [same]
      · rwa [Function.update_of_ne same]
  | @switches _ old next _ _ _ _ states =>
      rw [states]
      by_cases same : c = next
      · simp [same]
      · rw [Function.update_of_ne same]
        by_cases same' : c = old
        · simp [same']
        · rwa [Function.update_of_ne same']

theorem Kernel.Alive.step {k : Kernel} {c : Slot} (alive : k.Alive c) (event : Event) :
    (step k event).2.Alive c := by
  obtain effect | ⟨result, effect⟩ | same := step_cases k event
  · exact effect.alive alive
  · unfold Kernel.Alive
    rwa [effect.states_of_taken alive.not_available]
  · rwa [same]

theorem Kernel.Alive.run {k : Kernel} {c : Slot} (alive : k.Alive c) (events : List Event) :
    (run k events).Alive c := by
  induction events generalizing k with
  | nil => exact alive
  | cons event rest ih => exact ih (alive.step event)

/-! ## The round robin comes back -/

/-- While another slot is ready, a tick switches, and at most as far as that slot. -/
theorem tick_switches {k : Kernel} {current c : Slot} (running : k.currentTaskId = some current)
    (other : c ≠ current) (ready : k.states c = .ready) :
    ∃ next, (schedulerTick k).1 = some ⟨current, next⟩ ∧
      (schedulerTick k).2.currentTaskId = some next ∧
      (schedulerTick k).2.states =
        Function.update (Function.update k.states current .ready) next .running ∧
      Cyclic.ahead (current + 1) next ≤ Cyclic.ahead (current + 1) c := by
  have holds : (k.states c == .ready) = true := by simp [ready]
  obtain ⟨nearest, found, -, near⟩ := Cyclic.firstFrom_of_holds (searchStart (some current))
    (p := fun idx => k.states idx == .ready) holds
  rw [← running, ← findNextReadyTask_eq] at found
  have moves : nearest ≠ current := by
    rintro rfl
    exact absurd (Cyclic.ahead_lt_of_ne other) (Nat.not_lt.mpr near)
  have effect := schedulerTick_effect k
  generalize schedulerTick k = after at effect
  obtain ⟨sw, k'⟩ := after
  cases effect with
  | stays idle =>
      have stuck := idle nearest found
      rw [running] at stuck
      exact absurd (Option.some.inj stuck).symm moves
  | starts _ idle =>
      rw [running] at idle
      cases idle
  | switches found' previous _ next states =>
      rw [running] at previous
      rw [found] at found'
      cases previous
      cases found'
      exact ⟨nearest, rfl, next, states, near⟩

/-- In no run from here is the slot switched to. -/
def NeverSwitchedTo (k : Kernel) (slot : Slot) : Prop :=
  ∀ events, ∀ sw ∈ switches k events, sw.next ≠ slot

/-- In some run from here a creation may take the slot. -/
def ComesFree (k : Kernel) (slot : Slot) : Prop :=
  ∃ events, (run k events).Available slot

/-- The round robin comes back to a ready slot: each tick before gets nearer to it. -/
theorem comes_back {k : Kernel} {current c : Slot} (running : k.currentTaskId = some current)
    (other : c ≠ current) (ready : k.states c = .ready) : ¬ NeverSwitchedTo k c := by
  intro never
  induction way : Cyclic.ahead (current + 1) c using Nat.strong_induction_on
    generalizing k current with
  | _ steps ih =>
      obtain ⟨next, switched, running', states, near⟩ := tick_switches running other ready
      have elsewhere : next ≠ c :=
        never [.tick] ⟨current, next⟩ (by simp [switches, step, switched])
      have closer : Cyclic.ahead (current + 1) next < Cyclic.ahead (current + 1) c :=
        Nat.lt_of_le_of_ne near fun same => elsewhere (Cyclic.ahead_inj same)
      have ready' : (schedulerTick k).2.states c = .ready := by
        rw [states, Function.update_of_ne elsewhere.symm, Function.update_of_ne other, ready]
      refine ih _ (way ▸ Cyclic.ahead_succ_lt closer) running' elsewhere.symm ready' ?_ rfl
      intro events sw member
      exact never (.tick :: events) sw (List.mem_append_right _ member)

/-! ## `SYS_EXIT` -/

/-- A task that exits keeps its slot in every later run, and it does not stop: either no other
task was ready and it goes on at once, or some later run switches to it again. -/
theorem exit_keeps_slot {k : Kernel} {c : Slot} (reach : Reachable k)
    (issuer : k.currentTaskId = some c) :
    ¬ ComesFree (step k (.syscall sysExit)).2 c ∧
      ((step k (.syscall sysExit)).2.currentTaskId = some c ∨
        ¬ NeverSwitchedTo (step k (.syscall sysExit)).2 c) := by
  have running : k.states c = .running := reach.running c issuer
  have alive : k.Alive c := .inr running
  refine ⟨fun ⟨events, free⟩ => ((alive.step _).run events).not_available free, ?_⟩
  have exits : (step k (.syscall sysExit)).2 = (schedulerTick k).2 := rfl
  rw [exits]
  have effect := schedulerTick_effect k
  generalize schedulerTick k = after at effect
  obtain ⟨sw, k'⟩ := after
  cases effect with
  | stays _ current => exact .inl (current.trans issuer)
  | starts _ idle =>
      rw [issuer] at idle
      cases idle
  | switches _ previous other current states =>
      rw [issuer] at previous
      cases previous
      have ready : k'.states c = .ready := by
        rw [states, Function.update_of_ne other, Function.update_self]
      exact .inr (comes_back current other ready)

/-- The shell has created a user task and yielded to it: slot 1 is about to exit. -/
def userTaskRuns : Kernel :=
  run (kernelMain (fun _ => 0) 0x100000) [.createUserTask 0x101000 [] 0x102000, .yield]

theorem userTaskRuns_reachable : Reachable userTaskRuns :=
  (kernelMain_reachable _ _).run _

theorem exited_user_task_keeps_slot :
    ¬ ComesFree (step userTaskRuns (.syscall sysExit)).2 1 ∧
      ((step userTaskRuns (.syscall sysExit)).2.currentTaskId = some 1 ∨
        ¬ NeverSwitchedTo (step userTaskRuns (.syscall sysExit)).2 1) :=
  exit_keeps_slot userTaskRuns_reachable (by decide +kernel)

/-- The shell's next timer tick switches to the task that exited. -/
theorem exited_task_runs_again :
    Reachable userTaskRuns ∧ userTaskRuns.currentTaskId = some 1 ∧
      ¬ (NeverSwitchedTo (step userTaskRuns (.syscall sysExit)).2 1 ∧
        ComesFree (step userTaskRuns (.syscall sysExit)).2 1) := by
  refine ⟨userTaskRuns_reachable, by decide +kernel, fun ⟨never, _⟩ => ?_⟩
  exact never [.tick] ⟨0, 1⟩ (by decide +kernel) rfl

end XosKernel.Sched
