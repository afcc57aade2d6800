/-
# Sched.EarlyTicks -- ticks before `scheduler_start`

The first timer tick that finds a task marks the one in the lowest slot as running while
`kernel_main` goes on; from then on `kernel_main` is what the scheduler takes for that task.  The
following ticks pass the mark on, round the tasks that exist by then (`Round`), and switch: away
from `kernel_main`, and back to it when the mark comes round to the lowest slot (`Early`).
`scheduler_start` looks for a ready task before it makes the marked one ready again.  So whenever
`kernel_main` comes to call it after such a tick, it misses the task in the lowest slot, and finds
no task if there is no other (`starts_lowest_iff`).
-/
import XosKernel.Sched.OneRunning

namespace XosKernel.Sched

open XosKernel.Theory XosKernel.Mm

set_option autoImplicit false

/-! ## Runs before `scheduler_start` -/

/-- Every event is a tick or a creation that succeeds. -/
def EarlyRun (k : Kernel) : List Event → Prop
  | [] => True
  | event :: rest =>
      (event = .tick ∨ event.isCreation = true ∧ createdBy k event ≠ none) ∧
        EarlyRun (step k event).2 rest

/-- How many tasks there are, and the place of the one that the last tick marked. -/
structure Round where
  count : Nat
  marked : Option Nat
  deriving DecidableEq

/-- A creation adds a task behind the others, a tick goes on to the next task. -/
def Round.next (r : Round) (event : Event) : Round :=
  if event.isCreation then { r with count := r.count + 1 }
  else if r.count = 0 then r
  else
    match r.marked with
    | none => { r with marked := some 0 }
    | some place => { r with marked := some ((place + 1) % r.count) }

theorem Round.next_tick (r : Round) :
    r.next .tick = if r.count = 0 then r else
      match r.marked with
      | none => { r with marked := some 0 }
      | some place => { r with marked := some ((place + 1) % r.count) } := rfl

/-- If a task was created, `scheduler_start` starts the one in the lowest slot: it is the only
running one afterwards, and all others that were created are ready. -/
def StartsLowest (k : Kernel) (made : List (Slot × Nat)) : Prop :=
  made ≠ [] → ∃ first ∈ made, (∀ task ∈ made, first.1 ≤ task.1) ∧
    (schedulerStart k).1 = some first.1 ∧
    (∀ s, (schedulerStart k).2.states s = .running ↔ s = first.1) ∧
    ∀ task ∈ made, task.1 ≠ first.1 → (schedulerStart k).2.states task.1 = .ready

/-! ## Who executes -/

/-- Whose registers the CPU or a context holds: those of `kernel_main`, or those of the task that
was created in a slot. -/
inductive Thread where
  | kernelMain
  | task (slot : Slot)
  deriving DecidableEq

/-- The table, the thread that executes, and the threads whose registers are in the contexts of
the table. -/
structure Early where
  kernel : Kernel
  thread : Thread
  contexts : Slot → Thread

namespace Early

/-- `context_switch`: the registers go to the context of the old slot, and those of the next
slot's context are loaded. -/
def contextSwitch (e : Early) (switch : Switch) : Early :=
  let contexts := Function.update e.contexts switch.old e.thread
  { e with thread := contexts switch.next, contexts := contexts }

/-- The thread that executes creates tasks, and the timer calls `scheduler_tick`.  A creation that
succeeds leaves a context from which the new task starts. -/
def next (e : Early) (event : Event) : Early :=
  let r := step e.kernel event
  let contexts := match createdBy e.kernel event with
    | none => e.contexts
    | some task => Function.update e.contexts task.1 (.task task.1)
  let e := { e with kernel := r.2, contexts := contexts }
  match r.1 with
  | none => e
  | some switch => e.contextSwitch switch

/-- Behind `scheduler_init`: `kernel_main` executes, and no context is of a task. -/
def init (k : Kernel) (contexts : Slot → Thread) : Early where
  kernel := schedulerInit k
  thread := .kernelMain
  contexts := contexts

def run (e : Early) (events : List Event) : Early := events.foldl next e

@[simp] theorem next_kernel (e : Early) (event : Event) :
    (e.next event).kernel = (step e.kernel event).2 := by
  unfold next
  dsimp only
  split <;> rfl

end Early

/-- Behind the first creation comes no tick. -/
def TicksFirst (events : List Event) : Prop :=
  ∀ e ∈ events.dropWhile (fun event => !event.isCreation), e.isCreation = true

instance (events : List Event) : Decidable (TicksFirst events) :=
  inferInstanceAs (Decidable (∀ e ∈ _, _))

/-! ## The table follows the round -/

/-- The tasks fill the first slots, and the marked one is the current one. -/
structure Round.Shown (r : Round) (k : Kernel) : Prop where
  bound : r.count ≤ maxTasks
  marked : ∀ place ∈ r.marked, place < r.count
  current : k.currentTaskId.map Fin.val = r.marked
  states : ∀ s : Slot, k.states s =
    if s.val < r.count then if r.marked = some s.val then .running else .ready else .unused

theorem shown_init (k : Kernel) : Round.Shown ⟨0, none⟩ (schedulerInit k) where
  bound := Nat.zero_le _
  marked := by simp
  current := rfl
  states _ := rfl

/-- How far a slot is behind the one after `c`. -/
theorem ahead_next (c s : Slot) :
    Cyclic.ahead (c + 1) s = if c.val < s.val then s.val - c.val - 1 else s.val + 7 - c.val := by
  have here : c.val < 8 := c.isLt
  have there : s.val < 8 := s.isLt
  simp only [Cyclic.ahead, Fin.sub_def, Fin.val_add, Fin.val_one, maxTasks]
  split <;> omega

section Shown

variable {r : Round} {k : Kernel} (shown : r.Shown k)
include shown

/-- A slot is ready if it holds a task that is not marked. -/
theorem Round.Shown.ready_iff (s : Slot) :
    k.states s = .ready ↔ s.val < r.count ∧ r.marked ≠ some s.val := by
  rw [shown.states s]
  split
  · split
    · next is => simp [is]
    · next below other => simp [below, other]
  · next above => simp [above]

theorem Round.Shown.unused_iff (s : Slot) : k.states s = .unused ↔ r.count ≤ s.val := by
  rw [shown.states s]
  split
  · next below =>
      refine iff_of_false ?_ (Nat.not_le.mpr below)
      split <;> simp
  · next above => simp [Nat.not_lt.mp above]

theorem Round.Shown.available_iff (s : Slot) : k.Available s ↔ r.count ≤ s.val := by
  rw [← shown.unused_iff]
  refine ⟨?_, .inl⟩
  rintro (unused | dead)
  · exact unused
  · rw [shown.states s] at dead
    split at dead
    · split at dead <;> cases dead
    · cases dead

/-- A new task goes behind the others. -/
theorem Round.Shown.freeSlot_eq {slot : Slot} (free : freeSlot k = some slot) :
    slot.val = r.count := by
  rw [freeSlot, ← Fin.find?_eq_find?_finRange, Fin.find?_eq_some_iff] at free
  have behind := (shown.available_iff slot).mp (by
    simpa [Kernel.Available, Kernel.states, Task.isFree] using free.1)
  by_contra other
  have room : r.count < maxTasks := by omega
  have earlier := free.2 ⟨r.count, room⟩ (by rw [Fin.lt_def]; show r.count < slot.val; omega)
  have unused := (shown.unused_iff ⟨r.count, room⟩).mpr (Nat.le_refl _)
  rw [Task.isFree, show (k.tasks ⟨r.count, room⟩).state = .unused from unused] at earlier
  cases earlier

/-- A creation that succeeds. -/
theorem Round.Shown.create {result : Int} {k' : Kernel} (effect : CreateEffect k result k')
    {task : Slot × Nat} (made : madeTask k result = some task) :
    task.1.val = r.count ∧ Round.Shown { r with count := r.count + 1 } k' := by
  cases effect with
  | full => simp [madeTask] at made
  | fails => simp [madeTask] at made
  | @creates _ slot free current states =>
      have place := shown.freeSlot_eq free
      have isSlot : task.1 = slot := by
        rw [madeTask, if_neg (show (k.nextTaskId : Int) ≠ -1 by omega), free] at made
        cases made
        rfl
      refine ⟨isSlot ▸ place, ?_, ?_, ?_, fun s => ?_⟩
      · show r.count + 1 ≤ maxTasks
        have := slot.isLt
        omega
      · exact fun p is => Nat.lt_succ_of_lt (shown.marked p is)
      · exact (congrArg _ current).trans shown.current
      · rw [states]
        by_cases same : s = slot
        · subst same
          have unmarked : r.marked ≠ some s.val := fun is => by
            have := shown.marked _ is
            omega
          rw [Function.update_self, if_pos (show s.val < r.count + 1 by omega), if_neg unmarked]
        · have other : s.val ≠ r.count := fun is => same (Fin.ext (is.trans place.symm))
          rw [Function.update_of_ne same, shown.states s]
          simp only [show s.val < r.count + 1 ↔ s.val < r.count by omega]

/-- The search of a tick stops at the first task that is not marked. -/
theorem Round.Shown.finds (target : Slot) (place : target.val < r.count)
    (unmarked : r.marked ≠ some target.val)
    (between : ∀ s : Slot, Cyclic.ahead (searchStart k.currentTaskId) s <
      Cyclic.ahead (searchStart k.currentTaskId) target →
        s.val < r.count → r.marked = some s.val) :
    findNextReadyTask k = some target := by
  rw [findNextReadyTask_eq, Cyclic.firstFrom_eq_some]
  refine ⟨beq_iff_eq.mpr ((shown.ready_iff target).mpr ⟨place, unmarked⟩), fun s closer => ?_⟩
  rw [beq_eq_false_iff_ne]
  intro ready
  obtain ⟨below, other⟩ := (shown.ready_iff s).mp ready
  exact other (between s closer below)

/-- With no task, or with only the marked one, there is nothing to go on to. -/
theorem Round.Shown.finds_none (none_ : ∀ s : Slot, s.val < r.count → r.marked = some s.val) :
    findNextReadyTask k = none := by
  rw [findNextReadyTask_eq, Cyclic.firstFrom_eq_none]
  intro s
  rw [beq_eq_false_iff_ne]
  intro ready
  obtain ⟨below, other⟩ := (shown.ready_iff s).mp ready
  exact other (none_ s below)

/-- The mark of no task, or of one, goes to the next. -/
theorem Round.Shown.mark {k' : Kernel} (target : Slot) (place : target.val < r.count)
    (current : k'.currentTaskId = some target)
    (states : ∀ s : Slot, s ≠ target → k'.states s =
      if r.marked = some s.val then .ready else k.states s)
    (running : k'.states target = .running) :
    Round.Shown { r with marked := some target.val } k' := by
  refine ⟨shown.bound, ?_, by rw [current]; rfl, fun s => ?_⟩
  · rintro p ⟨⟩
    exact place
  · by_cases same : s = target
    · subst same
      rw [running, if_pos place, if_pos rfl]
    · have other : (some target.val : Option Nat) ≠ some s.val := fun is =>
        same (Fin.ext (Option.some.inj is).symm)
      rw [states s same, if_neg other]
      by_cases marked : r.marked = some s.val
      · rw [if_pos marked, if_pos (shown.marked _ marked)]
      · rw [if_neg marked, shown.states s, if_neg marked]

/-- With no task marked the search finds the first one. -/
theorem Round.Shown.finds_first (some_ : 0 < r.count) (marked : r.marked = none) :
    findNextReadyTask k = some 0 := by
  have idle : k.currentTaskId = none := by
    have current := shown.current
    rw [marked, Option.map_eq_none_iff] at current
    exact current
  refine shown.finds 0 some_ (by rw [marked]; simp) fun s closer _ => ?_
  rw [idle] at closer
  simp [Cyclic.ahead, searchStart] at closer

/-- With one marked it finds the next of the others. -/
theorem Round.Shown.finds_next {c : Nat} (marked : r.marked = some c) (others : r.count ≠ 1) :
    ∃ target : Slot, findNextReadyTask k = some target ∧ target.val = (c + 1) % r.count ∧
      target.val < r.count ∧ r.marked ≠ some target.val := by
  have bound := shown.bound
  have below := shown.marked c marked
  obtain ⟨current, started, is⟩ : ∃ slot : Slot, k.currentTaskId = some slot ∧ slot.val = c := by
    rw [← Option.map_eq_some_iff, shown.current, marked]
  have target : (c + 1) % r.count < r.count := Nat.mod_lt _ (by omega)
  have wraps : (c + 1) % r.count = c + 1 ∨ c + 1 = r.count ∧ (c + 1) % r.count = 0 := by
    by_cases last : c + 1 = r.count
    · exact .inr ⟨last, by rw [last, Nat.mod_self]⟩
    · exact .inl (Nat.mod_eq_of_lt (by omega))
  have unmarked : r.marked ≠ some ((c + 1) % r.count) := by
    rw [marked, ne_eq, Option.some.injEq]
    omega
  refine ⟨⟨(c + 1) % r.count, by omega⟩, shown.finds _ target unmarked fun s closer low => ?_,
    rfl, target, unmarked⟩
  rw [started, searchStart, ahead_next, ahead_next, is] at closer
  rw [marked, Option.some.injEq]
  have eight : maxTasks = 8 := rfl
  dsimp only at closer
  split at closer <;> split at closer <;> omega

/-- Where nothing is found a tick leaves the round. -/
theorem Round.Shown.tick_stays {sw : Option Switch} {k' : Kernel} (effect : TickEffect k sw k')
    (none_ : findNextReadyTask k = none) : r.Shown k' := by
  cases effect with
  | stays _ current states =>
      refine ⟨shown.bound, shown.marked, ?_, fun s => ?_⟩
      · exact (congrArg _ current).trans shown.current
      · exact (congrFun states s).trans (shown.states s)
  | starts found | switches found =>
      rw [none_] at found
      cases found

/-- A tick marks the task that is found. -/
theorem Round.Shown.tick_goes {sw : Option Switch} {k' : Kernel} (effect : TickEffect k sw k')
    {target : Slot} (found : findNextReadyTask k = some target) (place : target.val < r.count)
    (unmarked : r.marked ≠ some target.val) :
    Round.Shown { r with marked := some target.val } k' := by
  cases effect with
  | stays idle =>
      have marked := shown.current
      rw [idle target found] at marked
      exact absurd marked.symm unmarked
  | @starts _ next found' idle current states =>
      obtain rfl : target = next := Option.some.inj (found.symm.trans found')
      have marked : r.marked = none := by
        rw [← shown.current, idle]
        rfl
      refine shown.mark target place current (fun s other => ?_) ?_
      · rw [states, Function.update_of_ne other, marked, if_neg (by simp)]
      · rw [states, Function.update_self]
  | @switches _ old next found' previous _ current states =>
      obtain rfl : target = next := Option.some.inj (found.symm.trans found')
      have marked : r.marked = some old.val := by
        rw [← shown.current, previous]
        rfl
      refine shown.mark target place current (fun s other => ?_) ?_
      · rw [states, Function.update_of_ne other, marked]
        by_cases before : s = old
        · rw [before, Function.update_self, if_pos rfl]
        · rw [Function.update_of_ne before, if_neg]
          exact fun is => before (Fin.ext (Option.some.inj is).symm)
      · rw [states, Function.update_self]

/-- A tick goes on to the next task. -/
theorem Round.Shown.tick : (r.next .tick).Shown (schedulerTick k).2 := by
  have effect := schedulerTick_effect k
  have next_ := r.next_tick
  by_cases empty : r.count = 0
  · rw [next_, if_pos empty]
    exact shown.tick_stays effect (shown.finds_none fun s below => by omega)
  rw [if_neg empty] at next_
  cases marked : r.marked with
  | none =>
      rw [next_, marked]
      have some_ : 0 < r.count := Nat.pos_of_ne_zero empty
      exact shown.tick_goes effect (shown.finds_first some_ marked) some_ (by rw [marked]; simp)
  | some c =>
      rw [next_, marked]
      by_cases alone : r.count = 1
      · have below := shown.marked c marked
        have same : ({ r with marked := some ((c + 1) % r.count) } : Round) = r := by
          rw [alone, Nat.mod_one, show (0 : Nat) = c by omega, ← marked, ← alone]
        dsimp only
        rw [same]
        refine shown.tick_stays effect (shown.finds_none fun s low => ?_)
        rw [marked, show s.val = c by omega]
      · obtain ⟨target, found, place, low, unmarked⟩ := shown.finds_next marked alone
        dsimp only
        rw [← place]
        exact shown.tick_goes effect found low unmarked

end Shown

/-! ## The threads follow the round -/

/-- Which thread the scheduler has for the task of a slot. -/
def Round.holder (r : Round) (s : Slot) : Thread :=
  if r.marked ≠ none ∧ s = 0 then .kernelMain else .task s

/-- Without a mark `kernel_main` executes, else the thread of the marked slot; the others wait in
their contexts. -/
structure Round.Threads (r : Round) (e : Early) : Prop where
  unmarked : r.marked = none → e.thread = .kernelMain
  marked : ∀ s : Slot, r.marked = some s.val → e.thread = r.holder s
  waiting : ∀ s : Slot, s.val < r.count → r.marked ≠ some s.val → e.contexts s = r.holder s

/-- A tick makes no task. -/
@[simp] theorem Round.next_tick_count (r : Round) : (r.next .tick).count = r.count := by
  rw [next_tick]
  split
  · rfl
  · split <;> rfl

theorem Round.Threads.tick {r : Round} {e : Early} (threads : r.Threads e)
    (shown : r.Shown e.kernel) : (r.next .tick).Threads (e.next .tick) := by
  have effect := schedulerTick_effect e.kernel
  have current' := shown.tick.current
  have current := shown.current
  have count := r.next_tick_count
  generalize after : r.next .tick = r' at current' count
  have step_ : e.next .tick = match (schedulerTick e.kernel).1 with
      | none => { e with kernel := (schedulerTick e.kernel).2 }
      | some switch =>
          ({ e with kernel := (schedulerTick e.kernel).2 } : Early).contextSwitch switch := rfl
  rw [step_]
  generalize schedulerTick e.kernel = result at effect current'
  obtain ⟨sw, k'⟩ := result
  dsimp only at effect current' ⊢
  cases effect with
  | stays _ same =>
      have marked : r'.marked = r.marked := by rw [← current', same, current]
      obtain rfl : r' = r := by
        cases r'
        cases r
        cases count
        cases marked
        rfl
      exact ⟨threads.unmarked, threads.marked, threads.waiting⟩
  | @starts _ next found idle now =>
      have unmarked : r.marked = none := by rw [← current, idle, Option.map_none]
      have marked : r'.marked = some next.val := by rw [← current', now, Option.map_some]
      have some_ : 0 < r.count :=
        Nat.zero_lt_of_lt ((shown.ready_iff next).mp (found_ready found)).1
      obtain rfl : next = 0 :=
        Option.some.inj (found.symm.trans (shown.finds_first some_ unmarked))
      refine ⟨fun none_ => threads.unmarked unmarked, fun s is => ?_, fun s below other => ?_⟩
      · have first : s = 0 := Fin.ext (Option.some.inj (is.symm.trans marked))
        rw [Round.holder, if_pos ⟨by rw [marked]; exact Option.some_ne_none _, first⟩]
        exact threads.unmarked unmarked
      · have behind : s ≠ 0 := fun first => other (by rw [marked, first])
        rw [Round.holder, if_neg fun both => behind both.2]
        have waits := threads.waiting s (count ▸ below) (by rw [unmarked]; exact fun no => by cases no)
        rwa [Round.holder, if_neg fun both => behind both.2] at waits
  | @switches _ old next found previous other now =>
      have before : r.marked = some old.val := by rw [← current, previous, Option.map_some]
      have marked : r'.marked = some next.val := by rw [← current', now, Option.map_some]
      have holder : ∀ s, r'.holder s = r.holder s := by
        intro s
        simp [Round.holder, marked, before]
      obtain ⟨below, unmarked⟩ := (shown.ready_iff next).mp (found_ready found)
      refine ⟨fun none_ => ?_, fun s is => ?_, fun s low apart => ?_⟩
      · rw [marked] at none_
        cases none_
      · obtain rfl : s = next := Fin.ext (Option.some.inj (is.symm.trans marked))
        rw [holder, ← threads.waiting s below unmarked]
        exact Function.update_of_ne (Ne.symm other) _ _
      · rw [holder]
        show Function.update e.contexts old e.thread s = _
        by_cases left : s = old
        · subst left
          rw [Function.update_self]
          exact threads.marked s before
        · rw [Function.update_of_ne left]
          refine threads.waiting s (count ▸ low) fun is => left ?_
          exact Fin.ext (Option.some.inj (is.symm.trans before))

theorem Round.Threads.create {r : Round} {e : Early} (threads : r.Threads e)
    (shown : r.Shown e.kernel) {event : Event} (creation : event.isCreation = true)
    {task : Slot × Nat} (made : createdBy e.kernel event = some task)
    (place : task.1.val = r.count) : (r.next event).Threads (e.next event) := by
  have switchless : (step e.kernel event).1 = none := by
    cases event <;> first | rfl | cases creation
  have after : e.next event =
      { kernel := (step e.kernel event).2, thread := e.thread
        contexts := Function.update e.contexts task.1 (.task task.1) } := by
    rw [Early.next, made]
    dsimp only
    rw [switchless]
  rw [after, Round.next, if_pos creation]
  refine ⟨threads.unmarked, threads.marked, fun s below unmarked => ?_⟩
  show Function.update e.contexts task.1 (.task task.1) s = r.holder s
  by_cases new : s = task.1
  · subst new
    have last : ¬(r.marked ≠ none ∧ task.1 = 0) := by
      rintro ⟨marked, first⟩
      obtain ⟨c, is⟩ := Option.ne_none_iff_exists'.mp marked
      have low := shown.marked c is
      rw [first] at place
      rw [← place] at low
      exact absurd low (Nat.not_lt_zero c)
    rw [Function.update_self, Round.holder, if_neg last]
  · rw [Function.update_of_ne new]
    have other : s.val ≠ r.count := fun same => new (Fin.ext (same.trans place.symm))
    exact threads.waiting s (Nat.lt_of_le_of_ne (Nat.le_of_lt_succ below) other) unmarked

/-- The table and the threads after a run, and the slots of the tasks that it created. -/
theorem Round.Shown.run {r : Round} {e : Early} (shown : r.Shown e.kernel) (threads : r.Threads e)
    {events : List Event} (early : EarlyRun e.kernel events) :
    (events.foldl Round.next r).Shown (e.run events).kernel ∧
      (events.foldl Round.next r).Threads (e.run events) ∧
      ∃ n, (events.foldl Round.next r).count = r.count + n ∧
        (createdIn e.kernel events).map (fun task => task.1.val) = List.range' r.count n := by
  induction events generalizing r e with
  | nil => exact ⟨shown, threads, 0, rfl, rfl⟩
  | cons event rest ih =>
      obtain ⟨kind, early⟩ := early
      rw [← e.next_kernel] at early
      rcases kind with rfl | ⟨creation, made⟩
      · have ticked : (r.next .tick).Shown (e.next .tick).kernel := by
          rw [e.next_kernel]
          exact shown.tick
        obtain ⟨shown', threads', n, count, slots⟩ := ih ticked (threads.tick shown) early
        rw [r.next_tick_count] at count slots
        rw [e.next_kernel] at slots
        exact ⟨shown', threads', n, count, slots⟩
      · obtain ⟨task, is⟩ := Option.ne_none_iff_exists'.mp made
        obtain ⟨-, none_⟩ | ⟨result, -, effect, -, by_⟩ | ⟨-, none_⟩ := step_effect e.kernel event
        · exact absurd none_ made
        · obtain ⟨place, next⟩ := shown.create effect (by_ ▸ is)
          have isNext : r.next event = { r with count := r.count + 1 } := by
            rw [Round.next, if_pos creation]
          rw [← isNext, ← e.next_kernel] at next
          obtain ⟨shown', threads', n, count, slots⟩ :=
            ih next (threads.create shown creation is place) early
          rw [isNext] at count slots
          rw [e.next_kernel] at slots
          refine ⟨shown', threads', n + 1, ?_, ?_⟩
          · show (rest.foldl Round.next (r.next event)).count = r.count + (n + 1)
            rw [isNext, count]
            dsimp only
            omega
          · rw [createdIn, is, Option.toList_some, List.singleton_append, List.map_cons, place,
              slots]
            rfl
        · exact absurd none_ made

/-! ## When the mark comes -/

section Marks

/-- A mark never goes away. -/
theorem Round.marked_stays {r : Round} (marked : r.marked ≠ none) (events : List Event) :
    (events.foldl Round.next r).marked ≠ none := by
  induction events generalizing r with
  | nil => exact marked
  | cons event rest ih =>
      refine ih ?_
      rw [next]
      split
      · exact marked
      · split
        · exact marked
        · split <;> exact Option.some_ne_none _

/-- With a task in the table every tick marks one. -/
theorem Round.unmarked_iff_of_task {r : Round} (unmarked : r.marked = none) (some_ : r.count ≠ 0)
    (events : List Event) :
    (events.foldl Round.next r).marked = none ↔ ∀ e ∈ events, e.isCreation = true := by
  induction events generalizing r with
  | nil => simpa using unmarked
  | cons event rest ih =>
      rw [List.foldl_cons, List.forall_mem_cons]
      cases creation : event.isCreation with
      | true =>
          have next_ : r.next event = { r with count := r.count + 1 } := by
            rw [next, if_pos creation]
          rw [next_, ih (r := { r with count := r.count + 1 }) unmarked (Nat.succ_ne_zero _)]
          simp
      | false =>
          have next_ : r.next event = { r with marked := some 0 } := by
            rw [next, creation, if_neg Bool.false_ne_true, if_neg some_, unmarked]
          rw [next_]
          simpa using marked_stays (Option.some_ne_none _) rest

theorem Round.unmarked_iff {r : Round} (unmarked : r.marked = none) (none_ : r.count = 0)
    (events : List Event) : (events.foldl Round.next r).marked = none ↔ TicksFirst events := by
  induction events generalizing r with
  | nil => simpa [TicksFirst] using unmarked
  | cons event rest ih =>
      rw [List.foldl_cons]
      cases creation : event.isCreation with
      | true =>
          have next_ : r.next event = { r with count := r.count + 1 } := by
            rw [next, if_pos creation]
          rw [next_, unmarked_iff_of_task (r := { r with count := r.count + 1 }) unmarked
            (Nat.succ_ne_zero _)]
          simp [TicksFirst, creation]
      | false =>
          have next_ : r.next event = r := by
            rw [next, creation, if_neg Bool.false_ne_true, if_pos none_]
          rw [next_, ih unmarked none_]
          simp [TicksFirst, creation]

end Marks

/-! ## `scheduler_start` -/

theorem Round.Shown.starts_iff {r : Round} {k : Kernel} (shown : r.Shown k)
    {made : List (Slot × Nat)}
    (slots : made.map (fun task => task.1.val) = List.range' 0 r.count) :
    StartsLowest k made ↔ r.marked ≠ some 0 := by
  have slot : ∀ n, n < r.count → ∃ task ∈ made, task.1.val = n := by
    intro n below
    have member : n ∈ made.map fun task => task.1.val := by
      rw [slots, List.mem_range'_1]
      omega
    simpa using member
  have below : ∀ task ∈ made, task.1.val < r.count := by
    intro task member
    have inside := List.mem_map_of_mem (f := fun task : Slot × Nat => task.1.val) member
    rw [slots, List.mem_range'_1] at inside
    omega
  constructor
  · intro starts marked
    have some_ := shown.marked 0 marked
    obtain ⟨zero, member, isZero⟩ := slot 0 some_
    obtain ⟨first, -, least, started, -⟩ := starts (List.ne_nil_of_mem member)
    have isFirst : first.1.val = 0 := by
      have order := least zero member
      rw [Fin.le_def, isZero] at order
      omega
    -- the marked slot is running, so the search passed over it
    have running : k.states first.1 = .running := by
      rw [shown.states, isFirst, if_pos some_, if_pos marked]
    have effect := schedulerStart_effect k
    rw [started] at effect
    rw [effect.ready] at running
    cases running
  · intro unmarked some_
    have positive : 0 < r.count := by
      by_contra none_
      rw [show r.count = 0 by omega] at slots
      exact some_ (List.map_eq_nil_iff.mp slots)
    obtain ⟨zero, member, isZero⟩ := slot 0 positive
    have isFirst : zero.1 = 0 := Fin.ext isZero
    have effect := schedulerStart_effect k
    have started : (schedulerStart k).1 = some 0 := by
      rw [effect.first, ← Fin.find?_eq_find?_finRange, Fin.find?_eq_some_iff]
      refine ⟨beq_iff_eq.mpr ((shown.ready_iff 0).mpr ⟨positive, unmarked⟩), fun j before => ?_⟩
      exact absurd before (Fin.not_lt_zero j)
    rw [started] at effect
    refine ⟨zero, member, fun task _ => ?_, by rw [started, isFirst], fun s => ?_, ?_⟩
    · rw [isFirst]
      exact Fin.zero_le _
    · rw [effect.states_running, isFirst]
    · intro task member other
      rw [effect.states, stateAfterStart, if_neg (isFirst ▸ other), shown.states,
        if_pos (below task member)]
      split
      · rfl
      · split <;> simp_all

/-- Where `kernel_main` executes there is no mark, or the task in the lowest slot has it. -/
theorem Round.Threads.marked_iff {r : Round} {e : Early} (threads : r.Threads e)
    (shown : r.Shown e.kernel) (executes : e.thread = .kernelMain) :
    r.marked ≠ some 0 ↔ r.marked = none := by
  refine ⟨fun other => ?_, fun none_ => by rw [none_]; exact fun no => by cases no⟩
  cases marked : r.marked with
  | none => rfl
  | some c =>
      have bound := shown.bound
      have below := shown.marked c marked
      have thread := threads.marked ⟨c, by omega⟩ marked
      have behind : (⟨c, by omega⟩ : Slot) ≠ 0 := fun first =>
        other (by rw [marked, show c = 0 from congrArg Fin.val first])
      rw [executes, Round.holder, if_neg fun both => behind both.2] at thread
      cases thread

/-- After any creations that succeed and any ticks in between, `scheduler_start`, when
`kernel_main` comes to call it, starts the task in the lowest slot if and only if no tick came
behind the first creation; without such a tick `kernel_main` executes, and every task waits with
its own context. -/
theorem starts_lowest_iff (k : Kernel) (contexts : Slot → Thread) (events : List Event)
    (early : EarlyRun (schedulerInit k) events) :
    let e := (Early.init k contexts).run events
    let made := createdIn (schedulerInit k) events
    (e.thread = .kernelMain → (StartsLowest e.kernel made ↔ TicksFirst events)) ∧
      (TicksFirst events → e.thread = .kernelMain ∧
        ∀ task ∈ made, e.contexts task.1 = .task task.1) := by
  intro e made
  have start : Round.Threads ⟨0, none⟩ (Early.init k contexts) :=
    ⟨fun _ => rfl, fun _ is => (Option.some_ne_none _ is.symm).elim,
      fun _ below => absurd below (Nat.not_lt_zero _)⟩
  obtain ⟨shown, threads, n, count, slots⟩ :=
    Round.Shown.run (e := Early.init k contexts) (shown_init k) start early
  have slots' : made.map (fun task => task.1.val) =
      List.range' 0 (events.foldl Round.next ⟨0, none⟩).count := by
    rw [count, Nat.zero_add]
    exact slots
  have unmarked := Round.unmarked_iff (r := ⟨0, none⟩) rfl rfl events
  refine ⟨fun executes => ?_, fun first => ?_⟩
  · rw [shown.starts_iff slots', threads.marked_iff shown executes, unmarked]
  · have none_ := unmarked.mpr first
    refine ⟨threads.unmarked none_, fun task member => ?_⟩
    have inside := List.mem_map_of_mem (f := fun task : Slot × Nat => task.1.val) member
    rw [slots', List.mem_range'_1] at inside
    rw [threads.waiting task.1 (by omega) (by rw [none_]; exact fun no => by cases no),
      Round.holder, if_neg fun both => both.1 none_]

/-- A tick before two tasks are created does no harm. -/
theorem tick_before_tasks :
    let events := [.tick, .createTask [] 0x100000, .createTask [] 0x101000]
    let k := schedulerInit (bootKernel fun _ => 0)
    StartsLowest (run k events) (createdIn k events) := by
  have both := starts_lowest_iff (bootKernel fun _ => 0) .task
    [.tick, .createTask [] 0x100000, .createTask [] 0x101000]
    ⟨.inl rfl, .inr ⟨rfl, by decide +kernel⟩, .inr ⟨rfl, by decide +kernel⟩, trivial⟩
  have first : TicksFirst [.tick, .createTask [] 0x100000, .createTask [] 0x101000] := by decide
  exact (both.1 (both.2 first).1).mpr first

/-- The shell and one tick: `kernel_main` goes on, and `scheduler_start` finds no task. -/
theorem marked_shell_not_found :
    let e := (Early.init (bootKernel fun _ => 0) .task).run [.createTask [] 0x100000, .tick]
    let made := createdIn (schedulerInit (bootKernel fun _ => 0)) [.createTask [] 0x100000, .tick]
    e.thread = .kernelMain ∧ made ≠ [] ∧ (schedulerStart e.kernel).1 = none ∧
      ¬ StartsLowest e.kernel made := by
  intro e made
  have created : made ≠ [] := by decide +kernel
  have none_ : (schedulerStart e.kernel).1 = none := by decide +kernel
  refine ⟨by decide +kernel, created, none_, fun starts => ?_⟩
  obtain ⟨first, -, -, started, -⟩ := starts created
  rw [none_] at started
  cases started

-- with two tasks the second tick leaves `kernel_main`, and the third one comes back to it
example : ((Early.init (bootKernel fun _ => 0) .task).run
      [.createTask [] 0x100000, .createTask [] 0x101000, .tick, .tick]).thread = .task 1 ∧
    ((Early.init (bootKernel fun _ => 0) .task).run
      [.createTask [] 0x100000, .createTask [] 0x101000, .tick, .tick, .tick]).thread =
        .kernelMain := by
  decide +kernel

end XosKernel.Sched
