/-
# Arch.Acknowledge -- which code acknowledges an interrupt

`interrupt_handler` acknowledges an IRQ after the handler returned, in whatever task the CPU
is then.  In every run an IRQ's frame is only ever innermost (`Orderly`).  As long as the
timer only switches to tasks that were themselves suspended in the timer handler, the line in
service is the one whose frame is innermost (`Attended`), so nothing waits for its
acknowledgement in task code; a timer that switches to any other task loses it
(`acknowledged_iff`).
-/
import XosKernel.Arch.Interrupts

namespace XosKernel.Arch

open XosKernel.Theory XosKernel.Sched

set_option autoImplicit false

def Frame.isIrq : Frame → Bool
  | .interrupt intNo _ => isIrqVector intNo
  | .yield => false

def Frame.isInterrupt : Frame → Bool
  | .interrupt _ _ => true
  | .yield => false

/-- The CPU is in no call of `interrupt_handler`. -/
def Machine.InTaskCode (m : Machine) : Prop := ∀ f ∈ m.stack, f.isInterrupt = false

/-- No IRQ waits for its acknowledgement. -/
def Machine.NoneWaiting (m : Machine) : Prop := ∀ line, m.inService line = false

/-- The task was suspended in the timer handler. -/
def Continuation.InTimerHandler (c : Continuation) : Prop :=
  ∃ savedIf rest, c.frames = .interrupt (vectorOf 0) savedIf :: rest

theorem isIrqVector_vectorOf (line : Line) : isIrqVector (vectorOf line) = true := by
  revert line
  decide

theorem vectorOf_inj {line line' : Line} (same : vectorOf line = vectorOf line') :
    line = line' := by
  unfold vectorOf at same
  exact Fin.ext (by omega)

/-! ## Frames of IRQs are innermost -/

/-- Outside of the innermost frame no frame is an IRQ's, in the running and in the suspended
code; in an IRQ's frame interrupts are off, and tasks are only suspended in the timer's. -/
structure Orderly (m : Machine) : Prop where
  outer : ∀ f ∈ m.stack.tail, f.isIrq = false
  masked : ∀ f ∈ m.stack, f.isIrq = true → m.interruptFlag = false
  suspended : ∀ slot, ∀ f ∈ (m.continuation slot).frames.tail, f.isIrq = false
  timer : ∀ slot, ∀ f ∈ (m.continuation slot).frames, f.isIrq = true →
    (m.continuation slot).InTimerHandler

theorem boot_orderly (bitmap : Buf) (shellRun : Nat) : Orderly (boot bitmap shellRun) where
  outer := by simp [boot]
  masked := by simp [boot]
  suspended := by simp [boot, Continuation.frames]
  timer := by simp [boot, Continuation.frames]

@[simp] theorem contextSwitch_inService (m : Machine) (sw : Option Switch) :
    (m.contextSwitch sw).inService = m.inService := by
  cases sw <;> rfl

@[simp] theorem tick_inService (m : Machine) : m.tick.inService = m.inService :=
  contextSwitch_inService _ _

/-- A switch may happen with interrupts off, in code that can be resumed. -/
theorem Orderly.contextSwitch {m : Machine} (orderly : Orderly m) (off : m.interruptFlag = false)
    (inTimer : ∀ f ∈ m.stack, f.isIrq = true → (Continuation.suspended m.stack).InTimerHandler)
    (sw : Option Switch) : Orderly (m.contextSwitch sw) := by
  cases sw with
  | none => exact orderly
  | some sw =>
      refine ⟨orderly.suspended sw.next, fun _ _ _ => off, fun slot => ?_, fun slot => ?_⟩
      · by_cases same : slot = sw.old
        · subst same
          simpa [Machine.contextSwitch, Continuation.frames] using orderly.outer
        · simpa [Machine.contextSwitch, Function.update_of_ne same] using orderly.suspended slot
      · by_cases same : slot = sw.old
        · subst same
          simpa [Machine.contextSwitch, Continuation.frames] using inTimer
        · simpa [Machine.contextSwitch, Function.update_of_ne same] using orderly.timer slot

theorem Orderly.tick {m : Machine} (orderly : Orderly m) (off : m.interruptFlag = false)
    (inTimer : ∀ f ∈ m.stack, f.isIrq = true → (Continuation.suspended m.stack).InTimerHandler) :
    Orderly m.tick := by
  have orderly' : Orderly { m with kernel := (schedulerTick m.kernel).2 } :=
    ⟨orderly.outer, orderly.masked, orderly.suspended, orderly.timer⟩
  exact orderly'.contextSwitch off inTimer _

/-- Calling into code that is in no IRQ's frame, with interrupts off. -/
theorem Orderly.push {m : Machine} (orderly : Orderly m) (clear : ∀ f ∈ m.stack, f.isIrq = false)
    (f : Frame) : Orderly { m with stack := f :: m.stack, interruptFlag := false } :=
  ⟨clear, fun _ _ _ => rfl, orderly.suspended, orderly.timer⟩

/-- Where interrupts are on, the CPU is in no IRQ's frame. -/
theorem Orderly.clear_of_on {m : Machine} (orderly : Orderly m) (on : m.interruptFlag = true) :
    ∀ f ∈ m.stack, f.isIrq = false := by
  intro f member
  by_contra irq
  have off := orderly.masked f member (by simpa using irq)
  rw [on] at off
  cases off

theorem Orderly.enterYield {m : Machine} (orderly : Orderly m)
    (clear : ∀ f ∈ m.stack, f.isIrq = false) : Orderly m.enterYield := by
  refine (orderly.push clear .yield).tick rfl fun f member irq => ?_
  obtain rfl | outside := List.mem_cons.mp member
  · cases irq
  · rw [clear f outside] at irq
    cases irq

theorem created_continuation (m : Machine) (result : Int × Kernel) (slot : Slot) :
    (m.created result).continuation slot = m.continuation slot ∨
      (m.created result).continuation slot = .notStarted := by
  unfold Machine.created
  cases freeSlot m.kernel with
  | none => exact .inl rfl
  | some chosen =>
      by_cases same : slot = chosen
      · exact .inr (by simp [same])
      · exact .inl (by simp [Function.update_of_ne same])

theorem Orderly.created {m : Machine} (orderly : Orderly m) (result : Int × Kernel) :
    Orderly (m.created result) := by
  refine ⟨orderly.outer, orderly.masked, fun slot => ?_, fun slot => ?_⟩
  · obtain same | new := created_continuation m result slot
    · rw [same]
      exact orderly.suspended slot
    · simp [new, Continuation.frames]
  · obtain same | new := created_continuation m result slot
    · rw [same]
      exact orderly.timer slot
    · simp [new, Continuation.frames]

/-- Leaving the innermost frame: what is outside of it is no IRQ's. -/
theorem Orderly.pop {m : Machine} (orderly : Orderly m) {f : Frame} {rest : List Frame}
    (inside : m.stack = f :: rest) (flag : Bool) (inService : InService) :
    Orderly { m with stack := rest, interruptFlag := flag, inService := inService } := by
  have outer := orderly.outer
  rw [inside] at outer
  refine ⟨fun g member => outer g (List.mem_of_mem_tail member), fun g member irq => ?_,
    orderly.suspended, orderly.timer⟩
  rw [outer g member] at irq
  cases irq

/-- Every action keeps the frames of IRQs innermost. -/
theorem Orderly.act {m m' : Machine} (orderly : Orderly m) {action : Action}
    (acted : act m action = some m') : Orderly m' := by
  have delivered : ∀ line, m.interruptFlag = true → Orderly (Machine.enterInterrupt
      { m with inService := Function.update m.inService line true } (vectorOf line)) := by
    intro line enabled
    exact Orderly.push (m := { m with inService := Function.update m.inService line true })
      ⟨orderly.outer, orderly.masked, orderly.suspended, orderly.timer⟩
      (orderly.clear_of_on enabled) (.interrupt (vectorOf line) m.interruptFlag)
  cases act_effect acted with
  | timer enabled ready => exact (delivered 0 enabled).tick rfl fun f member irq => ⟨_, _, rfl⟩
  | line enabled ready other => exact delivered _ enabled
  | interruptReturn inside => exact orderly.pop inside _ _
  | yield empty => exact orderly.enterYield (by simp [empty])
  | yieldReturn inside => exact orderly.pop inside _ _
  | yieldingCall empty yields =>
      have entered := orderly.push (by simp [empty]) (.interrupt syscallVector m.interruptFlag)
      refine entered.enterYield fun f member => ?_
      rw [empty] at member
      obtain rfl := List.mem_singleton.mp member
      rfl
  | otherCall empty other =>
      exact orderly.push (by simp [empty]) (.interrupt syscallVector m.interruptFlag)
  | setInterruptFlag empty =>
      exact ⟨orderly.outer, by simp [empty], orderly.suspended, orderly.timer⟩
  | createTask empty => exact orderly.created _
  | createUserTask empty => exact orderly.created _

/-! ## The innermost frame acknowledges -/

/-- A line in service is acknowledged by the frame that the CPU is in. -/
def Attended (m : Machine) : Prop :=
  ∀ line, m.inService line = true →
    ∃ savedIf rest, m.stack = .interrupt (vectorOf line) savedIf :: rest

/-- The timer only switches to tasks that it had interrupted. -/
def ResumesTimer (m : Machine) (action : Action) : Prop :=
  action = .irq 0 → ∀ old next, m.kernel.currentTaskId = some old →
    findNextReadyTask m.kernel = some next → next ≠ old → (m.continuation next).InTimerHandler

theorem Machine.NoneWaiting.attended {m : Machine} (none : m.NoneWaiting) : Attended m := by
  intro line waits
  rw [none line] at waits
  cases waits

theorem Attended.noneWaiting {m : Machine} (attended : Attended m)
    (clear : ∀ f ∈ m.stack, f.isIrq = false) : m.NoneWaiting := by
  intro line
  by_contra waits
  obtain ⟨savedIf, rest, inside⟩ := attended line (by simpa using waits)
  have irq := clear (.interrupt (vectorOf line) savedIf) (by simp [inside])
  simp [Frame.isIrq, isIrqVector_vectorOf] at irq

/-- In task code nothing waits. -/
theorem Attended.taskCode {m : Machine} (attended : Attended m) (task : m.InTaskCode) :
    m.NoneWaiting := by
  refine attended.noneWaiting fun f member => ?_
  cases f with
  | interrupt intNo savedIf => cases task _ member
  | yield => rfl

/-- Acknowledging the only line in service leaves none. -/
theorem eoi_clears {inService : InService} (line : Line)
    (only : ∀ other, inService other = true → other = line) (other : Line) :
    eoi inService other = false := by
  unfold eoi
  cases found : (List.finRange 8).find? inService with
  | none =>
      have idle := List.find?_eq_none.mp found other (List.mem_finRange other)
      simpa using idle
  | some first =>
      obtain rfl := only first (List.find?_some found)
      by_cases same : other = first
      · simp [same]
      · dsimp only
        rw [Function.update_of_ne same]
        by_contra waits
        exact same (only other (by simpa using waits))

/-- The timer's tick leaves the CPU in a frame of the timer. -/
theorem tick_inTimer {m : Machine} {savedIf : Bool} {rest : List Frame}
    (inside : m.stack = .interrupt (vectorOf 0) savedIf :: rest)
    (resumes : ∀ old next, m.kernel.currentTaskId = some old →
      findNextReadyTask m.kernel = some next → next ≠ old → (m.continuation next).InTimerHandler) :
    ∃ savedIf rest, m.tick.stack = .interrupt (vectorOf 0) savedIf :: rest := by
  unfold Machine.tick
  have effect := schedulerTick_effect m.kernel
  generalize schedulerTick m.kernel = after at effect
  obtain ⟨sw, k'⟩ := after
  cases effect with
  | stays => exact ⟨savedIf, rest, inside⟩
  | starts => exact ⟨savedIf, rest, inside⟩
  | switches found previous other => exact resumes _ _ previous found other.symm

/-- A line that is delivered is the only one in service. -/
theorem Machine.NoneWaiting.delivered {m : Machine} (idle : m.NoneWaiting) {line other : Line}
    (waits : Function.update m.inService line true other = true) : other = line := by
  by_contra different
  rw [Function.update_of_ne different, idle other] at waits
  cases waits

/-- A return from an interrupt leaves no line in service. -/
theorem Attended.interruptReturn {m : Machine} (attended : Attended m) (orderly : Orderly m)
    {intNo : Nat} {savedIf : Bool} {rest : List Frame}
    (inside : m.stack = .interrupt intNo savedIf :: rest) (other : Line) :
    (if isIrqVector intNo then eoi m.inService else m.inService) other = false := by
  by_cases irq : isIrqVector intNo = true
  · rw [if_pos irq]
    by_cases waits : ∃ line, m.inService line = true
    · obtain ⟨line, waits⟩ := waits
      refine eoi_clears line (fun other' waits' => ?_) other
      obtain ⟨_, _, inside₁⟩ := attended line waits
      obtain ⟨_, _, inside₂⟩ := attended other' waits'
      rw [inside₁] at inside₂
      exact (vectorOf_inj (Frame.interrupt.inj (List.cons.inj inside₂).1).1).symm
    · exact eoi_clears other (fun l served => absurd ⟨l, served⟩ waits) other
  · rw [if_neg irq]
    refine attended.noneWaiting (fun f member => ?_) other
    rw [inside] at member
    obtain rfl | outside := List.mem_cons.mp member
    · simpa [Frame.isIrq] using irq
    · exact orderly.outer f (by rw [inside]; exact outside)

theorem Attended.act {m m' : Machine} (attended : Attended m) (orderly : Orderly m)
    {action : Action} (resumes : ResumesTimer m action) (acted : act m action = some m') :
    Attended m' := by
  cases act_effect acted with
  | timer enabled ready =>
      have idle := attended.noneWaiting (orderly.clear_of_on enabled)
      intro other waits
      rw [tick_inService] at waits
      obtain rfl := idle.delivered waits
      exact tick_inTimer rfl (resumes rfl)
  | line enabled ready other =>
      have idle := attended.noneWaiting (orderly.clear_of_on enabled)
      intro other waits
      obtain rfl := idle.delivered waits
      exact ⟨_, _, rfl⟩
  | interruptReturn inside =>
      exact Machine.NoneWaiting.attended (attended.interruptReturn orderly inside)
  | yield empty =>
      have idle := attended.noneWaiting (by simp [empty])
      refine Machine.NoneWaiting.attended fun line => ?_
      rw [Machine.enterYield, tick_inService]
      exact idle line
  | yieldReturn inside =>
      have idle : m.NoneWaiting := by
        refine attended.noneWaiting fun f member => ?_
        rw [inside] at member
        obtain rfl | outside := List.mem_cons.mp member
        · rfl
        · exact orderly.outer f (by rw [inside]; exact outside)
      exact Machine.NoneWaiting.attended idle
  | yieldingCall empty yields =>
      have idle := attended.noneWaiting (by simp [empty])
      refine Machine.NoneWaiting.attended fun line => ?_
      rw [Machine.enterYield, tick_inService]
      exact idle line
  | otherCall empty other =>
      exact Machine.NoneWaiting.attended (attended.noneWaiting (by simp [empty]))
  | setInterruptFlag empty => exact attended
  | createTask empty => exact attended
  | createUserTask empty => exact attended

/-! ## Runs -/

/-- Whenever the timer switches tasks in the run, it switches to one that it had interrupted. -/
def Conforms : Machine → List Action → Prop
  | _, [] => True
  | m, action :: rest => ∀ m', act m action = some m' → ResumesTimer m action ∧ Conforms m' rest

/-- Wherever the run gets, and wherever the code then returns to, nothing waits in task code. -/
def Acknowledges (m : Machine) (actions : List Action) : Prop :=
  ∀ before returns m', before <+: actions → (∀ a ∈ returns, a.isReturn = true) →
    acts m (before ++ returns) = some m' → m'.InTaskCode → m'.NoneWaiting

theorem acts_cons {m m' m'' : Machine} {action : Action} {rest : List Action}
    (first : act m action = some m') (later : acts m' rest = some m'') :
    acts m (action :: rest) = some m'' := by
  rw [acts, first]
  exact later

theorem acts_cons_some {m m'' : Machine} {action : Action} {rest : List Action}
    (ran : acts m (action :: rest) = some m'') :
    ∃ m', act m action = some m' ∧ acts m' rest = some m'' :=
  Option.bind_eq_some_iff.mp ran

theorem Attended.acts {m m' : Machine} (attended : Attended m) (orderly : Orderly m)
    {actions : List Action} (conforms : Conforms m actions) (ran : acts m actions = some m') :
    Attended m' := by
  induction actions generalizing m with
  | nil =>
      cases ran
      exact attended
  | cons action rest ih =>
      obtain ⟨m₁, first, later⟩ := acts_cons_some ran
      obtain ⟨resumes, conforms'⟩ := conforms m₁ first
      exact ih (attended.act orderly resumes first) (orderly.act first) conforms' later

theorem conforms_returns {m : Machine} {returns : List Action}
    (leaves : ∀ a ∈ returns, a.isReturn = true) : Conforms m returns := by
  induction returns generalizing m with
  | nil => trivial
  | cons action rest ih =>
      intro m' _
      refine ⟨?_, ih fun a member => leaves a (List.mem_cons_of_mem _ member)⟩
      rintro rfl
      cases leaves _ List.mem_cons_self

/-- A prefix of a run that conforms does, and so does what returns after it. -/
theorem Conforms.before {m : Machine} {actions before returns : List Action}
    (conforms : Conforms m actions) (isBefore : before <+: actions)
    (leaves : ∀ a ∈ returns, a.isReturn = true) : Conforms m (before ++ returns) := by
  induction before generalizing m actions with
  | nil => exact conforms_returns leaves
  | cons action rest ih =>
      obtain ⟨later, rfl⟩ := isBefore
      intro m' first
      obtain ⟨resumes, conforms'⟩ := conforms m' first
      exact ⟨resumes, ih conforms' (List.prefix_append _ _)⟩

/-- Code that is in no IRQ's frame returns to task code without an acknowledgement. -/
theorem returns_unacknowledged {m : Machine} (clear : ∀ f ∈ m.stack, f.isIrq = false) :
    ∃ returns m', (∀ a ∈ returns, a.isReturn = true) ∧ acts m returns = some m' ∧
      m'.InTaskCode ∧ m'.inService = m.inService := by
  induction frames : m.stack generalizing m with
  | nil => exact ⟨[], m, by simp, rfl, by simp [Machine.InTaskCode, frames], rfl⟩
  | cons f rest ih =>
      rw [frames] at clear
      have outside : ∀ g ∈ rest, g.isIrq = false := fun g member =>
        clear g (List.mem_cons_of_mem _ member)
      cases f with
      | yield =>
          obtain ⟨returns, m', leaves, ran, task, same⟩ :=
            ih (m := { m with stack := rest, interruptFlag := true }) outside rfl
          refine ⟨.yieldReturn :: returns, m', ?_, acts_cons ?_ ran, task, same⟩
          · simpa [Action.isReturn] using leaves
          · simp [act, frames]
      | interrupt intNo savedIf =>
          have other : isIrqVector intNo = false := clear _ List.mem_cons_self
          obtain ⟨returns, m', leaves, ran, task, same⟩ :=
            ih (m := { m with stack := rest, interruptFlag := savedIf }) outside rfl
          refine ⟨.interruptReturn :: returns, m', ?_, acts_cons ?_ ran, task, same⟩
          · simpa [Action.isReturn] using leaves
          · simp [act, frames, other]

/-- A tick with another task to run goes on in that task. -/
theorem tick_stack {m : Machine} {old next : Slot} (current : m.kernel.currentTaskId = some old)
    (found : findNextReadyTask m.kernel = some next) (other : next ≠ old) :
    m.tick.stack = (m.continuation next).frames := by
  unfold Machine.tick
  have effect := schedulerTick_effect m.kernel
  generalize schedulerTick m.kernel = after at effect
  obtain ⟨sw, k'⟩ := after
  cases effect with
  | stays idle =>
      have stuck := idle next found
      rw [current] at stuck
      exact absurd (Option.some.inj stuck).symm other
  | starts _ idle =>
      rw [current] at idle
      cases idle
  | switches found' =>
      rw [found] at found'
      cases found'
      rfl

/-- A timer that switches to a task it had not interrupted stays unacknowledged. -/
theorem stray_switch {m m' : Machine} (orderly : Orderly m) {action : Action}
    (acted : act m action = some m') (strays : ¬ ResumesTimer m action) :
    m'.inService 0 = true ∧ ∀ f ∈ m'.stack, f.isIrq = false := by
  unfold ResumesTimer at strays
  push Not at strays
  obtain ⟨rfl, old, next, current, found, other, elsewhere⟩ := strays
  cases act_effect acted with
  | timer enabled ready =>
      refine ⟨by simp [Machine.enterInterrupt], fun f member => ?_⟩
      have goesOn := tick_stack (m := Machine.enterInterrupt
        { m with inService := Function.update m.inService 0 true } (vectorOf 0)) current found other
      rw [goesOn] at member
      by_contra irq
      exact elsewhere (orderly.timer next f member (by simpa using irq))
  | line enabled ready other => exact absurd rfl other

theorem acknowledges_iff {m : Machine} (orderly : Orderly m) (attended : Attended m)
    (actions : List Action) : Acknowledges m actions ↔ Conforms m actions := by
  constructor
  · intro acknowledges
    induction actions generalizing m with
    | nil => trivial
    | cons action rest ih =>
        intro m' first
        have resumes : ResumesTimer m action := by
          by_contra strays
          obtain ⟨waits, clear⟩ := stray_switch orderly first strays
          obtain ⟨returns, m'', leaves, ran, task, same⟩ := returns_unacknowledged clear
          have idle := acknowledges [action] returns m'' ⟨rest, rfl⟩ leaves
            (acts_cons first ran) task 0
          rw [same, waits] at idle
          cases idle
        refine ⟨resumes, ih (orderly.act first) (attended.act orderly resumes first) ?_⟩
        intro before returns m'' isBefore leaves ran
        exact acknowledges (action :: before) returns m'' ((List.prefix_cons_inj _).mpr isBefore)
          leaves (acts_cons first ran)
  · intro conforms before returns m' isBefore leaves ran task
    exact (attended.acts orderly (conforms.before isBefore leaves) ran).taskCode task

/-- Nothing waits in task code exactly as long as the timer only switches to tasks that it had
interrupted. -/
theorem acknowledged_iff (bitmap : Buf) (shellRun : Nat) (actions : List Action) :
    Acknowledges (boot bitmap shellRun) actions ↔ Conforms (boot bitmap shellRun) actions :=
  acknowledges_iff (boot_orderly bitmap shellRun)
    (Machine.NoneWaiting.attended fun _ => rfl) actions

/-- The shell yields to a new user task; the timer interrupts it there and switches back. -/
theorem yield_loses_acknowledgement :
    ∃ m, acts (boot (fun _ => 0) 0x100000) [.createUserTask 0x101000 [] 0x102000, .yield,
        .setInterruptFlag true, .irq 0, .yieldReturn] = some m ∧
      m.InTaskCode ∧ ¬ m.NoneWaiting := by
  have last : ((acts (boot (fun _ => 0) 0x100000) [.createUserTask 0x101000 [] 0x102000, .yield,
      .setInterruptFlag true, .irq 0, .yieldReturn]).any fun m =>
        m.stack == [] && m.inService 0) = true := by decide +kernel
  obtain ⟨m, ran, passed⟩ := (Option.any_eq_true _ _).mp last
  obtain ⟨empty, waits⟩ := Bool.and_eq_true_iff.mp passed
  refine ⟨m, ran, ?_, fun idle => ?_⟩
  · simp [Machine.InTaskCode, eq_of_beq empty]
  · rw [idle 0] at waits
    cases waits

end XosKernel.Arch
