/-
# Sched.Contexts -- a task goes on with the registers it left with

The log of a run says what each slot left with and what it is entered with.  `expected` is
what a slot is to be entered with: the frame it last left with, or the first frame of the task
that was created in it.  `Kept` is the invariant: the context in the table of every task that
is ready or running is the expected one, and a creation that is not through has its slot for
itself, out of reach of the scheduler, with the rest of its statements completing the context
before they mark the task ready (`Completes`).
-/
import XosKernel.Sched.Machine
import XosKernel.Sched.OneRunning
import Mathlib.Data.Fintype.Option

namespace XosKernel.Sched

open XosKernel.Theory XosKernel.Mm

set_option autoImplicit false

/-! ## What a slot is to be entered with -/

/-- The last frame the slot left with, or the first frame of its task. -/
def expected : List Entry → Slot → Option Context
  | [], _ => none
  | .born slot start stackTop :: past, s =>
      if slot = s then some (initialContext start stackTop) else expected past s
  | .left slot frame :: past, s => if slot = s then some frame else expected past s
  | .entered _ _ :: past, s => expected past s

/-- Every slot was entered with what was expected at that point of the log. -/
def Faithful : List Entry → Prop
  | [] => True
  | .entered slot frame :: past => expected past slot = some frame ∧ Faithful past
  | _ :: past => Faithful past

instance Faithful.decidable : (log : List Entry) → Decidable (Faithful log)
  | [] => .isTrue trivial
  | .entered _ _ :: past => @instDecidableAnd _ _ _ (Faithful.decidable past)
  | .born _ _ _ :: past => Faithful.decidable past
  | .left _ _ :: past => Faithful.decidable past

/-! ## The instructions -/

/-- `context_switch` stores the frame of the old slot and leaves the rest of the table. -/
theorem contextSwitch_kernel (m : Machine) (s : Switch) :
    (m.execAll s.pointers contextSwitchCode).kernel =
      (m.setCtx s.old (m.frame m.returnAddress)).kernel := by
  simp [contextSwitchCode, Machine.execAll, Machine.exec, Switch.pointers, Machine.setCtx,
    Kernel.setTask, Context.setWord, Machine.frame, Machine.returnAddress]

/-- `context_switch` comes to its `ret` with the context of the next slot, its `rip` on top of
the stack. -/
theorem contextSwitch_frame (m : Machine) {s : Switch} (other : s.old ≠ s.next) :
    (m.execAll s.pointers contextSwitchCode).frame
        (m.execAll s.pointers contextSwitchCode).returnAddress =
      (m.kernel.tasks s.next).ctx := by
  simp [contextSwitchCode, Machine.execAll, Machine.exec, Switch.pointers, Machine.setCtx,
    Kernel.setTask, Context.setWord, Machine.frame, Machine.returnAddress, other.symm,
    Context.word]

theorem startFirstTask_frame (m : Machine) (next : Slot) :
    let m' := (m.execAll (fun _ => next) startFirstTaskCode).jump (fun _ => next) .rdi 56
    m'.frame m'.rip = (m.kernel.tasks next).ctx := by
  simp [startFirstTaskCode, Machine.execAll, Machine.exec, Machine.jump, Machine.frame,
    Context.word]

/-! ## What the scheduler leaves of a table -/

theorem Kernel.setTask_self (k : Kernel) (slot : Slot) (t : Task) :
    (k.setTask slot t).tasks slot = t := by
  simp [Kernel.setTask]

theorem Kernel.setTask_other (k : Kernel) {slot s : Slot} (other : s ≠ slot) (t : Task) :
    (k.setTask slot t).tasks s = k.tasks s := by
  simp [Kernel.setTask, other]

theorem available_iff_isFree {k : Kernel} {s : Slot} :
    k.Available s ↔ (k.tasks s).isFree = true := by
  simp [Kernel.Available, Kernel.states, Task.isFree]

theorem ctx_of_identity {t t' : Task} (same : t'.identity = t.identity) : t'.ctx = t.ctx := by
  show t'.identity.ctx = t.identity.ctx
  rw [same]

theorem countTick_other {k : Kernel} {s : Slot} (idle : k.currentTaskId ≠ some s) :
    (countTick k).tasks s = k.tasks s := by
  simp only [countTick]
  split
  · rfl
  · next current running =>
      refine k.setTask_other ?_ _
      rintro rfl
      exact idle running

/-- A tick does not touch a slot that is neither current nor ready. -/
theorem tick_other {k : Kernel} {s : Slot} (idle : k.currentTaskId ≠ some s)
    (waiting : k.states s ≠ .ready) : (schedulerTick k).2.tasks s = k.tasks s := by
  have counted := countTick_other idle
  simp only [schedulerTick, findNextReadyTask_countTick, countTick_currentTaskId]
  split
  · exact counted
  · next next found =>
      have apart : s ≠ next := by
        rintro rfl
        exact waiting (found_ready found)
      split
      · exact counted
      · split
        · exact (Kernel.setTask_other _ apart _).trans counted
        · next old running =>
            have apart' : s ≠ old := by
              rintro rfl
              exact idle running
            refine (Kernel.setTask_other _ apart _).trans ?_
            exact (Kernel.setTask_other _ apart' _).trans counted

/-- The slots that are alive after a tick were alive before it. -/
theorem TickEffect.alive_before {k k' : Kernel} {sw : Option Switch}
    (effect : TickEffect k sw k')
    (running : ∀ c, k.currentTaskId = some c → k.states c = .running) {s : Slot}
    (alive : k'.Alive s) : k.Alive s := by
  cases effect with
  | stays _ _ states => simpa only [Kernel.Alive, states] using alive
  | @starts _ next found _ _ states =>
      by_cases now : s = next
      · subst now
        exact .inl (found_ready found)
      · simpa only [Kernel.Alive, states, Function.update_of_ne now] using alive
  | @switches _ old next found previous _ _ states =>
      by_cases now : s = next
      · subst now
        exact .inl (found_ready found)
      · by_cases before : s = old
        · subst before
          exact .inr (running s previous)
        · simpa only [Kernel.Alive, states, Function.update_of_ne now,
            Function.update_of_ne before] using alive

/-- `scheduler_start` leaves a free slot. -/
theorem StartEffect.other {k k' : Kernel} {entered : Option Slot}
    (effect : StartEffect k entered k') {s : Slot} (free : k.Available s) :
    k'.tasks s = k.tasks s := by
  rw [effect.task]
  suffices same : k'.states s = k.states s by rw [same]; rfl
  cases entered with
  | none => rw [effect.unentered.2]; rfl
  | some next =>
      have apart : s ≠ next := by
        rintro rfl
        exact Kernel.Alive.not_available (.inl effect.ready) free
      rw [effect.states, stateAfterStart, if_neg apart, if_neg]
      exact fun running => not_available_of_running running free

/-! ## The statements of a creation -/

/-- What the rest of a creation needs of its slot: until the task is marked ready the slot
stays free, and then its context is the first frame of the task. -/
def Completes : List Stmt → Vars → Task → Prop
  | [], _, _ => True
  | .takeId :: rest, v, t => t.isFree ∧ ∀ id, Completes rest v { t with id := id }
  | .assign f :: rest, v, t => t.isFree ∧ (f v t).isFree ∧ Completes rest v (f v t)
  | .compute f :: rest, v, t => t.isFree ∧ Completes rest (f v t) t
  | .copyName :: rest, v, t =>
      t.isFree ∧ ∀ i name, Completes rest { v with i := i } { t with name := name }
  | .alloc keep :: rest, v, t => t.isFree ∧ ∀ page, Completes rest (keep v page) t
  | .fillTop :: rest, v, t => t.isFree ∧ Completes rest v t
  | .markReady :: rest, v, t =>
      t.isFree ∧ t.ctx = initialContext v.start t.stackTop ∧ .markReady ∉ rest ∧
        ∀ t', Completes rest v t'
  | .finish :: rest, _, _ => rest = []

theorem finishStmts_completes {v : Vars} {t : Task} (free : t.isFree) :
    Completes finishStmts v t := by
  have same : ∀ ctx, ({ t with ctx := ctx } : Task).isFree = true := fun _ => free
  simp [finishStmts, Completes, free, same, initialContext]

theorem allocStackStmts_completes {rest : List Stmt} {v : Vars} {t : Task} (free : t.isFree)
    (after : ∀ v' top, Completes rest v' { t with stackTop := top }) :
    Completes (allocStackStmts ++ rest) v t := by
  have same : ∀ top, ({ t with stackTop := top } : Task).isFree = true := fun _ => free
  simp [allocStackStmts, Completes, free, same, after]

theorem copyNameStmts_completes {rest : List Stmt} {v : Vars} {t : Task} (free : t.isFree)
    (after : ∀ v' name, Completes rest v' { t with name := name }) :
    Completes (copyNameStmts ++ rest) v t := by
  have same : ∀ name, ({ t with name := name } : Task).isFree = true := fun _ => free
  simp [copyNameStmts, Completes, free, same, after]

/-- The statements of both functions complete the task of a free slot. -/
theorem call_completes (c : Call) (v : Vars) {t : Task} (free : t.isFree) :
    Completes c.stmts v t := by
  simp only [Call.stmts]
  split
  · simp only [createUserTaskStmts, List.append_assoc, List.cons_append, List.nil_append]
    refine ⟨free, fun id => ⟨free, rfl, rfl, rfl, rfl, rfl, rfl, rfl, ?_⟩⟩
    refine copyNameStmts_completes rfl fun v' name => ?_
    refine allocStackStmts_completes rfl fun v' top => ?_
    exact ⟨rfl, fun page => ⟨rfl, rfl, rfl, rfl, finishStmts_completes rfl⟩⟩
  · simp only [createTaskStmts, List.append_assoc, List.cons_append, List.nil_append]
    refine ⟨free, fun id => ⟨free, rfl, rfl, rfl, ?_⟩⟩
    refine copyNameStmts_completes rfl fun v' name => ?_
    refine allocStackStmts_completes rfl fun v' top => ?_
    exact ⟨rfl, rfl, rfl, rfl, rfl, rfl, rfl, rfl, finishStmts_completes rfl⟩

theorem Completes.free_or_any {rest : List Stmt} {v : Vars} {t : Task}
    (completes : Completes rest v t) :
    t.isFree = true ∨ (.markReady ∉ rest ∧ ∀ t', Completes rest v t') := by
  cases rest with
  | nil => exact .inr ⟨List.not_mem_nil, fun _ => trivial⟩
  | cons stmt rest =>
      cases stmt with
      | finish =>
          obtain rfl : rest = [] := completes
          exact .inr ⟨by simp, fun _ => rfl⟩
      | _ => exact .inl completes.1

/-! ## The invariant -/

/-- The invariant of a run in which creations do not overlap. -/
structure Kept (s : System) : Prop where
  running : ∀ c, s.machine.kernel.currentTaskId = some c →
    s.machine.kernel.states c = .running
  contexts : ∀ slot, s.machine.kernel.Alive slot →
    expected s.log slot = some (s.machine.kernel.tasks slot).ctx
  faithful : Faithful s.log
  single : ∀ th th', s.creations th ≠ none → s.creations th' ≠ none → th = th'
  building : ∀ th v slot rest, s.creations th = some (.build v slot rest) →
    Completes rest v (s.machine.kernel.tasks slot)

theorem boot_kept (k : Kernel) (reg : Reg → Nat) (rip : Nat) (cells : Nat → Nat) :
    Kept (System.boot k reg rip cells) := by
  refine ⟨fun c current => ?_, fun slot alive => ?_, trivial, fun th _ busy _ => ?_, ?_⟩
  · cases current
  · simp [System.boot, schedulerInit, Kernel.Alive, Kernel.states] at alive
  · exact absurd rfl busy
  · rintro th v slot rest ⟨⟩

/-- The scheduler moved states around: nothing that was not alive became so, contexts and free
slots are as they were. -/
structure Rescheduled (k k' : Kernel) : Prop where
  running : ∀ c, k'.currentTaskId = some c → k'.states c = .running
  alive : ∀ s, k'.Alive s → k.Alive s
  ctx : ∀ s, (k'.tasks s).ctx = (k.tasks s).ctx
  free : ∀ s, k.Available s → k'.tasks s = k.tasks s

theorem tick_rescheduled {k : Kernel}
    (running : ∀ c, k.currentTaskId = some c → k.states c = .running) :
    Rescheduled k (schedulerTick k).2 where
  running c current := (schedulerTick_effect k).running running current
  alive s alive := (schedulerTick_effect k).alive_before running alive
  ctx s := ctx_of_identity (tick_identity k s)
  free s free := by
    refine tick_other (fun current => ?_) fun ready => ?_
    · exact not_available_of_running (running s current) free
    · exact Kernel.Alive.not_available (.inl ready) free

theorem start_rescheduled (k : Kernel) : Rescheduled k (schedulerStart k).2 where
  running _ current := (schedulerStart_effect k).running current
  alive s alive := ((schedulerStart_effect k).alive_iff s).mp alive
  ctx s := by rw [(schedulerStart_effect k).task s]
  free _ free := (schedulerStart_effect k).other free

theorem Kept.setKernel {s : System} (kept : Kept s) {k : Kernel}
    (moved : Rescheduled s.machine.kernel k) : Kept (s.setKernel k) := by
  refine ⟨moved.running, fun slot alive => ?_, kept.faithful, kept.single, ?_⟩
  · change expected s.log slot = some (k.tasks slot).ctx
    rw [moved.ctx]
    exact kept.contexts slot (moved.alive slot alive)
  · intro th v slot rest busy
    have completes := kept.building th v slot rest busy
    obtain free | ⟨-, done⟩ := completes.free_or_any
    · change Completes rest v (k.tasks slot)
      rw [moved.free slot (available_iff_isFree.mpr free)]
      exact completes
    · exact done _

/-! ## Switches -/

/-- What `context_switch` makes of the table: the context of the old slot. -/
theorem contextSwitch_tasks (s : System) (sw : Switch) (slot : Slot) :
    (s.contextSwitch sw).machine.kernel.tasks slot =
      if slot = sw.old then
        { s.machine.kernel.tasks sw.old with ctx := s.machine.frame s.machine.returnAddress }
      else s.machine.kernel.tasks slot := by
  change (s.machine.execAll sw.pointers contextSwitchCode).kernel.tasks slot = _
  rw [contextSwitch_kernel]
  split
  · next same =>
      subst same
      exact Kernel.setTask_self _ _ _
  · next other => exact Kernel.setTask_other _ other _

theorem contextSwitch_states (s : System) (sw : Switch) :
    (s.contextSwitch sw).machine.kernel.states = s.machine.kernel.states := by
  funext slot
  simp only [Kernel.states, contextSwitch_tasks]
  split
  · next same => rw [same]
  · rfl

/-- The call in progress of a thread after a switch is one from before it. -/
theorem contextSwitch_creations {s : System} {sw : Switch} {th : Option Slot}
    (busy : (s.contextSwitch sw).creations th ≠ none) :
    ∃ th', (s.contextSwitch sw).creations th = s.creations th' ∧
      ((th = some sw.old ∧ th' = s.thread) ∨ (th' = th ∧ th ≠ some sw.old ∧ th ≠ s.thread)) := by
  change Function.update (Function.update s.creations s.thread none) (some sw.old)
    (s.creations s.thread) th ≠ none at busy
  change ∃ th', Function.update (Function.update s.creations s.thread none) (some sw.old)
    (s.creations s.thread) th = s.creations th' ∧ _
  by_cases old : th = some sw.old
  · refine ⟨s.thread, ?_, .inl ⟨old, rfl⟩⟩
    rw [old, Function.update_self]
  · rw [Function.update_of_ne old] at busy ⊢
    by_cases this : th = s.thread
    · rw [this, Function.update_self] at busy
      exact absurd rfl busy
    · exact ⟨th, Function.update_of_ne this _ _, .inr ⟨rfl, old, this⟩⟩

theorem Kept.contextSwitch {s : System} (kept : Kept s) {sw : Switch} (other : sw.old ≠ sw.next)
    (old : s.machine.kernel.Alive sw.old) (next : s.machine.kernel.Alive sw.next) :
    Kept (s.contextSwitch sw) := by
  have current : (s.contextSwitch sw).machine.kernel.currentTaskId =
      s.machine.kernel.currentTaskId := by
    change (s.machine.execAll sw.pointers contextSwitchCode).kernel.currentTaskId = _
    rw [contextSwitch_kernel]
    rfl
  refine ⟨fun c is => ?_, fun slot alive => ?_, ?_, fun th th' busy busy' => ?_, ?_⟩
  · rw [contextSwitch_states]
    exact kept.running c (current ▸ is)
  · rw [contextSwitch_tasks]
    change (if sw.old = slot then _ else expected s.log slot) = _
    by_cases same : slot = sw.old
    · rw [if_pos same, if_pos same.symm]
    · rw [if_neg same, if_neg (Ne.symm same)]
      refine kept.contexts slot ?_
      simpa only [Kernel.Alive, contextSwitch_states] using alive
  · refine ⟨?_, kept.faithful⟩
    change (if sw.old = sw.next then _ else expected s.log sw.next) = _
    rw [if_neg other, contextSwitch_frame _ other]
    exact kept.contexts sw.next next
  · obtain ⟨from₁, same₁, where₁⟩ := contextSwitch_creations busy
    obtain ⟨from₂, same₂, where₂⟩ := contextSwitch_creations busy'
    have one : from₁ = from₂ := kept.single _ _ (same₁ ▸ busy) (same₂ ▸ busy')
    obtain ⟨rfl, rfl⟩ | ⟨rfl, _, apart⟩ := where₁ <;>
      obtain ⟨rfl, rfl⟩ | ⟨rfl, _, apart'⟩ := where₂
    · rfl
    · exact absurd one.symm apart'
    · exact absurd one apart
    · exact one
  · intro th v slot rest busy
    obtain ⟨th', same, -⟩ := @contextSwitch_creations s sw th (by rw [busy]; simp)
    have completes := kept.building th' v slot rest (same ▸ busy)
    obtain free | ⟨-, done⟩ := completes.free_or_any
    · have apart : slot ≠ sw.old := by
        rintro rfl
        exact old.not_available (available_iff_isFree.mpr free)
      rwa [contextSwitch_tasks, if_neg apart]
    · exact done _

theorem Kept.tick {s : System} (kept : Kept s) : Kept s.tick := by
  have moved := kept.setKernel (tick_rescheduled kept.running)
  have effect := schedulerTick_effect s.machine.kernel
  have before : ∀ slot, s.machine.kernel.Alive slot →
      (schedulerTick s.machine.kernel).2.Alive slot := fun slot alive => effect.alive alive
  simp only [System.tick]
  generalize (schedulerTick s.machine.kernel).1 = sw at effect
  cases effect with
  | stays => exact moved
  | starts => exact moved
  | @switches _ old next found previous other =>
      refine moved.contextSwitch other (before old ?_) (before next (.inl (found_ready found)))
      exact .inr (kept.running old previous)

theorem Kept.start {s : System} (kept : Kept s) : Kept s.start := by
  simp only [System.start]
  split
  · have moved := kept.setKernel (start_rescheduled s.machine.kernel)
    cases found : (schedulerStart s.machine.kernel).1 with
    | none => exact moved
    | some next =>
        have effect := schedulerStart_effect s.machine.kernel
        rw [found] at effect
        refine ⟨moved.running, moved.contexts, ⟨?_, kept.faithful⟩, moved.single, moved.building⟩
        rw [startFirstTask_frame]
        change _ = some ((schedulerStart s.machine.kernel).2.tasks next).ctx
        rw [effect.task]
        exact kept.contexts next (.inl effect.ready)
  · exact kept

/-! ## Creations -/

/-- No thread but the one that executes is in a creation. -/
def System.Alone (s : System) : Prop := ∀ th, s.creations th ≠ none → th = s.thread

theorem Kept.alone {s : System} (kept : Kept s) (busy : s.creations s.thread ≠ none) : s.Alone :=
  fun th busy' => kept.single th s.thread busy' busy

/-- The creation of the thread that executes is the only one to look at. -/
theorem kept_of_creation {s : System} (alone : s.Alone) {c : Option Creation}
    (running : ∀ c, s.machine.kernel.currentTaskId = some c →
      s.machine.kernel.states c = .running)
    (contexts : ∀ slot, s.machine.kernel.Alive slot →
      expected s.log slot = some (s.machine.kernel.tasks slot).ctx)
    (faithful : Faithful s.log)
    (building : ∀ v slot rest, c = some (.build v slot rest) →
      Completes rest v (s.machine.kernel.tasks slot)) : Kept (s.setCreation c) := by
  have lone : ∀ th, (s.setCreation c).creations th ≠ none → th = s.thread := by
    intro th busy
    by_contra other
    change Function.update s.creations s.thread c th ≠ none at busy
    rw [Function.update_of_ne other] at busy
    exact other (alone th busy)
  refine ⟨running, contexts, faithful, fun th th' busy busy' => ?_, ?_⟩
  · rw [lone th busy, lone th' busy']
  · intro th v slot rest busy
    obtain rfl := lone th (by rw [busy]; simp)
    change Function.update s.creations s.thread c s.thread = _ at busy
    rw [Function.update_self] at busy
    exact building v slot rest busy

theorem Kept.setCreation {s : System} (kept : Kept s) (alone : s.Alone) {c : Option Creation}
    (building : ∀ v slot rest, c = some (.build v slot rest) →
      Completes rest v (s.machine.kernel.tasks slot)) : Kept (s.setCreation c) :=
  kept_of_creation alone kept.running kept.contexts kept.faithful building

/-- Registers, cells and pages do not matter. -/
theorem Kept.sameTable {s s' : System} (kept : Kept s)
    (tasks : s'.machine.kernel.tasks = s.machine.kernel.tasks)
    (current : s'.machine.kernel.currentTaskId = s.machine.kernel.currentTaskId)
    (creations : s'.creations = s.creations) (log : s'.log = s.log) : Kept s' := by
  refine ⟨fun c is => ?_, fun slot alive => ?_, ?_, ?_, fun th v slot rest busy => ?_⟩
  · simp only [Kernel.states, tasks]
    exact kept.running c (current ▸ is)
  · simp only [Kernel.Alive, Kernel.states, tasks] at alive
    rw [log, tasks]
    exact kept.contexts slot alive
  · rw [log]
    exact kept.faithful
  · rw [creations]
    exact kept.single
  · rw [tasks]
    exact kept.building th v slot rest (creations ▸ busy)

/-- Writing to the slot of the creation: `log` and the state of the slot say whether the task
is ready now. -/
theorem Kept.writesSlot {s : System} (kept : Kept s) (alone : s.Alone) {slot : Slot}
    (free : s.machine.kernel.Available slot) {s' : System} (thread : s'.thread = s.thread)
    (creations : s'.creations = s.creations)
    (current : s'.machine.kernel.currentTaskId = s.machine.kernel.currentTaskId)
    (others : ∀ other, other ≠ slot →
      s'.machine.kernel.tasks other = s.machine.kernel.tasks other ∧
        expected s'.log other = expected s.log other)
    (this : s'.machine.kernel.Alive slot →
      expected s'.log slot = some (s'.machine.kernel.tasks slot).ctx)
    (faithful : Faithful s'.log) {v : Vars} {rest : List Stmt}
    (completes : Completes rest v (s'.machine.kernel.tasks slot)) :
    Kept (s'.setCreation (some (.build v slot rest))) := by
  have alone' : s'.Alone := by
    unfold System.Alone
    rw [thread, creations]
    exact alone
  refine kept_of_creation alone' (fun c is => ?_) (fun other lives => ?_) faithful ?_
  · have running := kept.running c (current ▸ is)
    have apart : c ≠ slot := by
      rintro rfl
      exact not_available_of_running running free
    simp only [Kernel.states, (others c apart).1]
    exact running
  · by_cases same : other = slot
    · subst same
      exact this lives
    · obtain ⟨tasks, log⟩ := others other same
      simp only [Kernel.Alive, Kernel.states, tasks] at lives
      rw [tasks, log]
      exact kept.contexts other lives
  · rintro v' slot' rest' ⟨⟩
    exact completes

/-- A store to the slot that leaves it free. -/
theorem Kept.storesTask {s : System} (kept : Kept s) (alone : s.Alone) {slot : Slot}
    (free : (s.machine.kernel.tasks slot).isFree) {k : Kernel} {t : Task}
    (current : k.currentTaskId = s.machine.kernel.currentTaskId)
    (tasks : k.tasks = Function.update s.machine.kernel.tasks slot t) (still : t.isFree)
    {v : Vars} {rest : List Stmt} (completes : Completes rest v t) :
    Kept ((s.setKernel k).setCreation (some (.build v slot rest))) := by
  have self : k.tasks slot = t := by rw [tasks, Function.update_self]
  have available : k.Available slot := by
    rw [available_iff_isFree, self]
    exact still
  apply kept.writesSlot alone (available_iff_isFree.mpr free)
  · rfl
  · rfl
  · exact current
  · intro other apart
    refine ⟨?_, rfl⟩
    change k.tasks other = _
    rw [tasks, Function.update_of_ne apart]
  · intro alive
    exact absurd available (Kernel.Alive.not_available alive)
  · exact kept.faithful
  · change Completes rest v (k.tasks slot)
    rwa [self]

theorem Kept.execStmt {s : System} (kept : Kept s) {v : Vars} {slot : Slot} {stmt : Stmt}
    {rest : List Stmt} (busy : s.creations s.thread = some (.build v slot (stmt :: rest))) :
    Kept (s.execStmt v slot rest stmt) := by
  have alone : s.Alone := kept.alone (by rw [busy]; simp)
  have completes := kept.building _ _ _ _ busy
  have goesOn : ∀ v', Completes rest v' (s.machine.kernel.tasks slot) →
      Kept (s.setCreation (some (.build v' slot rest))) := by
    intro v' completes'
    refine kept.setCreation alone ?_
    rintro _ _ _ ⟨⟩
    exact completes'
  cases stmt with
  | takeId =>
      apply kept.storesTask alone completes.1
      · rfl
      · rfl
      · exact completes.1
      · exact completes.2 _
  | assign f =>
      apply kept.storesTask alone completes.1
      · rfl
      · rfl
      · exact completes.2.1
      · exact completes.2.2
  | compute f => exact goesOn _ completes.2
  | copyName =>
      simp only [System.execStmt]
      split
      · apply kept.storesTask alone completes.1
        · rfl
        · rfl
        · exact completes.1
        · exact ⟨completes.1, fun i name => completes.2 i name⟩
      · exact goesOn v (completes.2 v.i (s.machine.kernel.tasks slot).name)
  | alloc keep =>
      simp only [System.execStmt]
      split
      · apply Kept.setCreation
        · exact kept.sameTable rfl rfl rfl rfl
        · exact alone
        · rintro _ _ _ ⟨⟩
      · apply Kept.setCreation
        · exact kept.sameTable rfl rfl rfl rfl
        · exact alone
        · rintro _ _ _ ⟨⟩
          exact completes.2 _
  | fillTop =>
      apply Kept.setCreation
      · exact kept.sameTable rfl rfl rfl rfl
      · exact alone
      · rintro _ _ _ ⟨⟩
        exact completes.2
  | markReady =>
      obtain ⟨free, context, -, after⟩ := completes
      apply kept.writesSlot alone (available_iff_isFree.mpr free)
      · rfl
      · rfl
      · rfl
      · intro other apart
        exact ⟨Kernel.setTask_other _ apart _, if_neg (Ne.symm apart)⟩
      · intro _
        change (if slot = slot then _ else _) =
          some ((s.machine.kernel.setState slot .ready).tasks slot).ctx
        rw [if_pos rfl, Kernel.setState, Kernel.setTask_self, context]
      · exact kept.faithful
      · exact after _
  | finish =>
      refine kept.setCreation alone ?_
      rintro _ _ _ ⟨⟩

theorem Kept.advance {s : System} (kept : Kept s) : Kept s.advance := by
  simp only [System.advance]
  cases busy : s.creations s.thread with
  | none => exact kept
  | some c =>
      have alone : s.Alone := kept.alone (by rw [busy]; simp)
      cases c with
      | search v i =>
          dsimp only
          split
          · split
            · next free =>
                refine kept.setCreation alone ?_
                rintro _ _ _ ⟨⟩
                exact call_completes _ _ free
            · refine kept.setCreation alone ?_
              rintro _ _ _ ⟨⟩
          · refine kept.setCreation alone ?_
            rintro _ _ _ ⟨⟩
      | build v slot rest =>
          cases rest with
          | nil =>
              refine kept.setCreation alone ?_
              rintro _ _ _ ⟨⟩
          | cons stmt rest => exact kept.execStmt busy

/-! ## Runs -/

/-- No creation is in progress. -/
def System.Idle (s : System) : Prop := ∀ th, s.creations th = none

instance (s : System) : Decidable s.Idle :=
  inferInstanceAs (Decidable (∀ th, s.creations th = none))

/-- Does a creation begin? -/
def Happening.begins : Happening → Bool
  | .create _ => true
  | _ => false

/-- No creation begins while another one is in progress. -/
def OneAtATime (bootstrap : Nat) : System → List Happening → Prop
  | _, [] => True
  | s, h :: rest =>
      (h.begins = true → s.Idle) ∧ OneAtATime bootstrap (s.next bootstrap h) rest

instance OneAtATime.decidable (bootstrap : Nat) :
    (s : System) → (hs : List Happening) → Decidable (OneAtATime bootstrap s hs)
  | _, [] => .isTrue trivial
  | s, h :: rest =>
      @instDecidableAnd _ _ _ (OneAtATime.decidable bootstrap (s.next bootstrap h) rest)

theorem Kept.next {s : System} (kept : Kept s) (bootstrap : Nat) {h : Happening}
    (single : h.begins = true → s.Idle) : Kept (s.next bootstrap h) := by
  cases h with
  | work => exact kept.sameTable rfl rfl rfl rfl
  | tick => exact kept.tick
  | yield => exact kept.tick
  | start => exact kept.start
  | create c =>
      have idle := single rfl
      simp only [System.next, System.create]
      split
      · refine kept.setCreation (fun th busy => absurd (idle th) busy) ?_
        rintro _ _ _ ⟨⟩
      · exact kept
  | advance => exact kept.advance

theorem Kept.run {s : System} (kept : Kept s) (bootstrap : Nat) {hs : List Happening}
    (single : OneAtATime bootstrap s hs) : Kept (s.run bootstrap hs) := by
  induction hs generalizing s with
  | nil => exact kept
  | cons h rest ih => exact ih (kept.next bootstrap single.1) single.2

/-- In every run whose creations do not overlap, every slot is entered with the registers and
the address that it left with, or, the first time, at its entry with `rsp` and `rbp` one cell
below the top of its stack; and no slot is current before its creation marked it ready. -/
theorem entered_as_left (bootstrap : Nat) (k : Kernel) (reg : Reg → Nat) (rip : Nat)
    (cells : Nat → Nat) (hs : List Happening)
    (single : OneAtATime bootstrap (System.boot k reg rip cells) hs) :
    Faithful ((System.boot k reg rip cells).run bootstrap hs).log ∧
      ∀ th v slot rest,
        ((System.boot k reg rip cells).run bootstrap hs).creations th =
          some (.build v slot rest) → .markReady ∈ rest →
        ((System.boot k reg rip cells).run bootstrap hs).machine.kernel.currentTaskId ≠
          some slot := by
  have kept := (boot_kept k reg rip cells).run bootstrap single
  refine ⟨kept.faithful, fun th v slot rest busy unmarked current => ?_⟩
  obtain free | ⟨marked, -⟩ := (kept.building th v slot rest busy).free_or_any
  · exact not_available_of_running (kept.running slot current) (available_iff_isFree.mpr free)
  · exact marked unmarked

/-! ## Two runs -/

/-- The bitmap that `pmm_init` leaves. -/
def freshBitmap : Buf := fun i => if i < 64 then 0xFF else 0

/-- The machine when `kernel_main` has set up the scheduler. -/
def fresh : System := System.boot (bootKernel freshBitmap) (fun _ => 0) 0 fun _ => 0

/-- A whole creation of a kernel task, without a tick in it. -/
def createAt (entry : Nat) : List Happening :=
  .create ⟨false, [], entry⟩ :: List.replicate 40 .advance

/-- A task uses its registers and its stack, and calls from 0x4444. -/
def useStack (rsp : Nat) : Happening :=
  .work (fun r => if r = .rsp then rsp else rsp + 16) 0x5000 fun _ => 0x4444

/-- The shell creates a user task, with ticks on the way, and both run. -/
def interrupted : List Happening :=
  createAt 0x1000 ++ [.start, .create ⟨true, [116], 0x2000⟩] ++
    List.replicate 17 .advance ++ [.tick] ++ List.replicate 20 .advance ++
    [useStack 0x203F00, .tick, useStack 0x207F00, .tick, .yield]

theorem interrupted_single : OneAtATime 0x9000 fresh interrupted := by
  decide +kernel

theorem interrupted_entered_as_left :
    Faithful (fresh.run 0x9000 interrupted).log ∧
      ∀ th v slot rest,
        (fresh.run 0x9000 interrupted).creations th = some (.build v slot rest) →
        .markReady ∈ rest →
        (fresh.run 0x9000 interrupted).machine.kernel.currentTaskId ≠ some slot := by
  have single := interrupted_single
  unfold fresh at single ⊢
  exact entered_as_left 0x9000 _ _ _ _ interrupted single

/-- The shell and another task run.  The shell creates a task and is interrupted when it has
stored `rip` and `rsp` of the context; the other task creates one in the same slot.  That task
has run when the shell goes on and stores the rest of the context. -/
def overlapping : List Happening :=
  createAt 0x1000 ++ [.start] ++ createAt 0x2000 ++
    [.create ⟨false, [], 0x3000⟩] ++ List.replicate 23 .advance ++ [.tick] ++
    createAt 0x4000 ++ [.tick, useStack 0x20FF00, .tick] ++
    List.replicate 40 .advance ++ [.tick, .tick]

/-- The task is entered with the `rbp` of another stack. -/
theorem overlapping_mixes_contexts : ¬ Faithful (fresh.run 0x9000 overlapping).log :=
  of_decide_eq_false (by decide +kernel)

end XosKernel.Sched
