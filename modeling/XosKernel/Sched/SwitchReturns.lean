/-
# Sched.SwitchReturns -- a switch is a call that returns

A thread that is switched out is away until a switch enters its slot again (`Away`): its registers
stay in the table, and no step writes a cell of its stack.  The switch that enters it takes it back
to where it left (`context_switch_returns`).
-/
import XosKernel.Sched.GuardedStacks

namespace XosKernel.Sched

open XosKernel.Theory XosKernel.Mm

set_option autoImplicit false

/-! ## A thread that is away -/

/-- The cells of a stack that `context_switch` does not enter. -/
theorem Guarded.switch_cells {g : Grounded} {n : Nat} (guarded : Guarded g n) {sw : Switch}
    (switch : (schedulerTick g.kernel).1 = some sw) {th : Option Slot}
    (present : g.system.Present th) (other : th ≠ some sw.next) {a : Nat}
    (member : a ∈ g.ground th) :
    ((g.system.setKernel (schedulerTick g.kernel).2).contextSwitch sw).machine.cells a =
      g.system.machine.cells a := by
  have effect := schedulerTick_effect g.kernel
  rw [switch] at effect
  obtain ⟨found, previous, -⟩ := effect.switched
  have ne : sw.old ≠ sw.next := by
    cases effect with
    | switches _ _ ne => exact ne
  have moved := tick_rescheduled guarded.kept.running
  have elsewhere : g.system.thread ≠ some sw.next := by
    obtain same | same := guarded.executes previous
    · rw [same]
      exact fun h => ne (Option.some.inj h)
    · rw [same]
      exact (Option.some_ne_none _).symm
  have alive : g.kernel.Alive sw.next := .inl (found_ready found)
  have entered := guarded.left sw.next alive elsewhere
  have apart := guarded.apart th (some sw.next) present (.inr ⟨_, rfl, alive⟩) other a member
  change ((g.system.setKernel (schedulerTick g.kernel).2).machine.execAll sw.pointers
    contextSwitchCode).cells a = _
  rw [contextSwitch_cells _ ne]
  refine Function.update_of_ne ?_ _ _
  rintro rfl
  refine apart ?_
  change ((schedulerTick g.kernel).2.tasks sw.next).ctx.rsp ∈ _
  rw [moved.ctx]
  exact entered

/-- A task that another thread executes in place of: its registers are in the table, and its
stack has the cells that it left. -/
structure Away (g : Grounded) (t : Slot) (frame : Context) (stack : Set Nat) (cells : Nat → Nat) :
    Prop where
  alive : g.kernel.Alive t
  out : ∃ now, g.system.thread = some now ∧ now ≠ t
  ctx : (g.kernel.tasks t).ctx = frame
  ground : g.ground (some t) = stack
  same : ∀ a ∈ stack, g.system.machine.cells a = cells a

/-- The thread that a tick or a yield switches out is away. -/
theorem Guarded.leaves {g : Grounded} {n : Nat} (guarded : Guarded g n) {sw : Switch}
    (switch : (schedulerTick g.kernel).1 = some sw) (bootstrap : Nat) :
    Away (g.next bootstrap .tick) sw.old (g.system.machine.frame g.system.machine.returnAddress)
      (g.ground g.system.thread) g.system.machine.cells := by
  have effect := schedulerTick_effect g.kernel
  rw [switch] at effect
  obtain ⟨found, previous, -⟩ := effect.switched
  have ne : sw.old ≠ sw.next := by
    cases effect with
    | switches _ _ ne => exact ne
  have elsewhere : g.system.thread ≠ some sw.next := by
    obtain same | same := guarded.executes previous
    · rw [same]
      exact fun h => ne (Option.some.inj h)
    · rw [same]
      exact (Option.some_ne_none _).symm
  have alive := effect.alive (.inr (guarded.kept.running sw.old previous))
  have is : g.next bootstrap .tick =
      ⟨(g.system.setKernel (schedulerTick g.kernel).2).contextSwitch sw,
        Function.update g.ground (some sw.old) (g.ground g.system.thread)⟩ := by
    unfold Grounded.next System.next System.tick
    dsimp only
    rw [switch]
  rw [is]
  refine ⟨?_, ⟨sw.next, rfl, ne.symm⟩, ?_, Function.update_self .., fun a member =>
    guarded.switch_cells switch (.inl rfl) elsewhere member⟩
  · unfold Kernel.Alive
    dsimp only [Grounded.kernel]
    rw [contextSwitch_states]
    exact alive
  · dsimp only [Grounded.kernel]
    rw [contextSwitch_tasks, if_pos rfl]
    rfl

section Away

variable {g : Grounded} {n : Nat} {t : Slot} {frame : Context} {stack : Set Nat}
variable {cells : Nat → Nat} (away : Away g t frame stack cells) (guarded : Guarded g n)
include away guarded

theorem Away.tick (bootstrap : Nat) (still : (g.next bootstrap .tick).system.thread ≠ some t) :
    Away (g.next bootstrap .tick) t frame stack cells := by
  obtain ⟨now, thread, ne⟩ := away.out
  have current := guarded.current now thread
  have effect := schedulerTick_effect g.kernel
  have moved := tick_rescheduled guarded.kept.running
  have alive := effect.alive away.alive
  unfold Grounded.next System.next System.tick at still ⊢
  dsimp only at still ⊢
  cases switch : (schedulerTick g.kernel).1 with
  | none =>
      exact ⟨alive, away.out, (moved.ctx t).trans away.ctx, away.ground, away.same⟩
  | some sw =>
      rw [switch] at still effect
      obtain ⟨-, previous, -⟩ := effect.switched
      obtain rfl : now = sw.old := Option.some.inj (current.symm.trans previous)
      have entered : t ≠ sw.next := fun same => still (congrArg some same.symm)
      have other : some t ≠ some sw.old := fun same => ne (Option.some.inj same).symm
      refine ⟨?_, ⟨sw.next, rfl, entered.symm⟩, ?_, ?_, fun a member => ?_⟩
      · unfold Kernel.Alive
        dsimp only [Grounded.kernel]
        rw [contextSwitch_states]
        exact alive
      · dsimp only [Grounded.kernel]
        rw [contextSwitch_tasks, if_neg ne.symm]
        exact (moved.ctx t).trans away.ctx
      · exact (Function.update_of_ne other _ _).trans away.ground
      · rw [← away.same a member]
        refine guarded.switch_cells switch (.inr ⟨t, rfl, away.alive⟩) ?_ (away.ground ▸ member)
        exact fun same => entered (Option.some.inj same)

theorem Away.advance (bootstrap : Nat) : Away (g.next bootstrap .advance) t frame stack cells := by
  unfold Grounded.next System.next System.advance
  dsimp only
  cases busy : g.system.creations g.system.thread with
  | none => exact away
  | some c =>
      cases c with
      | search v i =>
          dsimp only
          split
          · split
            · exact ⟨away.alive, away.out, away.ctx, away.ground, away.same⟩
            · exact ⟨away.alive, away.out, away.ctx, away.ground, away.same⟩
          · exact ⟨away.alive, away.out, away.ctx, away.ground, away.same⟩
      | build v slot rest =>
          cases rest with
          | nil => exact ⟨away.alive, away.out, away.ctx, away.ground, away.same⟩
          | cons stmt rest =>
              have completes := guarded.kept.building _ _ _ _ busy
              obtain ⟨base, fresh, low⟩ := guarded.building _ _ _ _ busy
              -- A store to the slot of the creation is not to this task.
              have stored {k : Kernel} {task : Task} (free : (g.kernel.tasks slot).isFree = true)
                  (same : k.tasks = Function.update g.kernel.tasks slot task) :
                  k.tasks t = g.kernel.tasks t := by
                have ne : t ≠ slot := by
                  rintro rfl
                  exact away.alive.not_available (available_iff_isFree.mpr free)
                rw [same, Function.update_of_ne ne]
              have store {s' : System} {ground : Option Slot → Set Nat}
                  (tasks : s'.machine.kernel.tasks t = g.kernel.tasks t)
                  (thread : s'.thread = g.system.thread)
                  (there : ground (some t) = g.ground (some t))
                  (mem : ∀ a ∈ stack, s'.machine.cells a = g.system.machine.cells a) :
                  Away ⟨s', ground⟩ t frame stack cells := by
                refine ⟨?_, ?_, (congrArg Task.ctx tasks).trans away.ctx, there.trans away.ground,
                  fun a member => (mem a member).trans (away.same a member)⟩
                · have alive := away.alive
                  unfold Kernel.Alive Kernel.states at alive ⊢
                  dsimp only [Grounded.kernel]
                  rwa [tasks]
                · dsimp only
                  rw [thread]
                  exact away.out
              cases stmt with
              | takeId => exact store (stored completes.1 rfl) rfl rfl fun _ _ => rfl
              | assign f => exact store (stored completes.1 rfl) rfl rfl fun _ _ => rfl
              | compute f => exact store rfl rfl rfl fun _ _ => rfl
              | copyName =>
                  unfold System.execStmt
                  dsimp only
                  split
                  · exact store (stored completes.1 rfl) rfl rfl fun _ _ => rfl
                  · exact store rfl rfl rfl fun _ _ => rfl
              | alloc keep =>
                  unfold System.execStmt
                  dsimp only
                  split
                  · exact store rfl rfl rfl fun _ _ => rfl
                  · exact store rfl rfl rfl fun _ _ => rfl
              | fillTop =>
                  refine store rfl rfl rfl fun a member => Function.update_of_ne ?_ _ _
                  rintro rfl
                  have under := low (List.cons_ne_nil _ _) (by rintro ⟨⟩) (some t)
                    (.inr ⟨t, rfl, away.alive⟩) _ (away.ground ▸ member)
                  have above := fresh.1
                  omega
              | markReady =>
                  have free := completes.1
                  have ne : some t ≠ some slot := fun same => by
                    cases same
                    exact away.alive.not_available (available_iff_isFree.mpr free)
                  exact store (stored free rfl) rfl (Function.update_of_ne ne _ _) fun _ _ => rfl
              | finish => exact store rfl rfl rfl fun _ _ => rfl

theorem Away.next (bootstrap : Nat) {h : Happening} (allowed : g.Allows h)
    (still : (g.next bootstrap h).system.thread ≠ some t) :
    Away (g.next bootstrap h) t frame stack cells := by
  obtain ⟨now, thread, ne⟩ := away.out
  cases h with
  | work reg rip cells' =>
      refine ⟨away.alive, away.out, away.ctx, away.ground, fun a member => ?_⟩
      rw [← away.same a member]
      refine allowed (some t) (.inr ⟨t, rfl, away.alive⟩) ?_ a (away.ground ▸ member)
      rw [thread]
      exact fun same => ne (Option.some.inj same).symm
  | tick => exact away.tick guarded bootstrap still
  | yield => exact away.tick guarded bootstrap still
  | start =>
      have not : ¬ (g.system.thread = none ∧ (g.system.creations none).isNone) := by
        rw [thread]
        exact fun both => Option.some_ne_none _ both.1
      unfold Grounded.next System.next System.start
      dsimp only
      rw [if_neg not]
      exact away
  | create c =>
      unfold Grounded.next System.next System.create
      dsimp only
      split
      · exact ⟨away.alive, away.out, away.ctx, away.ground, away.same⟩
      · exact away
  | advance => exact away.advance guarded bootstrap

end Away

/-! ## Runs -/

theorem Guarded.run {bootstrap : Nat} {hs : List Happening} : ∀ {g : Grounded} {n : Nat},
    Guarded g n → OneAtATime bootstrap g.system hs → Disciplined bootstrap g hs →
      ∃ n', Guarded (g.run bootstrap hs) n' := by
  induction hs with
  | nil => exact fun guarded _ _ => ⟨_, guarded⟩
  | cons h rest ih =>
      rintro g n guarded ⟨single, singles⟩ ⟨allowed, alloweds⟩
      obtain ⟨n', -, guarded'⟩ := guarded.next bootstrap single allowed
      exact ih guarded' singles alloweds

/-- As long as no switch enters it, a task that is away stays so. -/
theorem Away.run {bootstrap : Nat} {hs : List Happening} {t : Slot} {frame : Context}
    {stack : Set Nat} {cells : Nat → Nat} : ∀ {g : Grounded} {n : Nat},
    Away g t frame stack cells → Guarded g n → OneAtATime bootstrap g.system hs →
      Disciplined bootstrap g hs →
      (∀ us, us <+: hs → (g.run bootstrap us).system.thread ≠ some t) →
      Away (g.run bootstrap hs) t frame stack cells ∧ ∃ n', Guarded (g.run bootstrap hs) n' := by
  induction hs with
  | nil => exact fun away guarded _ _ _ => ⟨away, _, guarded⟩
  | cons h rest ih =>
      rintro g n away guarded ⟨single, singles⟩ ⟨allowed, alloweds⟩ still
      obtain ⟨n', -, guarded'⟩ := guarded.next bootstrap single allowed
      have first := away.next guarded bootstrap allowed (still [h] ⟨rest, rfl⟩)
      exact ih first guarded' singles alloweds fun us before =>
        still (h :: us) ((List.prefix_cons_inj h).mpr before)

/-- What a caller of `context_switch` counts on: the call returned, to where it was made, with
the registers that a callee keeps and the cells of the stack. -/
structure Resumes (m m' : Machine) (stack : Set Nat) : Prop where
  kept : ∀ r, r ≠ .rsp → r ≠ .rax → m'.reg r = m.reg r
  rsp : m'.reg .rsp = (m.reg .rsp + 8) % 2 ^ 64
  rip : m'.rip = m.returnAddress
  cells : ∀ a ∈ stack, m'.cells a = m.cells a

/-- `context_switch` into a task that left `m`, with the cells of its stack there. -/
theorem contextSwitch_resumes {m m' : Machine} {stack : Set Nat} {sw : Switch}
    (other : sw.old ≠ sw.next) (ctx : (m'.kernel.tasks sw.next).ctx = m.frame m.returnAddress)
    (same : ∀ a ∈ stack, m'.cells a = m.cells a) :
    Resumes m (m'.execAll sw.pointers contextSwitchCode).ret stack := by
  have frame := (contextSwitch_frame m' other).trans ctx
  have cells := contextSwitch_cells m' other
  rw [ctx] at cells
  generalize m'.execAll sw.pointers contextSwitchCode = entered at frame cells
  refine ⟨fun r notRsp notRax => ?_, ?_, congrArg Context.rip frame, fun a member => ?_⟩
  · refine (Function.update_of_ne notRsp _ _).trans ?_
    cases r with
    | r15 => exact congrArg Context.r15 frame
    | r14 => exact congrArg Context.r14 frame
    | r13 => exact congrArg Context.r13 frame
    | r12 => exact congrArg Context.r12 frame
    | rbx => exact congrArg Context.rbx frame
    | rbp => exact congrArg Context.rbp frame
    | rsp => exact absurd rfl notRsp
    | rax => exact absurd rfl notRax
  · have rsp : entered.reg .rsp = m.reg .rsp := congrArg Context.rsp frame
    rw [← rsp]
    exact Function.update_self Reg.rsp _ entered.reg
  · change entered.cells a = m.cells a
    rw [cells]
    by_cases top : a = m.reg .rsp
    · rw [top]
      exact Function.update_self ..
    · exact (Function.update_of_ne top _ _).trans (same a member)

/-- The registers and cells of a task that is away, when it is entered. -/
theorem Away.enters {g : Grounded} {t : Slot} {stack : Set Nat} {m : Machine}
    (away : Away g t (m.frame m.returnAddress) stack m.cells) {bootstrap : Nat}
    (running : ∀ c, g.kernel.currentTaskId = some c → g.kernel.states c = .running)
    (back : (g.next bootstrap .tick).system.thread = some t) :
    Resumes m (g.next bootstrap .tick).system.machine stack := by
  obtain ⟨now, thread, ne⟩ := away.out
  have effect := schedulerTick_effect g.kernel
  have moved := tick_rescheduled running
  have ctx := (moved.ctx t).trans away.ctx
  unfold Grounded.next System.next System.tick at back ⊢
  dsimp only at back ⊢
  cases switch : (schedulerTick g.kernel).1 with
  | none =>
      rw [switch] at back
      exact absurd (Option.some.inj (thread.symm.trans back)) ne
  | some sw =>
      rw [switch] at back effect
      obtain rfl : sw.next = t := Option.some.inj back
      have other : sw.old ≠ sw.next := by
        cases effect with
        | switches _ _ other => exact other
      exact contextSwitch_resumes other ctx away.same

theorem oneAtATime_append {bootstrap : Nat} {hs hs' : List Happening} : ∀ {s : System},
    OneAtATime bootstrap s (hs ++ hs') →
      OneAtATime bootstrap s hs ∧ OneAtATime bootstrap (s.run bootstrap hs) hs' := by
  induction hs with
  | nil => exact fun single => ⟨trivial, single⟩
  | cons h rest ih =>
      rintro s ⟨single, singles⟩
      exact ⟨⟨single, (ih singles).1⟩, (ih singles).2⟩

theorem disciplined_append {bootstrap : Nat} {hs hs' : List Happening} : ∀ {g : Grounded},
    Disciplined bootstrap g (hs ++ hs') ↔
      Disciplined bootstrap g hs ∧ Disciplined bootstrap (g.run bootstrap hs) hs' := by
  induction hs with
  | nil => exact fun {g} => ⟨fun all => ⟨trivial, all⟩, fun both => both.2⟩
  | cons h rest ih =>
      intro g
      exact (and_congr_right fun _ => ih).trans and_assoc.symm

theorem run_system (bootstrap : Nat) (hs : List Happening) : ∀ g : Grounded,
    (g.run bootstrap hs).system = g.system.run bootstrap hs := by
  induction hs with
  | nil => exact fun _ => rfl
  | cons h rest ih => exact fun g => ih (g.next bootstrap h)

/-- A call of `context_switch` returns like any other.  In every run whose creations do not
overlap and whose threads keep off each other's stacks, whatever thread is switched out, and
whatever happens until its slot is entered again: then it goes on behind its call, with the
registers that a callee keeps and with every cell of its stack. -/
theorem context_switch_returns {bootstrap : Nat} {k : Kernel} {n : Nat}
    (taken : Taken k.pmmBitmap n) (reg : Reg → Nat) (rip : Nat) (cells : Nat → Nat)
    (before between : List Happening) {leave back : Happening}
    (leaves : leave = .tick ∨ leave = .yield) (backs : back = .tick ∨ back = .yield)
    (single : OneAtATime bootstrap (System.boot k reg rip cells) (before ++ leave :: between))
    (disciplined : Disciplined bootstrap (Grounded.boot k reg rip cells)
      (before ++ leave :: between))
    {sw : Switch}
    (switch : (schedulerTick ((Grounded.boot k reg rip cells).run bootstrap before).kernel).1 =
      some sw)
    (away : ∀ us, us <+: between → ((Grounded.boot k reg rip cells).run bootstrap
      (before ++ leave :: us)).system.thread ≠ some sw.old)
    (entered : ((Grounded.boot k reg rip cells).run bootstrap
      (before ++ leave :: between ++ [back])).system.thread = some sw.old) :
    Resumes ((Grounded.boot k reg rip cells).run bootstrap before).system.machine
      ((Grounded.boot k reg rip cells).run bootstrap
        (before ++ leave :: between ++ [back])).system.machine
      (((Grounded.boot k reg rip cells).run bootstrap before).ground
        ((Grounded.boot k reg rip cells).run bootstrap before).system.thread) := by
  have leaveTick : ∀ g : Grounded, g.next bootstrap leave = g.next bootstrap .tick := by
    obtain rfl | rfl := leaves <;> exact fun _ => rfl
  have backTick : ∀ g : Grounded, g.next bootstrap back = g.next bootstrap .tick := by
    obtain rfl | rfl := backs <;> exact fun _ => rfl
  obtain ⟨singleBefore, singleAfter⟩ := oneAtATime_append single
  obtain ⟨keptBefore, keptAfter⟩ := disciplined_append.mp disciplined
  obtain ⟨m, guarded⟩ := (boot_guarded reg rip cells taken).run singleBefore keptBefore
  rw [← show _ = (System.boot k reg rip cells).run bootstrap before from
    run_system bootstrap before (Grounded.boot k reg rip cells)] at singleAfter
  generalize is : (Grounded.boot k reg rip cells).run bootstrap before = g at *
  have later (us : List Happening) : (Grounded.boot k reg rip cells).run bootstrap
      (before ++ leave :: us) = (g.next bootstrap leave).run bootstrap us := by
    rw [← is]
    exact List.foldl_append
  have last : (Grounded.boot k reg rip cells).run bootstrap (before ++ leave :: between ++ [back]) =
      ((g.next bootstrap leave).run bootstrap between).next bootstrap .tick := by
    rw [← backTick, ← later]
    exact List.foldl_append
  rw [last] at entered ⊢
  obtain ⟨m', -, guarded'⟩ := guarded.next bootstrap singleAfter.1 keptAfter.1
  have left := guarded.leaves switch bootstrap
  rw [← leaveTick] at left
  obtain ⟨still, m'', guarded''⟩ := left.run guarded' singleAfter.2 keptAfter.2 fun us prefix_ => by
    rw [← later]
    exact away us prefix_
  exact still.enters guarded''.kept.running entered

theorem taken_fresh : Taken freshBitmap 0 := by
  refine ⟨Nat.zero_le _, fun i page => ?_⟩
  have low : 512 ≤ i := page.1
  have byte : freshBitmap (i / 8) = 0 := if_neg (by omega)
  have outside : ¬ i < firstPage + 0 := by
    unfold firstPage
    omega
  rw [bitmapTest, byte, UInt8.zero_and, decide_eq_false outside]
  rfl

theorem quiet_disciplined {bootstrap : Nat} {hs : List Happening} : ∀ {g : Grounded},
    (∀ h ∈ hs, h = .advance ∨ h.begins = true) → Disciplined bootstrap g hs := by
  induction hs with
  | nil => exact fun _ => trivial
  | cons h rest ih =>
      intro g quiet
      obtain ⟨first, later⟩ := List.forall_mem_cons.mp quiet
      refine ⟨?_, ih later⟩
      cases h with
      | create => trivial
      | advance => trivial
      | start => trivial
      | work => simp [Happening.begins] at first
      | tick => simp [Happening.begins] at first
      | yield => simp [Happening.begins] at first

/-- `kernel_main` creates tasks and starts the first one, which is then on its stack. -/
theorem started_disciplined {bootstrap : Nat} {k : Kernel} {n : Nat} (taken : Taken k.pmmBitmap n)
    {reg : Reg → Nat} {rip : Nat} {cells : Nat → Nat} {creations : List Happening}
    (quiet : ∀ h ∈ creations, h = .advance ∨ h.begins = true) {slot : Slot}
    (single : OneAtATime bootstrap (System.boot k reg rip cells) creations)
    (ready : ((System.boot k reg rip cells).run bootstrap creations).machine.kernel.states slot =
      .ready)
    (idle : ((System.boot k reg rip cells).run bootstrap creations).thread = none)
    (thread : ((System.boot k reg rip cells).run bootstrap (creations ++ [.start])).thread =
      some slot)
    (rsp : ((System.boot k reg rip cells).run bootstrap (creations ++ [.start])).machine.reg .rsp =
      (((System.boot k reg rip cells).run bootstrap creations).machine.kernel.tasks slot).ctx.rsp) :
    Disciplined bootstrap (Grounded.boot k reg rip cells)
      (creations ++ [.start] ++ .tick :: []) := by
  have kept : Disciplined bootstrap (Grounded.boot k reg rip cells) creations :=
    quiet_disciplined quiet
  obtain ⟨m, guarded⟩ := (boot_guarded reg rip cells taken).run single kept
  rw [List.append_assoc]
  refine disciplined_append.mpr ⟨kept, trivial, ?_, trivial⟩
  have run : ((Grounded.boot k reg rip cells).run bootstrap creations).system =
      (System.boot k reg rip cells).run bootstrap creations := run_system ..
  have start : (System.boot k reg rip cells).run bootstrap (creations ++ [.start]) =
      ((System.boot k reg rip cells).run bootstrap creations).next bootstrap .start :=
    List.foldl_append
  rw [start, ← run] at thread rsp
  rw [← run] at ready idle
  generalize (Grounded.boot k reg rip cells).run bootstrap creations = g at *
  change (g.system.next bootstrap .start).machine.reg .rsp ∈
    g.ground (g.system.next bootstrap .start).thread
  rw [thread, rsp]
  refine guarded.left slot (.inl ready) ?_
  rw [idle]
  exact (Option.some_ne_none slot).symm

/-- `kernel_main` creates two tasks. -/
def twoTasks : List Happening := createAt 0x1000 ++ createAt 0x2000

/-- The first of two tasks is switched out and in again. -/
theorem first_task_resumes :
    Resumes ((Grounded.boot (bootKernel freshBitmap) (fun _ => 0) 0 fun _ => 0).run 0x9000
        (twoTasks ++ [.start])).system.machine
      ((Grounded.boot (bootKernel freshBitmap) (fun _ => 0) 0 fun _ => 0).run 0x9000
        (twoTasks ++ [.start] ++ .tick :: [] ++ [.yield])).system.machine
      (((Grounded.boot (bootKernel freshBitmap) (fun _ => 0) 0 fun _ => 0).run 0x9000
        (twoTasks ++ [.start])).ground
        ((Grounded.boot (bootKernel freshBitmap) (fun _ => 0) 0 fun _ => 0).run 0x9000
          (twoTasks ++ [.start])).system.thread) := by
  have quiet : ∀ h ∈ twoTasks, h = .advance ∨ h.begins = true := by
    simp [twoTasks, createAt, Happening.begins]
  have single : OneAtATime 0x9000 (System.boot (bootKernel freshBitmap) (fun _ => 0) 0 fun _ => 0)
      (twoTasks ++ [.start] ++ .tick :: []) := by decide +kernel
  have disciplined := @started_disciplined 0x9000 (bootKernel freshBitmap) 0 taken_fresh
    (fun _ => 0) 0 (fun _ => 0) twoTasks quiet 0 (by decide +kernel) (by decide +kernel)
    (by decide +kernel) (by decide +kernel) (by decide +kernel)
  have returns := @context_switch_returns 0x9000 (bootKernel freshBitmap) 0 taken_fresh
    (fun _ => 0) 0 (fun _ => 0) (twoTasks ++ [.start]) [] .tick .yield (.inl rfl) (.inr rfl) single
    disciplined ⟨0, 1⟩
  refine returns ?_ (fun us before => ?_) ?_
  · rw [Grounded.kernel, run_system]
    decide +kernel
  · rw [List.prefix_nil.mp before, run_system]
    decide +kernel
  · rw [run_system]
    decide +kernel

end XosKernel.Sched
