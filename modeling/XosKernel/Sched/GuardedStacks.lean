/-
# Sched.GuardedStacks -- every step keeps the stacks apart

After a tick, a yield or the start the threads stand on the stacks that were there before, one of
them perhaps under another name (`Guarded.moves`).  A statement of a creation touches no thread,
but for the one that marks the new task: it comes on pages that the creation took
(`Guarded.marks`).
-/
import XosKernel.Sched.OwnStacks

namespace XosKernel.Sched

open XosKernel.Theory XosKernel.Mm

set_option autoImplicit false

theorem pageAddress_le {n n' : Nat} (more : n ≤ n') : pageAddress n ≤ pageAddress n' := by
  unfold pageAddress
  exact Nat.mul_le_mul_right _ (Nat.add_le_add_left more _)

/-- The tables after a switch. -/
theorem switch_tables {g : Grounded} {sw : Switch} (switch : (schedulerTick g.kernel).1 = some sw)
    {s' : System}
    (is : (g.system.setKernel (schedulerTick g.kernel).2).contextSwitch sw = s') :
    s'.thread = some sw.next ∧ s'.machine.kernel.currentTaskId = some sw.next ∧
      s'.machine.kernel.pmmBitmap = g.kernel.pmmBitmap ∧
      (∀ slot, slot ≠ sw.old →
        s'.machine.kernel.tasks slot = (schedulerTick g.kernel).2.tasks slot) ∧
      (s'.machine.kernel.tasks sw.old).ctx =
        g.system.machine.frame g.system.machine.returnAddress ∧
      s'.machine.kernel.states = (schedulerTick g.kernel).2.states := by
  subst is
  have effect := schedulerTick_effect g.kernel
  rw [switch] at effect
  obtain ⟨-, -, current⟩ := effect.switched
  have kernel : ((g.system.setKernel (schedulerTick g.kernel).2).contextSwitch
      sw).machine.kernel.currentTaskId = (schedulerTick g.kernel).2.currentTaskId ∧
      ((g.system.setKernel (schedulerTick g.kernel).2).contextSwitch sw).machine.kernel.pmmBitmap =
        (schedulerTick g.kernel).2.pmmBitmap := by
    change (Machine.execAll _ _ _).kernel.currentTaskId = _ ∧
      (Machine.execAll _ _ _).kernel.pmmBitmap = _
    rw [contextSwitch_kernel]
    exact ⟨rfl, rfl⟩
  refine ⟨rfl, kernel.1.trans current, kernel.2.trans (tick_bitmap g.kernel), fun slot ne => ?_,
    ?_, contextSwitch_states _ _⟩
  · rw [contextSwitch_tasks, if_neg ne]
    rfl
  · rw [contextSwitch_tasks, if_pos rfl]
    rfl

section Steps

variable {g : Grounded} {n : Nat} (guarded : Guarded g n)
include guarded

/-- A step after which every thread stands where one of those before it stood (`was`), no two of
them where the same one did. -/
theorem Guarded.moves {s' : System} {ground' : Option Slot → Set Nat} {n' : Nat}
    (was : Option Slot → Option Slot) (kept : Kept s')
    (origin : ∀ th, s'.Present th → g.system.Present (was th) ∧ ground' th = g.ground (was th))
    (apart : ∀ th th', s'.Present th → s'.Present th' → th ≠ th' → was th ≠ was th')
    (current : ∀ t, s'.thread = some t → s'.machine.kernel.currentTaskId = some t)
    (left : ∀ slot, s'.machine.kernel.Alive slot → s'.thread ≠ some slot →
      (s'.machine.kernel.tasks slot).ctx.rsp ∈ ground' (some slot))
    (more : n ≤ n') (taken : Taken s'.machine.kernel.pmmBitmap n')
    (building : ∀ th v slot rest, s'.creations th = some (.build v slot rest) →
      ∃ base, Fresh base rest v (s'.machine.kernel.tasks slot) n' ∧
        (rest ≠ [] → rest ≠ [.finish] → g.Below base)) : Guarded ⟨s', ground'⟩ n' := by
  have below : ∀ {base}, g.Below base → Grounded.Below ⟨s', ground'⟩ base := by
    intro base low th there a member
    obtain ⟨present, same⟩ := origin th there
    change a ∈ ground' th at member
    rw [same] at member
    exact low _ present a member
  refine ⟨kept, current, fun th th' there there' ne a member => ?_, left, taken,
    fun th there a member => ?_, fun th v slot rest busy => ?_⟩
  · obtain ⟨present, same⟩ := origin th there
    obtain ⟨present', same'⟩ := origin th' there'
    change a ∈ ground' th at member
    change a ∉ ground' th'
    rw [same] at member
    rw [same']
    exact guarded.apart _ _ present present' (apart th th' there there' ne) a member
  · exact Nat.lt_of_lt_of_le (below guarded.below th there a member) (pageAddress_le more)
  · obtain ⟨base, fresh, low⟩ := building th v slot rest busy
    exact ⟨base, fresh, fun some_ more_ => below (low some_ more_)⟩

/-- A step after which the threads are among those before it, on their stacks. -/
theorem Guarded.sameThreads {s' : System} {n' : Nat} (kept : Kept s')
    (here : g.system.Present s'.thread)
    (out : ∀ slot, s'.thread ≠ some slot → g.system.thread ≠ some slot)
    (current : ∀ t, s'.thread = some t → s'.machine.kernel.currentTaskId = some t)
    (alive : ∀ slot, s'.machine.kernel.Alive slot → g.kernel.Alive slot)
    (ctx : ∀ slot, s'.machine.kernel.Alive slot →
      (s'.machine.kernel.tasks slot).ctx = (g.kernel.tasks slot).ctx)
    (more : n ≤ n') (taken : Taken s'.machine.kernel.pmmBitmap n')
    (building : ∀ th v slot rest, s'.creations th = some (.build v slot rest) →
      ∃ base, Fresh base rest v (s'.machine.kernel.tasks slot) n' ∧
        (rest ≠ [] → rest ≠ [.finish] → g.Below base)) : Guarded ⟨s', g.ground⟩ n' := by
  refine guarded.moves id kept (fun th there => ⟨?_, rfl⟩) (fun _ _ _ _ ne => ne) current
    (fun slot lives elsewhere => ?_) more taken building
  · rcases there with rfl | ⟨slot, rfl, lives⟩
    · exact here
    · exact .inr ⟨slot, rfl, alive slot lives⟩
  · rw [ctx slot lives]
    exact guarded.left slot (alive slot lives) (out slot elsewhere)

/-- A slot that is not alive is as the creation has left it. -/
theorem Guarded.building_kept {th : Option Slot} {v : Vars} {slot : Slot} {rest : List Stmt}
    (busy : g.system.creations th = some (.build v slot rest)) {t : Task}
    (same : (g.kernel.tasks slot).isFree = true → t = g.kernel.tasks slot) :
    ∃ base, Fresh base rest v t n ∧ (rest ≠ [] → rest ≠ [.finish] → g.Below base) := by
  obtain ⟨base, fresh, low⟩ := guarded.building th v slot rest busy
  refine ⟨base, ?_, low⟩
  cases free : (g.kernel.tasks slot).isFree with
  | true =>
      rw [same free]
      exact fresh
  | false =>
      obtain rfl | rfl := (guarded.kept.building th v slot rest busy).ending free
      · trivial
      · trivial

/-- The scheduler moves states around, and goes on in the same thread. -/
theorem Guarded.setKernel {k : Kernel} (moved : Rescheduled g.kernel k)
    (bitmap : k.pmmBitmap = g.kernel.pmmBitmap)
    (current : ∀ t, g.system.thread = some t → k.currentTaskId = some t) :
    Guarded ⟨g.system.setKernel k, g.ground⟩ n := by
  apply guarded.sameThreads (guarded.kept.setKernel moved)
  · exact .inl rfl
  · exact fun _ elsewhere => elsewhere
  · exact current
  · exact moved.alive
  · exact fun slot _ => moved.ctx slot
  · exact Nat.le_refl n
  · change Taken k.pmmBitmap n
    rw [bitmap]
    exact guarded.taken
  · exact fun th v slot rest busy => guarded.building_kept busy fun free =>
      moved.free slot (available_iff_isFree.mpr free)

theorem Guarded.work (reg : Reg → Nat) (rip : Nat) (cells : Nat → Nat) (bootstrap : Nat) :
    Guarded (g.next bootstrap (.work reg rip cells)) n := by
  apply guarded.sameThreads
  · exact guarded.kept.sameTable rfl rfl rfl rfl
  · exact .inl rfl
  · exact fun _ elsewhere => elsewhere
  · exact guarded.current
  · exact fun _ alive => alive
  · exact fun _ _ => rfl
  · exact Nat.le_refl n
  · exact guarded.taken
  · exact guarded.building

/-- The old slot of a switch is the one of the executing thread, or `kernel_main` executes. -/
theorem Guarded.executes {old : Slot} (previous : g.kernel.currentTaskId = some old) :
    g.system.thread = some old ∨ g.system.thread = none := by
  cases thread : g.system.thread with
  | none => exact .inr rfl
  | some t =>
      have same := (guarded.current t thread).symm.trans previous
      exact .inl same

section Switch

variable {sw : Switch} (switch : (schedulerTick g.kernel).1 = some sw)
include switch

/-- A thread that is there after a switch, but not in the old slot, did not execute before it. -/
theorem Guarded.switch_waited {s' : System} (thread : s'.thread = some sw.next)
    {th : Option Slot} (there : s'.Present th) (ne : th ≠ some sw.old) :
    th ≠ g.system.thread := by
  have effect := schedulerTick_effect g.kernel
  rw [switch] at effect
  obtain ⟨-, previous, -⟩ := effect.switched
  obtain ⟨slot, rfl⟩ : ∃ slot, th = some slot := by
    obtain rfl | ⟨slot, rfl, -⟩ := there
    · exact ⟨_, thread⟩
    · exact ⟨slot, rfl⟩
  obtain same | same := guarded.executes previous
  · rw [same]
    exact ne
  · rw [same]
    exact Option.some_ne_none slot

/-- A creation that goes on in its slot after a switch. -/
theorem Guarded.switch_building {s' : System}
    (is : (g.system.setKernel (schedulerTick g.kernel).2).contextSwitch sw = s')
    {th : Option Slot} {v : Vars} {slot : Slot} {rest : List Stmt}
    (busy : s'.creations th = some (.build v slot rest)) :
    ∃ base, Fresh base rest v (s'.machine.kernel.tasks slot) n ∧
      (rest ≠ [] → rest ≠ [.finish] → g.Below base) := by
  have effect := schedulerTick_effect g.kernel
  rw [switch] at effect
  obtain ⟨-, previous, -⟩ := effect.switched
  obtain ⟨-, -, -, tasks, -⟩ := switch_tables switch is
  have moved := tick_rescheduled guarded.kept.running
  have oldAlive : g.kernel.Alive sw.old := .inr (guarded.kept.running sw.old previous)
  subst is
  obtain ⟨th', before, -⟩ := contextSwitch_creations
    (show _ ≠ none by rw [busy]; exact Option.some_ne_none _)
  refine guarded.building_kept (before.symm.trans busy) fun free => ?_
  have ne : slot ≠ sw.old := by
    rintro rfl
    exact oldAlive.not_available (available_iff_isFree.mpr free)
  rw [tasks slot ne]
  exact moved.free slot (available_iff_isFree.mpr free)

/-- A switch: the executing thread is left in the old slot, on its stack. -/
theorem Guarded.switches (own : g.system.machine.reg .rsp ∈ g.ground g.system.thread) :
    Guarded ⟨(g.system.setKernel (schedulerTick g.kernel).2).contextSwitch sw,
      Function.update g.ground (some sw.old) (g.ground g.system.thread)⟩ n := by
  have kept : Kept ((g.system.setKernel (schedulerTick g.kernel).2).contextSwitch sw) := by
    have kept := guarded.kept.tick
    unfold System.tick at kept
    dsimp only at kept
    rwa [switch] at kept
  have effect := schedulerTick_effect g.kernel
  rw [switch] at effect
  obtain ⟨found, -, -⟩ := effect.switched
  have moved := tick_rescheduled guarded.kept.running
  generalize is : (g.system.setKernel (schedulerTick g.kernel).2).contextSwitch sw = s' at kept
  obtain ⟨thread, current, bitmap, tasks, ctx, states⟩ := switch_tables switch is
  have alive : ∀ slot, s'.machine.kernel.Alive slot → g.kernel.Alive slot := by
    intro slot lives
    refine moved.alive slot ?_
    unfold Kernel.Alive at lives ⊢
    rwa [states] at lives
  have waited := fun {th} => @Guarded.switch_waited g n guarded sw switch s' thread th
  refine guarded.moves (fun th => if th = some sw.old then g.system.thread else th) kept
    (fun th there => ?_) (fun th th' there there' ne => ?_) (fun t executes => ?_)
    (fun slot lives elsewhere => ?_) (Nat.le_refl n) (bitmap ▸ guarded.taken)
    fun th v slot rest busy => guarded.switch_building switch is busy
  · by_cases old : th = some sw.old
    · rw [if_pos old, old]
      exact ⟨.inl rfl, Function.update_self ..⟩
    · rw [if_neg old]
      refine ⟨?_, Function.update_of_ne old _ _⟩
      obtain rfl | ⟨slot, rfl, lives⟩ := there
      · exact .inr ⟨sw.next, thread, .inl (found_ready found)⟩
      · exact .inr ⟨slot, rfl, alive slot lives⟩
  · -- only the thread in the old slot was elsewhere, and it was the one that executed
    by_cases old : th = some sw.old
    · have other : th' ≠ some sw.old := fun same => ne (old.trans same.symm)
      rw [if_pos old, if_neg other]
      exact (waited there' other).symm
    · rw [if_neg old]
      by_cases other : th' = some sw.old
      · rw [if_pos other]
        exact waited there old
      · rw [if_neg other]
        exact ne
  · rw [thread] at executes
    exact current.trans executes
  · by_cases same : slot = sw.old
    · subst same
      rw [Function.update_self, ctx]
      exact own
    · have ne : some slot ≠ some sw.old := fun h => same (Option.some.inj h)
      rw [Function.update_of_ne ne, tasks slot same, moved.ctx]
      exact guarded.left slot (alive slot lives) (waited (.inr ⟨slot, rfl, lives⟩) ne).symm

end Switch

/-- A tick of the timer, or a yield. -/
theorem Guarded.tick (own : g.system.machine.reg .rsp ∈ g.ground g.system.thread)
    (bootstrap : Nat) : Guarded (g.next bootstrap .tick) n := by
  have moved := tick_rescheduled guarded.kept.running
  have effect := schedulerTick_effect g.kernel
  unfold Grounded.next System.next System.tick
  cases switch : (schedulerTick g.kernel).1 with
  | some sw =>
      dsimp only
      rw [switch]
      exact guarded.switches switch own
  | none =>
      dsimp only
      rw [switch]
      rw [switch] at effect
      refine guarded.setKernel moved (tick_bitmap _) fun t executes => ?_
      have now := guarded.current t executes
      cases effect with
      | stays _ current _ => exact current.trans now
      | starts _ idle _ _ =>
          rw [idle] at now
          cases now

theorem Guarded.start (bootstrap : Nat) : Guarded (g.next bootstrap .start) n := by
  have kept := guarded.kept.start
  have moved := start_rescheduled g.kernel
  have effect := schedulerStart_effect g.kernel
  unfold Grounded.next System.next
  dsimp only
  unfold System.start at kept ⊢
  split
  · next first =>
      rw [if_pos first] at kept
      dsimp only at kept ⊢
      cases found : (schedulerStart g.system.machine.kernel).1 with
      | none =>
          refine guarded.setKernel moved (start_bitmap _) fun t executes => ?_
          rw [first.1] at executes
          cases executes
      | some next =>
          rw [found] at kept
          rw [found] at effect
          apply guarded.sameThreads kept
          · exact .inr ⟨next, rfl, .inl effect.ready⟩
          · intro slot _
            rw [first.1]
            exact (Option.some_ne_none slot).symm
          · rintro t ⟨⟩
            exact effect.current
          · exact moved.alive
          · exact fun slot _ => moved.ctx slot
          · exact Nat.le_refl n
          · change Taken (schedulerStart g.kernel).2.pmmBitmap n
            rw [start_bitmap]
            exact guarded.taken
          · exact fun th v slot rest busy => guarded.building_kept busy fun free =>
              moved.free slot (available_iff_isFree.mpr free)
  · exact guarded

/-- Only the creation of the executing thread changes. -/
theorem Guarded.creates {s' : System} {n' : Nat} {c : Option Creation}
    (kept : Kept (s'.setCreation c)) (alone : g.system.Alone)
    (thread : s'.thread = g.system.thread) (creations : s'.creations = g.system.creations)
    (current : s'.machine.kernel.currentTaskId = g.kernel.currentTaskId)
    (alive : ∀ slot, s'.machine.kernel.Alive slot → g.kernel.Alive slot ∧
      (s'.machine.kernel.tasks slot).ctx = (g.kernel.tasks slot).ctx)
    (more : n ≤ n') (taken : Taken s'.machine.kernel.pmmBitmap n')
    (building : ∀ v slot rest, c = some (.build v slot rest) →
      ∃ base, Fresh base rest v (s'.machine.kernel.tasks slot) n' ∧
        (rest ≠ [] → rest ≠ [.finish] → g.Below base)) :
    Guarded ⟨s'.setCreation c, g.ground⟩ n' := by
  apply guarded.sameThreads kept
  · exact .inl thread
  · intro slot elsewhere
    rw [← thread]
    exact elsewhere
  · intro t executes
    exact current.trans (guarded.current t (thread ▸ executes))
  · exact fun slot lives => (alive slot lives).1
  · exact fun slot lives => (alive slot lives).2
  · exact more
  · exact taken
  · intro th v slot rest busy
    change Function.update s'.creations s'.thread c th = _ at busy
    rw [thread, creations] at busy
    by_cases this : th = g.system.thread
    · rw [this, Function.update_self] at busy
      exact building v slot rest busy
    · rw [Function.update_of_ne this] at busy
      exact absurd (alone th (by rw [busy]; exact Option.some_ne_none _)) this

theorem Guarded.create (bootstrap : Nat) (c : Call) (idle : g.system.Idle) :
    Guarded (g.next bootstrap (.create c)) n := by
  have kept := guarded.kept.next bootstrap (h := .create c) fun _ => idle
  unfold Grounded.next
  unfold System.next System.create at kept ⊢
  dsimp only at kept ⊢
  split
  · next first =>
      rw [if_pos first] at kept
      refine guarded.creates kept (fun th busy => absurd (idle th) busy) rfl rfl rfl
        (fun _ alive => ⟨alive, rfl⟩) (Nat.le_refl n) guarded.taken ?_
      rintro _ _ _ ⟨⟩
  · exact guarded

section Build

variable {v : Vars} {slot : Slot} {stmt : Stmt} {rest : List Stmt}
variable (busy : g.system.creations g.system.thread = some (.build v slot (stmt :: rest)))
include busy

/-- A statement that leaves the slot free, and the rest of the creation as `Fresh` says. -/
theorem Guarded.builds {s' : System} {n' : Nat} {v' : Vars} {rest' : List Stmt}
    (free : (g.kernel.tasks slot).isFree = true) (going : stmt ≠ .finish)
    (kept : Kept (s'.setCreation (some (.build v' slot rest'))))
    (thread : s'.thread = g.system.thread) (creations : s'.creations = g.system.creations)
    (current : s'.machine.kernel.currentTaskId = g.kernel.currentTaskId)
    (still : (s'.machine.kernel.tasks slot).isFree = true)
    (others : ∀ other, other ≠ slot → s'.machine.kernel.tasks other = g.kernel.tasks other)
    (more : n ≤ n') (taken : Taken s'.machine.kernel.pmmBitmap n')
    (fresh : ∀ base, Fresh base (stmt :: rest) v (g.kernel.tasks slot) n →
      Fresh base rest' v' (s'.machine.kernel.tasks slot) n') :
    Guarded ⟨s'.setCreation (some (.build v' slot rest')), g.ground⟩ n' := by
  have alone := guarded.kept.alone (by rw [busy]; exact Option.some_ne_none _)
  refine guarded.creates kept alone thread creations current (fun other lives => ?_) more taken ?_
  · have ne : other ≠ slot := by
      rintro rfl
      exact lives.not_available (available_iff_isFree.mpr still)
    have same := others other ne
    refine ⟨?_, congrArg Task.ctx same⟩
    unfold Kernel.Alive Kernel.states at lives ⊢
    rwa [same] at lives
  · rintro _ _ _ ⟨⟩
    obtain ⟨base, before, low⟩ := guarded.building _ _ _ _ busy
    refine ⟨base, fresh base before, fun _ _ => low (List.cons_ne_nil _ _) ?_⟩
    rintro ⟨⟩
    exact going rfl

/-- A creation that returns. -/
theorem Guarded.ends {k : Kernel} {n' : Nat} (tasks : k.tasks = g.kernel.tasks)
    (current : k.currentTaskId = g.kernel.currentTaskId) (more : n ≤ n')
    (taken : Taken k.pmmBitmap n') :
    Guarded ⟨(g.system.setKernel k).setCreation none, g.ground⟩ n' := by
  have alone := guarded.kept.alone (by rw [busy]; exact Option.some_ne_none _)
  have kept : Kept (g.system.setKernel k) := guarded.kept.sameTable tasks current rfl rfl
  refine guarded.creates (kept.setCreation alone nofun) alone rfl rfl current
    (fun other lives => ?_) more taken nofun
  change k.Alive other at lives
  change _ ∧ (k.tasks other).ctx = _
  unfold Kernel.Alive Kernel.states at lives ⊢
  rw [tasks] at lives ⊢
  exact ⟨lives, rfl⟩

end Build

section Mark

variable {v : Vars} {slot : Slot} {rest : List Stmt}

omit guarded in
/-- The threads other than the new one were there before. -/
theorem mark_present {th : Option Slot} (ne : th ≠ some slot)
    (there : (g.system.execStmt v slot rest .markReady).Present th) : g.system.Present th := by
  obtain rfl | ⟨other, rfl, lives⟩ := there
  · exact .inl rfl
  · have same : (g.system.execStmt v slot rest .markReady).machine.kernel.tasks other =
        g.kernel.tasks other := Kernel.setTask_other _ (fun is => ne (congrArg some is)) _
    refine .inr ⟨other, rfl, ?_⟩
    unfold Kernel.Alive Kernel.states at lives ⊢
    rwa [same] at lives

variable (busy : g.system.creations g.system.thread = some (.build v slot (.markReady :: rest)))
include busy

/-- The new task starts at the top of its stack, and the pages of that are behind all threads. -/
theorem Guarded.mark_stack :
    (g.kernel.tasks slot).ctx.rsp ∈ taskStack (g.kernel.tasks slot).stackTop ∧
      ∃ base, g.Below base ∧ ∀ a ∈ taskStack (g.kernel.tasks slot).stackTop,
        pageAddress base ≤ a ∧ a < pageAddress n := by
  obtain ⟨-, context, -⟩ := guarded.kept.building _ _ _ _ busy
  obtain ⟨base, ⟨m, low, room, top⟩, below⟩ := guarded.building _ _ _ _ busy
  refine ⟨?_, base, below (List.cons_ne_nil _ _) (by rintro ⟨⟩), ?_⟩
  · rw [context]
    change (g.kernel.tasks slot).stackTop - 8 ∈ taskStack (g.kernel.tasks slot).stackTop
    have some_ : (g.kernel.tasks slot).stackTop ≠ 0 := by
      rw [top]
      unfold taskStackSize
      omega
    constructor
    · unfold taskStackSize
      omega
    · omega
  · rintro a ⟨least, most⟩
    rw [top] at least most
    unfold pageAddress pageSize taskStackSize at *
    omega

/-- The creation that goes on behind the mark has nothing to keep free. -/
theorem Guarded.mark_building {th : Option Slot} {v' : Vars} {slot' : Slot} {rest' : List Stmt}
    (busy' : (g.system.execStmt v slot rest .markReady).creations th =
      some (.build v' slot' rest')) : rest' = [] ∨ rest' = [.finish] := by
  have alone := guarded.kept.alone (by rw [busy]; exact Option.some_ne_none _)
  obtain ⟨-, -, -, completes⟩ := guarded.kept.building _ _ _ _ busy
  change Function.update g.system.creations g.system.thread _ th = _ at busy'
  by_cases this : th = g.system.thread
  · rw [this, Function.update_self] at busy'
    cases busy'
    exact (completes { g.kernel.tasks slot with state := .ready }).ending rfl
  · rw [Function.update_of_ne this] at busy'
    exact absurd (alone th (by rw [busy']; exact Option.some_ne_none _)) this

/-- The task that is marked ready is on pages that no thread is on. -/
theorem Guarded.marks : Guarded ⟨g.system.execStmt v slot rest .markReady,
    Function.update g.ground (some slot) (taskStack (g.kernel.tasks slot).stackTop)⟩ n := by
  obtain ⟨top, base, under, stack⟩ := guarded.mark_stack busy
  -- a cell of the new stack is on no stack of the threads before
  have fresh : ∀ th, g.system.Present th → ∀ a ∈ taskStack (g.kernel.tasks slot).stackTop,
      a ∉ g.ground th := by
    intro th there a member member'
    have low := under th there a member'
    have high := (stack a member).1
    omega
  refine ⟨guarded.kept.execStmt busy, guarded.current,
    fun th th' there there' ne a member => ?_, fun other lives elsewhere => ?_, guarded.taken,
    fun th there a member => ?_, fun th v' slot' rest' busy' => ?_⟩
  · change a ∈ Function.update g.ground (some slot) _ th at member
    change a ∉ Function.update g.ground (some slot) _ th'
    by_cases first : th = some slot
    · have second : th' ≠ some slot := fun same => ne (first.trans same.symm)
      rw [first, Function.update_self] at member
      rw [Function.update_of_ne second]
      exact fresh th' (mark_present second there') a member
    · rw [Function.update_of_ne first] at member
      by_cases second : th' = some slot
      · rw [second, Function.update_self]
        exact fun member' => fresh th (mark_present first there) a member' member
      · rw [Function.update_of_ne second]
        exact guarded.apart th th' (mark_present first there) (mark_present second there') ne a
          member
  · change ((g.kernel.setTask slot _).tasks other).ctx.rsp ∈ Function.update g.ground (some slot) _ _
    by_cases same : other = slot
    · subst same
      rw [Function.update_self, Kernel.setTask_self]
      exact top
    · have ne : some other ≠ some slot := fun is => same (Option.some.inj is)
      rw [Function.update_of_ne ne, Kernel.setTask_other _ same]
      obtain here | ⟨before, is, lived⟩ := mark_present ne (.inr ⟨other, rfl, lives⟩)
      · exact absurd here.symm elsewhere
      · cases is
        exact guarded.left other lived elsewhere
  · change a ∈ Function.update g.ground (some slot) _ th at member
    by_cases first : th = some slot
    · rw [first, Function.update_self] at member
      exact (stack a member).2
    · rw [Function.update_of_ne first] at member
      exact guarded.below th (mark_present first there) a member
  · obtain rfl | rfl := guarded.mark_building busy busy'
    · exact ⟨0, trivial, fun some_ _ => absurd rfl some_⟩
    · exact ⟨0, trivial, fun _ more => absurd rfl more⟩

end Mark

section Advance

variable {v : Vars} {slot : Slot} {rest : List Stmt}

/-- The other statements of a creation. -/
theorem Guarded.execStmt {stmt : Stmt}
    (busy : g.system.creations g.system.thread = some (.build v slot (stmt :: rest)))
    (unmarked : stmt ≠ .markReady) :
    ∃ n', n ≤ n' ∧ Guarded ⟨g.system.execStmt v slot rest stmt, g.ground⟩ n' := by
  have kept := guarded.kept.execStmt busy
  have completes := guarded.kept.building _ _ _ _ busy
  have stored {t : Task} {k : Kernel} (same : k.tasks = Function.update g.kernel.tasks slot t)
      {other : Slot} (ne : other ≠ slot) : k.tasks other = g.kernel.tasks other := by
    rw [same, Function.update_of_ne ne]
  have self (t : Task) : (g.kernel.setTask slot t).tasks slot = t := Kernel.setTask_self _ _ _
  cases stmt with
  | takeId =>
      refine ⟨n, Nat.le_refl n, guarded.builds busy completes.1 nofun kept rfl rfl rfl ?_
        (fun _ => stored rfl) (Nat.le_refl n) guarded.taken fun base fresh => ?_⟩
      · exact (congrArg Task.isFree (self _)).trans completes.1
      · exact (self _).symm ▸ fresh _
  | assign f =>
      refine ⟨n, Nat.le_refl n, guarded.builds busy completes.1 nofun kept rfl rfl rfl ?_
        (fun _ => stored rfl) (Nat.le_refl n) guarded.taken fun base fresh => ?_⟩
      · exact (congrArg Task.isFree (self _)).trans completes.2.1
      · exact (self _).symm ▸ fresh
  | compute f =>
      exact ⟨n, Nat.le_refl n, guarded.builds busy completes.1 nofun kept rfl rfl rfl completes.1
        (fun _ _ => rfl) (Nat.le_refl n) guarded.taken fun _ fresh => fresh⟩
  | copyName =>
      refine ⟨n, Nat.le_refl n, ?_⟩
      unfold System.execStmt at kept ⊢
      dsimp only at kept ⊢
      split
      · next more =>
          rw [if_pos more] at kept
          refine guarded.builds busy completes.1 nofun kept rfl rfl rfl ?_
            (fun _ => stored rfl) (Nat.le_refl n) guarded.taken fun base fresh => ?_
          · exact (congrArg Task.isFree (self _)).trans completes.1
          · exact (self _).symm ▸ fresh.copied _ _
      · next copied =>
          rw [if_neg copied] at kept
          exact guarded.builds busy completes.1 nofun kept rfl rfl rfl completes.1
            (fun _ _ => rfl) (Nat.le_refl n) guarded.taken fun _ fresh =>
              fresh v.i (g.kernel.tasks slot).name
  | alloc keep =>
      unfold System.execStmt at kept ⊢
      dsimp only at kept ⊢
      obtain ⟨-, found, taken⟩ | ⟨-, found, taken⟩ := guarded.taken.allocPage_cases
      · rw [found] at kept ⊢
        exact ⟨n + 1, Nat.le_succ n, guarded.builds busy completes.1 nofun kept rfl rfl rfl
          completes.1 (fun _ _ => rfl) (Nat.le_succ n) taken fun _ fresh => fresh⟩
      · rw [found] at kept ⊢
        exact ⟨n, Nat.le_refl n, guarded.ends busy rfl rfl (Nat.le_refl n) taken⟩
  | fillTop =>
      exact ⟨n, Nat.le_refl n, guarded.builds busy completes.1 nofun kept rfl rfl rfl completes.1
        (fun _ _ => rfl) (Nat.le_refl n) guarded.taken fun _ fresh => fresh.2⟩
  | markReady => exact absurd rfl unmarked
  | finish => exact ⟨n, Nat.le_refl n, guarded.ends busy rfl rfl (Nat.le_refl n) guarded.taken⟩

end Advance

theorem Guarded.advance (bootstrap : Nat) :
    ∃ n', n ≤ n' ∧ Guarded (g.next bootstrap .advance) n' := by
  unfold Grounded.next System.next System.advance
  dsimp only
  cases busy : g.system.creations g.system.thread with
  | none => exact ⟨n, Nat.le_refl n, guarded⟩
  | some c =>
      have alone : g.system.Alone := guarded.kept.alone (by rw [busy]; exact Option.some_ne_none _)
      have kept := guarded.kept.advance
      unfold System.advance at kept
      rw [busy] at kept
      cases c with
      | search v i =>
          refine ⟨n, Nat.le_refl n, ?_⟩
          dsimp only at kept ⊢
          have goes {c : Option Creation} (kept : Kept (g.system.setCreation c))
              (building : ∀ v slot rest, c = some (.build v slot rest) →
                ∃ base, Fresh base rest v (g.kernel.tasks slot) n ∧
                  (rest ≠ [] → rest ≠ [.finish] → g.Below base)) :
              Guarded ⟨g.system.setCreation c, g.ground⟩ n :=
            guarded.creates kept alone rfl rfl rfl (fun _ lives => ⟨lives, rfl⟩) (Nat.le_refl n)
              guarded.taken building
          split
          · next found =>
              rw [dif_pos found] at kept
              split
              · next free =>
                  rw [if_pos free] at kept
                  refine goes kept ?_
                  rintro _ _ _ ⟨⟩
                  exact ⟨n, call_fresh _ _ _ n, fun _ _ => guarded.below⟩
              · next used =>
                  rw [if_neg used] at kept
                  exact goes kept nofun
          · next none_ =>
              rw [dif_neg none_] at kept
              exact goes kept nofun
      | build v slot rest =>
          cases rest with
          | nil =>
              exact ⟨n, Nat.le_refl n, guarded.creates kept alone rfl rfl rfl
                (fun _ lives => ⟨lives, rfl⟩) (Nat.le_refl n) guarded.taken nofun⟩
          | cons stmt rest =>
              cases stmt with
              | markReady => exact ⟨n, Nat.le_refl n, guarded.marks busy⟩
              | _ => exact guarded.execStmt busy nofun

/-- Every step keeps the invariant. -/
theorem Guarded.next (bootstrap : Nat) {h : Happening} (single : h.begins = true → g.system.Idle)
    (allowed : g.Allows h) : ∃ n', n ≤ n' ∧ Guarded (g.next bootstrap h) n' := by
  cases h with
  | work reg rip cells => exact ⟨n, Nat.le_refl n, guarded.work reg rip cells bootstrap⟩
  | tick => exact ⟨n, Nat.le_refl n, guarded.tick allowed bootstrap⟩
  | yield => exact ⟨n, Nat.le_refl n, guarded.tick allowed bootstrap⟩
  | start => exact ⟨n, Nat.le_refl n, guarded.start bootstrap⟩
  | create c => exact ⟨n, Nat.le_refl n, guarded.create bootstrap c (single rfl)⟩
  | advance => exact guarded.advance bootstrap

end Steps

end XosKernel.Sched
