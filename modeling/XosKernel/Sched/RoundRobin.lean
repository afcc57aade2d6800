/-
# Sched.RoundRobin -- no task is skipped and none overtakes

Between two switch-ins of a slot `s` the positions of the slots that are switched in, counted
from behind `s`, only grow, and the search never passes a ready slot (`RoundFrom`).  So in
between every slot is switched in at most once, and every task that waited when `s` was
switched out is switched in (`round_robin`), whatever is created in the meantime.
-/
import XosKernel.Sched.OneRunning

namespace XosKernel.Sched

open XosKernel.Theory XosKernel.Mm

set_option autoImplicit false

/-- A slot is switched in; `before` is the table when the task before it was switched out. -/
structure SwitchIn where
  slot : Slot
  before : Kernel

/-- The switch-ins of a run, in order. -/
def switchIns (k : Kernel) : List Event → List SwitchIn
  | [] => []
  | event :: rest =>
      ((step k event).1.toList.map fun sw => ⟨sw.next, k⟩) ++ switchIns (step k event).2 rest

/-! ## One event -/

theorem CreateEffect.ready {k k' : Kernel} {result : Int} (effect : CreateEffect k result k')
    {s : Slot} (ready : k.states s = .ready) : k'.states s = .ready := by
  rw [effect.states_of_taken, ready]
  simp [Kernel.Available, ready]

/-- An event either leaves the CPU to the current task, or switches from it to the nearest
ready slot behind it. -/
theorem step_of_oneRuns {k : Kernel} {c : Slot} (one : OneRuns k c) (event : Event) :
    ((step k event).1 = none ∧ OneRuns (step k event).2 c ∧
        ∀ s, k.states s = .ready → (step k event).2.states s = .ready) ∨
      ∃ next, (step k event).1 = some ⟨c, next⟩ ∧ OneRuns (step k event).2 next ∧ next ≠ c ∧
        Cyclic.firstFrom (c + 1) (fun s => k.states s == .ready) = some next ∧
        (step k event).2.states c = .ready ∧
        ∀ s, s ≠ next → k.states s = .ready → (step k event).2.states s = .ready := by
  obtain ⟨ticked, -⟩ | ⟨result, idle, effect, frame, -⟩ | ⟨same, -⟩ := step_effect k event
  · obtain ⟨c', one'⟩ := one.tick
    have effect := schedulerTick_effect k
    rw [← ticked] at one' effect
    generalize step k event = after at one' effect
    obtain ⟨sw, k'⟩ := after
    cases effect with
    | stays _ current states =>
        have same : c' = c := by
          have now := one'.current
          rw [current, one.current] at now
          exact (Option.some.inj now).symm
        refine .inl ⟨rfl, same ▸ one', fun s ready => ?_⟩
        rwa [states]
    | starts _ idle =>
        rw [one.current] at idle
        cases idle
    | @switches _ old next found previous other current states =>
        rw [one.current] at previous
        cases previous
        have same : c' = next := by
          have now := one'.current
          rw [current] at now
          exact (Option.some.inj now).symm
        refine .inr ⟨next, rfl, same ▸ one', other.symm, ?_, ?_, fun s notNext ready => ?_⟩
        · rw [findNextReadyTask_eq, one.current] at found
          exact found
        · rw [states, Function.update_of_ne other, Function.update_self]
        · rw [states, Function.update_of_ne notNext]
          by_cases before : s = c
          · simp [before]
          · rwa [Function.update_of_ne before]
  · exact .inl ⟨idle, one.create effect frame, fun s ready => effect.ready ready⟩
  · rw [same]
    exact .inl ⟨rfl, one, fun s ready => ready⟩

/-! ## One round -/

/-- Slots at growing positions behind `s`, from `low` on. -/
def Ascending (s : Slot) : Nat → List SwitchIn → Prop
  | _, [] => True
  | low, first :: rest =>
      low ≤ Cyclic.ahead (s + 1) first.slot ∧
        Ascending s (Cyclic.ahead (s + 1) first.slot + 1) rest

theorem Ascending.low_le {s : Slot} {low : Nat} {l : List SwitchIn} (grows : Ascending s low l) :
    ∀ x ∈ l, low ≤ Cyclic.ahead (s + 1) x.slot := by
  induction l generalizing low with
  | nil => intro x member; cases member
  | cons first rest ih =>
      intro x member
      obtain rfl | later := List.mem_cons.mp member
      · exact grows.1
      · exact Nat.le_trans (Nat.le_succ_of_le grows.1) (ih grows.2 x later)

theorem Ascending.nodup {s : Slot} {low : Nat} {l : List SwitchIn} (grows : Ascending s low l) :
    (l.map SwitchIn.slot).Nodup := by
  induction l generalizing low with
  | nil => exact List.nodup_nil
  | cons first rest ih =>
      refine List.nodup_cons.mpr ⟨fun again => ?_, ih grows.2⟩
      obtain ⟨x, member, same⟩ := List.mem_map.mp again
      have further := grows.2.low_le x member
      rw [same] at further
      omega

/-- From a task `c` until `s` is switched in: the slots in between come at growing positions
behind `s`, and every slot that is ready now and not behind `c` is among them. -/
theorem round_from {k : Kernel} {c s : Slot} (one : OneRuns k c) {events : List Event}
    {between later : List SwitchIn} {last : SwitchIn}
    (log : switchIns k events = between ++ last :: later) (isLast : last.slot = s)
    (others : ∀ x ∈ between, x.slot ≠ s) (waits : c ≠ s → k.states s = .ready) :
    Ascending s (Cyclic.ahead (s + 1) (c + 1)) between ∧
      ∀ t, t ≠ s → k.states t = .ready →
        Cyclic.ahead (s + 1) (c + 1) ≤ Cyclic.ahead (s + 1) t →
          t ∈ between.map SwitchIn.slot := by
  induction events generalizing k c between with
  | nil => simp [switchIns] at log
  | cons event rest ih =>
      obtain ⟨idle, one', ready⟩ | ⟨next, switched, one', -, found, out, ready⟩ :=
        step_of_oneRuns one event
      · rw [switchIns, idle] at log
        obtain ⟨grows, among⟩ := ih one' log others fun other => ready s (waits other)
        exact ⟨grows, fun t notS isReady => among t notS (ready t isReady)⟩
      · rw [switchIns, switched] at log
        simp only [Option.toList_some, List.map_cons, List.map_nil, List.singleton_append] at log
        -- the search stops at `next`, not behind any slot that is ready ahead of `c`
        have nearest : ∀ t, k.states t = .ready →
            Cyclic.ahead (s + 1) (c + 1) ≤ Cyclic.ahead (s + 1) t →
            Cyclic.ahead (s + 1) (c + 1) ≤ Cyclic.ahead (s + 1) next ∧
              Cyclic.ahead (s + 1) next ≤ Cyclic.ahead (s + 1) t :=
          fun t isReady behind => Cyclic.firstFrom_between found (by simp [isReady]) behind
        have low : Cyclic.ahead (s + 1) (c + 1) ≤ Cyclic.ahead (s + 1) next := by
          by_cases self : c = s
          · subst self
            simp [Cyclic.ahead]
          · refine (nearest s (waits self) ?_).1
            rw [Cyclic.ahead_succ_of_ne self]
            exact Cyclic.ahead_lt_of_ne self
        cases between with
        | nil =>
            obtain ⟨rfl, -⟩ := List.cons.inj log
            obtain rfl : next = s := isLast
            refine ⟨trivial, fun t notS isReady behind => ?_⟩
            have before := Cyclic.ahead_lt_of_ne notS
            have := (nearest t isReady behind).2
            omega
        | cons first between =>
            obtain ⟨rfl, tail⟩ := List.cons.inj log
            have notS : next ≠ s := others _ List.mem_cons_self
            have waits' : (step k event).2.states s = .ready := by
              by_cases self : c = s
              · exact self ▸ out
              · exact ready s notS.symm (waits self)
            obtain ⟨grows, among⟩ := ih one' tail
              (fun x member => others x (List.mem_cons_of_mem _ member)) fun _ => waits'
            rw [Cyclic.ahead_succ_of_ne notS] at grows among
            refine ⟨⟨low, grows⟩, fun t tNotS isReady behind => ?_⟩
            by_cases now : t = next
            · exact now ▸ List.mem_cons_self
            · have order := (nearest t isReady behind).2
              have different : Cyclic.ahead (s + 1) next ≠ Cyclic.ahead (s + 1) t :=
                fun same => now (Cyclic.ahead_inj same).symm
              exact List.mem_cons_of_mem _ (among t tNotS (ready t now isReady) (by omega))

/-! ## Whole runs -/

/-- Up to the first switch-in the CPU stays with the task that has it. -/
theorem first_switchIn {k : Kernel} {c : Slot} (one : OneRuns k c) {events : List Event}
    {first : SwitchIn} {later : List SwitchIn} (log : switchIns k events = first :: later) :
    OneRuns first.before c ∧ ∃ events', switchIns first.before events' = first :: later := by
  induction events generalizing k with
  | nil => simp [switchIns] at log
  | cons event rest ih =>
      obtain ⟨idle, one', -⟩ | ⟨next, switched, -⟩ := step_of_oneRuns one event
      · rw [switchIns, idle] at log
        exact ih one' log
      · have whole := log
        rw [switchIns, switched] at log
        obtain ⟨rfl, -⟩ := List.cons.inj log
        exact ⟨one, _, whole⟩

/-- After a switch-in the slot has the CPU. -/
theorem after_switchIn {k : Kernel} {c : Slot} (one : OneRuns k c) {events : List Event}
    {earlier later : List SwitchIn} {x : SwitchIn}
    (log : switchIns k events = earlier ++ x :: later) :
    ∃ k' events', OneRuns k' x.slot ∧ switchIns k' events' = later := by
  induction events generalizing k c earlier with
  | nil => simp [switchIns] at log
  | cons event rest ih =>
      obtain ⟨idle, one', -⟩ | ⟨next, switched, one', -⟩ := step_of_oneRuns one event
      · rw [switchIns, idle] at log
        exact ih one' log
      · rw [switchIns, switched] at log
        simp only [Option.toList_some, List.map_cons, List.map_nil, List.singleton_append] at log
        cases earlier with
        | nil =>
            obtain ⟨rfl, tail⟩ := List.cons.inj log
            exact ⟨_, _, one', tail⟩
        | cons first earlier =>
            exact ih one' (List.cons.inj log).2

/-- Between two switch-ins of a slot that has the CPU. -/
theorem round_of_oneRuns {k : Kernel} {s : Slot} (one : OneRuns k s) {events : List Event}
    {between later : List SwitchIn} {last : SwitchIn}
    (log : switchIns k events = between ++ last :: later) (isLast : last.slot = s)
    (others : ∀ x ∈ between, x.slot ≠ s) :
    (between.map SwitchIn.slot).Nodup ∧ ∀ t, t ≠ s →
      ∀ out, (between ++ [last]).head? = some out → out.before.Alive t →
        (between.map SwitchIn.slot).count t = 1 := by
  have grows := (round_from one log isLast others fun other => absurd rfl other).1
  refine ⟨grows.nodup, fun t notS out isFirst alive => ?_⟩
  refine List.count_eq_one_of_mem grows.nodup ?_
  -- the table at the moment when `s` is switched out
  have whole : ∃ tail, between ++ last :: later = out :: tail := by
    cases between with
    | nil => exact ⟨later, by simp at isFirst; rw [isFirst]; rfl⟩
    | cons first rest => exact ⟨rest ++ last :: later, by simp at isFirst; rw [isFirst]; rfl⟩
  obtain ⟨tail, whole⟩ := whole
  rw [whole] at log
  obtain ⟨one', events', log'⟩ := first_switchIn one log
  rw [← whole] at log'
  have ready : out.before.states t = .ready :=
    alive.resolve_right fun running => notS ((one'.running t).mp running)
  have among := (round_from one' log' isLast others fun other => absurd rfl other).2
  exact among t notS ready (by simp [Cyclic.ahead])

/-! ## From `scheduler_start` on -/

/-- No task runs and none is current. -/
structure Idle (k : Kernel) : Prop where
  current : k.currentTaskId = none
  running : ∀ s, k.states s ≠ .running

theorem Idle.tick {k : Kernel} (idle : Idle k) :
    (schedulerTick k).1 = none ∧
      (Idle (schedulerTick k).2 ∨ ∃ c, OneRuns (schedulerTick k).2 c) := by
  have tss := tick_tss k
  have effect := schedulerTick_effect k
  generalize schedulerTick k = after at effect tss
  obtain ⟨sw, k'⟩ := after
  cases effect with
  | stays _ current states =>
      exact ⟨rfl, .inl ⟨current.trans idle.current, fun s => by rw [states]; exact idle.running s⟩⟩
  | @starts _ next _ _ current states =>
      refine ⟨rfl, .inr ⟨next, current, fun s => ?_, ?_⟩⟩
      · rw [states]
        by_cases now : s = next
        · simp [now]
        · rw [Function.update_of_ne now]
          exact iff_of_false (idle.running s) now
      · obtain ⟨-, stays⟩ | ⟨next', current', holds⟩ := tss
        · rw [current, idle.current] at stays
          cases stays
        · rw [current] at current'
          cases current'
          exact holds
  | switches _ previous =>
      rw [idle.current] at previous
      cases previous

theorem Idle.create {k k' : Kernel} (idle : Idle k) {result : Int}
    (effect : CreateEffect k result k') : Idle k' := by
  refine ⟨effect.current.trans idle.current, fun s running => ?_⟩
  exact idle.running s (effect.running_before running)

/-- The switch-ins of an idle scheduler are those of a scheduler in which a task runs. -/
theorem Idle.switchIns {k : Kernel} (idle : Idle k) {events : List Event}
    (some_ : switchIns k events ≠ []) :
    ∃ k' c events', OneRuns k' c ∧ Sched.switchIns k' events' = Sched.switchIns k events := by
  induction events generalizing k with
  | nil => exact absurd rfl some_
  | cons event rest ih =>
      obtain ⟨ticked, -⟩ | ⟨result, none, effect, -⟩ | ⟨same, -⟩ := step_effect k event
      · obtain ⟨none, idle' | ⟨c, one⟩⟩ := idle.tick
        · rw [← ticked] at none idle'
          simp only [Sched.switchIns, none] at some_ ⊢
          exact ih idle' some_
        · rw [← ticked] at none one
          simp only [Sched.switchIns, none] at some_ ⊢
          exact ⟨_, c, rest, one, rfl⟩
      · simp only [Sched.switchIns, none] at some_ ⊢
        exact ih (idle.create effect) some_
      · simp only [Sched.switchIns, same] at some_ ⊢
        exact ih idle some_

/-- `scheduler_start` enters a task, or it leaves the scheduler idle. -/
theorem schedulerStart_cases {k : Kernel} (none : ∀ s, k.states s ≠ .running) :
    (∃ c, (schedulerStart k).1 = some c ∧ OneRuns (schedulerStart k).2 c) ∨
      (schedulerStart k).1 = Option.none ∧ Idle (schedulerStart k).2 := by
  have effect := schedulerStart_effect k
  cases entered : (schedulerStart k).1 with
  | none =>
      rw [entered] at effect
      obtain ⟨unready, same⟩ := effect.unentered
      rw [same]
      exact .inr ⟨rfl, rfl, none⟩
  | some c =>
      rw [entered] at effect
      exact .inl ⟨c, rfl, effect.oneRuns⟩

/-- The switch-ins of a run from `scheduler_start` on, with the one of `scheduler_start`. -/
def switchLog (k : Kernel) (events : List Event) : List SwitchIn :=
  ((schedulerStart k).1.toList.map fun first => ⟨first, k⟩) ++
    switchIns (schedulerStart k).2 events

/-- Between two consecutive switch-ins of a slot no other slot is switched in twice, and every
other task that existed when the slot was switched out is switched in exactly once. -/
theorem round_robin (k : Kernel) (creations events : List Event)
    (only : ∀ e ∈ creations, e.isCreation = true) {earlier between later : List SwitchIn}
    {first last : SwitchIn}
    (log : switchLog (run (schedulerInit k) creations) events =
      earlier ++ first :: (between ++ last :: later))
    (same : last.slot = first.slot) (others : ∀ x ∈ between, x.slot ≠ first.slot) :
    (between.map SwitchIn.slot).Nodup ∧ ∀ t, t ≠ first.slot →
      ∀ out, (between ++ [last]).head? = some out → out.before.Alive t →
        (between.map SwitchIn.slot).count t = 1 := by
  have none := creations_not_running only (init_not_running k)
  obtain ⟨c, entered, one⟩ | ⟨unentered, idle⟩ := schedulerStart_cases none
  · simp only [switchLog, entered, Option.toList_some, List.map_cons, List.map_nil,
      List.singleton_append] at log
    cases earlier with
    | nil =>
        obtain ⟨rfl, tail⟩ := List.cons.inj log
        exact round_of_oneRuns one tail same others
    | cons _ earlier =>
        obtain ⟨k', events', one', tail⟩ := after_switchIn one (List.cons.inj log).2
        exact round_of_oneRuns one' tail same others
  · simp only [switchLog, unentered, Option.toList_none, List.map_nil, List.nil_append] at log
    obtain ⟨k', c, events', one, same'⟩ := idle.switchIns (by rw [log]; simp)
    rw [← same'] at log
    obtain ⟨k'', events'', one', tail⟩ := after_switchIn one log
    exact round_of_oneRuns one' tail same others

/-- Two tasks and two ticks: the shell comes back after the other task had its turn. -/
theorem shell_comes_back :
    ∃ first other last, switchLog (run (schedulerInit (bootKernel fun _ => 0))
        [.createTask [] 0x100000, .createTask [] 0x101000]) [.tick, .tick] = [first, other, last] ∧
      first.slot = 0 ∧ last.slot = 0 ∧ ([other].map SwitchIn.slot).count 1 = 1 := by
  have shape : (switchLog (run (schedulerInit (bootKernel fun _ => 0))
      [.createTask [] 0x100000, .createTask [] 0x101000]) [.tick, .tick]).map
        (fun x => (x.slot, x.before.states 1)) = [(0, .ready), (1, .ready), (0, .running)] := by
    decide +kernel
  obtain ⟨first, rest, log, isFirst, shape⟩ := List.map_eq_cons_iff.mp shape
  obtain ⟨other, rest, rfl, isOther, shape⟩ := List.map_eq_cons_iff.mp shape
  obtain ⟨last, rest, rfl, isLast, shape⟩ := List.map_eq_cons_iff.mp shape
  obtain rfl := List.map_eq_nil_iff.mp shape
  obtain ⟨slot₀, -⟩ := Prod.mk.inj isFirst
  obtain ⟨slot₁, waits⟩ := Prod.mk.inj isOther
  obtain ⟨slot₂, -⟩ := Prod.mk.inj isLast
  have round := (round_robin (bootKernel fun _ => 0)
    [.createTask [] 0x100000, .createTask [] 0x101000] [.tick, .tick] (by simp [Event.isCreation])
    (show _ = [] ++ first :: ([other] ++ last :: []) from log) (slot₂.trans slot₀.symm)
    (by simp [slot₀, slot₁])).2 1 (by rw [slot₀]; decide) other rfl (.inl waits)
  exact ⟨first, other, last, log, slot₀, slot₂, round⟩

end XosKernel.Sched
