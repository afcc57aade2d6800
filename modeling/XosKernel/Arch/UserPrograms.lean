/-
# Arch.UserPrograms -- what a program in ring 3 sees

A program sees its registers, its stack pointer, where it executes, its flags, and the memory
that is its own (`View`).  Interrupts come between any two of its instructions, and each of
them runs kernel code on the stack of the TSS; `int 0x80` does so on purpose.  In its view
nothing of this happens: it runs as if it were alone, and a system call is one more
instruction, which sets `rax` (`user_runs_alone`).  Any other `int` does not get through.

The two programs of the repository print a line and then give up the CPU for ever, whatever
comes in between (`helloUser_calls`).
-/
import XosKernel.Arch.InterruptReturn
import XosKernel.Sched.Scheduler
import Mathlib.Data.Set.Basic
import Mathlib.Tactic.IntervalCases

namespace XosKernel.Arch

open XosKernel.Theory
open XosKernel.Sched (Kernel syscallHandler sysWrite sysYield sysExit)

set_option autoImplicit false

/-! ## The dispatcher -/

/-- What a registered handler leaves in the structure; none if it halts. -/
abbrev Isr := Registers → Option Registers

/-- `interrupt_handlers` -/
abbrev Handlers := Nat → Option Isr

/-- The text that an unhandled exception sends to the serial port. -/
def faultText (intNo : Nat) : List UInt8 :=
  [0x46, 0x41, 0x55, 0x4C, 0x54, 0x20] ++
    (if intNo < 10 then [UInt8.ofNat (0x30 + intNo)]
    else [UInt8.ofNat (0x30 + intNo / 10), UInt8.ofNat (0x30 + intNo % 10)]) ++ [0x0A]

/-- The acknowledgements: the slave's lines need one each from both controllers. -/
def eoiWrites (intNo : Nat) : List (Nat × UInt8) :=
  if 32 ≤ intNo ∧ intNo ≤ 47 then (if 40 ≤ intNo then [(0xA0, 0x20)] else []) ++ [(0x20, 0x20)]
  else []

/-- `interrupt_handler`: the structure when it returns, and what it sends to the ports. -/
def interruptHandler (handlers : Handlers) (regs : Registers) :
    Option Registers × List (Nat × UInt8) :=
  match handlers regs.intNo.toNat with
  | some handler =>
      match handler regs with
      | none => (none, [])
      | some regs => (some regs, eoiWrites regs.intNo.toNat)
  | none =>
      if regs.intNo.toNat < 32 then (none, (faultText regs.intNo.toNat).map fun b => (0x3F8, b))
      else (some regs, eoiWrites regs.intNo.toNat)

/-- `syscall_handler`; the kernel may switch to other tasks before it returns. -/
def syscallIsr (k : Kernel) : Isr := fun regs =>
  some { regs with rax := (syscallHandler k (UInt64.ofBitVec regs.rax)).1.toBitVec }

/-- The handlers that boot registers: those of the page fault and of the protection fault halt,
those of the timer and of the keyboard do not look at the structure. -/
def bootHandlers (k : Kernel) : Handlers := fun vector =>
  if vector = 13 ∨ vector = 14 then some fun _ => none
  else if vector = 32 ∨ vector = 33 then some some
  else if vector = 0x80 then some (syscallIsr k)
  else none

/-- What a system call returns in `rax`. -/
def syscallResult (rax : Word) : Word := if rax = 0 ∨ rax = 1 ∨ rax = 2 then 0 else -1

theorem syscallHandler_result (k : Kernel) (rax : Word) :
    (syscallHandler k (UInt64.ofBitVec rax)).1.toBitVec = syscallResult rax := by
  have same (n : UInt64) : UInt64.ofBitVec rax = n ↔ rax = n.toBitVec :=
    ⟨fun is => is ▸ rfl, fun is => is ▸ rfl⟩
  unfold syscallHandler syscallResult
  simp only [same]
  by_cases write : rax = sysWrite.toBitVec
  · rw [if_pos write, if_pos (.inl write)]
    rfl
  by_cases yield_ : rax = sysYield.toBitVec
  · rw [if_neg write, if_pos yield_, if_pos (.inr (.inl yield_))]
    rfl
  by_cases exit : rax = sysExit.toBitVec
  · rw [if_neg write, if_neg yield_, if_pos exit, if_pos (.inr (.inr exit))]
    rfl
  · have unknown : ¬ (rax = 0 ∨ rax = 1 ∨ rax = 2) := by
      rintro (is | is | is)
      · exact write is
      · exact yield_ is
      · exact exit is
    rw [if_neg write, if_neg yield_, if_neg exit, if_neg unknown]
    rfl

/-! ## Views -/

/-- What a program sees; `own` are the addresses of its memory. -/
structure View (own : Set Word) where
  reg : Gpr → Word
  sp : Word
  rip : Word
  rflags : Word
  mem : own → Word

/-- What the program does next: an instruction of its own, or an interrupt of a vector from
the state that its `int` leaves. -/
inductive UserAction (own : Set Word) where
  | goes (v : View own)
  | int (vector : Nat) (v : View own)

abbrev Program (own : Set Word) := View own → UserAction own

variable {own : Set Word}

def Cpu.view (c : Cpu) (own : Set Word) : View own where
  reg := c.reg
  sp := c.sp
  rip := c.rip
  rflags := c.rflags
  mem := fun a => c.mem a

/-- Number and argument of a system call. -/
def View.call (v : View own) : Word × Word := (v.reg .rax, v.reg .rdi)

/-- The return of a system call. -/
def View.answered (v : View own) : View own :=
  { v with reg := Function.update v.reg .rax (syscallResult (v.reg .rax)) }

/-- A step of the program alone, with the system calls that it makes. -/
def plainStep (p : Program own) (v : View own) : Option (List (Word × Word) × View own) :=
  match p v with
  | .goes v' => some ([], v')
  | .int vector v' => if vector = 0x80 then some ([v'.call], v'.answered) else none

/-- So many steps of the program alone. -/
def plainRun (p : Program own) (v : View own) : Nat → Option (List (Word × Word) × View own)
  | 0 => some ([], v)
  | n + 1 => (plainRun p v n).bind fun r => (plainStep p r.2).map fun r' => (r.1 ++ r'.1, r'.2)

/-! ## Runs on the machine -/

/-- `interrupt_handler` as the compiler makes it: it does to the structure what the C function
does, and it has no business in the program's memory. -/
def Compiled (k : Kernel) (own : Set Word) (handler : Called) : Prop :=
  ∀ entry d regs, RowAt entry.mem (entry.reg .rdi) (Registers.words regs) →
    handler entry = some d →
    Returns entry d ∧ (∀ a ∈ own, d.mem a = entry.mem a) ∧
      ∃ regs', (interruptHandler (bootHandlers k) regs).1 = some regs' ∧
        RowAt d.mem (entry.reg .rdi) regs'.words

/-- The CPU is in ring 3, with the segments that `usermode_enter` gives it. -/
def InUser (c : Cpu) : Prop := c.cs = gdtUserCode ∧ c.ss = gdtUserData

theorem InUser.inRing {c : Cpu} (user : InUser c) : InRing c.cs c.ss := .inr user

section Runs

variable (s : Stubs) (tssAddress : Word) (tss : Buf)

/-- A run of a program, with the system calls that it makes.  An interrupt line can be served
between any two instructions, and every interrupt finds the kernel in some state. -/
inductive UserRun (p : Program own) (c₀ : Cpu) : List (Word × Word) → Cpu → Prop
  | start : UserRun p c₀ [] c₀
  | goes {calls : List (Word × Word)} {c c' : Cpu} (run : UserRun p c₀ calls c)
      (does : p (c.view own) = .goes (c'.view own)) (cs : c'.cs = c.cs) (ss : c'.ss = c.ss) :
      UserRun p c₀ calls c'
  | int {calls : List (Word × Word)} {c c₁ c' : Cpu} (run : UserRun p c₀ calls c) {vector : Nat}
      (does : p (c.view own) = .int vector (c₁.view own))
      (cs : c₁.cs = c.cs) (ss : c₁.ss = c.ss) {k : Kernel} {handler : Called} {ret : Word}
      (compiled : Compiled k own handler)
      (returns : interrupt (bootTables s tssAddress tss) handler ret c₁ vector true none =
        some c') :
      UserRun p c₀ (calls ++ [(c₁.view own).call]) c'
  | irq {calls : List (Word × Word)} {c c' : Cpu} (run : UserRun p c₀ calls c) {line : Nat}
      (small : line < 16) {k : Kernel} {handler : Called} {ret : Word}
      (compiled : Compiled k own handler)
      (returns : interrupt (bootTables s tssAddress tss) handler ret c (32 + line) false none =
        some c') :
      UserRun p c₀ calls c'

end Runs

/-! ## A handler that keeps the promise -/

/-- Store words from an address on. -/
def storeWords (mem : Cells) (base : Word) : List Word → Cells
  | [] => mem
  | w :: ws => Function.update (storeWords mem (base + 8) ws) base w

theorem storeWords_holds (mem : Cells) (base : Word) {ws : List Word}
    (few : ws.length < 2 ^ 61) : RowAt (storeWords mem base ws) base ws := by
  induction ws generalizing base with
  | nil => trivial
  | cons w ws ih =>
      rw [List.length_cons] at few
      refine ⟨Function.update_self .., (RowAt.congr fun i inside => ?_).mpr (ih _ (by omega))⟩
      apply Function.update_of_ne
      intro same
      rw [← cell_succ] at same
      have := cell_inj (by omega) (by omega) (same.trans (cell_zero base).symm)
      omega

/-- The structure at an address. -/
def readRegisters (mem : Cells) (base : Word) : Registers where
  r15 := mem (cell base 0)
  r14 := mem (cell base 1)
  r13 := mem (cell base 2)
  r12 := mem (cell base 3)
  r11 := mem (cell base 4)
  r10 := mem (cell base 5)
  r9 := mem (cell base 6)
  r8 := mem (cell base 7)
  rbp := mem (cell base 8)
  rdi := mem (cell base 9)
  rsi := mem (cell base 10)
  rdx := mem (cell base 11)
  rcx := mem (cell base 12)
  rbx := mem (cell base 13)
  rax := mem (cell base 14)
  intNo := mem (cell base 15)
  errCode := mem (cell base 16)
  rip := mem (cell base 17)
  cs := mem (cell base 18)
  rflags := mem (cell base 19)
  rsp := mem (cell base 20)
  ss := mem (cell base 21)

theorem readRegisters_of_holds {mem : Cells} {base : Word} {regs : Registers}
    (holds : RowAt mem base regs.words) : readRegisters mem base = regs := by
  have word (i : Nat) (inside : i < 22) : mem (cell base i) = regs.words.getD i 0 := by
    have few : i < regs.words.length := inside
    rw [List.getD_eq_getElem?_getD, List.getElem?_eq_getElem few]
    exact holds.get few
  cases regs
  rw [readRegisters, Registers.mk.injEq]
  exact ⟨word 0 (by decide), word 1 (by decide), word 2 (by decide), word 3 (by decide),
    word 4 (by decide), word 5 (by decide), word 6 (by decide), word 7 (by decide),
    word 8 (by decide), word 9 (by decide), word 10 (by decide), word 11 (by decide),
    word 12 (by decide), word 13 (by decide), word 14 (by decide), word 15 (by decide),
    word 16 (by decide), word 17 (by decide), word 18 (by decide), word 19 (by decide),
    word 20 (by decide), word 21 (by decide)⟩

/-- A compilation of `interrupt_handler` that uses `rax` for itself. -/
def someHandler (k : Kernel) : Called := fun entry =>
  ((interruptHandler (bootHandlers k) (readRegisters entry.mem (entry.reg .rdi))).1).map
    fun regs =>
      { reg := Function.update entry.reg .rax 0
        sp := entry.sp + 8
        mem := storeWords entry.mem (entry.reg .rdi) regs.words }

theorem someHandler_compiled (k : Kernel) : Compiled k ∅ (someHandler k) := by
  intro entry d regs holds returned
  rw [someHandler, readRegisters_of_holds holds, Option.map_eq_some_iff] at returned
  obtain ⟨regs', does, rfl⟩ := returned
  refine ⟨⟨rfl, fun r member => ?_⟩, fun a impossible => absurd impossible (Set.notMem_empty a),
    regs', does, ?_⟩
  · apply Function.update_of_ne
    rintro rfl
    exact absurd member (by decide)
  · have rdi : Function.update entry.reg .rax 0 .rdi = entry.reg .rdi :=
      Function.update_of_ne (by decide) _ _
    exact storeWords_holds entry.mem _ (by
      change 22 < 2 ^ 61
      decide)

/-- With that handler the interrupts of a program return. -/
theorem someHandler_returns (s : Stubs) (tssAddress : Word) (tss : Buf) (k : Kernel) {c : Cpu}
    (user : InUser c) {vector : Nat} {software : Bool} (has : HasStub vector)
    (plain : vector ∉ errCodeVectors) (allowed : software = true → vector = 0x80)
    {regs : Registers}
    (does : (interruptHandler (bootHandlers k) (c.registers vector none)).1 = some regs)
    (ring : InRing regs.cs regs.ss) :
    ∃ c', interrupt (bootTables s tssAddress tss) (someHandler k) 0 c vector software none =
      some c' := by
  have expected : Expected vector none :=
    ⟨fun impossible => absurd impossible (by decide), fun coded => absurd coded plain⟩
  obtain ⟨entry, holds, -, -, resumes⟩ := interrupt_resumes s tssAddress tss 0 user.inRing has
    (fun soft _ => allowed soft) expected
  have answer : ∃ d, someHandler k entry = some d := by
    rw [someHandler, readRegisters_of_holds holds, does]
    exact ⟨_, rfl⟩
  obtain ⟨d, answer⟩ := answer
  obtain ⟨conforms, -, regs', does', left⟩ := someHandler_compiled k entry d _ holds answer
  rw [does] at does'
  cases does'
  exact ⟨_, (resumes (someHandler k)).2 d regs answer conforms left ring⟩

/-! ## An interrupt in the program's view -/

section View

variable (s : Stubs) (tssAddress : Word) (tss : Buf)

/-- An interrupt of ring 3 that returns has changed in the program's view what the kernel left
in the structure. -/
theorem interrupt_view {c c' : Cpu} (user : InUser c) {vector : Nat} {software : Bool}
    (has : HasStub vector) (plain : vector ∉ errCodeVectors)
    (allowed : software = true → vector = 0x80)
    (apart : ∀ a ∈ own, ¬ StackArea (BitVec.ofNat 64 (rsp0At tss) &&& ~~~15#64) a) {k : Kernel}
    {handler : Called} {ret : Word} (compiled : Compiled k own handler)
    (returns : interrupt (bootTables s tssAddress tss) handler ret c vector software none =
      some c') :
    ∃ regs mem, (interruptHandler (bootHandlers k) (c.registers vector none)).1 = some regs ∧
      (InRing regs.cs regs.ss → c' = regs.cpu mem ∧ ∀ a ∈ own, mem a = c.mem a) := by
  have ring : InRing c.cs c.ss := .inr user
  have ring3 : c.cpl ≠ 0 := by
    rcases ring.cpl with ⟨-, kernel⟩ | ⟨three, -⟩
    · rw [user.1] at kernel
      exact absurd kernel (by decide)
    · rw [three]
      decide
  have expected : Expected vector none :=
    ⟨fun impossible => absurd impossible (by decide), fun coded => absurd coded plain⟩
  obtain ⟨entry, holds, elsewhere, -, resumes⟩ := interrupt_resumes s tssAddress tss ret ring has
    (fun soft _ => allowed soft) expected
  obtain ⟨never, resumes⟩ := resumes handler
  cases answer : handler entry with
  | none =>
      rw [never answer] at returns
      cases returns
  | some d =>
      obtain ⟨conforms, kept, regs, does, left⟩ := compiled entry d _ holds answer
      refine ⟨regs, d.mem, does, fun ring' => ⟨?_, fun a member => ?_⟩⟩
      · have resumed := resumes d regs answer conforms left ring'
        rw [returns] at resumed
        exact Option.some.inj resumed
      · rw [kept a member]
        refine elsewhere a ?_
        rw [Cpu.frameTop, if_neg ring3]
        exact apart a member

/-- An interrupt line leaves the view of the program as it is. -/
theorem irq_view {c c' : Cpu} (user : InUser c) {line : Nat} (small : line < 16)
    (apart : ∀ a ∈ own, ¬ StackArea (BitVec.ofNat 64 (rsp0At tss) &&& ~~~15#64) a) {k : Kernel}
    {handler : Called} {ret : Word} (compiled : Compiled k own handler)
    (returns : interrupt (bootTables s tssAddress tss) handler ret c (32 + line) false none =
      some c') : InUser c' ∧ c'.view own = c.view own := by
  have plain : 32 + line ∉ errCodeVectors := by
    simp only [errCodeVectors, List.mem_cons, List.not_mem_nil, or_false]
    omega
  obtain ⟨regs, mem, does, resumes⟩ := interrupt_view s tssAddress tss user (.inl (by omega)) plain
    (fun impossible => absurd impossible (by decide)) apart compiled returns
  have number : (c.registers (32 + line) none).intNo.toNat = 32 + line := by
    change (BitVec.ofNat 64 (32 + line)).toNat = _
    rw [BitVec.toNat_ofNat]
    omega
  have keeps : (interruptHandler (bootHandlers k) (c.registers (32 + line) none)).1 =
      some (c.registers (32 + line) none) := by
    unfold interruptHandler bootHandlers
    rw [number, if_neg (by omega)]
    by_cases driver : 32 + line = 32 ∨ 32 + line = 33
    · rw [if_pos driver]
    · rw [if_neg driver, if_neg (by omega)]
      simp only
      rw [if_neg (by omega)]
  rw [keeps] at does
  cases does
  obtain ⟨rfl, same⟩ := resumes user.inRing
  refine ⟨user, ?_⟩
  have memory : (fun a : own => mem a) = fun a : own => c.mem a := funext fun a => same a a.2
  have regs : (c.registers (32 + line) none).gpr = c.reg := by
    funext r
    cases r <;> rfl
  rw [Cpu.view, Cpu.view, View.mk.injEq]
  exact ⟨regs, rfl, rfl, rfl, memory⟩

/-- In the program's view a system call sets `rax`. -/
theorem call_view {c c' : Cpu} (user : InUser c)
    (apart : ∀ a ∈ own, ¬ StackArea (BitVec.ofNat 64 (rsp0At tss) &&& ~~~15#64) a) {k : Kernel}
    {handler : Called} {ret : Word} (compiled : Compiled k own handler)
    (returns : interrupt (bootTables s tssAddress tss) handler ret c 0x80 true none = some c') :
    InUser c' ∧ c'.view own = (c.view own).answered := by
  obtain ⟨regs, mem, does, resumes⟩ := interrupt_view s tssAddress tss user (.inr rfl) (by decide)
    (fun _ => rfl) apart compiled returns
  have answers : (interruptHandler (bootHandlers k) (c.registers 0x80 none)).1 =
      some { c.registers 0x80 none with rax := syscallResult (c.reg .rax) } := by
    rw [← syscallHandler_result k]
    rfl
  rw [answers] at does
  cases does
  obtain ⟨rfl, same⟩ := resumes user.inRing
  refine ⟨user, ?_⟩
  have memory : (fun a : own => mem a) = fun a : own => c.mem a := funext fun a => same a a.2
  have regs : Registers.gpr { c.registers 0x80 none with rax := syscallResult (c.reg .rax) } =
      Function.update c.reg .rax (syscallResult (c.reg .rax)) := by
    funext r
    cases r <;> rfl
  rw [Cpu.view, View.answered, View.mk.injEq]
  exact ⟨regs, rfl, rfl, rfl, memory⟩

/-- A program runs as if it were alone.  Whatever interrupts come between its instructions,
and whatever the kernel does in them and in the system calls, its view and the calls it makes
are those of some number of its own steps; and it stays in ring 3. -/
theorem user_runs_alone (p : Program own) {c c' : Cpu} (user : InUser c)
    (apart : ∀ a ∈ own, ¬ StackArea (BitVec.ofNat 64 (rsp0At tss) &&& ~~~15#64) a)
    {calls : List (Word × Word)} (run : UserRun s tssAddress tss p c calls c') :
    InUser c' ∧ ∃ n, plainRun p (c.view own) n = some (calls, c'.view own) := by
  induction run with
  | start => exact ⟨user, 0, rfl⟩
  | @goes calls c₁ c₂ run does cs ss ih =>
      obtain ⟨user₁, n, alone⟩ := ih
      refine ⟨⟨cs.trans user₁.1, ss.trans user₁.2⟩, n + 1, ?_⟩
      rw [plainRun, alone, Option.bind_some, plainStep, does]
      simp
  | @int calls c₁ c₂ c₃ run vector does cs ss k handler ret compiled returns ih =>
      obtain ⟨user₁, n, alone⟩ := ih
      have user₂ : InUser c₂ := ⟨cs.trans user₁.1, ss.trans user₁.2⟩
      have call : vector = 0x80 := by
        by_contra other
        rw [interrupt, deliver_refused s tssAddress tss none
          fun _ => ⟨rfl, user₂.1, other⟩] at returns
        cases returns
      subst call
      obtain ⟨user₃, view⟩ := call_view s tssAddress tss user₂ apart compiled returns
      refine ⟨user₃, n + 1, ?_⟩
      rw [plainRun, alone, Option.bind_some, plainStep, does]
      simp [view]
  | @irq calls c₁ c₂ run line small k handler ret compiled returns ih =>
      obtain ⟨user₁, n, alone⟩ := ih
      obtain ⟨user₂, view⟩ := irq_view s tssAddress tss user₁ small apart compiled returns
      exact ⟨user₂, n, view ▸ alone⟩

end View

/-- A program that only calls. -/
def onlyCalls : Program ∅ := fun v => .int 0x80 v

/-- Its first call, with a timer interrupt before it. -/
theorem onlyCalls_alone : ∃ c', InUser c' ∧ ∃ n,
    plainRun onlyCalls (inProgram.view ∅) n = some ([(7, 7)], c'.view ∅) := by
  have user : InUser inProgram := ⟨rfl, rfl⟩
  have apart : ∀ a ∈ (∅ : Set Word),
      ¬ StackArea (BitVec.ofNat 64 (rsp0At fun _ => 0) &&& ~~~15#64) a :=
    fun a impossible => absurd impossible (Set.notMem_empty a)
  have compiled := someHandler_compiled (Sched.bootKernel fun _ => 0)
  have returns {c : Cpu} (user : InUser c) {vector : Nat} {software : Bool}
      (has : HasStub vector) :=
    @someHandler_returns someStubs 0x8800 (fun _ => 0) (Sched.bootKernel fun _ => 0) c user vector
      software has
  obtain ⟨c₁, timer⟩ : ∃ c', interrupt (bootTables someStubs 0x8800 fun _ => 0)
      (someHandler (Sched.bootKernel fun _ => 0)) 0 inProgram (32 + 0) false none = some c' :=
    returns user (.inl (by decide)) (by decide) (fun impossible => absurd impossible (by decide))
      rfl user.inRing
  obtain ⟨user₁, view₁⟩ := irq_view _ _ _ user (by decide) apart compiled timer
  obtain ⟨c₂, call⟩ : ∃ c', interrupt (bootTables someStubs 0x8800 fun _ => 0)
      (someHandler (Sched.bootKernel fun _ => 0)) 0 c₁ 0x80 true none = some c' :=
    returns user₁ (.inr rfl) (by decide) (fun _ => rfl) rfl user₁.inRing
  have run : UserRun someStubs 0x8800 (fun _ => 0) onlyCalls inProgram
      ([] ++ [(c₁.view ∅).call]) c₂ :=
    .int (.irq .start (by decide) compiled timer) rfl rfl rfl compiled call
  rw [view₁] at run
  exact ⟨c₂, user_runs_alone someStubs 0x8800 (fun _ => 0) onlyCalls user apart run⟩

/-! ## Entering ring 3 -/

/-- `usermode_enter`, with the entry in `rdi` and the stack in `rsi`. -/
def usermodeEnter (t : Tables) (c : Cpu) : Option Cpu :=
  iretq t
    { c with
      toCore := c.toCore.pushAll
        [gdtUserData, c.reg .rsi, 0x202, gdtUserCode, c.reg .rdi] }

/-- The kernel gets to the program's first instruction in ring 3, on the program's stack and
with interrupts on. -/
theorem usermodeEnter_eq (s : Stubs) (tssAddress : Word) (tss : Buf) {c : Cpu}
    (kernel : c.cs = gdtKernelCode) :
    ∃ c', usermodeEnter (bootTables s tssAddress tss) c = some c' ∧ InUser c' ∧
      c'.rip = c.reg .rdi ∧ c'.sp = c.reg .rsi ∧ c'.rflags = 0x202 ∧ c'.reg = c.reg := by
  have few : [gdtUserData, c.reg .rsi, 0x202, gdtUserCode, c.reg .rdi].length + 0 < 2 ^ 61 := by
    simp
  have holds := @Core.pushAll_holds _ c.toCore []
    [gdtUserData, c.reg .rsi, 0x202, gdtUserCode, c.reg .rdi] trivial few
  have regs := Core.pushAll_reg c.toCore
    [gdtUserData, c.reg .rsi, 0x202, gdtUserCode, c.reg .rdi]
  unfold usermodeEnter
  generalize c.toCore.pushAll [gdtUserData, c.reg .rsi, 0x202, gdtUserCode, c.reg .rdi] = d
    at holds regs ⊢
  have word (i : Nat) (inside : i < 5) := holds.get (i := i) inside
  have rip : d.mem d.sp = c.reg .rdi := holds.1
  have cs : d.mem (cell d.sp 1) = gdtUserCode := word 1 (by decide)
  have rflags : d.mem (cell d.sp 2) = 0x202 := word 2 (by decide)
  have sp : d.mem (cell d.sp 3) = c.reg .rsi := word 3 (by decide)
  have ss : d.mem (cell d.sp 4) = gdtUserData := word 4 (by decide)
  have cpl (core : Core Gpr) : Cpu.cpl { c with toCore := core } = 0 := by
    simp [Cpu.cpl, kernel, gdtKernelCode]
  have accepted := InRing.accepted s tssAddress tss (.inr ⟨rfl, rfl⟩)
  unfold iretq
  simp only [cs, ss, cpl, accepted, if_true]
  exact ⟨_, rfl, ⟨rfl, rfl⟩, rip, sp, rflags, regs⟩

/-! ## The programs -/

/-- The instructions of the programs; `lea` of a label is a `mov` of its address. -/
inductive UserInstr where
  | mov (r : Gpr) (w : Word)
  | int (vector : Nat)
  | jmp (target : Nat)
  deriving DecidableEq, Repr

/-- The instruction with a number, where `at_` are the addresses of the instructions. -/
def UserInstr.act (at_ : Nat → Word) (i : Nat) (v : View own) : UserInstr → UserAction own
  | .mov r w => .goes { v with reg := Function.update v.reg r w, rip := at_ (i + 1) }
  | .int vector => .int vector { v with rip := at_ (i + 1) }
  | .jmp target => .goes { v with rip := at_ target }

/-- A program made of instructions; elsewhere there is none to execute. -/
def programOf (code : List UserInstr) (at_ : Nat → Word) : Program own := fun v =>
  match (List.range code.length).find? fun i => at_ i == v.rip with
  | some i =>
      match code[i]? with
      | some instr => instr.act at_ i v
      | none => .int 6 v
  | none => .int 6 v

/-- `user_test_entry` of `user_test.asm`, and `_start` of `hello_user.asm`. -/
def helloUser (msg : Word) : List UserInstr :=
  [.mov .rax 0, .mov .rdi msg, .int 0x80, .mov .rax 1, .int 0x80, .jmp 3]

/-- The instructions of a program are at different addresses. -/
def Apart (at_ : Nat → Word) (n : Nat) : Prop := ∀ i < n, ∀ j < n, at_ i = at_ j → i = j

theorem programOf_at {code : List UserInstr} {at_ : Nat → Word} (apart : Apart at_ code.length)
    {i : Nat} (inside : i < code.length) {v : View own} (here : v.rip = at_ i) :
    programOf code at_ v = (code[i]).act at_ i v := by
  have found : (List.range code.length).find? (fun i => at_ i == v.rip) = some i := by
    rw [List.find?_range_eq_some]
    refine ⟨by simp [here], List.mem_range.mpr inside, fun j before => ?_⟩
    simp only [here, Bool.not_eq_true', beq_eq_false_iff_ne]
    exact fun same => absurd (apart j (by omega) i inside same) (by omega)
  rw [programOf, found]
  simp only [List.getElem?_eq_getElem inside]

/-- The calls that `helloUser` makes in its first instructions. -/
def helloCalls (msg : Word) (n : Nat) : List (Word × Word) :=
  if n < 3 then [] else (0, msg) :: List.replicate ((n - 2) / 3) (1, msg)

/-- The number of the instruction that comes after so many. -/
def helloNext (n : Nat) : Nat := if n < 3 then n else 3 + n % 3

/-- Where `helloUser` is after so many of its instructions. -/
structure HelloAt (at_ : Nat → Word) (msg sp : Word) (n : Nat) (v : View own) : Prop where
  rip : v.rip = at_ (helloNext n)
  sp : v.sp = sp
  argument : 2 ≤ n → v.reg .rdi = msg
  write : n = 1 ∨ n = 2 → v.reg .rax = 0
  yield : 3 ≤ n → n % 3 = 1 → v.reg .rax = 1

section Hello

variable {at_ : Nat → Word} {msg sp : Word}

theorem helloNext_of_le {n : Nat} (loop : 3 ≤ n) : helloNext n = 3 + n % 3 :=
  if_neg (by omega)

/-- Only the two `int` make a call, the first one before the loop. -/
theorem helloCalls_succ (n : Nat) : helloCalls msg (n + 1) = helloCalls msg n ++
    (if n = 2 then [(0, msg)] else if 3 ≤ n ∧ n % 3 = 1 then [(1, msg)] else []) := by
  unfold helloCalls
  rcases Nat.lt_trichotomy n 2 with before | rfl | after
  · rw [if_pos (by omega), if_pos (by omega), if_neg (by omega), if_neg (by omega)]
    rfl
  · rfl
  · rw [if_neg (by omega), if_neg (by omega), if_neg (by omega)]
    by_cases calls : 3 ≤ n ∧ n % 3 = 1
    · have more : (n + 1 - 2) / 3 = (n - 2) / 3 + 1 := by omega
      rw [if_pos calls, more, List.replicate_succ', List.cons_append]
    · have same : (n + 1 - 2) / 3 = (n - 2) / 3 := by omega
      rw [if_neg calls, same, List.append_nil]

theorem HelloAt.step (apart : Apart at_ 6) {n : Nat} {v : View own}
    (here : HelloAt at_ msg sp n v) :
    ∃ v', plainStep (programOf (helloUser msg) at_) v = some
        (if n = 2 then [(0, msg)] else if 3 ≤ n ∧ n % 3 = 1 then [(1, msg)] else [], v') ∧
      HelloAt at_ msg sp (n + 1) v' := by
  have does {i : Nat} (inside : i < 6) (is : helloNext n = i) :=
    @programOf_at own (helloUser msg) at_ apart i inside v (is ▸ here.rip)
  unfold plainStep
  by_cases start : n < 3
  · have is : helloNext n = n := if_pos start
    interval_cases n
    · rw [does (by decide) is]
      exact ⟨_, rfl, rfl, here.sp, fun impossible => absurd impossible (by decide),
        fun _ => rfl, fun impossible => absurd impossible (by decide)⟩
    · rw [does (by decide) is]
      exact ⟨_, rfl, rfl, here.sp, fun _ => rfl, fun _ => here.write (.inl rfl),
        fun impossible => absurd impossible (by decide)⟩
    · rw [does (by decide) is]
      refine ⟨View.answered { v with rip := at_ 3 }, ?_, rfl, here.sp,
        fun _ => here.argument (by decide),
        fun impossible => absurd impossible (by decide),
        fun _ impossible => absurd impossible (by decide)⟩
      have call : View.call { v with rip := at_ 3 } = (0, msg) := by
        rw [View.call, here.write (.inr rfl), here.argument (by decide)]
      exact congrArg (fun call => some ([call], _)) call
  · have is := helloNext_of_le (Nat.le_of_not_lt start)
    have next : helloNext (n + 1) = 3 + (n + 1) % 3 := helloNext_of_le (by omega)
    have message := here.argument (by omega)
    rw [if_neg (by omega)]
    obtain zero | one | two : n % 3 = 0 ∨ n % 3 = 1 ∨ n % 3 = 2 := by omega
    · rw [does (by decide) (is.trans (congrArg _ zero)), if_neg (by omega)]
      have later : helloNext (n + 1) = 4 := by omega
      exact ⟨_, rfl, congrArg at_ later.symm, here.sp, fun _ => message, by omega,
        fun _ _ => rfl⟩
    · rw [does (by decide) (is.trans (congrArg _ one)), if_pos (by omega)]
      have later : helloNext (n + 1) = 5 := by omega
      have call : View.call { v with rip := at_ 5 } = (1, msg) := by
        rw [View.call, here.yield (by omega) one, message]
      exact ⟨_, congrArg (fun call => some ([call], _)) call, congrArg at_ later.symm, here.sp,
        fun _ => message, by omega, by omega⟩
    · rw [does (by decide) (is.trans (congrArg _ two)), if_neg (by omega)]
      have later : helloNext (n + 1) = 3 := by omega
      exact ⟨_, rfl, congrArg at_ later.symm, here.sp, fun _ => message, by omega, by omega⟩

/-- The program alone never stops: it prints and then calls the scheduler in every third
instruction. -/
theorem helloUser_alone (apart : Apart at_ 6) {v : View own} (start : v.rip = at_ 0)
    (stack : v.sp = sp) (n : Nat) :
    ∃ v', plainRun (programOf (helloUser msg) at_) v n = some (helloCalls msg n, v') ∧
      HelloAt at_ msg sp n v' := by
  induction n with
  | zero =>
      exact ⟨v, rfl, start, stack, fun impossible => absurd impossible (by decide),
        fun impossible => absurd impossible (by decide),
        fun impossible => absurd impossible (by decide)⟩
  | succ n ih =>
      obtain ⟨v₁, run, here⟩ := ih
      obtain ⟨v₂, step, there⟩ := here.step apart
      refine ⟨v₂, ?_, there⟩
      rw [plainRun, run, Option.bind_some, step, helloCalls_succ]
      rfl

/-- From `usermode_enter` on, in every run with any interrupts between the instructions, the
system calls that `user_test.asm` and `hello_user.asm` have made are the one that prints and
then only yields, and the program is in its code and on its stack. -/
theorem helloUser_calls (s : Stubs) (tssAddress : Word) (tss : Buf) {c : Cpu}
    (kernel : c.cs = gdtKernelCode) (msg : Word) {at_ : Nat → Word} (apart : Apart at_ 6)
    (entry : c.reg .rdi = at_ 0) :
    ∃ c₀, usermodeEnter (bootTables s tssAddress tss) c = some c₀ ∧
      ∀ calls c', UserRun s tssAddress tss (programOf (helloUser msg) at_ : Program ∅) c₀ calls c' →
        ∃ n, calls = helloCalls msg n ∧ c'.rip = at_ (helloNext n) ∧ c'.sp = c.reg .rsi ∧
          InUser c' := by
  obtain ⟨c₀, enters, user, rip, sp, -, -⟩ := usermodeEnter_eq s tssAddress tss kernel
  refine ⟨c₀, enters, fun calls c' run => ?_⟩
  obtain ⟨user', n, alone⟩ := user_runs_alone s tssAddress tss _ user
    (fun a impossible => absurd impossible (Set.notMem_empty a)) run
  obtain ⟨v, alone', here⟩ := @helloUser_alone ∅ at_ msg _ apart (c₀.view ∅) (rip.trans entry) sp n
  rw [alone] at alone'
  cases alone'
  exact ⟨n, rfl, here.rip, here.sp, user'⟩

end Hello

/-- The kernel about to enter the program at `0x210000`. -/
def enteringHello : Cpu where
  reg := fun _ => 0x210000
  sp := 0x207FE0
  mem := fun _ => 0
  rip := 0x9000
  cs := gdtKernelCode
  rflags := 0x202
  ss := gdtKernelData

theorem helloUser_from_entry : ∃ c₀,
    usermodeEnter (bootTables someStubs 0x8800 fun _ => 0) enteringHello = some c₀ ∧
      ∀ calls c', UserRun someStubs 0x8800 (fun _ => 0)
          (programOf (helloUser 0x210040) fun i => BitVec.ofNat 64 (0x210000 + 5 * i) : Program ∅)
          c₀ calls c' →
        ∃ n, calls = helloCalls 0x210040 n ∧
          c'.rip = BitVec.ofNat 64 (0x210000 + 5 * helloNext n) ∧
          c'.sp = enteringHello.reg .rsi ∧ InUser c' :=
  helloUser_calls someStubs 0x8800 (fun _ => 0) rfl 0x210040 (by unfold Apart; decide) rfl

end XosKernel.Arch
