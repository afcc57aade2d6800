/-
# Arch.InterruptReturn -- the interrupted code goes on

An interrupt is invisible to the code that it interrupts, but for what the handler does on
purpose.  The handler finds in the structure where the CPU was (`interrupt_resumes`), and the
CPU goes on as the structure says when the handler returns, whichever vector it was, from
either ring, and whatever the handler did to the registers that the compiler lets it use.

The argument is about one list of words: the CPU and the stub together push the 22 words of
the structure, last field first, and the pops and `iretq` take the same list from the front.
-/
import XosKernel.Arch.InterruptStubs

namespace XosKernel.Arch

open XosKernel.Theory

set_option autoImplicit false

/-! ## The tables after boot -/

/-- The tables that `gdt_init` and `idt_init` leave; they start as zeroes. -/
def bootTables (s : Stubs) (tssAddress : Word) (tss : Buf) : Tables where
  gdt := gdtInit (fun _ => 0) tssAddress
  idt := idtInit (fun _ => 0) s
  tss := tss

/-- `GDT_KERNEL_CODE` and the selectors after it. -/
def gdtKernelCode : Word := 0x08
def gdtKernelData : Word := 0x10
def gdtUserCode : Word := 0x1B
def gdtUserData : Word := 0x23

/-- The segments that code of this system runs with.  A handler that came from ring 3 has no
stack segment. -/
def InRing (cs ss : Word) : Prop :=
  cs = gdtKernelCode ∧ (ss = 0 ∨ ss = gdtKernelData) ∨ cs = gdtUserCode ∧ ss = gdtUserData

/-- The vectors that have a stub. -/
def HasStub (vector : Nat) : Prop := vector < 48 ∨ vector = 0x80

section Boot

variable (s : Stubs) (tssAddress : Word) (tss : Buf)

theorem boot_segments : (bootTables s tssAddress tss).segment 0x08 = ⟨0, 0xFFFFF, 0x9A, 0xA⟩ ∧
    (bootTables s tssAddress tss).segment 0x10 = ⟨0, 0xFFFFF, 0x92, 0xC⟩ ∧
    (bootTables s tssAddress tss).segment 0x1B = ⟨0, 0xFFFFF, 0xFA, 0xA⟩ ∧
    (bootTables s tssAddress tss).segment 0x23 = ⟨0, 0xFFFFF, 0xF2, 0xC⟩ := by
  obtain ⟨code, data, userCode, userData⟩ := gdtInit_segments (fun _ => 0) tssAddress
  exact ⟨code, data, userCode, userData⟩

/-- `iretq` accepts the segments of this system. -/
theorem InRing.accepted {cs ss : Word} (ring : InRing cs ss) :
    (bootTables s tssAddress tss).segmentsOk 0 cs ss = true := by
  obtain ⟨code, data, userCode, userData⟩ := boot_segments s tssAddress tss
  unfold Tables.segmentsOk Tables.stackSegmentOk
  rcases ring with ⟨rfl, rfl | rfl⟩ | ⟨rfl, rfl⟩
  · simp only [gdtKernelCode, BitVec.reduceToNat, code]
    simp [Descriptor.code64, Descriptor.present, Descriptor.dpl]
  · simp only [gdtKernelCode, gdtKernelData, BitVec.reduceToNat, code, data]
    decide
  · simp only [gdtUserCode, gdtUserData, BitVec.reduceToNat, userCode, userData]
    decide

theorem boot_gate {vector : Nat} (has : HasStub vector) :
    gateAt (bootTables s tssAddress tss).idt vector =
      ⟨(s.address vector).toNat, 0x08, 0, if vector = 0x80 then 0xEE else 0x8E⟩ := by
  obtain ⟨lines, call, -⟩ := idtInit_reads (fun _ => 0) s
  rcases has with below | rfl
  · rw [if_neg (by omega)]
    exact lines vector below
  · exact call

end Boot

/-- A CPU in ring 3. -/
def inProgram : Cpu where
  reg := fun _ => 7
  sp := 0x20FF00
  mem := fun _ => 0
  rip := 0x210000
  cs := gdtUserCode
  rflags := 0x202
  ss := gdtUserData

/-- Stubs at some addresses. -/
def someStubs : Stubs where
  isr := fun n => BitVec.ofNat 64 (0x9000 + 16 * n)
  irq := fun n => BitVec.ofNat 64 (0x9800 + 16 * n)
  isr128 := 0x9F00

/-! ## The words of the structure -/

/-- Where the CPU begins its frame: on the stack of the TSS if it comes from ring 3. -/
def Cpu.frameTop (c : Cpu) (tss : Buf) : Word :=
  (if c.cpl = 0 then c.sp else BitVec.ofNat 64 (rsp0At tss)) &&& ~~~15#64

/-- What the CPU and the stub push, first word first. -/
def Cpu.pushed (c : Cpu) (vector : Nat) (error : Option Word) : List Word :=
  [c.ss, c.sp, c.rflags, c.cs, c.rip] ++
    ([error.getD 0, BitVec.ofNat 64 vector] ++ savedRegs.map c.reg)

theorem Cpu.pushed_reverse (c : Cpu) (vector : Nat) (error : Option Word) :
    (c.pushed vector error).reverse = (c.registers vector error).words := rfl

/-- The vectors that come with an error code are those whose stub expects one. -/
def Expected (vector : Nat) (error : Option Word) : Prop :=
  error.isSome = true ↔ vector ∈ errCodeVectors

theorem InRing.cpl {c : Cpu} (ring : InRing c.cs c.ss) :
    c.cpl = 0 ∧ c.cs = gdtKernelCode ∨ c.cpl = 3 ∧ c.cs = gdtUserCode := by
  unfold Cpu.cpl
  rcases ring with ⟨code, -⟩ | ⟨code, -⟩
  · exact .inl ⟨by rw [code]; rfl, code⟩
  · exact .inr ⟨by rw [code]; rfl, code⟩

/-- The delivery of an interrupt to its stub. -/
theorem deliver_boot (s : Stubs) (tssAddress : Word) (tss : Buf) {c : Cpu} {vector : Nat}
    {software : Bool} (error : Option Word) (ring : InRing c.cs c.ss) (has : HasStub vector)
    (allowed : software = true → c.cs = gdtUserCode → vector = 0x80) :
    deliver (bootTables s tssAddress tss) c vector software error = some
      { ({ c.toCore with sp := c.frameTop tss } : Core Gpr).pushAll
          ([c.ss, c.sp, c.rflags, c.cs, c.rip] ++ error.toList) with
        rip := s.address vector
        cs := gdtKernelCode
        rflags := c.rflags &&& ~~~gateFlags
        ss := if c.cpl = 0 then c.ss else 0 } := by
  obtain ⟨code, -⟩ := boot_segments s tssAddress tss
  unfold deliver Cpu.frameTop
  simp only [boot_gate s tssAddress tss has, code]
  have flags : ∀ flags, flags = (if vector = 0x80 then 0xEE else 0x8E) →
      Gate.present ⟨(s.address vector).toNat, 0x08, 0, flags⟩ = true ∧
        Gate.isInterruptGate ⟨(s.address vector).toNat, 0x08, 0, flags⟩ = true ∧
        (software = true → c.cpl ≤ Gate.dpl ⟨(s.address vector).toNat, 0x08, 0, flags⟩) := by
    intro flags is
    by_cases call : vector = 0x80
    · rw [if_pos call] at is
      subst is
      refine ⟨by simp [Gate.present], by simp [Gate.isInterruptGate], fun _ => ?_⟩
      rcases ring.cpl with ⟨kernel, -⟩ | ⟨user, -⟩
      · simp [kernel]
      · simp [user, Gate.dpl]
    · rw [if_neg call] at is
      subst is
      refine ⟨by simp [Gate.present], by simp [Gate.isInterruptGate], fun soft => ?_⟩
      rcases ring.cpl with ⟨kernel, -⟩ | ⟨-, user⟩
      · simp [kernel]
      · exact absurd (allowed soft user) call
  obtain ⟨present, isGate, may⟩ := flags _ rfl
  have isCode : Descriptor.code64 ⟨0, 0xFFFFF, 0x9A, 0xA⟩ = true := by decide
  have ringZero : Descriptor.dpl ⟨0, 0xFFFFF, 0x9A, 0xA⟩ = 0 := by decide
  have within : Descriptor.dpl ⟨0, 0xFFFFF, 0x9A, 0xA⟩ ≤ c.cpl := by
    rw [ringZero]
    exact Nat.zero_le _
  rw [if_pos ⟨present, isGate, trivial, may, isCode, within⟩]
  simp only [ringZero, BitVec.ofNat_toNat, BitVec.setWidth_eq]
  rcases ring.cpl with ⟨kernel, -⟩ | ⟨user, -⟩
  · simp [kernel, gdtKernelCode]
  · simp [user, gdtKernelCode, bootTables]

/-- The CPU delivers no interrupt without a stub, and no `int` of ring 3 but the system call. -/
theorem deliver_refused (s : Stubs) (tssAddress : Word) (tss : Buf) {c : Cpu} {vector : Nat}
    {software : Bool} (error : Option Word)
    (refused : HasStub vector → software = true ∧ c.cs = gdtUserCode ∧ vector ≠ 0x80) :
    deliver (bootTables s tssAddress tss) c vector software error = none := by
  have closed : ¬ ((gateAt (bootTables s tssAddress tss).idt vector).present = true ∧
      (software = true → c.cpl ≤ (gateAt (bootTables s tssAddress tss).idt vector).dpl)) := by
    by_cases has : HasStub vector
    · obtain ⟨soft, user, other⟩ := refused has
      have three : c.cpl = 3 := by
        rw [Cpu.cpl, user]
        rfl
      rw [boot_gate s tssAddress tss has, if_neg other, three]
      simp [Gate.dpl, soft]
    · obtain ⟨notLine, notCall⟩ := not_or.mp has
      obtain ⟨-, -, untouched, -⟩ := idtInit_reads (fun _ => 0) s
      have empty := untouched vector (Nat.le_of_not_lt notLine) notCall
      change gateAt (bootTables s tssAddress tss).idt vector = _ at empty
      rw [empty]
      simp [Gate.present, gateAt, Buf.le]
  rw [deliver, if_neg]
  rintro ⟨present, -, -, may, -⟩
  exact closed ⟨present, may⟩

/-- What the tables of the boot let in.  From either ring the CPU delivers the vectors that
have a stub, to their stub, in ring 0, with interrupts off, on the stack in use or, from ring
3, on the one of the TSS; and a program's own `int` only if it is the system call. -/
theorem delivered_iff (s : Stubs) (tssAddress : Word) (tss : Buf) {c : Cpu} {vector : Nat}
    {software : Bool} {error : Option Word} (ring : InRing c.cs c.ss) :
    ((deliver (bootTables s tssAddress tss) c vector software error).isSome = true ↔
        HasStub vector ∧ (software = true → c.cs = gdtUserCode → vector = 0x80)) ∧
      ∀ c', deliver (bootTables s tssAddress tss) c vector software error = some c' →
        c'.rip = s.address vector ∧ InRing c'.cs c'.ss ∧ c'.cs = gdtKernelCode ∧
          c'.rflags &&& 0x200 = 0 ∧ c'.reg = c.reg ∧
          cell c'.sp (5 + error.toList.length) = c.frameTop tss := by
  by_cases lets : HasStub vector ∧ (software = true → c.cs = gdtUserCode → vector = 0x80)
  · have delivered := deliver_boot s tssAddress tss error ring lets.1 lets.2
    rw [delivered]
    refine ⟨⟨fun _ => lets, fun _ => rfl⟩, fun c' is => ?_⟩
    cases is
    have depth := Core.pushAll_sp ({ c.toCore with sp := c.frameTop tss } : Core Gpr)
      ([c.ss, c.sp, c.rflags, c.cs, c.rip] ++ error.toList)
    rw [List.length_append] at depth
    refine ⟨rfl, .inl ⟨rfl, ?_⟩, rfl, ?_, Core.pushAll_reg .., depth⟩
    · rcases ring with ⟨code, data⟩ | ⟨code, -⟩
      · have zero : c.cpl = 0 := by
          rw [Cpu.cpl, code]
          rfl
        exact (if_pos zero).symm ▸ data
      · have three : c.cpl ≠ 0 := by
          rw [Cpu.cpl, code]
          decide
        exact .inl (if_neg three)
    · change c.rflags &&& ~~~gateFlags &&& 0x200 = 0
      rw [BitVec.and_assoc]
      exact BitVec.and_zero
  · have closed (has : HasStub vector) :
        software = true ∧ c.cs = gdtUserCode ∧ vector ≠ 0x80 := by
      by_contra other
      refine lets ⟨has, fun soft user => ?_⟩
      by_contra notCall
      exact other ⟨soft, user, notCall⟩
    rw [deliver_refused s tssAddress tss error closed]
    refine ⟨⟨fun impossible => ?_, fun may => absurd may lets⟩, fun c' impossible => ?_⟩
    · cases impossible
    · cases impossible

/-- A program may not raise the timer's vector itself. -/
theorem timer_not_raised :
    ((deliver (bootTables someStubs 0x8800 fun _ => 0) inProgram 32 true none).isSome = true ↔
        HasStub 32 ∧ (true = true → inProgram.cs = gdtUserCode → 32 = 0x80)) ∧
      ∀ c', deliver (bootTables someStubs 0x8800 fun _ => 0) inProgram 32 true none = some c' →
        c'.rip = someStubs.address 32 ∧ InRing c'.cs c'.ss ∧ c'.cs = gdtKernelCode ∧
          c'.rflags &&& 0x200 = 0 ∧ c'.reg = inProgram.reg ∧
          cell c'.sp (5 + (none : Option Word).toList.length) = inProgram.frameTop fun _ => 0 :=
  delivered_iff someStubs 0x8800 (fun _ => 0) (.inr ⟨rfl, rfl⟩)

/-! ## The stub -/

section Stub

variable (handler : Called) (ret : Word) (c : Core Gpr)

theorem execAll_append (code code' : List Instr) : execAll handler ret c (code ++ code') =
    (execAll handler ret c code).bind fun d => execAll handler ret d code' :=
  List.foldlM_append

theorem execAll_pushes (rs : List Gpr) :
    execAll handler ret c (rs.map .push) = some (c.pushAll (rs.map c.reg)) := by
  induction rs generalizing c with
  | nil => rfl
  | cons r rs ih => exact ih (c.push (c.reg r))

theorem execAll_pops (rs : List Gpr) :
    execAll handler ret c (rs.map .pop) = some (c.popAll rs) := by
  induction rs generalizing c with
  | nil => rfl
  | cons r rs ih => exact ih (c.pop r)

/-- The registers with which the stub enters the handler. -/
def handlerEntry : Core Gpr :=
  ({ reg := Function.update (Function.update c.reg .rdi c.sp) .rbx c.sp
     sp := (c.sp &&& 0xFFFFFFFFFFFFFFF0) - 8
     mem := c.mem } : Core Gpr).push ret

/-- What the stub does between the handler's return and `iretq`. -/
def afterHandler (d : Core Gpr) : Core Gpr :=
  let d := ({ d with sp := d.reg .rbx } : Core Gpr).popAll savedRegs.reverse
  { d with sp := d.sp + 16 }

theorem isrCommonStub_eq : execAll handler ret c isrCommonStub =
    (handler (handlerEntry ret (c.pushAll (savedRegs.map c.reg)))).map afterHandler := by
  have parts : isrCommonStub = savedRegs.map .push ++
      ([.movFromSp .rdi, .movFromSp .rbx, .andSp 0xFFFFFFFFFFFFFFF0, .subSp 8, .call] ++
        ([.movToSp .rbx] ++ (savedRegs.reverse.map .pop ++ [.addSp 16]))) := rfl
  rw [parts, execAll_append, execAll_pushes, Option.bind_some, execAll_append]
  have called (d : Core Gpr) : execAll handler ret d
      [.movFromSp .rdi, .movFromSp .rbx, .andSp 0xFFFFFFFFFFFFFFF0, .subSp 8, .call] =
        handler (handlerEntry ret d) := by
    have : execAll handler ret d
      [.movFromSp .rdi, .movFromSp .rbx, .andSp 0xFFFFFFFFFFFFFFF0, .subSp 8, .call] =
        (handler (handlerEntry ret d)).bind some := rfl
    rw [this, Option.bind_fun_some]
  rw [called]
  cases handler (handlerEntry ret (c.pushAll (savedRegs.map c.reg))) with
  | none => rfl
  | some d =>
      rw [Option.bind_some, Option.map_some, execAll_append]
      have moved : execAll handler ret d [.movToSp .rbx] = some { d with sp := d.reg .rbx } := rfl
      rw [moved, Option.bind_some, execAll_append, execAll_pops, Option.bind_some]
      rfl

theorem execAll_pushImm (w : Word) (code : List Instr) :
    execAll handler ret c (.pushImm w :: code) = execAll handler ret (c.push w) code := rfl

/-- The stub of a vector, entered with what the CPU pushed. -/
theorem stub_eq {vector : Nat} {error : Option Word} (expected : Expected vector error)
    (words : List Word) :
    execAll handler ret (c.pushAll (words ++ error.toList)) (stub vector) =
      (handler (handlerEntry ret (c.pushAll (words ++
        ([error.getD 0, BitVec.ofNat 64 vector] ++ savedRegs.map c.reg))))).map afterHandler := by
  have regs (d : Core Gpr) (same : d.reg = c.reg) (us : List Word)
      (is : c.pushAll (words ++ us) = d) :
      d.pushAll (savedRegs.map d.reg) = c.pushAll (words ++ (us ++ savedRegs.map c.reg)) := by
    rw [← List.append_assoc, Core.pushAll_append, is, same]
  by_cases coded : vector ∈ errCodeVectors
  · obtain ⟨e, rfl⟩ := Option.isSome_iff_exists.mp (expected.mpr coded)
    rw [stub, if_pos coded, isrErrCode, List.singleton_append, execAll_pushImm, isrCommonStub_eq,
      regs _ (by simp) [e, BitVec.ofNat 64 vector]]
    · rfl
    · rw [Core.pushAll_append, Core.pushAll_append]
      rfl
  · obtain rfl : error = none :=
      Option.not_isSome_iff_eq_none.mp fun some => coded (expected.mp some)
    rw [stub, if_neg coded, isrNoErrCode, List.cons_append, execAll_pushImm, List.singleton_append,
      execAll_pushImm, isrCommonStub_eq, regs _ (by simp) [0, BitVec.ofNat 64 vector]]
    · rfl
    · rw [Core.pushAll_append, Core.pushAll_append]
      rfl

theorem afterHandler_reg (d : Core Gpr) : (afterHandler d).reg =
    (({ d with sp := d.reg .rbx } : Core Gpr).popAll savedRegs.reverse).reg := rfl

theorem afterHandler_sp (d : Core Gpr) : (afterHandler d).sp = cell (d.reg .rbx) 17 := by
  have pops := Core.popAll_sp ({ d with sp := d.reg .rbx } : Core Gpr) savedRegs.reverse
  unfold afterHandler
  dsimp only
  rw [pops]
  exact cell_cell _ 15 2

theorem afterHandler_mem (d : Core Gpr) : (afterHandler d).mem = d.mem :=
  Core.popAll_mem ({ d with sp := d.reg .rbx } : Core Gpr) savedRegs.reverse

end Stub

/-! ## Alignment -/

theorem toNat_align (x : Word) : (x &&& 0xFFFFFFFFFFFFFFF0#64).toNat = x.toNat / 16 * 16 := by
  have high : (x.toNat &&& 0xFFFFFFFFFFFFFFF0) / 2 ^ 4 = x.toNat / 2 ^ 4 % 2 ^ 60 := by
    rw [Nat.and_div_two_pow]
    exact and_mask _ 60
  have low : (x.toNat &&& 0xFFFFFFFFFFFFFFF0) % 2 ^ 4 = 0 := by
    rw [Nat.and_mod_two_pow]
    exact Nat.and_zero _
  have small := x.isLt
  rw [BitVec.toNat_and]
  change x.toNat &&& 0xFFFFFFFFFFFFFFF0 = _
  omega

theorem align_self {x : Word} (aligned : x.toNat % 16 = 0) : x &&& 0xFFFFFFFFFFFFFFF0 = x := by
  apply BitVec.eq_of_toNat_eq
  refine (toNat_align x).trans ?_
  omega

theorem frameTop_aligned (c : Cpu) (tss : Buf) : (c.frameTop tss).toNat % 16 = 0 := by
  have mask : ~~~15#64 = 0xFFFFFFFFFFFFFFF0#64 := rfl
  rw [Cpu.frameTop, mask, toNat_align]
  omega

/-! ## The round trip -/

/-- The registers and memory with which the handler of an interrupt is entered. -/
def Cpu.atHandler (c : Cpu) (tss : Buf) (vector : Nat) (error : Option Word) (ret : Word) :
    Core Gpr :=
  handlerEntry ret
    (({ c.toCore with sp := c.frameTop tss } : Core Gpr).pushAll (c.pushed vector error))

section Entry

variable (c : Cpu) (tss : Buf) (vector : Nat) (error : Option Word) (ret : Word)

/-- The structure lies right below where the frame began, and its address is aligned.  The
return address of the call is two cells further down. -/
theorem atHandler_at : ∃ base, cell base 22 = c.frameTop tss ∧ base.toNat % 16 = 0 ∧
    (c.atHandler tss vector error ret).reg .rdi = base ∧
    (c.atHandler tss vector error ret).reg .rbx = base ∧
    (c.atHandler tss vector error ret).sp = base - 16 ∧
    (c.atHandler tss vector error ret).mem = Function.update
      (({ c.toCore with sp := c.frameTop tss } : Core Gpr).pushAll (c.pushed vector error)).mem
      (base - 16) ret ∧
    (({ c.toCore with sp := c.frameTop tss } : Core Gpr).pushAll (c.pushed vector error)).sp =
      base := by
  have top := Core.pushAll_sp ({ c.toCore with sp := c.frameTop tss } : Core Gpr)
    (c.pushed vector error)
  rw [Cpu.atHandler]
  generalize ({ c.toCore with sp := c.frameTop tss } : Core Gpr).pushAll
    (c.pushed vector error) = d at top ⊢
  have aligned : d.sp.toNat % 16 = 0 := by
    have whole := frameTop_aligned c tss
    have sum := congrArg BitVec.toNat top
    change (d.sp + BitVec.ofNat 64 (8 * 22)).toNat = (c.frameTop tss).toNat at sum
    rw [BitVec.toNat_add, BitVec.toNat_ofNat] at sum
    omega
  have below : (d.sp &&& 0xFFFFFFFFFFFFFFF0) - 8 - 8 = d.sp - 16 := by
    rw [align_self aligned]
    bv_omega
  refine ⟨d.sp, top, aligned, rfl, rfl, below, ?_, rfl⟩
  change Function.update d.mem ((d.sp &&& 0xFFFFFFFFFFFFFFF0) - 8 - 8) ret = _
  rw [below]

/-- The handler finds where the CPU was. -/
theorem atHandler_holds : RowAt (c.atHandler tss vector error ret).mem
    ((c.atHandler tss vector error ret).reg .rdi) (c.registers vector error).words := by
  obtain ⟨base, -, -, rdi, -, -, mem, sp⟩ := atHandler_at c tss vector error ret
  have few : (c.pushed vector error).length + 0 < 2 ^ 61 := by
    change 22 + 0 < 2 ^ 61
    decide
  have pushed := @Core.pushAll_holds _ { c.toCore with sp := c.frameTop tss } []
    (c.pushed vector error) trivial few
  rw [List.append_nil, Cpu.pushed_reverse, sp] at pushed
  rw [rdi, mem, RowAt.congr]
  · exact pushed
  · intro i inside
    apply Function.update_of_ne
    intro same
    have last : base - 16 = cell base (2 ^ 61 - 2) := by
      unfold cell
      bv_omega
    have words : i < 22 := inside
    have := cell_inj (by omega) (by decide) (same.trans last)
    omega

/-- The stack pointer at the handler's entry. -/
theorem atHandler_sp : (c.atHandler tss vector error ret).sp.toNat % 16 = 0 := by
  obtain ⟨base, -, aligned, -, -, sp, -⟩ := atHandler_at c tss vector error ret
  rw [sp]
  bv_omega

/-- The cells right below a place on the stack that an interrupt there uses. -/
def StackArea (top a : Word) : Prop := ∃ i < 24, a = cell (top - 192) i

theorem atHandler_elsewhere {a : Word} (elsewhere : ¬ StackArea (c.frameTop tss) a) :
    (c.atHandler tss vector error ret).mem a = c.mem a := by
  obtain ⟨base, top, -, -, -, -, mem, sp⟩ := atHandler_at c tss vector error ret
  have low : c.frameTop tss - 192 = base - 16 := by
    rw [← top]
    unfold cell
    bv_omega
  have up : cell (base - 16) 2 = base := by
    unfold cell
    bv_omega
  rw [mem, Function.update_of_ne]
  · refine Core.pushAll_elsewhere _ _ fun i inside same => elsewhere ⟨2 + i, ?_, ?_⟩
    · have words : i < 22 := inside
      omega
    · rw [low, ← cell_cell, up, ← sp]
      exact same
  · intro same
    refine elsewhere ⟨0, by decide, ?_⟩
    rw [low, cell_zero]
    exact same

end Entry

section RoundTrip

variable (s : Stubs) (tssAddress : Word) (tss : Buf) {c : Cpu} {vector : Nat} {software : Bool}
  {error : Option Word} (ret : Word)

/-- An interrupt is the call of the handler between two lists of pushes and pops. -/
theorem interrupt_eq (handler : Called) (ring : InRing c.cs c.ss) (has : HasStub vector)
    (allowed : software = true → c.cs = gdtUserCode → vector = 0x80)
    (expected : Expected vector error) :
    interrupt (bootTables s tssAddress tss) handler ret c vector software error =
      (handler (c.atHandler tss vector error ret)).bind fun d =>
        iretq (bootTables s tssAddress tss)
          { afterHandler d with
            rip := s.address vector
            cs := gdtKernelCode
            rflags := c.rflags &&& ~~~gateFlags
            ss := if c.cpl = 0 then c.ss else 0 } := by
  rw [interrupt, deliver_boot s tssAddress tss error ring has allowed, Option.bind_eq_bind,
    Option.bind_some, stub_eq handler ret _ expected, Option.bind_eq_bind, Option.bind_map]
  rfl

/-- The pops after the handler take the structure's registers, and `iretq` the rest of it. -/
theorem iretq_structure {d : Core Gpr} {regs : Registers} {rip rflags ss : Word}
    (holds : RowAt d.mem (d.reg .rbx) regs.words) (ring : InRing regs.cs regs.ss) :
    iretq (bootTables s tssAddress tss)
        { afterHandler d with rip := rip, cs := gdtKernelCode, rflags := rflags, ss := ss } =
      some (regs.cpu d.mem) := by
  have saved : RowAt d.mem (d.reg .rbx) (savedRegs.reverse.map regs.gpr ++
      [regs.intNo, regs.errCode, regs.rip, regs.cs, regs.rflags, regs.rsp, regs.ss]) := holds
  have popped : (afterHandler d).reg = regs.gpr := by
    funext r
    rw [afterHandler_reg]
    refine Core.popAll_holds (RowAt.append.mp saved).1 ?_
    cases r <;> decide
  have inside (i : Nat) (small : i < 22) : i < regs.words.length := small
  have rip' : d.mem (cell (d.reg .rbx) 17) = regs.rip := holds.get (inside 17 (by decide))
  have cs' : d.mem (cell (d.reg .rbx) 18) = regs.cs := holds.get (inside 18 (by decide))
  have rflags' : d.mem (cell (d.reg .rbx) 19) = regs.rflags := holds.get (inside 19 (by decide))
  have rsp' : d.mem (cell (d.reg .rbx) 20) = regs.rsp := holds.get (inside 20 (by decide))
  have ss' : d.mem (cell (d.reg .rbx) 21) = regs.ss := holds.get (inside 21 (by decide))
  have cpl (core : Core Gpr) :
      Cpu.cpl { core with rip := rip, cs := gdtKernelCode, rflags := rflags, ss := ss } = 0 := by
    simp [Cpu.cpl, gdtKernelCode]
  unfold iretq
  simp only [popped, afterHandler_sp, afterHandler_mem, cell_cell, rip', cs', rflags', rsp', ss',
    cpl]
  rw [if_pos (ring.accepted s tssAddress tss)]
  rfl

/-- An interrupt is invisible but for what the handler does to the structure.  The handler is
entered with the address of a structure that says where the CPU was, with the error code or a
zero and the vector, and nothing but the cells below it has changed.  If the handler returns,
the CPU goes on as the structure then says, in the general registers, the stack pointer, the
flags, and where it executes.

The stack pointer at the handler's entry is a multiple of 16.  The calling convention wants it
eight below one: the stub takes eight off so that the call makes it a multiple of 16, where it
has to be one before the call. -/
theorem interrupt_resumes (ring : InRing c.cs c.ss) (has : HasStub vector)
    (allowed : software = true → c.cs = gdtUserCode → vector = 0x80)
    (expected : Expected vector error) :
    ∃ entry : Core Gpr,
      RowAt entry.mem (entry.reg .rdi) (c.registers vector error).words ∧
      (∀ a, ¬ StackArea (c.frameTop tss) a → entry.mem a = c.mem a) ∧
      entry.sp.toNat % 16 = 0 ∧
      ∀ handler : Called,
        (handler entry = none →
          interrupt (bootTables s tssAddress tss) handler ret c vector software error = none) ∧
        ∀ d (regs : Registers), handler entry = some d → Returns entry d →
          RowAt d.mem (entry.reg .rdi) regs.words → InRing regs.cs regs.ss →
          interrupt (bootTables s tssAddress tss) handler ret c vector software error =
            some (regs.cpu d.mem) := by
  refine ⟨c.atHandler tss vector error ret, atHandler_holds .., fun a elsewhere =>
    atHandler_elsewhere c tss vector error ret elsewhere, atHandler_sp .., fun handler => ?_⟩
  rw [interrupt_eq s tssAddress tss ret handler ring has allowed expected]
  constructor
  · intro never
    rw [never]
    rfl
  · intro d regs returned returns holds ring'
    obtain ⟨base, -, -, rdi, rbx, -⟩ := atHandler_at c tss vector error ret
    have kept : d.reg .rbx = base := (returns.kept .rbx (by decide)).trans rbx
    rw [returned, Option.bind_some]
    apply iretq_structure
    · rw [kept, ← rdi]
      exact holds
    · exact ring'

end RoundTrip

/-- A page fault of a program, which comes with an error code, and a handler that has another
idea of where to go on. -/
theorem page_fault_resumes : ∃ entry : Core Gpr,
    RowAt entry.mem (entry.reg .rdi) (inProgram.registers 14 (some 4)).words ∧
    (∀ a, ¬ StackArea (inProgram.frameTop fun _ => 0) a → entry.mem a = inProgram.mem a) ∧
    entry.sp.toNat % 16 = 0 ∧
    ∀ handler : Called,
      (handler entry = none → interrupt (bootTables someStubs 0x8800 fun _ => 0) handler 0x9A00
        inProgram 14 false (some 4) = none) ∧
      ∀ d (regs : Registers), handler entry = some d → Returns entry d →
        RowAt d.mem (entry.reg .rdi) regs.words → InRing regs.cs regs.ss →
        interrupt (bootTables someStubs 0x8800 fun _ => 0) handler 0x9A00 inProgram 14 false
          (some 4) = some (regs.cpu d.mem) :=
  interrupt_resumes someStubs 0x8800 (fun _ => 0) 0x9A00 (.inr ⟨rfl, rfl⟩) (.inl (by decide))
    (fun impossible => absurd impossible (by decide))
    ⟨fun _ => by decide, fun _ => rfl⟩

end XosKernel.Arch
