/-
# Arch.InterruptStubs -- from the interrupted code to the handler and back

What happens to the registers when an interrupt comes: the CPU looks up the gate, changes to
the stack of the TSS if it leaves ring 3, and pushes where it was; the stub of
`interrupt_stubs.asm` pushes the rest, so that the stack holds a `struct registers`, and calls
`interrupt_handler` with its address; then everything is popped and `iretq` goes on as the
structure says.

The handler is compiled C: some function on registers and memory.  What the compiler promises
of it is `Returns`, and `interruptHandler` is what the C text does to the structure.

Memory is read and written in 64-bit cells.  The CPU aligns the stack before it pushes, so
all the cells of a frame are aligned.  The floating point registers, which the stubs leave to
the handler, have no model.
-/
import XosKernel.Arch.Descriptors
import XosKernel.Theory.WordStack

namespace XosKernel.Arch

open XosKernel.Theory

set_option autoImplicit false

/-! ## The CPU -/

/-- The general registers other than the stack pointer. -/
inductive Gpr where
  | rax | rbx | rcx | rdx | rsi | rdi | rbp | r8 | r9 | r10 | r11 | r12 | r13 | r14 | r15
  deriving DecidableEq, Repr

structure Cpu extends Core Gpr where
  rip : Word
  cs : Word
  rflags : Word
  ss : Word

/-- The ring that the CPU is in. -/
def Cpu.cpl (c : Cpu) : Nat := c.cs.toNat % 4

/-- The tables that the CPU looks things up in. -/
structure Tables where
  gdt : Buf
  idt : Buf
  tss : Buf

/-- The flags that an interrupt gate clears: `TF`, `IF`, `NT` and `RF`. -/
def gateFlags : Word := 0x14300#64

/-- The descriptor that a selector names. -/
def Tables.segment (t : Tables) (selector : Nat) : Descriptor :=
  descriptorAt t.gdt (selector % 2 ^ 16 / 8 * 8)

/-- An interrupt of a vector, from `int` or not, with the error code if the CPU has one.  The
result is none where the CPU raises another exception instead. -/
def deliver (t : Tables) (c : Cpu) (vector : Nat) (software : Bool) (error : Option Word) :
    Option Cpu :=
  let gate := gateAt t.idt vector
  let code := t.segment gate.selector
  if gate.present ∧ gate.isInterruptGate ∧ gate.ist = 0 ∧ (software = true → c.cpl ≤ gate.dpl) ∧
      code.code64 ∧ code.dpl ≤ c.cpl then
    let sp := if code.dpl < c.cpl then BitVec.ofNat 64 (rsp0At t.tss) else c.sp
    let core := { c.toCore with sp := sp &&& ~~~15#64 }
    some
      { core.pushAll ([c.ss, c.sp, c.rflags, c.cs, c.rip] ++ error.toList) with
        rip := BitVec.ofNat 64 gate.offset
        cs := BitVec.ofNat 64 (gate.selector / 4 * 4 + code.dpl)
        rflags := c.rflags &&& ~~~gateFlags
        ss := if code.dpl < c.cpl then 0 else c.ss }
  else none

/-- A stack segment that ring `rpl` can have; the rings within have none of their own. -/
def Tables.stackSegmentOk (t : Tables) (rpl : Nat) (ss : Word) : Bool :=
  (ss.toNat % 2 ^ 16 / 4 == 0 && rpl != 3) ||
    (ss.toNat % 4 == rpl && (t.segment ss.toNat).writable && (t.segment ss.toNat).dpl == rpl)

/-- The segments that `iretq` accepts in ring `cpl`. -/
def Tables.segmentsOk (t : Tables) (cpl : Nat) (cs ss : Word) : Bool :=
  (t.segment cs.toNat).code64 && (t.segment cs.toNat).dpl == cs.toNat % 4 &&
    decide (cpl ≤ cs.toNat % 4) && t.stackSegmentOk (cs.toNat % 4) ss

/-- `iretq` -/
def iretq (t : Tables) (c : Cpu) : Option Cpu :=
  let rip := c.mem c.sp
  let cs := c.mem (cell c.sp 1)
  let rflags := c.mem (cell c.sp 2)
  let sp := c.mem (cell c.sp 3)
  let ss := c.mem (cell c.sp 4)
  if t.segmentsOk c.cpl cs ss then
    some { reg := c.reg, mem := c.mem, sp := sp, rip := rip, cs := cs, rflags := rflags, ss := ss }
  else none

/-! ## The stubs -/

/-- The instructions of the stubs. -/
inductive Instr where
  | pushImm (w : Word)
  | push (r : Gpr)
  | pop (r : Gpr)
  /-- `mov r, rsp` -/
  | movFromSp (r : Gpr)
  /-- `mov rsp, r` -/
  | movToSp (r : Gpr)
  | andSp (w : Word)
  | subSp (w : Word)
  | addSp (w : Word)
  /-- `call interrupt_handler` -/
  | call
  deriving DecidableEq, Repr

/-- A called function: the registers and memory that it returns with, if it returns. -/
abbrev Called := Core Gpr → Option (Core Gpr)

/-- One instruction; `ret` is the return address that the call pushes. -/
def exec (handler : Called) (ret : Word) (c : Core Gpr) : Instr → Option (Core Gpr)
  | .pushImm w => some (c.push w)
  | .push r => some (c.push (c.reg r))
  | .pop r => some (c.pop r)
  | .movFromSp r => some { c with reg := Function.update c.reg r c.sp }
  | .movToSp r => some { c with sp := c.reg r }
  | .andSp w => some { c with sp := c.sp &&& w }
  | .subSp w => some { c with sp := c.sp - w }
  | .addSp w => some { c with sp := c.sp + w }
  | .call => handler (c.push ret)

def execAll (handler : Called) (ret : Word) (c : Core Gpr) (code : List Instr) :
    Option (Core Gpr) :=
  code.foldlM (exec handler ret) c

/-- The registers that `isr_common_stub` saves, in the order of the pushes. -/
def savedRegs : List Gpr :=
  [.rax, .rbx, .rcx, .rdx, .rsi, .rdi, .rbp, .r8, .r9, .r10, .r11, .r12, .r13, .r14, .r15]

/-- `isr_common_stub`, up to its `iretq`. -/
def isrCommonStub : List Instr :=
  [ .push .rax, .push .rbx, .push .rcx, .push .rdx, .push .rsi, .push .rdi, .push .rbp
  , .push .r8, .push .r9, .push .r10, .push .r11, .push .r12, .push .r13, .push .r14, .push .r15
  , .movFromSp .rdi
  , .movFromSp .rbx, .andSp 0xFFFFFFFFFFFFFFF0, .subSp 8
  , .call
  , .movToSp .rbx
  , .pop .r15, .pop .r14, .pop .r13, .pop .r12, .pop .r11, .pop .r10, .pop .r9, .pop .r8
  , .pop .rbp, .pop .rdi, .pop .rsi, .pop .rdx, .pop .rcx, .pop .rbx, .pop .rax
  , .addSp 16 ]

/-- `ISR_NOERRCODE` and `IRQ`, which push a zero in place of an error code. -/
def isrNoErrCode (vector : Nat) : List Instr :=
  [.pushImm 0, .pushImm (BitVec.ofNat 64 vector)] ++ isrCommonStub

/-- `ISR_ERRCODE` -/
def isrErrCode (vector : Nat) : List Instr :=
  [.pushImm (BitVec.ofNat 64 vector)] ++ isrCommonStub

/-- The vectors whose stub is made by `ISR_ERRCODE`. -/
def errCodeVectors : List Nat := [8, 10, 11, 12, 13, 14, 17, 30]

/-- The stub that the gate of a vector leads to. -/
def stub (vector : Nat) : List Instr :=
  if vector ∈ errCodeVectors then isrErrCode vector else isrNoErrCode vector

/-- A whole interrupt: delivery, the stub, and `iretq`. -/
def interrupt (t : Tables) (handler : Called) (ret : Word) (c : Cpu) (vector : Nat)
    (software : Bool) (error : Option Word) : Option Cpu := do
  let entered ← deliver t c vector software error
  let core ← execAll handler ret entered.toCore (stub vector)
  iretq t { entered with toCore := core }

/-! ## The handler -/

/-- `struct registers` -/
structure Registers where
  r15 : Word
  r14 : Word
  r13 : Word
  r12 : Word
  r11 : Word
  r10 : Word
  r9 : Word
  r8 : Word
  rbp : Word
  rdi : Word
  rsi : Word
  rdx : Word
  rcx : Word
  rbx : Word
  rax : Word
  intNo : Word
  errCode : Word
  rip : Word
  cs : Word
  rflags : Word
  rsp : Word
  ss : Word
  deriving DecidableEq, Repr

namespace Registers

/-- The words of the structure, from its address on. -/
def words (r : Registers) : List Word :=
  [ r.r15, r.r14, r.r13, r.r12, r.r11, r.r10, r.r9, r.r8, r.rbp, r.rdi, r.rsi, r.rdx, r.rcx, r.rbx
  , r.rax, r.intNo, r.errCode, r.rip, r.cs, r.rflags, r.rsp, r.ss ]

def gpr (r : Registers) : Gpr → Word
  | .rax => r.rax
  | .rbx => r.rbx
  | .rcx => r.rcx
  | .rdx => r.rdx
  | .rsi => r.rsi
  | .rdi => r.rdi
  | .rbp => r.rbp
  | .r8 => r.r8
  | .r9 => r.r9
  | .r10 => r.r10
  | .r11 => r.r11
  | .r12 => r.r12
  | .r13 => r.r13
  | .r14 => r.r14
  | .r15 => r.r15

end Registers

/-- The structure that says where the CPU was. -/
def Cpu.registers (c : Cpu) (vector : Nat) (error : Option Word) : Registers where
  r15 := c.reg .r15
  r14 := c.reg .r14
  r13 := c.reg .r13
  r12 := c.reg .r12
  r11 := c.reg .r11
  r10 := c.reg .r10
  r9 := c.reg .r9
  r8 := c.reg .r8
  rbp := c.reg .rbp
  rdi := c.reg .rdi
  rsi := c.reg .rsi
  rdx := c.reg .rdx
  rcx := c.reg .rcx
  rbx := c.reg .rbx
  rax := c.reg .rax
  intNo := BitVec.ofNat 64 vector
  errCode := error.getD 0
  rip := c.rip
  cs := c.cs
  rflags := c.rflags
  rsp := c.sp
  ss := c.ss

/-- The CPU that a structure describes, with some memory. -/
def Registers.cpu (r : Registers) (mem : Cells) : Cpu where
  reg := r.gpr
  sp := r.rsp
  mem := mem
  rip := r.rip
  cs := r.cs
  rflags := r.rflags
  ss := r.ss

/-- The registers that a C function gives back as it found them. -/
def calleeSaved : List Gpr := [.rbx, .rbp, .r12, .r13, .r14, .r15]

/-- What the compiler promises of a function that was entered with `c` and returned with `d`. -/
structure Returns (c d : Core Gpr) : Prop where
  sp : d.sp = c.sp + 8
  kept : ∀ r ∈ calleeSaved, d.reg r = c.reg r

end XosKernel.Arch
