/-
# Arch.Descriptors -- the tables that the CPU reads

`gdt_init` and `idt_init` fill their tables field by field, and the CPU puts the fields
together again: a base and a limit lie in pieces in an eight byte descriptor, and the address
of a handler lies in three pieces in a gate.  The functions of `gdt.c` and `idt.c` are on one
side here and the CPU's reading of the bytes is on the other.  What is read is what was meant,
for every address of the TSS and of the stubs, and nothing is written beside the tables
(`gdtInit_reads`, `idtInit_reads`).
-/
import XosKernel.Theory.Bytes
import Mathlib.Data.Nat.Bitwise
import Mathlib.Data.List.Induction

namespace XosKernel.Arch

open XosKernel.Theory

set_option autoImplicit false

/-! ## Writing the GDT -/

/-- `gdt_entry_t`, as `write_entry` fills it. -/
def gdtEntry (base limit access gran : Nat) : Buf :=
  let e : Buf := fun _ => 0
  let e := e.putLe 0 2 (limit &&& 0xFFFF)
  let e := e.putLe 2 2 (base &&& 0xFFFF)
  let e := e.putLe 4 1 ((base >>> 16) &&& 0xFF)
  let e := e.putLe 5 1 access
  let e := e.putLe 6 1 (((limit >>> 16) &&& 0x0F) ||| (gran &&& 0xF0))
  e.putLe 7 1 ((base >>> 24) &&& 0xFF)

/-- `write_entry` -/
def writeEntry (gdtBuf : Buf) (idx base limit access gran : Nat) : Buf :=
  gdtBuf.blit (idx * 8) 8 (gdtEntry base limit access gran)

/-- `tss_desc_t`, as `write_tss_desc` fills it. -/
def tssDesc (base limit : Nat) : Buf :=
  let d : Buf := fun _ => 0
  let d := d.putLe 0 2 (limit &&& 0xFFFF)
  let d := d.putLe 2 2 (base &&& 0xFFFF)
  let d := d.putLe 4 1 ((base >>> 16) &&& 0xFF)
  let d := d.putLe 5 1 0x89
  let d := d.putLe 6 1 ((limit >>> 16) &&& 0x0F)
  let d := d.putLe 7 1 ((base >>> 24) &&& 0xFF)
  let d := d.putLe 8 4 (base >>> 32)
  d.putLe 12 4 0

/-- `write_tss_desc` -/
def writeTssDesc (gdtBuf : Buf) (base limit : Nat) : Buf :=
  gdtBuf.blit (5 * 8) 16 (tssDesc base limit)

/-- `sizeof(tss_t)` -/
def tssSize : Nat := 104

/-- The part of `gdt_init` that fills `gdt_buf`; `tss` is at the address `tss`. -/
def gdtInit (gdtBuf : Buf) (tss : BitVec 64) : Buf :=
  let gdtBuf := writeEntry gdtBuf 0 0 0 0 0
  let gdtBuf := writeEntry gdtBuf 1 0 0xFFFFF 0x9A 0xA0
  let gdtBuf := writeEntry gdtBuf 2 0 0xFFFFF 0x92 0xC0
  let gdtBuf := writeEntry gdtBuf 3 0 0xFFFFF 0xFA 0xA0
  let gdtBuf := writeEntry gdtBuf 4 0 0xFFFFF 0xF2 0xC0
  writeTssDesc gdtBuf tss.toNat (tssSize - 1)

/-- The part of `gdt_init` that fills `tss`. -/
def tssInit (tss : Buf) : Buf :=
  let tss := tss.blit 0 tssSize fun _ => 0
  tss.putLe 102 2 tssSize

/-- `tss_set_kernel_stack` -/
def tssSetKernelStack (tss : Buf) (rsp0 : Nat) : Buf := tss.putLe 4 8 rsp0

/-! ## Writing the IDT -/

/-- `struct idt_entry`, as `set_idt_gate` and `set_idt_gate_user` fill it. -/
def idtEntry (addr flags : Nat) : Buf :=
  let e : Buf := fun _ => 0
  let e := e.putLe 0 2 (addr &&& 0xFFFF)
  let e := e.putLe 2 2 0x08
  let e := e.putLe 4 1 0
  let e := e.putLe 5 1 flags
  let e := e.putLe 6 2 ((addr >>> 16) &&& 0xFFFF)
  let e := e.putLe 8 4 ((addr >>> 32) &&& 0xFFFFFFFF)
  e.putLe 12 4 0

/-- `set_idt_gate` -/
def setIdtGate (idt : Buf) (n addr : Nat) : Buf := idt.blit (n * 16) 16 (idtEntry addr 0x8E)

/-- `set_idt_gate_user` -/
def setIdtGateUser (idt : Buf) (n addr : Nat) : Buf := idt.blit (n * 16) 16 (idtEntry addr 0xEE)

/-- The addresses of the stubs: `isr0` to `isr31`, `irq0` to `irq15` and `isr128`. -/
structure Stubs where
  isr : Nat → BitVec 64
  irq : Nat → BitVec 64
  isr128 : BitVec 64

/-- The stub for a vector. -/
def Stubs.address (s : Stubs) (vector : Nat) : BitVec 64 :=
  if vector < 32 then s.isr vector else if vector < 48 then s.irq (vector - 32) else s.isr128

/-- The part of `idt_init` that fills `idt`. -/
def idtInit (idt : Buf) (s : Stubs) : Buf :=
  let idt := (List.range 32).foldl (fun idt n => setIdtGate idt n (s.isr n).toNat) idt
  let idt := (List.range 16).foldl (fun idt n => setIdtGate idt (32 + n) (s.irq n).toNat) idt
  setIdtGateUser idt 0x80 s.isr128.toNat

/-! ## What the CPU reads -/

/-- A segment descriptor: base, limit in the units that the granularity bit says, access byte,
and the four flags beside the high bits of the limit. -/
structure Descriptor where
  base : Nat
  limit : Nat
  access : Nat
  flags : Nat
  deriving DecidableEq, Repr

namespace Descriptor

def present (d : Descriptor) : Bool := d.access / 128 % 2 == 1

def dpl (d : Descriptor) : Nat := d.access / 32 % 4

/-- A non-conforming code segment for 64-bit mode. -/
def code64 (d : Descriptor) : Bool := d.present && d.access / 4 % 8 == 6 && d.flags / 2 % 2 == 1

/-- A data segment that can be written. -/
def writable (d : Descriptor) : Bool := d.present && d.access / 8 % 4 == 2 && d.access / 2 % 2 == 1

end Descriptor

def descriptorAt (gdt : Buf) (off : Nat) : Descriptor where
  base := gdt.le (off + 2) 2 + 2 ^ 16 * gdt.le (off + 4) 1 + 2 ^ 24 * gdt.le (off + 7) 1
  limit := gdt.le off 2 + 2 ^ 16 * (gdt.le (off + 6) 1 % 16)
  access := gdt.le (off + 5) 1
  flags := gdt.le (off + 6) 1 / 16

/-- The base of a TSS, which has its high half behind the descriptor. -/
def tssBaseAt (gdt : Buf) (off : Nat) : Nat :=
  (descriptorAt gdt off).base + 2 ^ 32 * gdt.le (off + 8) 4

/-- A gate of the IDT. -/
structure Gate where
  offset : Nat
  selector : Nat
  ist : Nat
  flags : Nat
  deriving DecidableEq, Repr

namespace Gate

def present (g : Gate) : Bool := g.flags / 128 % 2 == 1

def dpl (g : Gate) : Nat := g.flags / 32 % 4

/-- A gate that clears the interrupt flag. -/
def isInterruptGate (g : Gate) : Bool := g.flags % 32 == 14

end Gate

def gateAt (idt : Buf) (vector : Nat) : Gate where
  offset := idt.le (vector * 16) 2 + 2 ^ 16 * idt.le (vector * 16 + 6) 2 +
    2 ^ 32 * idt.le (vector * 16 + 8) 4
  selector := idt.le (vector * 16 + 2) 2
  ist := idt.le (vector * 16 + 4) 1 % 8
  flags := idt.le (vector * 16 + 5) 1

/-- `rsp0` of the TSS, where an interrupt of ring 3 puts its frame. -/
def rsp0At (tss : Buf) : Nat := tss.le 4 8

/-! ## Descriptors -/

theorem and_mask (x n : Nat) : x &&& (2 ^ n - 1) = x % 2 ^ n := Nat.and_two_pow_sub_one_eq_mod x n

theorem gran_nibble {gran : Nat} (byte : gran < 256) : gran &&& 0xF0 = 2 ^ 4 * (gran / 16) := by
  have high : (gran &&& 0xF0) / 2 ^ 4 = gran / 2 ^ 4 % 2 ^ 4 := by
    rw [Nat.and_div_two_pow]
    exact and_mask _ 4
  have low : (gran &&& 0xF0) % 2 ^ 4 = 0 := by
    rw [Nat.and_mod_two_pow]
    exact Nat.and_zero _
  omega

/-- The limit's high nibble and the flags share a byte. -/
theorem gran_byte (limit : Nat) {gran : Nat} (byte : gran < 256) :
    ((limit >>> 16) &&& 0x0F) ||| (gran &&& 0xF0) = 16 * (gran / 16) + limit / 2 ^ 16 % 16 := by
  have low : (limit >>> 16) &&& 0x0F = limit / 2 ^ 16 % 2 ^ 4 := by
    rw [Nat.shiftRight_eq_div_pow]
    exact and_mask _ 4
  rw [low, gran_nibble byte, Nat.or_comm,
    ← Nat.two_pow_add_eq_or_of_lt (Nat.mod_lt _ (by decide))]

section Fields

variable {base limit access gran : Nat}

/-- The CPU reads from an entry what it was made of. -/
theorem gdtEntry_reads (small : base < 2 ^ 32) (fits : limit < 2 ^ 20) (byte : access < 256)
    (byte' : gran < 256) :
    descriptorAt (gdtEntry base limit access gran) 0 = ⟨base, limit, access, gran / 16⟩ := by
  have mask8 : ∀ x, x &&& 0xFF = x % 2 ^ 8 := fun x => and_mask x 8
  have mask16 : ∀ x, x &&& 0xFFFF = x % 2 ^ 16 := fun x => and_mask x 16
  simp (disch := decide) only [descriptorAt, gdtEntry, Buf.le_putLe_of_disjoint, Buf.le_putLe,
    Nat.zero_add]
  rw [gran_byte limit byte', Descriptor.mk.injEq]
  simp only [mask8, mask16, Nat.shiftRight_eq_div_pow]
  refine ⟨?_, ?_, ?_, ?_⟩ <;> omega

theorem tssDesc_reads (small : base < 2 ^ 64) (fits : limit < 2 ^ 20) :
    descriptorAt (tssDesc base limit) 0 = ⟨base % 2 ^ 32, limit, 0x89, 0⟩ ∧
      tssBaseAt (tssDesc base limit) 0 = base := by
  have mask4 : ∀ x, x &&& 0x0F = x % 2 ^ 4 := fun x => and_mask x 4
  have mask8 : ∀ x, x &&& 0xFF = x % 2 ^ 8 := fun x => and_mask x 8
  have mask16 : ∀ x, x &&& 0xFFFF = x % 2 ^ 16 := fun x => and_mask x 16
  have reads : descriptorAt (tssDesc base limit) 0 = ⟨base % 2 ^ 32, limit, 0x89, 0⟩ := by
    simp (disch := decide) only [descriptorAt, tssDesc, Buf.le_putLe_of_disjoint, Buf.le_putLe,
      Nat.zero_add]
    rw [Descriptor.mk.injEq]
    simp only [mask4, mask8, mask16, Nat.shiftRight_eq_div_pow]
    refine ⟨?_, ?_, ?_, ?_⟩ <;> omega
  refine ⟨reads, ?_⟩
  unfold tssBaseAt
  rw [reads]
  simp (disch := decide) only [tssDesc, Buf.le_putLe_of_disjoint, Buf.le_putLe, Nat.zero_add]
  rw [Nat.shiftRight_eq_div_pow]
  omega

end Fields

/-- A descriptor is read from its eight bytes. -/
theorem descriptorAt_congr {b b' : Buf} {off off' : Nat}
    (same : ∀ i < 8, b (off + i) = b' (off' + i)) : descriptorAt b off = descriptorAt b' off' := by
  have field : ∀ i n, i + n ≤ 8 → b.le (off + i) n = b'.le (off' + i) n := by
    intro i n inside
    rw [← Buf.le_shift, ← Buf.le_shift b']
    refine Buf.le_congr fun k low high => same k ?_
    omega
  have first := field 0 2 (by omega)
  rw [Nat.add_zero, Nat.add_zero] at first
  rw [descriptorAt, descriptorAt, field 2 2 (by omega), field 4 1 (by omega),
    field 7 1 (by omega), field 6 1 (by omega), field 5 1 (by omega), first]

theorem writeEntry_here (gdtBuf : Buf) {idx off : Nat} (base limit access gran : Nat)
    (here : off = idx * 8) :
    descriptorAt (writeEntry gdtBuf idx base limit access gran) off =
      descriptorAt (gdtEntry base limit access gran) 0 := by
  refine descriptorAt_congr fun i inside => ?_
  rw [writeEntry, Buf.blit_of_inside (by omega) (by omega), here, Nat.add_sub_cancel_left,
    Nat.zero_add]

theorem writeEntry_there (gdtBuf : Buf) {idx off : Nat} (base limit access gran : Nat)
    (apart : off + 8 ≤ idx * 8 ∨ idx * 8 + 8 ≤ off) :
    descriptorAt (writeEntry gdtBuf idx base limit access gran) off = descriptorAt gdtBuf off :=
  descriptorAt_congr fun i inside => Buf.blit_of_outside (by omega)

theorem writeTssDesc_here (gdtBuf : Buf) (base limit : Nat) :
    descriptorAt (writeTssDesc gdtBuf base limit) 0x28 = descriptorAt (tssDesc base limit) 0 ∧
      tssBaseAt (writeTssDesc gdtBuf base limit) 0x28 = tssBaseAt (tssDesc base limit) 0 := by
  have byte : ∀ i < 16, writeTssDesc gdtBuf base limit (0x28 + i) = tssDesc base limit (0 + i) := by
    intro i inside
    rw [writeTssDesc, Buf.blit_of_inside (by omega) (by omega), Nat.add_sub_cancel_left,
      Nat.zero_add]
  have low := descriptorAt_congr fun i inside => byte i (by omega)
  have high : (writeTssDesc gdtBuf base limit).le (0x28 + 8) 4 =
      (tssDesc base limit).le (0 + 8) 4 := by
    rw [← Buf.le_shift, ← Buf.le_shift (tssDesc _ _)]
    exact Buf.le_congr fun k _ inside => byte k (by omega)
  refine ⟨low, ?_⟩
  rw [tssBaseAt, tssBaseAt, low, high]

theorem writeTssDesc_there (gdtBuf : Buf) {off : Nat} (base limit : Nat) (before : off + 8 ≤ 40) :
    descriptorAt (writeTssDesc gdtBuf base limit) off = descriptorAt gdtBuf off :=
  descriptorAt_congr fun i inside => Buf.blit_of_outside (by omega)

/-! ## The GDT -/

/-- The flat segments of both rings, as the CPU reads them. -/
theorem gdtInit_segments (before : Buf) (tss : BitVec 64) :
    descriptorAt (gdtInit before tss) 0x08 = ⟨0, 0xFFFFF, 0x9A, 0xA⟩ ∧
      descriptorAt (gdtInit before tss) 0x10 = ⟨0, 0xFFFFF, 0x92, 0xC⟩ ∧
      descriptorAt (gdtInit before tss) 0x18 = ⟨0, 0xFFFFF, 0xFA, 0xA⟩ ∧
      descriptorAt (gdtInit before tss) 0x20 = ⟨0, 0xFFFFF, 0xF2, 0xC⟩ := by
  have flat {access gran : Nat} (byte : access < 256) (byte' : gran < 256) :
      descriptorAt (gdtEntry 0 0xFFFFF access gran) 0 = ⟨0, 0xFFFFF, access, gran / 16⟩ :=
    gdtEntry_reads (by decide) (by decide) byte byte'
  refine ⟨?_, ?_, ?_, ?_⟩
  · simp (disch := decide) only [gdtInit, writeTssDesc_there, writeEntry_there, writeEntry_here]
    exact flat (by decide) (by decide)
  · simp (disch := decide) only [gdtInit, writeTssDesc_there, writeEntry_there, writeEntry_here]
    exact flat (by decide) (by decide)
  · simp (disch := decide) only [gdtInit, writeTssDesc_there, writeEntry_there, writeEntry_here]
    exact flat (by decide) (by decide)
  · simp (disch := decide) only [gdtInit, writeTssDesc_there, writeEntry_here]
    exact flat (by decide) (by decide)

/-- Calls of `tss_set_kernel_stack` leave the last stack, and a table of ports that begins
behind the TSS, so that ring 3 has no port. -/
theorem tss_reads (before : Buf) (tops : List (BitVec 64)) :
    rsp0At (tops.foldl (fun tss rsp0 => tssSetKernelStack tss rsp0.toNat) (tssInit before)) =
        (tops.getLastD 0).toNat ∧
      (tops.foldl (fun tss rsp0 => tssSetKernelStack tss rsp0.toNat) (tssInit before)).le 102 2 =
        tssSize := by
  induction tops using List.reverseRecOn with
  | nil =>
      constructor
      · have zero : ∀ i, 4 ≤ i → i < 4 + 8 → tssInit before i = (fun _ => 0 : Buf) i := by
          intro i low high
          rw [tssInit, Buf.putLe_of_outside (by omega), Buf.blit_of_inside (by omega) (by
            unfold tssSize
            omega)]
        exact Buf.le_congr zero
      · exact Buf.le_putLe _ _ _ _
  | append_singleton tops last ih =>
      rw [List.foldl_append, List.foldl_cons, List.foldl_nil, List.getLastD_concat]
      refine ⟨(Buf.le_putLe _ _ _ _).trans (Nat.mod_eq_of_lt last.isLt), ?_⟩
      exact (Buf.le_putLe_of_disjoint (by decide)).trans ih.2

/-- The tables of `gdt_init` as the CPU reads them: the null descriptor, the flat segments of
both rings, and the TSS at its address and with its size, whatever the address is.  All bytes
of `gdt_buf` are written, and none beside it.  Whatever stacks the scheduler then sets, the
CPU finds the last one, and the table of ports stays beyond the limit of the TSS. -/
theorem gdtInit_reads (before : Buf) (tss : BitVec 64) (tssBefore : Buf)
    (tops : List (BitVec 64)) :
    (descriptorAt (gdtInit before tss) 0x00 = ⟨0, 0, 0, 0⟩ ∧
      descriptorAt (gdtInit before tss) 0x08 = ⟨0, 0xFFFFF, 0x9A, 0xA⟩ ∧
      descriptorAt (gdtInit before tss) 0x10 = ⟨0, 0xFFFFF, 0x92, 0xC⟩ ∧
      descriptorAt (gdtInit before tss) 0x18 = ⟨0, 0xFFFFF, 0xFA, 0xA⟩ ∧
      descriptorAt (gdtInit before tss) 0x20 = ⟨0, 0xFFFFF, 0xF2, 0xC⟩ ∧
      descriptorAt (gdtInit before tss) 0x28 = ⟨tss.toNat % 2 ^ 32, tssSize - 1, 0x89, 0⟩ ∧
      tssBaseAt (gdtInit before tss) 0x28 = tss.toNat) ∧
    ((∀ i, i < 56 → ∀ before', gdtInit before tss i = gdtInit before' tss i) ∧
      ∀ i, 56 ≤ i → gdtInit before tss i = before i) ∧
    rsp0At (tops.foldl (fun tss rsp0 => tssSetKernelStack tss rsp0.toNat) (tssInit tssBefore)) =
        (tops.getLastD 0).toNat ∧
      (descriptorAt (gdtInit before tss) 0x28).limit <
        (tops.foldl (fun tss rsp0 => tssSetKernelStack tss rsp0.toNat) (tssInit tssBefore)).le
          102 2 := by
  obtain ⟨desc, base⟩ := @tssDesc_reads tss.toNat (tssSize - 1) tss.isLt (by decide)
  obtain ⟨code, data, userCode, userData⟩ := gdtInit_segments before tss
  obtain ⟨last, ports⟩ := tss_reads tssBefore tops
  have tssHere : descriptorAt (gdtInit before tss) 0x28 =
      ⟨tss.toNat % 2 ^ 32, tssSize - 1, 0x89, 0⟩ := (writeTssDesc_here ..).1.trans desc
  refine ⟨⟨?_, code, data, userCode, userData, tssHere, ?_⟩, ⟨?_, ?_⟩, last, ?_⟩
  · simp (disch := decide) only [gdtInit, writeTssDesc_there, writeEntry_there, writeEntry_here]
    exact gdtEntry_reads (by decide) (by decide) (by decide) (by decide)
  · exact (writeTssDesc_here ..).2.trans base
  · intro i inside before'
    unfold gdtInit writeTssDesc writeEntry Buf.blit
    repeat' split
    all_goals first | rfl | omega
  · intro i outside
    unfold gdtInit writeTssDesc writeEntry
    repeat rw [Buf.blit_of_outside (by omega)]
  · have limit : (descriptorAt (gdtInit before tss) 0x28).limit = tssSize - 1 :=
      congrArg Descriptor.limit tssHere
    rw [limit, ports]
    decide

/-! ## The IDT -/

theorem gateAt_congr {b b' : Buf} {n n' : Nat}
    (same : ∀ i < 16, b (n * 16 + i) = b' (n' * 16 + i)) : gateAt b n = gateAt b' n' := by
  have field : ∀ i k, i + k ≤ 16 → b.le (n * 16 + i) k = b'.le (n' * 16 + i) k := by
    intro i k inside
    rw [← Buf.le_shift, ← Buf.le_shift b']
    refine Buf.le_congr fun j low high => same j ?_
    omega
  have first := field 0 2 (by omega)
  rw [Nat.add_zero, Nat.add_zero] at first
  rw [gateAt, gateAt, field 2 2 (by omega), field 4 1 (by omega), field 5 1 (by omega),
    field 6 2 (by omega), field 8 4 (by omega), first]

/-- A gate leads where it was made for. -/
theorem idtEntry_reads (idt : Buf) (n : Nat) {addr flags : Nat} (small : addr < 2 ^ 64)
    (byte : flags < 256) :
    gateAt (idt.blit (n * 16) 16 (idtEntry addr flags)) n = ⟨addr, 0x08, 0, flags⟩ := by
  have mask16 : ∀ x, x &&& 0xFFFF = x % 2 ^ 16 := fun x => and_mask x 16
  have mask32 : ∀ x, x &&& 0xFFFFFFFF = x % 2 ^ 32 := fun x => and_mask x 32
  have own : gateAt (idt.blit (n * 16) 16 (idtEntry addr flags)) n =
      gateAt (idtEntry addr flags) 0 := by
    refine gateAt_congr fun i inside => ?_
    rw [Buf.blit_of_inside (by omega) (by omega), Nat.add_sub_cancel_left, Nat.zero_mul,
      Nat.zero_add]
  rw [own]
  simp (disch := decide) only [gateAt, idtEntry, Buf.le_putLe_of_disjoint, Buf.le_putLe,
    Nat.zero_add, Nat.zero_mul]
  rw [Gate.mk.injEq]
  simp only [mask16, mask32, Nat.shiftRight_eq_div_pow]
  refine ⟨?_, ?_, ?_, ?_⟩ <;> omega

theorem setIdtGate_reads (idt : Buf) (n : Nat) (addr : BitVec 64) :
    gateAt (setIdtGate idt n addr.toNat) n = ⟨addr.toNat, 0x08, 0, 0x8E⟩ :=
  idtEntry_reads idt n addr.isLt (by decide)

theorem gateAt_other (idt : Buf) {n m : Nat} (apart : m ≠ n) (e : Buf) :
    gateAt (idt.blit (n * 16) 16 e) m = gateAt idt m :=
  gateAt_congr fun i inside => Buf.blit_of_outside (by omega)

/-- A loop that sets gates from a vector on. -/
theorem gates_read (f : Nat → BitVec 64) (first count : Nat) (idt : Buf) {n : Nat}
    (inside : n < count) :
    gateAt ((List.range count).foldl (fun idt n => setIdtGate idt (first + n) (f n).toNat) idt)
        (first + n) = ⟨(f n).toNat, 0x08, 0, 0x8E⟩ := by
  refine foldl_reaches (P := fun idt => gateAt idt (first + n) = ⟨(f n).toNat, 0x08, 0, 0x8E⟩)
    (List.mem_range.mpr inside) ?_ ?_ idt
  · intro idt
    exact setIdtGate_reads idt (first + n) (f n)
  · intro idt holds x _
    by_cases same : x = n
    · subst same
      exact setIdtGate_reads idt (first + x) (f x)
    · exact (gateAt_other idt (by omega) _).trans holds

theorem gates_outside (f : Nat → BitVec 64) (first count : Nat) (idt : Buf) {i : Nat}
    (outside : i < first * 16 ∨ (first + count) * 16 ≤ i) :
    (List.range count).foldl (fun idt n => setIdtGate idt (first + n) (f n).toNat) idt i =
      idt i := by
  refine List.foldlRecOn (motive := fun idt' : Buf => idt' i = idt i) _ _ rfl ?_
  intro idt' holds x member
  have := List.mem_range.mp member
  exact (Buf.blit_of_outside (by omega)).trans holds

/-- The IDT as the CPU reads it: the stubs of the exceptions and of the interrupt lines for
ring 0, the system call for both rings, and the other gates as they were. -/
theorem idtInit_reads (before : Buf) (s : Stubs) :
    (∀ v < 48, gateAt (idtInit before s) v = ⟨(s.address v).toNat, 0x08, 0, 0x8E⟩) ∧
      gateAt (idtInit before s) 0x80 = ⟨s.isr128.toNat, 0x08, 0, 0xEE⟩ ∧
      (∀ v, 48 ≤ v → v ≠ 0x80 → gateAt (idtInit before s) v = gateAt before v) ∧
      ∀ i, 256 * 16 ≤ i → idtInit before s i = before i := by
  have exceptions (idt : Buf) := @gates_read s.isr 0 32 idt
  have outside₁ (idt : Buf) {i : Nat} := @gates_outside s.isr 0 32 idt i
  have lines (idt : Buf) := @gates_read s.irq 32 16 idt
  have outside₂ (idt : Buf) {i : Nat} := @gates_outside s.irq 32 16 idt i
  simp only [Nat.zero_add] at exceptions outside₁
  have other {v : Nat} (notCall : v ≠ 0x80) (beside : v < 32 ∨ 48 ≤ v) :
      gateAt (idtInit before s) v =
        gateAt ((List.range 32).foldl (fun idt n => setIdtGate idt n (s.isr n).toNat) before) v :=
    (gateAt_other _ notCall _).trans <| gateAt_congr fun i inside => outside₂ _ (by omega)
  refine ⟨fun v below => ?_, ?_, fun v beyond notCall => ?_, fun i beyond => ?_⟩
  · by_cases exception : v < 32
    · rw [other (by omega) (.inl exception), exceptions before exception, Stubs.address,
        if_pos exception]
    · obtain ⟨n, rfl⟩ : ∃ n, v = 32 + n := ⟨v - 32, by omega⟩
      refine (gateAt_other _ (by omega) _).trans ?_
      rw [lines _ (by omega), Stubs.address, if_neg exception, if_pos below,
        Nat.add_sub_cancel_left]
  · exact idtEntry_reads _ 0x80 s.isr128.isLt (by decide)
  · rw [other notCall (.inr beyond)]
    exact gateAt_congr fun i inside => outside₁ _ (by omega)
  · refine (Buf.blit_of_outside (by omega)).trans ?_
    rw [outside₂ _ (by omega), outside₁ _ (by omega)]

end XosKernel.Arch
