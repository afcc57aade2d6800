/-
# Arch.SyscallReads -- what the kernel reads for `SYS_WRITE`

`syscall_handler` prints the string that the caller's `rdi` points to, if `rdi` is more than
0x1000, and so reads from there up to a NUL.  The test keeps out small pointers only.  A pointer
behind the 256 MB that are mapped, or a string that runs out of them, makes the kernel read an
address without a page, and `page_fault_handler` does not return.  So the reads are inside
exactly if there is a NUL between the pointer and the end of the mapped memory
(`readsInside_iff`).
-/
import Mathlib.Data.Nat.Find
import XosKernel.Arch.Paging
import XosKernel.Sched.Scheduler

namespace XosKernel.Arch

open XosKernel.Theory XosKernel.Sched

set_option autoImplicit false

/-! ## The handler -/

/-- The registers of the caller that the handler looks at for `SYS_WRITE`. -/
structure CallRegs where
  rax : UInt64
  rdi : UInt64

/-- The byte at an address when the `i`-th character is read; printing changes memory. -/
abbrev Contents := Nat → UInt64 → UInt8

/-- How the reads come to an end. -/
inductive ReadEnd where
  | returned
  | pageFault
  deriving DecidableEq

/-- The address of `s[i]`. -/
def charAddr (s : UInt64) (i : Nat) : UInt64 := s + UInt64.ofNat i

/-- The loop of `printf` for `%s`, from the `i`-th character on: the addresses that it reads.  A
character is read for the test and again for `put_char`; its address is listed once.  The bound on
the passes is reached with `none`. -/
def stringReads (tables : Buf) (mem : Contents) (s : UInt64) :
    Nat → Nat → Option (List UInt64 × ReadEnd)
  | 0, _ => none
  | passes + 1, i =>
      let a := charAddr s i
      if (translate tables 0x1000 a.toNat).isNone then some ([a], .pageFault)
      else if mem i a = 0 then some ([a], .returned)
      else (stringReads tables mem s passes (i + 1)).map fun later => (a :: later.1, later.2)

/-- What `syscall_handler` reads of the caller's memory.  A pass more than there are mapped
addresses is enough. -/
def handlerReads (tables : Buf) (mem : Contents) (regs : CallRegs) :
    Option (List UInt64 × ReadEnd) :=
  if regs.rax = sysWrite then
    if regs.rdi ≠ 0 ∧ 0x1000 < regs.rdi then stringReads tables mem regs.rdi (2 ^ 28 + 1) 0
    else some ([], .returned)
  else some ([], .returned)

/-! ## Safe reads -/

/-- The addresses of the first characters of a string. -/
def charAddrs (s : UInt64) (i n : Nat) : List UInt64 := (List.range' i n).map (charAddr s)

/-- The handler returns, has read in the first 256 MB only, and if it printed a string it has read
it from the pointer up to and including its first NUL. -/
def ReadsInside (tables : Buf) (mem : Contents) (regs : CallRegs) : Prop :=
  ∃ reads, handlerReads tables mem regs = some (reads, .returned) ∧
    (∀ a ∈ reads, a.toNat < 2 ^ 28) ∧
    (regs.rax = sysWrite → 0x1000 < regs.rdi → ∃ n, reads = charAddrs regs.rdi 0 (n + 1) ∧
      mem n (charAddr regs.rdi n) = 0 ∧ ∀ k, k < n → mem k (charAddr regs.rdi k) ≠ 0)

/-- There is a NUL between an address and the end of the first 256 MB. -/
def NulInside (mem : Contents) (s : UInt64) : Prop :=
  ∃ n, s.toNat + n < 2 ^ 28 ∧ mem n (charAddr s n) = 0

theorem toNat_charAddr {s : UInt64} {i : Nat} (small : s.toNat + i < 2 ^ 64) :
    (charAddr s i).toNat = s.toNat + i := by
  rw [charAddr, UInt64.toNat_add, UInt64.toNat_ofNat']
  omega

theorem isNone_translate (before : Buf) (a : UInt64) :
    (translate (pageTables before) 0x1000 a.toNat).isNone = true ↔ 2 ^ 28 ≤ a.toNat := by
  rw [translate_pageTables before a.toNat_lt, ← Nat.not_lt]
  split
  · next low => exact iff_of_false Bool.false_ne_true (not_not_intro low)
  · next high => exact iff_of_true rfl high

section Reads

variable (before : Buf) {mem : Contents} {s : UInt64}

/-- The reads up to the first NUL, from one of the characters before it on. -/
theorem stringReads_nul {n i passes : Nat} (inside : s.toNat + n < 2 ^ 28) (reached : i ≤ n)
    (enough : n < i + passes) (ended : mem n (charAddr s n) = 0)
    (plain : ∀ k, k < n → mem k (charAddr s k) ≠ 0) :
    stringReads (pageTables before) mem s passes i =
      some (charAddrs s i (n + 1 - i), .returned) := by
  induction passes generalizing i with
  | zero => omega
  | succ passes ih =>
      have address := toNat_charAddr (s := s) (i := i) (by omega)
      have mapped :
          ¬ (translate (pageTables before) 0x1000 (charAddr s i).toNat).isNone = true := by
        rw [isNone_translate, address]
        omega
      rw [stringReads, if_neg mapped]
      by_cases last : i = n
      · rw [last, if_pos ended, Nat.add_sub_cancel_left]
        rfl
      · have count : n + 1 - i = n + 1 - (i + 1) + 1 := by omega
        rw [if_neg (plain i (by omega)), ih (by omega) (by omega), count]
        rfl

/-- Without a NUL in the mapped memory the reads run out of it. -/
theorem stringReads_fault (endless : ¬ NulInside mem s) {i passes : Nat}
    (small : s.toNat + i < 2 ^ 64) (some_ : 0 < passes) (enough : 2 ^ 28 < s.toNat + i + passes) :
    ∃ reads, stringReads (pageTables before) mem s passes i = some (reads, .pageFault) := by
  induction passes generalizing i with
  | zero => exact absurd some_ (Nat.lt_irrefl 0)
  | succ passes ih =>
      have address := toNat_charAddr small
      rw [stringReads]
      by_cases mapped : s.toNat + i < 2 ^ 28
      · have more : mem i (charAddr s i) ≠ 0 := fun ended => endless ⟨i, mapped, ended⟩
        obtain ⟨reads, later⟩ := ih (i := i + 1) (by omega) (by omega) (by omega)
        rw [if_neg ((isNone_translate before _).not.mpr (by rw [address]; omega)), if_neg more,
          later]
        exact ⟨_, rfl⟩
      · rw [if_pos ((isNone_translate before _).mpr (by rw [address]; omega))]
        exact ⟨_, rfl⟩

end Reads

/-- A pointer that the handler accepts. -/
theorem handlerReads_accepted (tables : Buf) (mem : Contents) {regs : CallRegs}
    (write : regs.rax = sysWrite) (accepted : 0x1000 < regs.rdi) :
    handlerReads tables mem regs = stringReads tables mem regs.rdi (2 ^ 28 + 1) 0 := by
  have some_ : regs.rdi ≠ 0 := by
    intro zero
    rw [zero] at accepted
    exact absurd accepted (by decide)
  rw [handlerReads, if_pos write, if_pos ⟨some_, accepted⟩]

/-- For another call, and for a pointer that it refuses, the handler reads nothing. -/
theorem handlerReads_refused (tables : Buf) (mem : Contents) {regs : CallRegs}
    (refused : ¬ (regs.rax = sysWrite ∧ 0x1000 < regs.rdi)) :
    handlerReads tables mem regs = some ([], .returned) := by
  unfold handlerReads
  split
  · next write => rw [if_neg fun both => refused ⟨write, both.2⟩]
  · rfl

/-- With the tables of the entry code the reads for `SYS_WRITE` are inside the mapped memory
exactly when the pointer is refused or a NUL follows it there. -/
theorem readsInside_iff (before : Buf) (mem : Contents) (regs : CallRegs) :
    ReadsInside (pageTables before) mem regs ↔
      regs.rax ≠ sysWrite ∨ regs.rdi ≤ 0x1000 ∨ NulInside mem regs.rdi := by
  by_cases accepted : regs.rax = sysWrite ∧ 0x1000 < regs.rdi
  · obtain ⟨write, above⟩ := accepted
    have read := handlerReads_accepted (pageTables before) mem write above
    rw [or_iff_right (not_not_intro write), or_iff_right (UInt64.not_le.mpr above)]
    constructor
    · rintro ⟨reads, returned, -, -⟩
      by_contra endless
      have bound := regs.rdi.toNat_lt
      obtain ⟨others, fault⟩ := stringReads_fault before endless (i := 0) bound
        (show 0 < 2 ^ 28 + 1 by decide) (by omega)
      rw [read, fault] at returned
      cases returned
    · intro nul
      have found := Nat.find_spec nul
      have first : ∀ k, k < Nat.find nul → mem k (charAddr regs.rdi k) ≠ 0 := by
        intro k before_ ended
        exact Nat.find_min nul before_ ⟨by omega, ended⟩
      generalize Nat.find nul = n at found first
      obtain ⟨inside, ended⟩ := found
      refine ⟨charAddrs regs.rdi 0 (n + 1), ?_, ?_, fun _ _ => ⟨n, rfl, ended, first⟩⟩
      · rw [read]
        exact stringReads_nul before inside (Nat.zero_le n) (by omega) ended first
      · intro a member
        obtain ⟨k, among, rfl⟩ := List.mem_map.mp member
        rw [List.mem_range'_1] at among
        rw [toNat_charAddr (by omega)]
        omega
  · have reads := handlerReads_refused (pageTables before) mem accepted
    rw [not_and_or, UInt64.not_lt] at accepted
    refine iff_of_true ⟨[], reads, fun a none_ => absurd none_ List.not_mem_nil, ?_⟩ ?_
    · intro write above
      exact absurd above (UInt64.not_lt.mpr (accepted.resolve_left (not_not_intro write)))
    · exact accepted.imp_right .inl

/-- `SYS_WRITE` with a pointer to the first address that is not mapped. -/
theorem readsInside_fails : ¬ ∀ (before : Buf) (mem : Contents) (regs : CallRegs),
    ReadsInside (pageTables before) mem regs := by
  intro all
  obtain ⟨reads, returned, -, -⟩ := all (fun _ => 0) (fun _ _ => 0) ⟨sysWrite, 0x10000000⟩
  have endless : ¬ NulInside (fun _ _ => 0) 0x10000000 := by
    rintro ⟨n, inside, -⟩
    exact absurd inside (Nat.not_lt.mpr (Nat.le_add_right (2 ^ 28) n))
  obtain ⟨others, fault⟩ := stringReads_fault (fun _ => 0) endless (i := 0)
    (by decide) (show 0 < 2 ^ 28 + 1 by decide) (by decide)
  rw [handlerReads_accepted _ _ rfl (by decide), fault] at returned
  cases returned

end XosKernel.Arch
