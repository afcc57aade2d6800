/-
# Arch.Paging -- the page tables of `kernel_entry.asm`

The entry code clears 12 KB at 0x1000, links the first entries of the upper two tables, and fills
128 entries of the page directory with pages of 2 MB (`pageTables`).  The processor walks four
levels, of which a large page leaves out the last ones (`translate`).  With these tables it finds
the first 256 MB where they are, and no other address, whatever was in memory before
(`translate_pageTables`).  `page_tables.asm` is not used.
-/
import XosKernel.Theory.Bytes

namespace XosKernel.Arch

open XosKernel.Theory

set_option autoImplicit false

/-! ## Building the tables -/

/-- Stores of double words that are `stride` bytes apart, with `step` added to the value each
time. -/
def storeDwords (stride step : Nat) : Nat → Nat → Nat → Buf → Buf
  | 0, _, _, mem => mem
  | ecx + 1, edi, eax, mem =>
      storeDwords stride step ecx (edi + stride) (eax + step) (mem.putLe edi 4 eax)

/-- `rep stosd` -/
def repStosd : Nat → Nat → Nat → Buf → Buf := storeDwords 4 0

/-- The loop at `.build_vmm`. -/
def buildVmm : Nat → Nat → Nat → Buf → Buf := storeDwords 8 0x200000

/-- Steps 1 to 4 of `kernel_entry`. -/
def pageTables (mem : Buf) : Buf :=
  let mem := repStosd 3072 0x1000 0 mem
  let mem := mem.putLe 0x1000 4 0x2007
  let mem := mem.putLe 0x2000 4 0x3007
  buildVmm 128 0x3000 0x87 mem

/-! ## Walking them -/

/-- The 16 upper bits of an address repeat the bit below them. -/
def Canonical (va : Nat) : Prop := va < 2 ^ 47 ∨ 2 ^ 64 - 2 ^ 47 ≤ va

instance (va : Nat) : Decidable (Canonical va) := by
  unfold Canonical
  infer_instance

/-- An entry of a table. -/
def entryAt (mem : Buf) (table index : Nat) : Nat := mem.le (table + 8 * (index % 512)) 8

def present (entry : Nat) : Prop := entry % 2 = 1

/-- The bit for a large page. -/
def large (entry : Nat) : Prop := entry / 2 ^ 7 % 2 = 1

instance (entry : Nat) : Decidable (present entry) := inferInstanceAs (Decidable (_ = _))

instance (entry : Nat) : Decidable (large entry) := inferInstanceAs (Decidable (_ = _))

/-- The address in an entry for a page or table of `2 ^ bits` bytes. -/
def frame (bits entry : Nat) : Nat := entry % 2 ^ 52 / 2 ^ bits * 2 ^ bits

/-- The physical address of a virtual one, with the tables at `cr3`; `none` is a page fault. -/
def translate (mem : Buf) (cr3 va : Nat) : Option Nat :=
  if ¬ Canonical va then none
  else
    let pml4e := entryAt mem cr3 (va / 2 ^ 39)
    if ¬ present pml4e then none
    else
      let pdpte := entryAt mem (frame 12 pml4e) (va / 2 ^ 30)
      if ¬ present pdpte then none
      else if large pdpte then some (frame 30 pdpte + va % 2 ^ 30)
      else
        let pde := entryAt mem (frame 12 pdpte) (va / 2 ^ 21)
        if ¬ present pde then none
        else if large pde then some (frame 21 pde + va % 2 ^ 21)
        else
          let pte := entryAt mem (frame 12 pde) (va / 2 ^ 12)
          if ¬ present pte then none else some (frame 12 pte + va % 2 ^ 12)

/-! ## The entries -/

/-- A double word that the stores do not meet. -/
theorem storeDwords_apart {stride step n edi eax off : Nat} (mem : Buf)
    (apart : ∀ j, j < n → off + 4 ≤ edi + stride * j ∨ edi + stride * j + 4 ≤ off) :
    (storeDwords stride step n edi eax mem).le off 4 = mem.le off 4 := by
  induction n generalizing edi eax mem with
  | zero => rfl
  | succ n ih =>
      rw [storeDwords, ih, Buf.le_putLe_of_disjoint]
      · exact apart 0 (Nat.succ_pos n)
      · intro j small
        have later := apart (j + 1) (Nat.succ_lt_succ small)
        rw [Nat.mul_succ] at later
        omega

/-- The double words that are stored. -/
theorem storeDwords_at {stride step n edi eax k : Nat} (wide : 4 ≤ stride) (mem : Buf)
    (small : k < n) :
    (storeDwords stride step n edi eax mem).le (edi + stride * k) 4 =
      (eax + step * k) % 256 ^ 4 := by
  induction n generalizing edi eax mem k with
  | zero => exact absurd small (Nat.not_lt_zero k)
  | succ n ih =>
      rw [storeDwords]
      cases k with
      | zero =>
          rw [storeDwords_apart, Nat.mul_zero, Nat.add_zero, Buf.le_putLe, Nat.mul_zero,
            Nat.add_zero]
          intro j _
          rw [Nat.mul_zero]
          omega
      | succ k =>
          have stored : (storeDwords stride step n (edi + stride) (eax + step)
              (mem.putLe edi 4 eax)).le (edi + stride + stride * k) 4 =
                (eax + step + step * k) % 256 ^ 4 := ih _ (Nat.lt_of_succ_lt_succ small)
          rw [Nat.mul_succ, Nat.mul_succ, Nat.add_comm (stride * k), Nat.add_comm (step * k),
            ← Nat.add_assoc, ← Nat.add_assoc]
          exact stored

/-- The double words of the three tables. -/
theorem word_pageTables (mem : Buf) {k : Nat} (inside : k < 3072) :
    (pageTables mem).le (0x1000 + 4 * k) 4 =
      if k = 0 then 0x2007
      else if k = 1024 then 0x3007
      else if 2048 ≤ k ∧ k < 2304 ∧ k % 2 = 0 then 0x87 + 0x200000 * ((k - 2048) / 2)
      else 0 := by
  have cleared : (repStosd 3072 0x1000 0 mem).le (0x1000 + 4 * k) 4 = 0 := by
    have stored : (storeDwords 4 0 3072 0x1000 0 mem).le (0x1000 + 4 * k) 4 =
        (0 + 0 * k) % 256 ^ 4 := storeDwords_at (Nat.le_refl 4) mem inside
    rw [Nat.zero_mul] at stored
    exact stored
  unfold pageTables
  by_cases page : 2048 ≤ k ∧ k < 2304 ∧ k % 2 = 0
  · obtain ⟨low, high, even⟩ := page
    have place : 0x1000 + 4 * k = 0x3000 + 8 * ((k - 2048) / 2) := by omega
    rw [if_neg (by omega), if_neg (by omega), if_pos ⟨low, high, even⟩, place, buildVmm,
      storeDwords_at (by decide) _ (by omega)]
    omega
  · rw [buildVmm, storeDwords_apart _ (by omega)]
    by_cases first : k = 0
    · rw [if_pos first, first, Nat.mul_zero, Nat.add_zero, Buf.le_putLe_of_disjoint (by omega)]
      exact Buf.le_putLe _ 0x1000 4 0x2007
    by_cases second : k = 1024
    · rw [if_neg first, if_pos second, second]
      exact Buf.le_putLe _ 0x2000 4 0x3007
    · rw [if_neg first, if_neg second, if_neg page, Buf.le_putLe_of_disjoint (by omega),
        Buf.le_putLe_of_disjoint (by omega), cleared]

/-- An entry of a table is two double words. -/
theorem entryAt_words (mem : Buf) (table index : Nat) : entryAt mem table index =
    mem.le (table + 8 * (index % 512)) 4 + 256 ^ 4 * mem.le (table + 8 * (index % 512) + 4) 4 :=
  mem.le_add _ 4 4

/-- The entry for an index of the table that starts `n` tables behind the first one. -/
theorem entryAt_pageTables (mem : Buf) {n : Nat} (three : n < 3) (index : Nat) :
    entryAt (pageTables mem) (0x1000 + 0x1000 * n) index =
      if n < 2 then if index % 512 = 0 then 0x2007 + 0x1000 * n else 0
      else if index % 512 < 128 then 0x87 + 0x200000 * (index % 512) else 0 := by
  have small := Nat.mod_lt index (show 0 < 512 by decide)
  have low := word_pageTables mem (k := 1024 * n + 2 * (index % 512)) (by omega)
  have high := word_pageTables mem (k := 1024 * n + 2 * (index % 512) + 1) (by omega)
  have place : 0x1000 + 0x1000 * n + 8 * (index % 512) =
      0x1000 + 4 * (1024 * n + 2 * (index % 512)) := by omega
  have behind : 0x1000 + 0x1000 * n + 8 * (index % 512) + 4 =
      0x1000 + 4 * (1024 * n + 2 * (index % 512) + 1) := by omega
  rw [entryAt_words, behind, place, low, high]
  generalize index % 512 = i at small
  have half : (1024 * n + 2 * i - 2048) / 2 = 512 * n + i - 1024 := by omega
  have none_ : (if 1024 * n + 2 * i + 1 = 0 then 0x2007
      else if 1024 * n + 2 * i + 1 = 1024 then 0x3007
      else if 2048 ≤ 1024 * n + 2 * i + 1 ∧ 1024 * n + 2 * i + 1 < 2304 ∧
          (1024 * n + 2 * i + 1) % 2 = 0 then 0x87 + 0x200000 * ((1024 * n + 2 * i + 1 - 2048) / 2)
      else 0) = 0 := by
    rw [if_neg (by omega), if_neg (by omega), if_neg (by omega)]
  rw [none_, half, Nat.mul_zero, Nat.add_zero]
  obtain rfl | rfl | rfl : n = 0 ∨ n = 1 ∨ n = 2 := by omega
  · split_ifs <;> omega
  · split_ifs <;> omega
  · split_ifs <;> omega

/-- With the tables of the entry code exactly the first 256 MB are mapped, each address to
itself. -/
theorem translate_pageTables (mem : Buf) {va : Nat} (word : va < 2 ^ 64) :
    translate (pageTables mem) 0x1000 va = if va < 2 ^ 28 then some va else none := by
  have pml4 : entryAt (pageTables mem) 0x1000 (va / 2 ^ 39) =
      if va / 2 ^ 39 % 512 = 0 then 0x2007 else 0 := entryAt_pageTables mem (n := 0) (by decide) _
  have pdpt : entryAt (pageTables mem) 0x2000 (va / 2 ^ 30) =
      if va / 2 ^ 30 % 512 = 0 then 0x3007 else 0 := entryAt_pageTables mem (n := 1) (by decide) _
  have pd : entryAt (pageTables mem) 0x3000 (va / 2 ^ 21) =
      if va / 2 ^ 21 % 512 < 128 then 0x87 + 0x200000 * (va / 2 ^ 21 % 512) else 0 :=
    entryAt_pageTables mem (n := 2) (by decide) _
  have missing : ¬ present 0 := by decide
  have linked₁ : present 0x2007 ∧ frame 12 0x2007 = 0x2000 := by decide
  have linked₂ : present 0x3007 ∧ ¬ large 0x3007 ∧ frame 12 0x3007 = 0x3000 := by decide
  unfold translate
  dsimp only
  by_cases canonical : Canonical va
  · rw [if_neg (not_not_intro canonical), pml4]
    by_cases top : va / 2 ^ 39 % 512 = 0
    · rw [if_pos top, if_neg (not_not_intro linked₁.1), linked₁.2, pdpt]
      by_cases next : va / 2 ^ 30 % 512 = 0
      · rw [if_pos next, if_neg (not_not_intro linked₂.1), if_neg linked₂.2.1, linked₂.2.2, pd]
        by_cases filled : va / 2 ^ 21 % 512 < 128
        · have low : va < 2 ^ 28 := by
            rcases canonical with lower | upper
            · omega
            · omega
          have page : va / 2 ^ 21 % 512 = va / 2 ^ 21 := by omega
          have usable : present (0x87 + 0x200000 * (va / 2 ^ 21)) ∧
              large (0x87 + 0x200000 * (va / 2 ^ 21)) := by
            unfold present large
            omega
          have start : frame 21 (0x87 + 0x200000 * (va / 2 ^ 21)) = 0x200000 * (va / 2 ^ 21) := by
            unfold frame
            omega
          have whole : 0x200000 * (va / 2 ^ 21) + va % 2 ^ 21 = va := by omega
          rw [if_pos filled, page, if_neg (not_not_intro usable.1), if_pos usable.2, start,
            if_pos low, whole]
        · rw [if_neg filled, if_pos missing, if_neg (by omega)]
      · rw [if_neg next, if_pos missing, if_neg (by omega)]
    · rw [if_neg top, if_pos missing, if_neg (by omega)]
  · have high : ¬ va < 2 ^ 28 := fun low => canonical (.inl (by omega))
    rw [if_pos canonical, if_neg high]

end XosKernel.Arch
