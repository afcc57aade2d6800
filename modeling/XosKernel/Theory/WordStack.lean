/-
# Theory.WordStack -- a stack of words in memory

A processor with registers of any kind, a stack pointer, and memory read and written a 64-bit
cell at a time.  The stack grows downward and the arithmetic of the stack pointer is the
machine's, so nothing is assumed about where it points; what has to be small is the number of
cells in use.

`RowAt mem base ws` says that the cells from an address on are the words of a list.  A push
adds one in front, a pop takes the front one, and registers that are pushed in one order and
popped in the other get their values back (`popAll_holds`).
-/
import Mathlib.Logic.Function.Basic
import Mathlib.Data.List.Basic
import Mathlib.Data.BitVec

namespace XosKernel.Theory

set_option autoImplicit false

abbrev Word := BitVec 64

/-- Memory, as the cells that start at the addresses. -/
abbrev Cells := Word → Word

/-! ## Cells in a row -/

/-- The address of a cell, counted from another one. -/
def cell (base : Word) (i : Nat) : Word := base + BitVec.ofNat 64 (8 * i)

@[simp] theorem cell_zero (base : Word) : cell base 0 = base := by simp [cell]

theorem cell_cell (base : Word) (i j : Nat) : cell (cell base i) j = cell base (i + j) := by
  rw [cell, cell, cell, BitVec.add_assoc, ← BitVec.ofNat_add, Nat.mul_add]

theorem cell_succ (base : Word) (i : Nat) : cell base (i + 1) = cell (base + 8) i := by
  rw [Nat.add_comm, ← cell_cell]
  rfl

/-- Cells wrap around only after `2 ^ 61` of them. -/
theorem cell_inj {base : Word} {i j : Nat} (below : i < 2 ^ 61) (below' : j < 2 ^ 61)
    (same : cell base i = cell base j) : i = j := by
  have offsets := (BitVec.add_right_inj base).mp same
  have values := congrArg BitVec.toNat offsets
  rw [BitVec.toNat_ofNat, BitVec.toNat_ofNat, Nat.mod_eq_of_lt (by omega),
    Nat.mod_eq_of_lt (by omega)] at values
  omega

/-- The cells from an address on are these words. -/
def RowAt (mem : Cells) (base : Word) : List Word → Prop
  | [] => True
  | w :: ws => mem base = w ∧ RowAt mem (base + 8) ws

namespace RowAt

variable {mem mem' : Cells} {base : Word} {ws us : List Word}

theorem append : RowAt mem base (ws ++ us) ↔
    RowAt mem base ws ∧ RowAt mem (cell base ws.length) us := by
  induction ws generalizing base with
  | nil => simp [RowAt]
  | cons w ws ih => rw [List.cons_append, RowAt, RowAt, ih, and_assoc, List.length_cons, cell_succ]

/-- What a list of words says about memory is said by the cells that they lie in. -/
theorem congr (agree : ∀ i, i < ws.length → mem' (cell base i) = mem (cell base i)) :
    RowAt mem' base ws ↔ RowAt mem base ws := by
  induction ws generalizing base with
  | nil => exact Iff.rfl
  | cons w ws ih =>
      have first := agree 0 (by simp)
      rw [cell_zero] at first
      rw [RowAt, RowAt, first]
      refine and_congr_right fun _ => ih fun i inside => ?_
      rw [← cell_succ]
      exact agree (i + 1) (by simpa using inside)

theorem get (holds : RowAt mem base ws) {i : Nat} (inside : i < ws.length) :
    mem (cell base i) = ws[i] := by
  induction ws generalizing base i with
  | nil => simp at inside
  | cons w ws ih =>
      cases i with
      | zero => simpa using holds.1
      | succ i =>
          rw [cell_succ]
          exact ih holds.2 (by simpa using inside)

end RowAt

/-! ## The processor -/

/-- Registers, the stack pointer and memory. -/
structure Core (R : Type) where
  reg : R → Word
  sp : Word
  mem : Cells

namespace Core

variable {R : Type}

def push (c : Core R) (w : Word) : Core R :=
  { c with sp := c.sp - 8, mem := Function.update c.mem (c.sp - 8) w }

@[simp] theorem push_reg (c : Core R) (w : Word) : (c.push w).reg = c.reg := rfl

@[simp] theorem push_sp (c : Core R) (w : Word) : (c.push w).sp = c.sp - 8 := rfl

/-- What was on the stack stays there. -/
theorem push_holds {c : Core R} {ws : List Word} (holds : RowAt c.mem c.sp ws) (w : Word)
    (room : ws.length < 2 ^ 61) : RowAt (c.push w).mem (c.push w).sp (w :: ws) := by
  have back : c.sp - 8 + 8 = c.sp := BitVec.sub_add_cancel _ _
  refine ⟨Function.update_self .., ?_⟩
  rw [push_sp, back, RowAt.congr]
  · exact holds
  · intro i inside
    apply Function.update_of_ne
    intro same
    have := @cell_inj (c.sp - 8) (1 + i) 0 (by omega) (by omega) (by
      rw [← cell_cell, cell_zero]
      exact (congrArg (fun a => cell a i) back).trans same)
    omega

/-- Push words one after the other. -/
def pushAll (c : Core R) (ws : List Word) : Core R := ws.foldl push c

@[simp] theorem pushAll_reg (c : Core R) (ws : List Word) : (c.pushAll ws).reg = c.reg := by
  induction ws generalizing c with
  | nil => rfl
  | cons w ws ih => exact ih (c.push w)

theorem pushAll_append (c : Core R) (ws us : List Word) :
    c.pushAll (ws ++ us) = (c.pushAll ws).pushAll us := List.foldl_append

theorem pushAll_sp (c : Core R) (ws : List Word) :
    cell (c.pushAll ws).sp ws.length = c.sp := by
  induction ws generalizing c with
  | nil => exact cell_zero _
  | cons w ws ih =>
      have rest := ih (c.push w)
      rw [List.length_cons, ← cell_cell]
      refine (congrArg (fun a => cell a 1) rest).trans ?_
      exact BitVec.sub_add_cancel _ _

/-- The last word pushed is the first on the stack. -/
theorem pushAll_holds {c : Core R} {ws us : List Word} (holds : RowAt c.mem c.sp ws)
    (room : us.length + ws.length < 2 ^ 61) :
    RowAt (c.pushAll us).mem (c.pushAll us).sp (us.reverse ++ ws) := by
  induction us generalizing c ws with
  | nil => exact holds
  | cons u us ih =>
      rw [List.length_cons] at room
      have pushed := push_holds holds u (by omega)
      rw [List.reverse_cons, List.append_assoc, List.singleton_append]
      exact ih pushed (by rw [List.length_cons]; omega)

/-- Only the cells of the words pushed change. -/
theorem pushAll_elsewhere (c : Core R) (ws : List Word) {a : Word}
    (elsewhere : ∀ i < ws.length, a ≠ cell (c.pushAll ws).sp i) :
    (c.pushAll ws).mem a = c.mem a := by
  induction ws generalizing c with
  | nil => rfl
  | cons w ws ih =>
      have last := elsewhere ws.length (Nat.lt_succ_self _)
      refine (ih (c.push w) fun i inside => elsewhere i (Nat.lt_succ_of_lt inside)).trans ?_
      apply Function.update_of_ne
      intro same
      exact last (same.trans (pushAll_sp (c.push w) ws).symm)

variable [DecidableEq R]

def pop (c : Core R) (r : R) : Core R :=
  { c with sp := c.sp + 8, reg := Function.update c.reg r (c.mem c.sp) }

@[simp] theorem pop_mem (c : Core R) (r : R) : (c.pop r).mem = c.mem := rfl

@[simp] theorem pop_sp (c : Core R) (r : R) : (c.pop r).sp = c.sp + 8 := rfl

/-- Pop into registers one after the other. -/
def popAll (c : Core R) (rs : List R) : Core R := rs.foldl pop c

@[simp] theorem popAll_mem (c : Core R) (rs : List R) : (c.popAll rs).mem = c.mem := by
  induction rs generalizing c with
  | nil => rfl
  | cons r rs ih => exact ih (c.pop r)

theorem popAll_sp (c : Core R) (rs : List R) : (c.popAll rs).sp = cell c.sp rs.length := by
  induction rs generalizing c with
  | nil => exact (cell_zero _).symm
  | cons r rs ih => exact (ih (c.pop r)).trans (cell_succ _ _).symm

theorem popAll_other (c : Core R) {rs : List R} {r : R} (other : r ∉ rs) :
    (c.popAll rs).reg r = c.reg r := by
  induction rs generalizing c with
  | nil => rfl
  | cons s rs ih =>
      obtain ⟨notFirst, notLater⟩ := not_or.mp (mt List.mem_cons.mpr other)
      refine (ih (c.pop s) notLater).trans ?_
      exact Function.update_of_ne notFirst _ _

/-- Registers whose values are on the stack, in the order of the pops, get these values. -/
theorem popAll_holds {c : Core R} {rs : List R} {value : R → Word}
    (holds : RowAt c.mem c.sp (rs.map value)) {r : R} (member : r ∈ rs) :
    (c.popAll rs).reg r = value r := by
  induction rs generalizing c with
  | nil => simp at member
  | cons s rs ih =>
      by_cases later : r ∈ rs
      · exact ih (c := c.pop s) holds.2 later
      · have here : r = s := (List.mem_cons.mp member).resolve_right later
        subst here
        refine (popAll_other (c.pop r) later).trans ?_
        exact (Function.update_self ..).trans holds.1

end Core

end XosKernel.Theory
