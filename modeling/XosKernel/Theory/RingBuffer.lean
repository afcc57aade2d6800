/-
# Theory.RingBuffer -- a ring of cells as a bounded queue

A ring has an index where the next element is written and one where the next element is read;
both go up by one and wrap at `size`.  It is empty if they are equal and full if the write index
is one behind the read index, so it holds at most `size - 1` elements.  `Holds` relates a ring to
the queue that it stands for; `Accounts` says of a device built on it that what was delivered,
followed by what is still in the ring, is what was accepted.
-/
import Mathlib.Logic.Function.Basic

namespace XosKernel.Theory

set_option autoImplicit false

/-- The cells, and the two indices. -/
structure RingBuffer (α : Type) where
  cells : Nat → α
  write : Nat
  read : Nat

namespace RingBuffer

variable {α : Type}

def isEmpty (r : RingBuffer α) : Bool := r.read == r.write

def isFull (size : Nat) (r : RingBuffer α) : Bool := (r.write + 1) % size == r.read

/-- Write an element. -/
def push (size : Nat) (r : RingBuffer α) (a : α) : RingBuffer α where
  cells := Function.update r.cells r.write a
  write := (r.write + 1) % size
  read := r.read

/-- The element that is read next. -/
def front (r : RingBuffer α) : α := r.cells r.read

/-- Go on to the next element. -/
def pop (size : Nat) (r : RingBuffer α) : RingBuffer α := { r with read := (r.read + 1) % size }

/-! ## The cells in use -/

/-- The cell `i` places behind the read index. -/
def place (size read i : Nat) : Nat := if read + i < size then read + i else read + i - size

theorem mod_eq_place {size read i : Nat} (low : read < size) (short : i ≤ size) :
    (read + i) % size = place size read i := by
  unfold place
  split
  · next inside => exact Nat.mod_eq_of_lt inside
  · next outside =>
      rw [Nat.mod_eq_sub_mod (Nat.not_lt.mp outside)]
      exact Nat.mod_eq_of_lt (by omega)

theorem place_lt {size read i : Nat} (low : read < size) (short : i ≤ size) :
    place size read i < size := by
  unfold place
  split <;> omega

/-- Different places within one round are different cells. -/
theorem place_ne {size read i j : Nat} (order : i < j) (short : j < size) :
    place size read i ≠ place size read j := by
  unfold place
  split <;> split <;> omega

/-- The places behind a place. -/
theorem place_place {size read i j : Nat} (low : read < size) (short : i + j ≤ size) :
    place size (place size read i) j = place size read (i + j) := by
  by_cases inside : read + i < size
  · rw [place, show place size read i = read + i from if_pos inside, Nat.add_assoc]
    rfl
  · have start : place size read i = read + i - size := if_neg inside
    have behind : place size read (i + j) = read + (i + j) - size := if_neg (by omega)
    rw [place, start, behind, if_pos (by omega)]
    omega

/-- The ring holds the elements of the queue, the one that is read next first. -/
structure Holds (size : Nat) (r : RingBuffer α) (queue : List α) : Prop where
  read_lt : r.read < size
  short : queue.length < size
  write_eq : r.write = place size r.read queue.length
  cell : ∀ i a, queue[i]? = some a → r.cells (place size r.read i) = a

section Holds

variable {size : Nat} {r : RingBuffer α} {queue : List α} (holds : r.Holds size queue)

/-- A ring whose indices are equal holds nothing. -/
theorem Holds.empty {r : RingBuffer α} (low : r.read < size) (same : r.write = r.read) :
    r.Holds size [] where
  read_lt := low
  short := Nat.lt_of_le_of_lt (Nat.zero_le _) low
  write_eq := by rw [same, place, List.length_nil, Nat.add_zero, if_pos low]
  cell i a is := by cases is

include holds

theorem Holds.write_lt : r.write < size := by
  rw [holds.write_eq]
  exact place_lt holds.read_lt (Nat.le_of_lt holds.short)

theorem Holds.isEmpty_iff : r.isEmpty = true ↔ queue = [] := by
  have low := holds.read_lt
  have short := holds.short
  rw [isEmpty, beq_iff_eq, holds.write_eq, place, ← List.length_eq_zero_iff]
  split <;> omega

theorem Holds.isFull_iff : r.isFull size = true ↔ queue.length = size - 1 := by
  have low := holds.read_lt
  have short := holds.short
  rw [isFull, beq_iff_eq, mod_eq_place holds.write_lt (by omega), holds.write_eq,
    place_place low (by omega), place]
  split <;> omega

/-- A new element comes last. -/
theorem Holds.push (room : r.isFull size ≠ true) (a : α) :
    (r.push size a).Holds size (queue ++ [a]) := by
  have low := holds.read_lt
  have short := holds.short
  rw [ne_eq, holds.isFull_iff] at room
  have length : (queue ++ [a]).length = queue.length + 1 := by simp
  refine ⟨low, by omega, ?_, fun i b is => ?_⟩
  · show (r.write + 1) % size = _
    rw [mod_eq_place holds.write_lt (by omega), holds.write_eq, length]
    exact place_place low (by omega)
  · show Function.update r.cells r.write a (place size r.read i) = b
    by_cases last : i = queue.length
    · subst last
      rw [← holds.write_eq, Function.update_self]
      simpa using is
    · have before : i < queue.length := by
        have inside := (List.getElem?_eq_some_iff.mp is).1
        omega
      rw [List.getElem?_append_left before] at is
      have other : place size r.read i ≠ r.write := by
        rw [holds.write_eq]
        exact place_ne before short
      rw [Function.update_of_ne other]
      exact holds.cell i b is

/-- The element that is read next is the first one. -/
theorem Holds.front_eq (some_ : queue ≠ []) : queue = r.front :: queue.tail := by
  obtain ⟨a, rest, rfl⟩ := List.exists_cons_of_ne_nil some_
  have first := holds.cell 0 a rfl
  rw [place, Nat.add_zero, if_pos holds.read_lt] at first
  rw [front, first, List.tail_cons]

/-- The element that was read is gone. -/
theorem Holds.pop (some_ : queue ≠ []) : (r.pop size).Holds size queue.tail := by
  have low := holds.read_lt
  have short := holds.short
  obtain ⟨a, rest, rfl⟩ := List.exists_cons_of_ne_nil some_
  rw [List.length_cons] at short
  have next : (r.pop size).read = place size r.read 1 := mod_eq_place low (by omega)
  have step : ∀ i, i ≤ rest.length → place size (place size r.read 1) i =
      place size r.read (i + 1) := by
    intro i inside
    rw [place_place low (by omega), Nat.add_comm]
  refine ⟨?_, ?_, ?_, fun i b is => ?_⟩
  · rw [next]
    exact place_lt low (by omega)
  · rw [List.tail_cons]
    omega
  · rw [next, List.tail_cons, step _ (Nat.le_refl _)]
    exact holds.write_eq
  · have inside := (List.getElem?_eq_some_iff.mp is).1
    rw [List.tail_cons] at is inside
    rw [next, step i (by omega)]
    exact holds.cell (i + 1) b is

end Holds

/-! ## What comes out -/

/-- What was delivered and what the ring holds is what was accepted, in order. -/
def Accounts (size : Nat) (r : RingBuffer α) (accepted delivered : List α) : Prop :=
  ∃ queue, r.Holds size queue ∧ accepted = delivered ++ queue

section Accounts

variable {size : Nat} {r : RingBuffer α} {accepted delivered : List α}
  (accounts : r.Accounts size accepted delivered)

theorem Accounts.start {r : RingBuffer α} (low : r.read < size) (same : r.write = r.read) :
    r.Accounts size [] [] := ⟨[], .empty low same, rfl⟩

include accounts

theorem Accounts.push (room : r.isFull size ≠ true) (a : α) :
    (r.push size a).Accounts size (accepted ++ [a]) delivered := by
  obtain ⟨queue, holds, same⟩ := accounts
  exact ⟨queue ++ [a], holds.push room a, by rw [same, List.append_assoc]⟩

theorem Accounts.pop (some_ : r.isEmpty ≠ true) :
    (r.pop size).Accounts size accepted (delivered ++ [r.front]) := by
  obtain ⟨queue, holds, same⟩ := accounts
  rw [ne_eq, holds.isEmpty_iff] at some_
  refine ⟨queue.tail, holds.pop some_, ?_⟩
  rw [same, List.append_assoc, List.singleton_append, ← holds.front_eq some_]

/-- Writing leaves the element that is read next, if there is one. -/
theorem Accounts.front_push (room : r.isFull size ≠ true) (some_ : r.isEmpty ≠ true) (a : α) :
    (r.push size a).front = r.front ∧ (r.push size a).isEmpty ≠ true := by
  obtain ⟨queue, holds, -⟩ := accounts
  rw [ne_eq, holds.isEmpty_iff] at some_
  have after := holds.push room a
  have more : queue ++ [a] ≠ [] := List.append_ne_nil_of_left_ne_nil some_ _
  refine ⟨?_, by rwa [ne_eq, after.isEmpty_iff]⟩
  have first := holds.front_eq some_
  have first' := after.front_eq more
  rw [first, List.cons_append] at first'
  exact (List.cons.inj first').1.symm

/-- Both indices are inside, the ring is empty exactly if everything was delivered, and full
exactly if `size - 1` elements were not. -/
theorem Accounts.counts : r.read < size ∧ r.write < size ∧
    ∃ pending, accepted = delivered ++ pending ∧ pending.length ≤ size - 1 ∧
      (r.isEmpty = true ↔ pending = []) ∧ (r.isFull size = true ↔ pending.length = size - 1) := by
  obtain ⟨queue, holds, same⟩ := accounts
  have short := holds.short
  exact ⟨holds.read_lt, holds.write_lt, queue, same, by omega, holds.isEmpty_iff,
    holds.isFull_iff⟩

end Accounts

end RingBuffer

end XosKernel.Theory
