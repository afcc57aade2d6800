/-
# Theory.OwnedRing -- slots that two sides hand to each other

A producer and a consumer share `size` slots.  A slot belongs to one of them at a time: the
producer fills an empty slot and so hands it over, the consumer empties a full one and so
hands it back.  Each side keeps only the number of the slot that it looks at next, and both go
round.  There is no count and no comparison of the two numbers, so that all the slots can be
in use at once; that the ring is a queue all the same is `Stands`.
-/
import XosKernel.Theory.RingBuffer

namespace XosKernel.Theory

set_option autoImplicit false

/-- The slots, empty or full, and the next slot of each side. -/
structure OwnedRing (α : Type) where
  slots : Nat → Option α
  put : Nat
  take : Nat

namespace OwnedRing

variable {α : Type} {size : Nat} {r : OwnedRing α} {queue : List α}

/-- The producer fills its slot. -/
def fill (size : Nat) (r : OwnedRing α) (a : α) : OwnedRing α :=
  { r with slots := Function.update r.slots r.put (some a), put := (r.put + 1) % size }

/-- The consumer empties its slot. -/
def empty (size : Nat) (r : OwnedRing α) : OwnedRing α :=
  { r with slots := Function.update r.slots r.take none, take := (r.take + 1) % size }

/-- The full slots are the elements of the queue, from the consumer's slot on. -/
structure Stands (size : Nat) (r : OwnedRing α) (queue : List α) : Prop where
  take_lt : r.take < size
  short : queue.length ≤ size
  put_eq : r.put = RingBuffer.place size r.take queue.length
  slot : ∀ i, i < size → r.slots (RingBuffer.place size r.take i) = queue[i]?

/-- Two rings with the same slots within the round and the same numbers stand for the same. -/
theorem Stands.congr {r' : OwnedRing α} (stands : r.Stands size queue)
    (slots : ∀ i, i < size → r'.slots i = r.slots i) (put : r'.put = r.put)
    (take : r'.take = r.take) : r'.Stands size queue where
  take_lt := take ▸ stands.take_lt
  short := stands.short
  put_eq := by rw [put, take, stands.put_eq]
  slot i inside := by
    rw [take, slots _ (RingBuffer.place_lt stands.take_lt (Nat.le_of_lt inside)),
      stands.slot i inside]

theorem Stands.start {r : OwnedRing α} (low : r.take < size) (same : r.put = r.take)
    (free : ∀ i, i < size → r.slots i = none) : r.Stands size [] where
  take_lt := low
  short := Nat.zero_le _
  put_eq := by rw [same, List.length_nil, RingBuffer.place, Nat.add_zero, if_pos low]
  slot i inside := by
    rw [free _ (RingBuffer.place_lt low (Nat.le_of_lt inside))]
    rfl

section Stands

variable (stands : r.Stands size queue)
include stands

theorem Stands.put_lt : r.put < size := by
  rw [stands.put_eq]
  exact RingBuffer.place_lt stands.take_lt stands.short

/-- The producer's slot is full only if all are. -/
theorem Stands.put_none_iff : r.slots r.put = none ↔ queue.length < size := by
  have low := stands.take_lt
  constructor
  · intro free
    by_contra long
    have all : queue.length = size := Nat.le_antisymm stands.short (Nat.not_lt.mp long)
    have first := stands.slot 0 (by omega)
    have round : r.put = RingBuffer.place size r.take 0 := by
      rw [stands.put_eq, all, RingBuffer.place, RingBuffer.place, if_neg (by omega),
        if_pos (by omega)]
      omega
    rw [← round, free] at first
    have none := List.getElem?_eq_none_iff.mp first.symm
    omega
  · intro room
    rw [stands.put_eq, stands.slot _ room, List.getElem?_eq_none (Nat.le_refl _)]

/-- The consumer's slot has the element that was handed over first. -/
theorem Stands.take_eq : r.slots r.take = queue[0]? := by
  have low := stands.take_lt
  have first := stands.slot 0 (by omega)
  rwa [RingBuffer.place, Nat.add_zero, if_pos low] at first

/-- What is filled in comes last. -/
theorem Stands.fill (room : r.slots r.put = none) (a : α) :
    (r.fill size a).Stands size (queue ++ [a]) := by
  have low := stands.take_lt
  have short := stands.put_none_iff.mp room
  have length : (queue ++ [a]).length = queue.length + 1 := by simp
  refine ⟨low, by omega, ?_, fun i inside => ?_⟩
  · show (r.put + 1) % size = _
    rw [RingBuffer.mod_eq_place stands.put_lt (by omega), stands.put_eq, length]
    exact RingBuffer.place_place low (by omega)
  · show Function.update r.slots r.put (some a) (RingBuffer.place size r.take i) = _
    by_cases last : i = queue.length
    · subst last
      rw [← stands.put_eq, Function.update_self]
      simp
    · have other : RingBuffer.place size r.take i ≠ r.put := by
        rw [stands.put_eq]
        rcases Nat.lt_or_gt_of_ne last with before | after
        · exact RingBuffer.place_ne before short
        · exact (RingBuffer.place_ne after inside).symm
      rw [Function.update_of_ne other, stands.slot i inside]
      rcases Nat.lt_or_gt_of_ne last with before | after
      · rw [List.getElem?_append_left before]
      · rw [List.getElem?_eq_none (by omega), List.getElem?_eq_none (by omega)]

/-- What is emptied was first. -/
theorem Stands.empty {a : α} (full : r.slots r.take = some a) :
    ∃ rest, queue = a :: rest ∧ (r.empty size).Stands size rest := by
  have low := stands.take_lt
  have short := stands.short
  rw [stands.take_eq] at full
  obtain ⟨b, rest, rfl⟩ := List.exists_cons_of_ne_nil (l := queue) (by
    rintro rfl
    cases full)
  cases full
  rw [List.length_cons] at short
  have next : (r.take + 1) % size = RingBuffer.place size r.take 1 :=
    RingBuffer.mod_eq_place low (by omega)
  have step : ∀ i, i < size → RingBuffer.place size (RingBuffer.place size r.take 1) i =
      RingBuffer.place size r.take ((i + 1) % size) := by
    intro i inside
    by_cases wraps : i + 1 < size
    · rw [RingBuffer.place_place low (by omega), Nat.mod_eq_of_lt wraps, Nat.add_comm]
    · have round : i + 1 = size := by omega
      rw [round, Nat.mod_self]
      unfold RingBuffer.place
      split <;> split <;> split <;> omega
  refine ⟨rest, rfl, ?_, by omega, ?_, fun i inside => ?_⟩
  · show (r.take + 1) % size < size
    exact Nat.mod_lt _ (by omega)
  · show r.put = RingBuffer.place size ((r.take + 1) % size) rest.length
    rw [next, step _ (by omega), stands.put_eq, List.length_cons]
    by_cases full : rest.length + 1 < size
    · rw [Nat.mod_eq_of_lt full]
    · have round : rest.length + 1 = size := by omega
      rw [round, Nat.mod_self]
      unfold RingBuffer.place
      split <;> split <;> omega
  · show Function.update r.slots r.take none
      (RingBuffer.place size ((r.take + 1) % size) i) = rest[i]?
    have here : RingBuffer.place size r.take 0 = r.take := by
      rw [RingBuffer.place, Nat.add_zero, if_pos low]
    rw [next, step i inside]
    by_cases wraps : i + 1 < size
    · have other : RingBuffer.place size r.take (i + 1) ≠ r.take := fun same =>
        RingBuffer.place_ne (Nat.succ_pos i) wraps (here.trans same.symm)
      rw [Nat.mod_eq_of_lt wraps, Function.update_of_ne other, stands.slot _ wraps,
        List.getElem?_cons_succ]
    · have round : i + 1 = size := by omega
      rw [round, Nat.mod_self, here, Function.update_self, List.getElem?_eq_none (by omega)]

end Stands

end OwnedRing

end XosKernel.Theory
