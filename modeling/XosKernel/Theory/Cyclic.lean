/-
# Theory.Cyclic -- searching a ring of slots

`firstFrom start p` walks once around the indices below `n`, beginning at `start`, and stops
at the first one that satisfies `p`.  Positions are measured by `ahead start i`, the number of
steps from `start` to `i`: the search finds the index that is least ahead (`firstFrom_eq_some`),
and starting again behind it brings every index that was further ahead closer
(`ahead_succ_lt`), which is what fairness arguments count down.
-/
import Mathlib.Algebra.Group.Fin.Basic
import Mathlib.Data.List.FinRange
import Mathlib.Tactic.Abel

namespace XosKernel.Theory.Cyclic

set_option autoImplicit false

variable {n : Nat} [NeZero n]

/-- The first index from `start` on that satisfies `p`, going around once. -/
def firstFrom (start : Fin n) (p : Fin n → Bool) : Option (Fin n) :=
  ((List.finRange n).map fun i => start + i).find? p

/-- Steps around the ring from `start` to `i`. -/
def ahead (start i : Fin n) : Nat := (i - start).val

omit [NeZero n] in
theorem ahead_lt (start i : Fin n) : ahead start i < n := (i - start).isLt

theorem ahead_inj {start i j : Fin n} (same : ahead start i = ahead start j) : i = j := by
  have steps : i - start = j - start := Fin.ext same
  simpa using congrArg (· + start) steps

theorem add_steps (start i : Fin n) : start + (i - start) = i := by
  rw [add_comm, sub_add_cancel]

theorem steps_add (start i : Fin n) : ahead start (start + i) = i.val := by
  unfold ahead
  rw [add_sub_cancel_left]

theorem firstFrom_eq_none {start : Fin n} {p : Fin n → Bool} :
    firstFrom start p = none ↔ ∀ i, p i = false := by
  unfold firstFrom
  rw [List.find?_eq_none]
  constructor
  · intro rejected i
    have met := rejected i (List.mem_map.mpr ⟨i - start, List.mem_finRange _, add_steps start i⟩)
    simpa using met
  · intro rejected i _
    simp [rejected i]

/-- The search finds the index that is least ahead of its start. -/
theorem firstFrom_eq_some {start found : Fin n} {p : Fin n → Bool} :
    firstFrom start p = some found ↔
      p found = true ∧ ∀ i, ahead start i < ahead start found → p i = false := by
  unfold firstFrom
  rw [List.find?_eq_some_iff_getElem]
  simp only [List.length_map, List.length_finRange, List.getElem_map, List.getElem_finRange]
  constructor
  · rintro ⟨holds, k, bound, rfl, earlier⟩
    refine ⟨holds, fun i closer => ?_⟩
    rw [steps_add] at closer
    have met := earlier (ahead start i) closer
    have index : start + ⟨ahead start i, ahead_lt start i⟩ = i := add_steps start i
    simpa [index] using met
  · rintro ⟨holds, earlier⟩
    refine ⟨holds, ahead start found, ahead_lt start found, add_steps start found, ?_⟩
    intro k closer
    have met := earlier (start + ⟨k, by have := ahead_lt start found; omega⟩)
      (by rw [steps_add]; exact closer)
    simpa using met

/-- An index that satisfies `p` bounds how far the search goes. -/
theorem firstFrom_of_holds (start : Fin n) {i : Fin n} {p : Fin n → Bool} (holds : p i = true) :
    ∃ found, firstFrom start p = some found ∧ p found = true ∧
      ahead start found ≤ ahead start i := by
  cases result : firstFrom start p with
  | none =>
      rw [firstFrom_eq_none.mp result i] at holds
      cases holds
  | some found =>
      obtain ⟨met, earlier⟩ := firstFrom_eq_some.mp result
      refine ⟨found, rfl, met, Nat.le_of_not_lt fun closer => ?_⟩
      rw [earlier i closer] at holds
      cases holds

/-- Behind a nearer index, the way to an index is shorter. -/
theorem ahead_succ_lt {start near i : Fin n} (closer : ahead start near < ahead start i) :
    ahead (near + 1) i < ahead start i := by
  have bound := ahead_lt start i
  unfold ahead at *
  have next : ((near - start) + 1 : Fin n).val = (near - start).val + 1 :=
    Fin.val_add_one_of_lt' (by omega)
  have way : i - (near + 1) = (i - start) - ((near - start) + 1) := by
    abel
  rw [way, Fin.sub_val_of_le (by rw [Fin.le_def, next]; omega), next]
  omega

/-- From behind an index, the way around to it is the longest. -/
theorem ahead_lt_of_ne {i j : Fin n} (other : j ≠ i) : ahead (i + 1) j < ahead (i + 1) i := by
  have longest : ahead (i + 1) i = n - 1 := by
    obtain ⟨m, rfl⟩ := Nat.exists_eq_succ_of_ne_zero (NeZero.ne n)
    unfold ahead
    rw [sub_add_cancel_left]
    exact Fin.coe_neg_one
  have bound := ahead_lt (i + 1) j
  have different : ahead (i + 1) j ≠ ahead (i + 1) i := fun same => other (ahead_inj same)
  omega

/-! ## Positions seen from another index -/

/-- The way between two indices, when the first comes first. -/
theorem ahead_of_le {origin i j : Fin n} (order : ahead origin i ≤ ahead origin j) :
    ahead i j = ahead origin j - ahead origin i := by
  have way : j - i = (j - origin) - (i - origin) := by abel
  unfold ahead at *
  rw [way, Fin.sub_val_of_le (by rwa [Fin.le_def])]

/-- The way between two indices, when it goes past the origin. -/
theorem ahead_of_lt {origin i j : Fin n} (order : ahead origin j < ahead origin i) :
    ahead i j = n - ahead origin i + ahead origin j := by
  have way : j - i = (j - origin) - (i - origin) := by abel
  have bound := ahead_lt origin i
  unfold ahead at *
  rw [way, Fin.sub_def]
  simp only
  rw [Nat.mod_eq_of_lt (by omega)]

/-- A search that can stop before it comes past the origin does, at the nearest index. -/
theorem firstFrom_between {origin start found i : Fin n} {p : Fin n → Bool}
    (result : firstFrom start p = some found) (holds : p i = true)
    (behind : ahead origin start ≤ ahead origin i) :
    ahead origin start ≤ ahead origin found ∧ ahead origin found ≤ ahead origin i := by
  have least : ahead start found ≤ ahead start i := by
    by_contra further
    have missed := (firstFrom_eq_some.mp result).2 i (Nat.not_le.mp further)
    rw [holds] at missed
    cases missed
  rw [ahead_of_le behind] at least
  have boundI := ahead_lt origin i
  by_cases order : ahead origin start ≤ ahead origin found
  · rw [ahead_of_le order] at least
    omega
  · rw [ahead_of_lt (Nat.not_le.mp order)] at least
    omega

/-- Counted from behind `s`, the successor of any index but `s` is one further. -/
theorem ahead_succ_of_ne {s i : Fin n} (other : i ≠ s) :
    ahead (s + 1) (i + 1) = ahead (s + 1) i + 1 := by
  have way : i + 1 - (s + 1) = (i - (s + 1)) + 1 := by abel
  have before := ahead_lt_of_ne other
  have bound := ahead_lt (s + 1) s
  unfold ahead at *
  rw [way, Fin.val_add_one_of_lt' (by omega)]

end XosKernel.Theory.Cyclic
