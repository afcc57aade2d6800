/-
# Theory.OnesComplement -- addition with an end-around carry

A machine word below `b` is added in one's complement by adding the carry back in at the low end
(`add`).  What comes out is the representative of the sum modulo `b - 1` (`norm`): 0 only for the
sum 0, and `b - 1` for the other multiples.  So an accumulator that is wide enough may collect the
words first and fold its carries later (`norm_fold`), and the halves of all words may be swapped
(`sum_map_swap`): a swap is a multiplication by `r`, where `b = r * r`.
-/
import Mathlib.Data.Nat.ModEq
import Mathlib.Tactic.Ring

namespace XosKernel.Theory.OnesComplement

set_option autoImplicit false

/-- The sum of two words, with the carry added in again. -/
def add (b x y : Nat) : Nat := (x + y) % b + (x + y) / b

/-- The one's complement sum of words. -/
def sum (b : Nat) (words : List Nat) : Nat := words.foldl (add b) 0

/-- The representative of a number modulo `b - 1`; only 0 has the representative 0. -/
def norm (b n : Nat) : Nat := if n = 0 then 0 else (n - 1) % (b - 1) + 1

section Norm

variable {b : Nat} (wide : 2 ≤ b)
include wide

theorem norm_lt (n : Nat) : norm b n < b := by
  unfold norm
  split
  · omega
  · have bound := Nat.mod_lt (n - 1) (show 0 < b - 1 by omega)
    omega

omit wide in
theorem norm_eq_zero_iff {n : Nat} : norm b n = 0 ↔ n = 0 := by
  unfold norm
  split
  · next zero => exact iff_of_true rfl zero
  · next other => exact iff_of_false (Nat.succ_ne_zero _) other

omit wide in
theorem norm_modEq (n : Nat) : norm b n ≡ n [MOD b - 1] := by
  unfold norm
  split
  · next zero =>
      subst zero
      exact Nat.ModEq.refl 0
  · next other =>
      have step := (Nat.mod_modEq (n - 1) (b - 1)).add_right 1
      rwa [Nat.sub_add_cancel (Nat.pos_of_ne_zero other)] at step

/-- A word is told by its rest modulo `b - 1` and by whether it is 0. -/
theorem norm_unique {n r : Nat} (word : r < b) (zero : r = 0 ↔ n = 0) (same : r ≡ n [MOD b - 1]) :
    norm b n = r := by
  by_cases empty : n = 0
  · rw [zero.mpr empty, norm_eq_zero_iff]
    exact empty
  · have some_ : r ≠ 0 := fun none => empty (zero.mp none)
    rw [norm, if_neg empty]
    have less : r - 1 ≡ n - 1 [MOD b - 1] := by
      apply Nat.ModEq.add_right_cancel' 1
      rw [Nat.sub_add_cancel (Nat.pos_of_ne_zero some_),
        Nat.sub_add_cancel (Nat.pos_of_ne_zero empty)]
      exact same
    have rest : (n - 1) % (b - 1) = r - 1 := by
      rw [← less, Nat.mod_eq_of_lt (by omega)]
    omega

theorem norm_of_lt {n : Nat} (word : n < b) : norm b n = n :=
  norm_unique wide word Iff.rfl (Nat.ModEq.refl n)

theorem norm_eq_iff {m n : Nat} :
    norm b m = norm b n ↔ (m = 0 ↔ n = 0) ∧ m ≡ n [MOD b - 1] := by
  constructor
  · intro same
    refine ⟨?_, ?_⟩
    · rw [← norm_eq_zero_iff (b := b), same, norm_eq_zero_iff]
    · exact (norm_modEq m).symm.trans (same ▸ norm_modEq n)
  · rintro ⟨zero, same⟩
    exact norm_unique wide (norm_lt wide n) (norm_eq_zero_iff.trans zero.symm)
      ((norm_modEq n).trans same.symm)

theorem norm_add_norm (m n : Nat) : norm b (norm b m + n) = norm b (m + n) := by
  rw [norm_eq_iff wide]
  refine ⟨?_, (norm_modEq m).add_right n⟩
  rw [Nat.add_eq_zero_iff, Nat.add_eq_zero_iff, norm_eq_zero_iff]

theorem norm_mul_norm {k : Nat} (some_ : k ≠ 0) (n : Nat) :
    norm b (k * norm b n) = norm b (k * n) := by
  rw [norm_eq_iff wide]
  refine ⟨?_, (norm_modEq n).mul_left k⟩
  simp only [Nat.mul_eq_zero, some_, false_or, norm_eq_zero_iff]

/-- `b` counts as 1. -/
theorem base_modEq : b ≡ 1 [MOD b - 1] := by
  have step : b - 1 + 1 ≡ 0 + 1 [MOD b - 1] := Nat.ModEq.add_right 1 (Nat.mod_self _)
  rwa [Nat.sub_add_cancel (by omega)] at step

/-- Carries may be folded in at any time. -/
theorem norm_fold (n : Nat) : norm b (n % b + n / b) = norm b n := by
  have parts := Nat.mod_add_div n b
  rw [norm_eq_iff wide]
  constructor
  · constructor
    · intro none
      obtain ⟨low, high⟩ := Nat.add_eq_zero_iff.mp none
      rw [low, high, Nat.mul_zero] at parts
      exact parts.symm
    · rintro rfl
      rw [Nat.zero_mod, Nat.zero_div]
  · have carried : b * (n / b) ≡ 1 * (n / b) [MOD b - 1] := (base_modEq wide).mul_right _
    have all := carried.add_left (n % b)
    rw [parts, Nat.one_mul] at all
    exact all.symm

theorem add_eq_norm {x y : Nat} (left : x < b) (right : y < b) : add b x y = norm b (x + y) := by
  have word : add b x y < b := by
    have carry : (x + y) / b ≤ 1 := by
      rw [← Nat.lt_succ_iff, Nat.div_lt_iff_lt_mul (by omega)]
      omega
    have parts := Nat.mod_add_div (x + y) b
    have low := Nat.mod_lt (x + y) (show 0 < b by omega)
    unfold add
    rcases Nat.le_one_iff_eq_zero_or_eq_one.mp carry with none | one
    · omega
    · rw [one] at parts ⊢
      omega
  rw [← norm_fold wide]
  exact (norm_of_lt wide word).symm

/-- The sum of words is the representative of their sum. -/
theorem sum_eq_norm {words : List Nat} (all : ∀ x ∈ words, x < b) :
    sum b words = norm b words.sum := by
  have from_ : ∀ (words : List Nat) (x : Nat), (∀ y ∈ words, y < b) → x < b →
      words.foldl (add b) x = norm b (x + words.sum) := by
    intro words
    induction words with
    | nil =>
        intro x _ word
        exact (norm_of_lt wide word).symm
    | cons y words ih =>
        intro x all word
        have first := add_eq_norm wide word (all y List.mem_cons_self)
        rw [List.foldl_cons, first, ih _ (fun z member => all z (List.mem_cons_of_mem _ member))
          (norm_lt wide _), norm_add_norm wide, List.sum_cons, Nat.add_assoc]
  have start := from_ words 0 all (by omega)
  rwa [Nat.zero_add] at start

/-- With the complement of a sum the sum is full. -/
theorem norm_add_complement {m n : Nat} (complement : n = b - 1 - norm b m) :
    norm b (m + n) = b - 1 := by
  have bound := norm_lt wide m
  rw [← norm_add_norm wide, complement, Nat.add_sub_cancel' (by omega)]
  exact norm_of_lt wide (by omega)

end Norm

/-! ## Swapping the halves -/

/-- The halves of a word the other way round. -/
def swap (r x : Nat) : Nat := x % r * r + x / r

section Swap

variable {r : Nat} (wide : 2 ≤ r)
include wide

theorem swap_lt {x : Nat} (word : x < r * r) : swap r x < r * r := by
  have low := Nat.mod_lt x (show 0 < r by omega)
  have high : x / r < r := (Nat.div_lt_iff_lt_mul (by omega)).mpr word
  calc x % r * r + x / r < x % r * r + r := by omega
    _ = (x % r + 1) * r := by ring
    _ ≤ r * r := Nat.mul_le_mul_right r low

/-- To swap the halves is to multiply by `r`. -/
theorem swap_eq_norm {x : Nat} (word : x < r * r) : swap r x = norm (r * r) (r * x) := by
  have square : 2 ≤ r * r := Nat.le_trans wide (Nat.le_mul_of_pos_left r (by omega))
  have parts := Nat.mod_add_div x r
  refine (norm_unique square (swap_lt wide word) ?_ ?_).symm
  · have positive : r ≠ 0 := by omega
    rw [swap, Nat.add_eq_zero_iff, Nat.mul_eq_zero, Nat.mul_eq_zero, or_iff_left positive,
      or_iff_right positive]
    constructor
    · rintro ⟨low, high⟩
      rw [low, high, Nat.mul_zero] at parts
      exact parts.symm
    · rintro rfl
      exact ⟨Nat.zero_mod r, Nat.zero_div r⟩
  · have carried : r * r * (x / r) ≡ 1 * (x / r) [MOD r * r - 1] :=
      (base_modEq square).mul_right _
    have all := carried.add_left (x % r * r)
    have whole : x % r * r + r * r * (x / r) = r * x := by
      calc x % r * r + r * r * (x / r) = r * (x % r + r * (x / r)) := by ring
        _ = r * x := by rw [parts]
    rw [whole, Nat.one_mul] at all
    exact all.symm

theorem swap_swap {x : Nat} (word : x < r * r) : swap r (swap r x) = x := by
  have high : x / r < r := (Nat.div_lt_iff_lt_mul (by omega)).mpr word
  have parts := Nat.mod_add_div x r
  have low_ : (x % r * r + x / r) % r = x / r := by
    rw [Nat.mul_comm, Nat.mul_add_mod, Nat.mod_eq_of_lt high]
  have high_ : (x % r * r + x / r) / r = x % r := by
    rw [Nat.mul_comm, Nat.mul_add_div (by omega), Nat.div_eq_of_lt high, Nat.add_zero]
  rw [swap, swap, low_, high_, Nat.mul_comm, Nat.add_comm]
  exact parts

/-- The complement of a swapped word is the swapped complement. -/
theorem swap_complement {x : Nat} (word : x < r * r) :
    swap r (r * r - 1 - x) = r * r - 1 - swap r x := by
  have low := Nat.mod_lt x (show 0 < r by omega)
  have high : x / r < r := (Nat.div_lt_iff_lt_mul (by omega)).mpr word
  have parts := Nat.mod_add_div x r
  have split : r * r - 1 - x = r * (r - 1 - x / r) + (r - 1 - x % r) := by
    have whole : r * (r - 1 - x / r) + r * (x / r) + r = r * r := by
      rw [← Nat.mul_add, Nat.sub_add_cancel (by omega)]
      calc r * (r - 1) + r = r * (r - 1 + 1) := by ring
        _ = r * r := by rw [Nat.sub_add_cancel (by omega)]
    omega
  have whole' : (r - 1 - x % r) * r + x % r * r + r = r * r := by
    rw [← Nat.add_mul, Nat.sub_add_cancel (by omega)]
    calc (r - 1) * r + r = (r - 1 + 1) * r := by ring
      _ = r * r := by rw [Nat.sub_add_cancel (by omega)]
  rw [swap, swap, split, Nat.mul_add_mod, Nat.mod_eq_of_lt (by omega),
    Nat.mul_add_div (by omega), Nat.div_eq_of_lt (by omega : r - 1 - x % r < r)]
  omega

/-- The sum of swapped words is the swapped sum. -/
theorem sum_map_swap {words : List Nat} (all : ∀ x ∈ words, x < r * r) :
    sum (r * r) (words.map (swap r)) = swap r (sum (r * r) words) := by
  have square : 2 ≤ r * r := Nat.le_trans wide (Nat.le_mul_of_pos_left r (by omega))
  have swapped : ∀ x ∈ words.map (swap r), x < r * r := by
    intro x member
    obtain ⟨y, inside, rfl⟩ := List.mem_map.mp member
    exact swap_lt wide (all y inside)
  have totals : norm (r * r) (words.map (swap r)).sum = norm (r * r) (r * words.sum) := by
    induction words with
    | nil => rw [List.map_nil, List.sum_nil, Nat.mul_zero]
    | cons x words ih =>
        have rest := ih (fun y member => all y (List.mem_cons_of_mem _ member))
          (fun y member => swapped y (List.mem_cons_of_mem _ member))
        rw [List.map_cons, List.sum_cons, List.sum_cons, Nat.mul_add,
          swap_eq_norm wide (all x List.mem_cons_self), norm_add_norm square, Nat.add_comm,
          ← norm_add_norm square, rest, norm_add_norm square, Nat.add_comm]
  rw [sum_eq_norm square swapped, totals, sum_eq_norm square all,
    swap_eq_norm wide (norm_lt square _), norm_mul_norm square (by omega)]

end Swap

end XosKernel.Theory.OnesComplement
