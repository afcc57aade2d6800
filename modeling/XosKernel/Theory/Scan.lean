/-
# Theory.Scan -- loops over what does not change

A command whose answer does not depend on what happened before `Gives` a value.  Two loops are
made of such commands: `collect` gathers a list for every element, and `firstOf` returns at the
first element for which there is an answer.  Their values are `flatMap` and `findSome?`, so that
two scans of the same thing are compared as lists.
-/
import XosKernel.Theory.StateRun
import Mathlib.Data.List.Basic

namespace XosKernel.Theory

set_option autoImplicit false

variable {σ ε α β γ : Type}

/-- From every state the command returns this value. -/
def Gives (m : StateT σ (Except ε) α) (a : α) : Prop := ∀ s, Runs m s fun r _ => r = a

namespace Gives

theorem pure (a : α) : Gives (Pure.pure a : StateT σ (Except ε) α) a := fun _ => Runs.pure rfl

theorem bind {m : StateT σ (Except ε) α} {f : α → StateT σ (Except ε) β} {a : α} {b : β}
    (first : Gives m a) (rest : Gives (f a) b) : Gives (m >>= f) b := by
  intro s
  refine Runs.bind (first s) ?_
  rintro _ s' rfl
  exact rest s'

theorem unique {m : StateT σ (Except ε) α} {a b : α} (s : σ) (gives : Gives m a)
    (gives' : Gives m b) : a = b := by
  obtain ⟨_, _, ran, rfl⟩ := gives s
  exact gives' s |>.of_returned ran

theorem ite {p : Prop} [Decidable p] {m m' : StateT σ (Except ε) α} {a a' : α}
    (first : p → Gives m a) (second : ¬ p → Gives m' a') :
    Gives (if p then m else m') (if p then a else a') := by
  by_cases holds : p
  · rw [if_pos holds, if_pos holds]
    exact first holds
  · rw [if_neg holds, if_neg holds]
    exact second holds

end Gives

/-- A loop that gathers. -/
def collect (f : α → StateT σ (Except ε) (List β)) : List α → StateT σ (Except ε) (List β)
  | [] => Pure.pure []
  | x :: xs => do
      let found ← f x
      let more ← collect f xs
      return found ++ more

/-- A loop that returns at the first answer. -/
def firstOf (f : α → StateT σ (Except ε) (Option β)) : List α → StateT σ (Except ε) (Option β)
  | [] => Pure.pure none
  | x :: xs => do
      match ← f x with
      | some found => return some found
      | none => firstOf f xs

theorem collect_gives {f : α → StateT σ (Except ε) (List β)} {g : α → List β}
    (each : ∀ x, Gives (f x) (g x)) (xs : List α) : Gives (collect f xs) (xs.flatMap g) := by
  induction xs with
  | nil => exact Gives.pure []
  | cons x xs ih => exact Gives.bind (each x) (Gives.bind ih (Gives.pure _))

theorem firstOf_gives {f : α → StateT σ (Except ε) (Option β)} {g : α → Option β}
    (each : ∀ x, Gives (f x) (g x)) (xs : List α) : Gives (firstOf f xs) (xs.findSome? g) := by
  induction xs with
  | nil => exact Gives.pure none
  | cons x xs ih =>
      refine Gives.bind (each x) ?_
      rw [List.findSome?_cons]
      cases g x with
      | some found => exact Gives.pure (some found)
      | none => exact ih

/-- The first answer of a scan in two loops is the first in what two loops gather. -/
theorem findSome?_flatMap {g : α → List β} {p : β → Option γ} (xs : List α) :
    (xs.flatMap g).findSome? p = xs.findSome? fun x => (g x).findSome? p := by
  induction xs with
  | nil => rfl
  | cons x xs ih =>
      rw [List.flatMap_cons, List.findSome?_append, ih, List.findSome?_cons]
      cases (g x).findSome? p with
      | some c => rfl
      | none => rfl

end XosKernel.Theory
