/-
# Theory.Walk -- following links while erasing them

From a node the links are followed as long as they lead to nodes.  `Visits next node a x` says
that the walk from `a` comes to `x`; the links may run into cycles, and then the walk comes
back to where it was.  A walk that erases every link it has read (`next a := gone`, where
`gone` is not a node) visits the same nodes (`visits_erase`), and it ends: every step leaves
one link less that leads to a node (`linked_erase`).
-/
import Mathlib.Data.Finset.Card
import Mathlib.Logic.Function.Basic

namespace XosKernel.Theory

set_option autoImplicit false

variable {α : Type} {next : α → α} {node : α → Prop} {a x gone : α}

/-- The walk from `a` comes to a node. -/
inductive Visits (next : α → α) (node : α → Prop) (a : α) : α → Prop
  | start : Visits next node a a
  | step {x : α} (before : Visits next node a x) (goes : node (next x)) :
      Visits next node a (next x)

namespace Visits

/-- Where the first link is no node, the walk stays at its start. -/
theorem of_stop (stops : ¬ node (next a)) : Visits next node a x ↔ x = a := by
  constructor
  · intro visits
    induction visits with
    | start => rfl
    | step _ goes same =>
        rw [same] at goes
        exact absurd goes stops
  · rintro rfl
    exact .start

theorem node_of (start : node a) (visits : Visits next node a x) : node x := by
  cases visits with
  | start => exact start
  | step _ goes => exact goes

variable [DecidableEq α]

/-- With the first link erased, the walk from the next node visits what is left. -/
theorem erase (goes : node (next a)) (unlinked : ¬ node gone) :
    Visits next node a x ↔
      x = a ∨ Visits (Function.update next a gone) node (next a) x := by
  constructor
  · intro visits
    induction visits with
    | start => exact .inl rfl
    | @step y _ onward ih =>
        refine .inr ?_
        by_cases same : y = a
        · rw [same]
          exact .start
        · have moves : Function.update next a gone y = next y := Function.update_of_ne same _ _
          have onward' : node (Function.update next a gone y) := by
            rw [moves]
            exact onward
          rw [← moves]
          exact .step (ih.resolve_left same) onward'
  · rintro (rfl | visits)
    · exact .start
    · induction visits with
      | start => exact .step .start goes
      | @step y _ onward ih =>
          have apart : y ≠ a := by
            rintro rfl
            rw [Function.update_self] at onward
            exact unlinked onward
          rw [Function.update_of_ne apart] at onward ⊢
          exact .step ih onward

end Visits

section Linked

variable [DecidableEq α] [DecidablePred node]

/-- The nodes of a set whose links lead to nodes. -/
def linked (next : α → α) (node : α → Prop) [DecidablePred node] (s : Finset α) : Finset α :=
  s.filter fun x => node (next x)

/-- Erasing a link that leads to a node leaves one less. -/
theorem linked_erase {s : Finset α} (member : a ∈ s) (goes : node (next a))
    (unlinked : ¬ node gone) :
    (linked (Function.update next a gone) node s).card < (linked next node s).card := by
  apply Finset.card_lt_card
  rw [Finset.ssubset_iff_of_subset]
  · refine ⟨a, Finset.mem_filter.mpr ⟨member, goes⟩, fun still => ?_⟩
    have onward := (Finset.mem_filter.mp still).2
    rw [Function.update_self] at onward
    exact unlinked onward
  · intro y still
    obtain ⟨inside, onward⟩ := Finset.mem_filter.mp still
    by_cases same : y = a
    · rw [same, Function.update_self] at onward
      exact absurd onward unlinked
    · rw [Function.update_of_ne same] at onward
      exact Finset.mem_filter.mpr ⟨inside, onward⟩

end Linked

end XosKernel.Theory
