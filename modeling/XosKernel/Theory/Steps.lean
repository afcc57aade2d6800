/-
# Theory.Steps -- every state of a run

A system takes one step for each element of a list.  `Always` says that a property holds in
every state of the run, `EachStep` that every step is taken under a condition on the state
before it.  `always_of_eachStep` is the invariant rule; where a step that breaks the condition
also breaks the property, the two say the same (`always_iff_eachStep`).
-/

namespace XosKernel.Theory

set_option autoImplicit false

section Steps

variable {σ α : Type} (step : σ → α → σ)

/-- `P` holds in every state of the run. -/
def Always (P : σ → Prop) : σ → List α → Prop
  | s, [] => P s
  | s, a :: rest => P s ∧ Always P (step s a) rest

/-- Every step of the run is taken in a state that meets `C`. -/
def EachStep (C : σ → α → Prop) : σ → List α → Prop
  | _, [] => True
  | s, a :: rest => C s a ∧ EachStep C (step s a) rest

variable {step} {P Inv : σ → Prop} {C : σ → α → Prop}

theorem Always.head {s : σ} {actions : List α} (always : Always step P s actions) : P s := by
  cases actions with
  | nil => exact always
  | cons a rest => exact always.1

theorem Always.last {s : σ} {actions : List α} (always : Always step P s actions) :
    P (actions.foldl step s) := by
  induction actions generalizing s with
  | nil => exact always
  | cons a rest ih => exact ih always.2

theorem always_of_eachStep (holds : ∀ s, Inv s → P s)
    (kept : ∀ s a, Inv s → C s a → Inv (step s a)) {s : σ} {actions : List α} (start : Inv s)
    (each : EachStep step C s actions) : Always step P s actions := by
  induction actions generalizing s with
  | nil => exact holds s start
  | cons a rest ih => exact ⟨holds s start, ih (kept s a start each.1) each.2⟩

theorem always_iff_eachStep (holds : ∀ s, Inv s → P s)
    (kept : ∀ s a, Inv s → C s a → Inv (step s a))
    (broken : ∀ s a, Inv s → ¬ C s a → ¬ P (step s a)) {s : σ} {actions : List α}
    (start : Inv s) : Always step P s actions ↔ EachStep step C s actions := by
  refine ⟨fun always => ?_, always_of_eachStep holds kept start⟩
  induction actions generalizing s with
  | nil => trivial
  | cons a rest ih =>
      have condition : C s a := by
        apply Classical.byContradiction
        intro breaks
        exact broken s a start breaks always.2.head
      exact ⟨condition, ih (kept s a start condition) always.2⟩

/-- A property that every step keeps. -/
theorem always_of_kept (kept : ∀ s a, P s → P (step s a)) {s : σ} (start : P s)
    (actions : List α) : Always step P s actions := by
  induction actions generalizing s with
  | nil => exact start
  | cons a rest ih => exact ⟨start, ih (kept s a start)⟩

theorem Always.mono {Q : σ → Prop} (implies : ∀ s, P s → Q s) {s : σ} {actions : List α}
    (always : Always step P s actions) : Always step Q s actions := by
  induction actions generalizing s with
  | nil => exact implies s always
  | cons a rest ih => exact ⟨implies s always.1, ih always.2⟩

/-- Conditions that say the same in every state of the run. -/
theorem eachStep_congr {C' : σ → α → Prop} (kept : ∀ s a, Inv s → Inv (step s a))
    (same : ∀ s a, Inv s → (C s a ↔ C' s a)) {s : σ} (start : Inv s) (actions : List α) :
    EachStep step C s actions ↔ EachStep step C' s actions := by
  induction actions generalizing s with
  | nil => exact Iff.rfl
  | cons a rest ih => exact and_congr (same s a start) (ih (kept s a start))

/-- The first steps of such a run. -/
theorem EachStep.take {s : σ} {actions : List α} (each : EachStep step C s actions) (n : Nat) :
    EachStep step C s (actions.take n) := by
  induction actions generalizing s n with
  | nil => rw [List.take_nil]; trivial
  | cons a rest ih =>
      cases n with
      | zero => trivial
      | succ n => exact ⟨each.1, ih each.2 n⟩

instance EachStep.decidable [∀ s a, Decidable (C s a)] :
    ∀ (s : σ) (actions : List α), Decidable (EachStep step C s actions)
  | _, [] => .isTrue trivial
  | s, a :: rest =>
      have := EachStep.decidable (step s a) rest
      inferInstanceAs (Decidable (C s a ∧ EachStep step C (step s a) rest))

end Steps

end XosKernel.Theory
