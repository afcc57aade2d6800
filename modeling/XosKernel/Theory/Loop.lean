/-
# Theory.Loop -- loops that come to their end

A `while` loop of a program over a state `σ` is a body that, from the values `a` the loop
carries, either goes on with new ones (`.inl`) or leaves the loop with a result (`.inr`).
`Ends body a s r s'` says that the loop entered with `a` in `s` leaves with `r` in `s'`: it is
built from the passes that the loop makes, so a loop that goes on forever has no result.

A model that allows a fixed number of passes returns what the loop returns if a variant shows
that the passes are enough (`Ends.of_bounded`).
-/
import XosKernel.Theory.StateRun

namespace XosKernel.Theory

set_option autoImplicit false

variable {σ ε α β : Type}

/-- The loop leaves with a result after some number of passes. -/
inductive Ends (body : α → StateT σ (Except ε) (α ⊕ β)) : α → σ → β → σ → Prop
  | exit {a : α} {s s' : σ} {r : β} (last : (body a).run s = .ok (.inr r, s')) :
      Ends body a s r s'
  | again {a a' : α} {s s' s'' : σ} {r : β} (pass : (body a).run s = .ok (.inl a', s'))
      (rest : Ends body a' s' r s'') : Ends body a s r s''

/-- The loop with a bounded number of passes has the result of the loop, if every pass that
goes on makes the variant smaller and the loop is left at variant 0. -/
theorem Ends.of_bounded {body : α → StateT σ (Except ε) (α ⊕ β)}
    (bounded : Nat → α → StateT σ (Except ε) β) (variant : α → Nat)
    (step : ∀ n a, bounded (n + 1) a = body a >>= Sum.elim (bounded n) pure)
    (smaller : ∀ a s a' s', (body a).run s = .ok (.inl a', s') → variant a' < variant a)
    (left : ∀ a s r s', variant a = 0 → (bounded 0 a).run s = .ok (r, s') →
      (body a).run s = .ok (.inr r, s'))
    {n : Nat} {a : α} {s s' : σ} {r : β} (enough : variant a ≤ n)
    (ran : (bounded n a).run s = .ok (r, s')) : Ends body a s r s' := by
  induction n generalizing a s with
  | zero => exact .exit (left a s r s' (Nat.le_zero.mp enough) ran)
  | succ n ih =>
      rw [step] at ran
      obtain ⟨next, t, pass, rest⟩ := bind_returns ran
      cases next with
      | inr result =>
          cases rest
          exact .exit pass
      | inl a' =>
          have less := smaller a s a' t pass
          exact .again pass (ih (by omega) rest)

end XosKernel.Theory
