/-
# Theory.StateRun -- running stateful commands that can stop

A command over a state `σ` either returns a value and a new state or stops with an
error of type `ε` (undefined behaviour, an endless loop).  `Runs m s Q` is total
correctness: from `s` the command returns, and what it returns meets `Q`.  The rules
follow the shape of a `do` block, so that a caller cites the `Runs` fact of each command
it makes and never unfolds it; `bind_returns` goes the other way, from a returned result
to the results of the parts.  `Keeps part m` is the frame: whatever the state, the command
does not change the part, `Rises measure m` that it makes the measure no smaller,
`Matches R m m'` that two commands return the same, and `Respects R m` that what the command
returns does not tell related states apart.  `Safe P E m` is an invariant with the
errors it leaves possible.
-/
import Mathlib.Order.Basic

namespace XosKernel.Theory

set_option autoImplicit false

variable {σ ε α β : Type}

/-- From `s` the command returns, with a value and a state that meet `Q`. -/
def Runs (m : StateT σ (Except ε) α) (s : σ) (Q : α → σ → Prop) : Prop :=
  ∃ a s', m.run s = .ok (a, s') ∧ Q a s'

/-- The step of a symbolic run: a command whose result is known is replaced by it. -/
theorem run_bind_of_ok {m : StateT σ (Except ε) α} {f : α → StateT σ (Except ε) β}
    {s s' : σ} {a : α} (first : m.run s = .ok (a, s')) : (m >>= f).run s = (f a).run s' := by
  rw [StateT.run_bind, first]
  rfl

theorem run_bind_of_error {m : StateT σ (Except ε) α} {f : α → StateT σ (Except ε) β}
    {s : σ} {e : ε} (first : m.run s = .error e) : (m >>= f).run s = .error e := by
  rw [StateT.run_bind, first]
  rfl

/-- A sequence that returns has a first part that returned. -/
theorem bind_returns {m : StateT σ (Except ε) α} {f : α → StateT σ (Except ε) β}
    {s : σ} {r : β × σ} (returned : (m >>= f).run s = .ok r) :
    ∃ a s', m.run s = .ok (a, s') ∧ (f a).run s' = .ok r := by
  cases first : m.run s with
  | error e => rw [run_bind_of_error first] at returned; cases returned
  | ok p =>
      obtain ⟨a, s'⟩ := p
      rw [run_bind_of_ok first] at returned
      exact ⟨a, s', rfl, returned⟩

namespace Runs

theorem pure {s : σ} {a : α} {Q : α → σ → Prop} (holds : Q a s) :
    Runs (Pure.pure a : StateT σ (Except ε) α) s Q :=
  ⟨a, s, rfl, holds⟩

theorem bind {m : StateT σ (Except ε) α} {f : α → StateT σ (Except ε) β} {s : σ}
    {P : α → σ → Prop} {Q : β → σ → Prop} (first : Runs m s P)
    (rest : ∀ a s', P a s' → Runs (f a) s' Q) : Runs (m >>= f) s Q := by
  obtain ⟨a, s', ran, holds⟩ := first
  obtain ⟨b, s'', ran', holds'⟩ := rest a s' holds
  exact ⟨b, s'', by rw [run_bind_of_ok ran, ran'], holds'⟩

theorem mono {m : StateT σ (Except ε) α} {s : σ} {P Q : α → σ → Prop} (runs : Runs m s P)
    (weaken : ∀ a s', P a s' → Q a s') : Runs m s Q := by
  obtain ⟨a, s', ran, holds⟩ := runs
  exact ⟨a, s', ran, weaken a s' holds⟩

/-- `bind` for a first command whose result is known exactly. -/
theorem step {m : StateT σ (Except ε) α} {f : α → StateT σ (Except ε) β} {s s' : σ} {a : α}
    {Q : β → σ → Prop} (first : m.run s = .ok (a, s')) (rest : Runs (f a) s' Q) :
    Runs (m >>= f) s Q := by
  obtain ⟨b, t, ran, holds⟩ := rest
  exact ⟨b, t, by rw [run_bind_of_ok first, ran], holds⟩

theorem get_bind {f : σ → StateT σ (Except ε) β} {s : σ} {Q : β → σ → Prop}
    (rest : Runs (f s) s Q) : Runs (get >>= f) s Q :=
  step rfl rest

theorem modify_bind {g : σ → σ} {f : PUnit → StateT σ (Except ε) β} {s : σ} {Q : β → σ → Prop}
    (rest : Runs (f ⟨⟩) (g s) Q) : Runs (modify g >>= f) s Q :=
  step rfl rest

/-- What a returned run says, when the command is known to meet `Q`. -/
theorem of_returned {m : StateT σ (Except ε) α} {s s' : σ} {a : α} {Q : α → σ → Prop}
    (runs : Runs m s Q) (returned : m.run s = .ok (a, s')) : Q a s' := by
  obtain ⟨b, t, ran, holds⟩ := runs
  rw [ran] at returned
  cases returned
  exact holds

/-- Run a command and test what it returns and leaves. -/
def check (m : StateT σ (Except ε) α) (s : σ) (test : α → σ → Bool) : Bool :=
  match m.run s with
  | .ok (a, s') => test a s'
  | .error _ => false

theorem of_check {m : StateT σ (Except ε) α} {s : σ} {test : α → σ → Bool}
    (passed : check m s test = true) : Runs m s fun a s' => test a s' = true := by
  unfold check at passed
  cases ran : m.run s with
  | error e => rw [ran] at passed; cases passed
  | ok r => rw [ran] at passed; exact ⟨r.1, r.2, ran, passed⟩

end Runs

/-- The state a command leaves; the state before it, if it stops. -/
def leaves (m : StateT σ (Except ε) α) (s : σ) : σ :=
  match m.run s with
  | .ok (_, s') => s'
  | .error _ => s

/-- A checked run ends in the state the command leaves. -/
theorem leaves_of_check {m : StateT σ (Except ε) α} {s : σ} {test : α → σ → Bool}
    (passed : Runs.check m s test = true) :
    ∃ a, m.run s = .ok (a, leaves m s) ∧ test a (leaves m s) = true := by
  obtain ⟨a, s', ran, holds⟩ := Runs.of_check passed
  have last : leaves m s = s' := by
    unfold leaves
    rw [ran]
  exact ⟨a, by rw [last]; exact ran, by rw [last]; exact holds⟩

/-! ## Frames -/

/-- The command leaves a part of the state as it is, whenever it returns. -/
def Keeps {γ : Type} (part : σ → γ) (m : StateT σ (Except ε) α) : Prop :=
  ∀ s a s', m.run s = .ok (a, s') → part s' = part s

namespace Keeps

variable {γ : Type} {part : σ → γ}

theorem pure (a : α) : Keeps part (Pure.pure a : StateT σ (Except ε) α) := by
  intro s b s' returned
  cases returned
  rfl

theorem throw (e : ε) : Keeps part (MonadExcept.throw e : StateT σ (Except ε) α) := by
  intro s b s' returned
  cases returned

theorem bind {m : StateT σ (Except ε) α} {f : α → StateT σ (Except ε) β} (first : Keeps part m)
    (rest : ∀ a, Keeps part (f a)) : Keeps part (m >>= f) := by
  intro s b s' returned
  obtain ⟨a, t, ran, ran'⟩ := bind_returns returned
  rw [rest a t b s' ran', first s a t ran]

theorem get_bind {f : σ → StateT σ (Except ε) β} (rest : ∀ s, Keeps part (f s)) :
    Keeps part (get >>= f) :=
  bind (fun s a s' returned => by cases returned; rfl) rest

theorem modify {g : σ → σ} (same : ∀ s, part (g s) = part s) :
    Keeps part (modify g : StateT σ (Except ε) PUnit) := by
  intro s a s' returned
  cases returned
  exact same s

theorem ite {c : Prop} [Decidable c] {m m' : StateT σ (Except ε) α} (yes : Keeps part m)
    (no : Keeps part m') : Keeps part (if c then m else m') := by
  split
  · exact yes
  · exact no

end Keeps

/-! ## Measures that do not fall -/

section Rises

variable {γ : Type} [Preorder γ]

/-- The measure is at least as large after the command, whenever it returns. -/
def Rises (measure : σ → γ) (m : StateT σ (Except ε) α) : Prop :=
  ∀ s a s', m.run s = .ok (a, s') → measure s ≤ measure s'

theorem Keeps.rises {measure : σ → γ} {m : StateT σ (Except ε) α} (keeps : Keeps measure m) :
    Rises measure m := fun s a s' returned => le_of_eq (keeps s a s' returned).symm

namespace Rises

variable {measure : σ → γ}

theorem pure (a : α) : Rises measure (Pure.pure a : StateT σ (Except ε) α) :=
  (Keeps.pure a).rises

theorem throw (e : ε) : Rises measure (MonadExcept.throw e : StateT σ (Except ε) α) :=
  (Keeps.throw e).rises

theorem bind {m : StateT σ (Except ε) α} {f : α → StateT σ (Except ε) β} (first : Rises measure m)
    (rest : ∀ a, Rises measure (f a)) : Rises measure (m >>= f) := by
  intro s b s' returned
  obtain ⟨a, t, ran, ran'⟩ := bind_returns returned
  exact le_trans (first s a t ran) (rest a t b s' ran')

theorem get_bind {f : σ → StateT σ (Except ε) β} (rest : ∀ s, Rises measure (f s)) :
    Rises measure (get >>= f) :=
  bind (fun s a s' returned => by cases returned; exact le_refl _) rest

theorem ite {c : Prop} [Decidable c] {m m' : StateT σ (Except ε) α} (yes : Rises measure m)
    (no : Rises measure m') : Rises measure (if c then m else m') := by
  split
  · exact yes
  · exact no

end Rises

end Rises

/-! ## Two commands side by side -/

section Matches

variable {τ : Type}

/-- Both commands return, with the same value, and leave related states. -/
def Matches (R : σ → τ → Prop) (m : StateT σ (Except ε) α) (m' : StateT τ (Except ε) α)
    (s : σ) (t : τ) : Prop :=
  ∃ a s' t', m.run s = .ok (a, s') ∧ m'.run t = .ok (a, t') ∧ R s' t'

variable {R : σ → τ → Prop} {s : σ} {t : τ}

theorem Matches.pure (a : α) (related : R s t) :
    Matches R (Pure.pure a : StateT σ (Except ε) α) (Pure.pure a) s t :=
  ⟨a, s, t, rfl, rfl, related⟩

theorem Matches.bind {m : StateT σ (Except ε) α} {m' : StateT τ (Except ε) α}
    {f : α → StateT σ (Except ε) β} {f' : α → StateT τ (Except ε) β} (first : Matches R m m' s t)
    (rest : ∀ a s' t', R s' t' → Matches R (f a) (f' a) s' t') :
    Matches R (m >>= f) (m' >>= f') s t := by
  obtain ⟨a, s', t', ran, ran', related⟩ := first
  obtain ⟨b, s'', t'', last, last', related'⟩ := rest a s' t' related
  exact ⟨b, s'', t'', by rw [run_bind_of_ok ran, last], by rw [run_bind_of_ok ran', last'],
    related'⟩

theorem Matches.get_bind {f : σ → StateT σ (Except ε) β} {f' : τ → StateT τ (Except ε) β}
    (rest : Matches R (f s) (f' t) s t) : Matches R (get >>= f) (get >>= f') s t := by
  obtain ⟨b, s', t', ran, ran', related⟩ := rest
  exact ⟨b, s', t', ran, ran', related⟩

/-- What is known of the second command holds of the first. -/
theorem Matches.runs {m : StateT σ (Except ε) α} {m' : StateT τ (Except ε) α} {a : α} {t' : τ}
    (same : Matches R m m' s t) (ran : m'.run t = .ok (a, t')) :
    Runs m s fun b s' => b = a ∧ R s' t' := by
  obtain ⟨b, s', t'', ran₁, ran₂, related⟩ := same
  rw [ran] at ran₂
  cases ran₂
  exact ⟨a, s', ran₁, rfl, related⟩

end Matches

/-! ## One command from two states -/

/-- What the command returns from a state it returns from every related state, and the states it
leaves are related again. -/
def Respects (R : σ → σ → Prop) (m : StateT σ (Except ε) α) : Prop :=
  ∀ s t, R s t → ∀ a s', m.run s = .ok (a, s') → ∃ t', m.run t = .ok (a, t') ∧ R s' t'

namespace Respects

variable {R : σ → σ → Prop}

theorem pure (a : α) : Respects R (Pure.pure a : StateT σ (Except ε) α) := by
  intro s t related b s' returned
  cases returned
  exact ⟨t, rfl, related⟩

theorem throw (e : ε) : Respects R (MonadExcept.throw e : StateT σ (Except ε) α) := by
  intro s t related b s' returned
  cases returned

theorem bind {m : StateT σ (Except ε) α} {f : α → StateT σ (Except ε) β} (first : Respects R m)
    (rest : ∀ a, Respects R (f a)) : Respects R (m >>= f) := by
  intro s t related b s'' returned
  obtain ⟨a, s', ran, last⟩ := bind_returns returned
  obtain ⟨t', ran', related'⟩ := first s t related a s' ran
  obtain ⟨t'', last', related''⟩ := rest a s' t' related' b s'' last
  exact ⟨t'', by rw [run_bind_of_ok ran', last'], related''⟩

/-- What a command does with the state it reads is the same for related states. -/
theorem get_bind {f : σ → StateT σ (Except ε) β} (same : ∀ s t, R s t → f t = f s)
    (rest : ∀ s, Respects R (f s)) : Respects R (get >>= f) := by
  intro s t related b s' returned
  obtain ⟨t', ran, related'⟩ := rest s s t related b s' returned
  rw [← same s t related] at ran
  exact ⟨t', ran, related'⟩

theorem modify {g : σ → σ} (kept : ∀ s t, R s t → R (g s) (g t)) :
    Respects R (modify g : StateT σ (Except ε) PUnit) := by
  intro s t related a s' returned
  cases returned
  exact ⟨g t, rfl, kept s t related⟩

theorem ite {c : Prop} [Decidable c] {m m' : StateT σ (Except ε) α} (yes : Respects R m)
    (no : Respects R m') : Respects R (if c then m else m') := by
  split
  · exact yes
  · exact no

end Respects

/-! ## Invariants and errors -/

/-- From a state that meets `P`, the command returns in one that meets `P`, or stops with an
error that `E` allows. -/
def Safe (P : σ → Prop) (E : ε → Prop) (m : StateT σ (Except ε) α) : Prop :=
  ∀ s, P s → (∀ a s', m.run s = .ok (a, s') → P s') ∧ ∀ e, m.run s = .error e → E e

/-- A command that keeps the part on which `P` depends keeps `P`. -/
theorem Keeps.safe {γ : Type} {part : σ → γ} {P : σ → Prop} {m : StateT σ (Except ε) α}
    (keeps : Keeps part m) (depends : ∀ s s', part s' = part s → P s → P s') :
    Safe P (fun _ => True) m :=
  fun s holds =>
    ⟨fun a s' returned => depends s s' (keeps s a s' returned) holds, fun _ _ => trivial⟩

namespace Safe

variable {P : σ → Prop} {E : ε → Prop}

theorem pure (a : α) : Safe P E (Pure.pure a : StateT σ (Except ε) α) := by
  intro s holds
  refine ⟨fun b s' returned => ?_, fun e stopped => ?_⟩
  · cases returned
    exact holds
  · cases stopped

theorem throw {e : ε} (allowed : E e) : Safe P E (MonadExcept.throw e : StateT σ (Except ε) α) := by
  intro s holds
  refine ⟨fun b s' returned => ?_, fun e' stopped => ?_⟩
  · cases returned
  · cases stopped
    exact allowed

theorem bind {m : StateT σ (Except ε) α} {f : α → StateT σ (Except ε) β} (first : Safe P E m)
    (rest : ∀ a, Safe P E (f a)) : Safe P E (m >>= f) := by
  intro s holds
  cases ran : m.run s with
  | error e =>
      rw [run_bind_of_error ran]
      refine ⟨fun b s' returned => ?_, fun e' stopped => ?_⟩
      · cases returned
      · cases stopped
        exact (first s holds).2 e ran
  | ok r =>
      rw [run_bind_of_ok ran]
      exact rest r.1 r.2 ((first s holds).1 r.1 r.2 ran)

/-- The state that is read meets `P`. -/
theorem get_bind {f : σ → StateT σ (Except ε) β} (rest : ∀ s, P s → Safe P E (f s)) :
    Safe P E (get >>= f) := fun s holds => rest s holds s holds

theorem modify {g : σ → σ} (kept : ∀ s, P s → P (g s)) :
    Safe P E (modify g : StateT σ (Except ε) PUnit) := by
  intro s holds
  refine ⟨fun a s' returned => ?_, fun e stopped => ?_⟩
  · cases returned
    exact kept s holds
  · cases stopped

theorem ite {c : Prop} [Decidable c] {m m' : StateT σ (Except ε) α} (yes : c → Safe P E m)
    (no : ¬ c → Safe P E m') : Safe P E (if c then m else m') := by
  split
  · next holds => exact yes holds
  · next fails => exact no fails

end Safe

end XosKernel.Theory
