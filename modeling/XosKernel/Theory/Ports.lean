/-
# Theory.Ports -- a program at the I/O ports

A driver and its device meet at the I/O ports.  The device is a function from what happened
so far to the next answer, and it may be any such function: delays, errors, a missing drive
need no model of their own.  A command of the driver is run with the accesses before it as
its state, and `Talks dev m h Q` says that it returns, and that its value and the accesses it
adds meet `Q`.  The rules follow the shape of a `do` block.

A `Watch` reads a list of accesses along: it has a state, and in every state it lets some
accesses pass.  What it says of two pieces it says of the whole (`obeys_append`), so the
watch of a protocol is checked one command of the driver at a time.
-/
import XosKernel.Theory.StateRun
import Mathlib.Data.List.Basic
import Mathlib.Algebra.Ring.Nat

namespace XosKernel.Theory

set_option autoImplicit false

/-- A read of a port, with what it delivered, or a write. -/
inductive Access where
  | input (bits port value : Nat)
  | output (bits port value : Nat)
  deriving DecidableEq

/-- What a read of so many bits at a port delivers after some accesses. -/
abbrev Device := List Access → Nat → Nat → Nat

/-- A command at the ports; it cannot stop. -/
abbrev PortM := StateT (List Access) (Except Empty)

variable {α β : Type} (dev : Device)

/-- `in` -/
def input (bits port : Nat) : PortM Nat := fun h =>
  .ok (dev h bits port % 2 ^ bits, h ++ [.input bits port (dev h bits port % 2 ^ bits)])

/-- `out` -/
def output (bits port value : Nat) : PortM Unit := fun h =>
  .ok ((), h ++ [.output bits port (value % 2 ^ bits)])

/-- Every read in the list delivered what the device answers there. -/
def Heard : List Access → List Access → Prop
  | _, [] => True
  | h, .input bits port value :: t =>
      value = dev h bits port % 2 ^ bits ∧ Heard (h ++ [.input bits port value]) t
  | h, .output bits port value :: t => Heard (h ++ [.output bits port value]) t

theorem heard_append : ∀ (t u h : List Access),
    Heard dev h (t ++ u) ↔ Heard dev h t ∧ Heard dev (h ++ t) u
  | [], u, h => by simp [Heard]
  | .input bits port value :: t, u, h => by
      rw [List.cons_append, Heard, Heard, heard_append t u, and_assoc, List.append_assoc,
        List.singleton_append]
  | .output bits port value :: t, u, h => by
      rw [List.cons_append, Heard, Heard, heard_append t u, List.append_assoc,
        List.singleton_append]

/-- The command returns after some accesses. -/
def Talks (m : PortM α) (h : List Access) (Q : α → List Access → Prop) : Prop :=
  Runs m h fun a h' => ∃ t, h' = h ++ t ∧ Heard dev h t ∧ Q a t

namespace Talks

variable {dev} {m : PortM α} {f : α → PortM β} {h : List Access}

theorem pure {a : α} {Q : α → List Access → Prop} (holds : Q a []) :
    Talks dev (Pure.pure a) h Q :=
  Runs.pure ⟨[], by simp, trivial, holds⟩

theorem bind {P : α → List Access → Prop} {Q : β → List Access → Prop} (first : Talks dev m h P)
    (rest : ∀ a t, P a t → Talks dev (f a) (h ++ t) fun b u => Q b (t ++ u)) :
    Talks dev (m >>= f) h Q := by
  refine Runs.bind first ?_
  rintro a _ ⟨t, rfl, heard, holds⟩
  refine Runs.mono (rest a t holds) ?_
  rintro b _ ⟨u, rfl, heard', holds'⟩
  exact ⟨t ++ u, List.append_assoc .., (heard_append dev t u h).mpr ⟨heard, heard'⟩, holds'⟩

theorem mono {P Q : α → List Access → Prop} (talks : Talks dev m h P)
    (weaken : ∀ a t, P a t → Q a t) : Talks dev m h Q := by
  refine Runs.mono talks ?_
  rintro a _ ⟨t, rfl, heard, holds⟩
  exact ⟨t, rfl, heard, weaken a t holds⟩

theorem input_bind {bits port : Nat} {f : Nat → PortM β} {Q : β → List Access → Prop}
    (rest : ∀ value, Talks dev (f value) (h ++ [.input bits port value]) fun b u =>
      Q b (.input bits port value :: u)) : Talks dev (input dev bits port >>= f) h Q := by
  have first : Talks dev (input dev bits port) h fun v t => t = [.input bits port v] :=
    ⟨_, _, rfl, [_], rfl, ⟨rfl, trivial⟩, rfl⟩
  refine bind first ?_
  rintro v _ rfl
  exact rest v

theorem output_bind {bits port value : Nat} {f : Unit → PortM β} {Q : β → List Access → Prop}
    (rest : Talks dev (f ()) (h ++ [.output bits port (value % 2 ^ bits)]) fun b u =>
      Q b (.output bits port (value % 2 ^ bits) :: u)) :
    Talks dev (output bits port value >>= f) h Q := by
  have first : Talks dev (output bits port value) h fun _ t =>
      t = [.output bits port (value % 2 ^ bits)] := ⟨_, _, rfl, [_], rfl, trivial, rfl⟩
  refine bind first ?_
  rintro ⟨⟩ _ rfl
  exact rest

end Talks

/-! ## Watches -/

/-- A state that follows a list of events, and the events that it lets pass. -/
structure Watch (α σ : Type) where
  step : σ → α → σ
  allows : σ → α → Prop

namespace Watch

variable {σ : Type} (w : Watch α σ)

/-- The state after a list of events. -/
def after (s : σ) (t : List α) : σ := t.foldl w.step s

/-- Every event passes in the state that those before it lead to. -/
def Obeys : σ → List α → Prop
  | _, [] => True
  | s, a :: t => w.allows s a ∧ Obeys (w.step s a) t

@[simp] theorem after_nil (s : σ) : w.after s [] = s := rfl

@[simp] theorem after_cons (s : σ) (a : α) (t : List α) :
    w.after s (a :: t) = w.after (w.step s a) t := rfl

@[simp] theorem after_append (s : σ) (t u : List α) :
    w.after s (t ++ u) = w.after (w.after s t) u := List.foldl_append

@[simp] theorem obeys_nil (s : σ) : w.Obeys s [] := trivial

@[simp] theorem obeys_cons {s : σ} {a : α} {t : List α} :
    w.Obeys s (a :: t) ↔ w.allows s a ∧ w.Obeys (w.step s a) t := Iff.rfl

@[simp] theorem obeys_append {t u : List α} {s : σ} :
    w.Obeys s (t ++ u) ↔ w.Obeys s t ∧ w.Obeys (w.after s t) u := by
  induction t generalizing s with
  | nil => simp
  | cons a t ih => rw [List.cons_append, obeys_cons, obeys_cons, after_cons, ih, and_assoc]

end Watch

end XosKernel.Theory
