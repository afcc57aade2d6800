/-
# Theory.Store -- what a history of changes leaves under each key

A store holds at most one content under each key.  A change puts a content there or drops
it, and the last change to a key decides what a history leaves (`after_last`).

A concrete system does not have a store, it has a relation: this key holds this content.
`picture` is the store that such a relation draws.  A step of the system that changes what
one key holds and nothing else changes the picture by that change (`picture_changed`).
-/
import Mathlib.Logic.Function.Basic
import Mathlib.Data.List.Basic

namespace XosKernel.Theory

set_option autoImplicit false

variable {κ γ : Type}

/-- At most one content under each key. -/
abbrev Store (κ γ : Type) := κ → Option γ

/-- A content is put under a key, or a key is dropped. -/
inductive Change (κ γ : Type) where
  | put (key : κ) (content : γ)
  | drop (key : κ)

namespace Change

/-- The key that is changed. -/
def key : Change κ γ → κ
  | .put key _ => key
  | .drop key => key

/-- What the key holds afterwards. -/
def content : Change κ γ → Option γ
  | .put _ content => some content
  | .drop _ => none

variable [DecidableEq κ]

def apply (change : Change κ γ) (s : Store κ γ) : Store κ γ :=
  Function.update s change.key change.content

@[simp] theorem apply_key (change : Change κ γ) (s : Store κ γ) :
    change.apply s change.key = change.content :=
  Function.update_self ..

theorem apply_of_ne {change : Change κ γ} {key : κ} (ne : key ≠ change.key) (s : Store κ γ) :
    change.apply s key = s key :=
  Function.update_of_ne ne ..

end Change

namespace Store

section History

variable [DecidableEq κ]

/-- The store after a history of changes, the first one first. -/
def after (s : Store κ γ) : List (Change κ γ) → Store κ γ
  | [] => s
  | change :: rest => after (change.apply s) rest

@[simp] theorem after_nil (s : Store κ γ) : s.after [] = s := rfl

@[simp] theorem after_cons (s : Store κ γ) (change : Change κ γ) (rest : List (Change κ γ)) :
    s.after (change :: rest) = after (change.apply s) rest := rfl

theorem after_append (s : Store κ γ) (first second : List (Change κ γ)) :
    s.after (first ++ second) = (s.after first).after second := by
  induction first generalizing s with
  | nil => rfl
  | cons change rest ih => exact ih (change.apply s)

/-- A key that no change is about keeps its content. -/
theorem after_untouched {key : κ} : ∀ (changes : List (Change κ γ)) (s : Store κ γ),
    (∀ change ∈ changes, change.key ≠ key) → s.after changes key = s key
  | [], _, _ => rfl
  | change :: rest, s, others => by
      rw [after_cons, after_untouched rest _ fun c member => others c (List.mem_cons_of_mem _ member)]
      exact Change.apply_of_ne (others change List.mem_cons_self).symm s

/-- The last change to a key decides its content. -/
theorem after_last {key : κ} (s : Store κ γ) (before : List (Change κ γ)) (last : Change κ γ)
    (rest : List (Change κ γ)) (here : last.key = key)
    (others : ∀ change ∈ rest, change.key ≠ key) :
    s.after (before ++ last :: rest) key = last.content := by
  subst here
  rw [after_append, after_cons, after_untouched rest _ others, Change.apply_key]

end History

/-! ## The picture of a relation -/

/-- No key holds two contents. -/
def Single (holds : κ → γ → Prop) : Prop := ∀ key x y, holds key x → holds key y → x = y

open Classical in
/-- The store that holds under each key what the relation says it holds. -/
noncomputable def picture (holds : κ → γ → Prop) : Store κ γ :=
  fun key => if there : ∃ x, holds key x then some there.choose else none

variable {holds holds' : κ → γ → Prop}

theorem picture_eq_some (single : Single holds) {key : κ} {x : γ} :
    picture holds key = some x ↔ holds key x := by
  unfold picture
  by_cases there : ∃ x, holds key x
  · rw [dif_pos there, Option.some.injEq]
    constructor
    · rintro rfl
      exact there.choose_spec
    · exact fun h => single key _ _ there.choose_spec h
  · rw [dif_neg there]
    exact ⟨fun h => (by cases h), fun h => absurd ⟨x, h⟩ there⟩

theorem picture_eq_none {key : κ} : picture holds key = none ↔ ∀ x, ¬ holds key x := by
  unfold picture
  by_cases there : ∃ x, holds key x
  · rw [dif_pos there]
    exact ⟨fun h => (by cases h), fun nothing => absurd there.choose_spec (nothing _)⟩
  · rw [dif_neg there]
    exact ⟨fun _ x h => there ⟨x, h⟩, fun _ => rfl⟩

/-- Relations that say the same draw the same store. -/
theorem picture_congr (same : ∀ key x, holds' key x ↔ holds key x) :
    picture holds' = picture holds := by
  have equal : holds' = holds := funext fun key => funext fun x => propext (same key x)
  rw [equal]

/-- A step that changes what one key holds changes the picture by that change. -/
theorem picture_changed [DecidableEq κ] (change : Change κ γ) (single : Single holds)
    (here : ∀ x, holds' change.key x ↔ change.content = some x)
    (elsewhere : ∀ key x, key ≠ change.key → (holds' key x ↔ holds key x)) :
    Single holds' ∧ picture holds' = change.apply (picture holds) := by
  have single' : Single holds' := by
    intro key x y h h'
    by_cases at_key : key = change.key
    · subst at_key
      exact Option.some.inj (((here x).mp h).symm.trans ((here y).mp h'))
    · exact single key x y ((elsewhere key x at_key).mp h) ((elsewhere key y at_key).mp h')
  refine ⟨single', funext fun key => Option.ext fun x => ?_⟩
  rw [picture_eq_some single']
  by_cases at_key : key = change.key
  · subst at_key
    rw [Change.apply_key, here]
  · rw [Change.apply_of_ne at_key, picture_eq_some single, elsewhere key x at_key]

end Store

end XosKernel.Theory
