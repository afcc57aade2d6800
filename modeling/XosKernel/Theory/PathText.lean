/-
# Theory.PathText -- the components of a separated text

A text is a list of symbols, one of which separates its components; empty components do not
count.  `components` collects them from left to right, the way a loop with a component buffer
does (`componentsFrom`), and splits at every separator (`componentsFrom_append_sep`).
-/
import Mathlib.Algebra.GroupWithZero.Nat
import Mathlib.Data.List.Basic

namespace XosKernel.Theory

set_option autoImplicit false

variable {α : Type} [DecidableEq α] {sep : α}

/-- The components of a text, with the start of the first one in a buffer. -/
def componentsFrom (sep : α) : List α → List α → List (List α)
  | buffer, [] => if buffer = [] then [] else [buffer]
  | buffer, c :: text =>
      if c = sep then
        if buffer = [] then componentsFrom sep [] text
        else buffer :: componentsFrom sep [] text
      else componentsFrom sep (buffer ++ [c]) text

/-- The non-empty components of a text. -/
def components (sep : α) (text : List α) : List (List α) := componentsFrom sep [] text

@[simp] theorem components_nil : components sep [] = [] := rfl

@[simp] theorem components_sep_cons (text : List α) :
    components sep (sep :: text) = components sep text := by
  unfold components
  rw [componentsFrom, if_pos rfl, if_pos rfl]

/-- A separator ends a component. -/
theorem componentsFrom_append_sep (rest : List α) : ∀ (text buffer : List α),
    componentsFrom sep buffer (text ++ sep :: rest) =
      componentsFrom sep buffer text ++ components sep rest
  | [], buffer => by
      rw [List.nil_append]
      unfold componentsFrom
      rw [if_pos rfl]
      by_cases empty : buffer = []
      · rw [if_pos empty, if_pos empty, List.nil_append]
        rfl
      · rw [if_neg empty, if_neg empty, List.singleton_append]
        rfl
  | c :: text, buffer => by
      rw [List.cons_append]
      unfold componentsFrom
      have ih := componentsFrom_append_sep rest text
      by_cases here : c = sep
      · rw [if_pos here, if_pos here, ih]
        split
        · rfl
        · rw [List.cons_append]
      · rw [if_neg here, if_neg here, ih]

theorem components_append_sep (text rest : List α) :
    components sep (text ++ sep :: rest) = components sep text ++ components sep rest :=
  componentsFrom_append_sep rest text []

theorem componentsFrom_of_not_mem : ∀ (text buffer : List α), sep ∉ text →
    componentsFrom sep buffer text = if buffer ++ text = [] then [] else [buffer ++ text]
  | [], buffer, _ => by
      rw [List.append_nil]
      rfl
  | c :: text, buffer, free => by
      rw [List.mem_cons, not_or] at free
      rw [componentsFrom, if_neg (Ne.symm free.1), componentsFrom_of_not_mem text _ free.2,
        List.append_assoc, List.singleton_append]

/-- A text without a separator is one component. -/
theorem components_name {name : List α} (free : sep ∉ name) (nonempty : name ≠ []) :
    components sep name = [name] := by
  unfold components
  rw [componentsFrom_of_not_mem name [] free, List.nil_append, if_neg nonempty]

theorem components_append_name {text name : List α} (free : sep ∉ name) (nonempty : name ≠ []) :
    components sep (text ++ sep :: name) = components sep text ++ [name] := by
  rw [components_append_sep, components_name free nonempty]

theorem componentsFrom_length_le : ∀ (text buffer : List α),
    ((componentsFrom sep buffer text).map List.length).sum +
      (componentsFrom sep buffer text).length ≤ buffer.length + text.length + 1
  | [], buffer => by
      rw [componentsFrom]
      split
      · exact Nat.zero_le _
      · exact Nat.le_refl _
  | c :: text, buffer => by
      have fresh := componentsFrom_length_le text []
      have more := componentsFrom_length_le text (buffer ++ [c])
      rw [List.length_append, List.length_singleton] at more
      rw [List.length_nil] at fresh
      rw [componentsFrom, List.length_cons]
      split
      · split
        · omega
        · rw [List.map_cons, List.sum_cons, List.length_cons]
          omega
      · omega

/-- A text has room for its components and for one separator behind each but the last. -/
theorem components_length_le (text : List α) :
    ((components sep text).map List.length).sum + (components sep text).length ≤
      text.length + 1 := by
  have bound : ((components sep text).map List.length).sum + (components sep text).length ≤
      ([] : List α).length + text.length + 1 := componentsFrom_length_le text []
  rwa [List.length_nil, Nat.zero_add] at bound

/-! ## The last component -/

/-- The symbols of a component are symbols of the text. -/
theorem mem_of_mem_componentsFrom {c : α} {name : List α} (inside : c ∈ name) :
    ∀ (text buffer : List α), name ∈ componentsFrom sep buffer text → c ∈ buffer ∨ c ∈ text
  | [], buffer, member => by
      rw [componentsFrom] at member
      split at member
      · cases member
      · rw [List.mem_singleton] at member
        exact .inl (member ▸ inside)
  | d :: text, buffer, member => by
      rw [List.mem_cons]
      rw [componentsFrom] at member
      split at member
      · split at member
        · rcases mem_of_mem_componentsFrom inside text [] member with none_ | later
          · cases none_
          · exact .inr (.inr later)
        · rcases List.mem_cons.mp member with rfl | member
          · exact .inl inside
          · rcases mem_of_mem_componentsFrom inside text [] member with none_ | later
            · cases none_
            · exact .inr (.inr later)
      · rcases mem_of_mem_componentsFrom inside text (buffer ++ [d]) member with before | later
        · rw [List.mem_append, List.mem_singleton] at before
          rcases before with before | rfl
          · exact .inl before
          · exact .inr (.inl rfl)
        · exact .inr (.inr later)

theorem mem_of_mem_components {c : α} {name text : List α} (inside : c ∈ name)
    (member : name ∈ components sep text) : c ∈ text := by
  rcases mem_of_mem_componentsFrom inside text [] member with none_ | later
  · cases none_
  · exact later

/-- The components that a separator follows, and what comes behind the last separator. -/
def splitFrom (sep : α) : List α → List α → List (List α) × List α
  | buffer, [] => ([], buffer)
  | buffer, c :: text =>
      if c = sep then
        if buffer = [] then splitFrom sep [] text
        else (buffer :: (splitFrom sep [] text).1, (splitFrom sep [] text).2)
      else splitFrom sep (buffer ++ [c]) text

/-- The components before the last separator. -/
def frontComponents (sep : α) (text : List α) : List (List α) := (splitFrom sep [] text).1

/-- What comes behind the last separator; empty if nothing does. -/
def lastComponent (sep : α) (text : List α) : List α := (splitFrom sep [] text).2

theorem componentsFrom_eq_split : ∀ (text buffer : List α),
    componentsFrom sep buffer text = (splitFrom sep buffer text).1 ++
      if (splitFrom sep buffer text).2 = [] then [] else [(splitFrom sep buffer text).2]
  | [], buffer => by rw [componentsFrom, splitFrom, List.nil_append]
  | c :: text, buffer => by
      rw [componentsFrom, splitFrom]
      split
      · split
        · exact componentsFrom_eq_split text []
        · rw [componentsFrom_eq_split text [], List.cons_append]
      · exact componentsFrom_eq_split text (buffer ++ [c])

/-- Repeated and leading separators do not count; what is behind the last one does. -/
theorem components_eq_split (text : List α) :
    components sep text = frontComponents sep text ++
      if lastComponent sep text = [] then [] else [lastComponent sep text] :=
  componentsFrom_eq_split text []

end XosKernel.Theory
