/-
# Shell.ControlKeys -- the line editor with its two control keys

`sh_readline` has branches for Ctrl+C, which gives the line up, and Ctrl+X, which empties it
(`editKey`).  They stand behind the test for the backspace keys, inside its block: a key that gets
there is neither of the two (`controlKey`).  Both keys are ignored like any other control
character, and the call behaves as the editor exactly if Ctrl+C does not come before the end of
the line and Ctrl+X only on an empty one (`edits_iff`).

Here `max` is any length up to that of a row of `history`; the shell passes the length of a row.
-/
import XosKernel.Shell.Safety

namespace XosKernel.Shell

open XosKernel.Lib XosKernel.Theory

set_option autoImplicit false

/-! ## The code -/

/-- A call of `sh_readline`: it waits for a key, or has returned. -/
inductive Reading where
  | waiting (line : Line)
  | returned (history : History) (buf : Buf) (pos : Nat)

/-- The call after some keys; what comes after its end is not read. -/
def readline (max : Nat) (h : History) : Line → List UInt8 → Option Reading
  | l, [] => some (.waiting l)
  | l, c :: keys => do
      match ← readlineKey max h l c with
      | (.more l', _) => readline max h l' keys
      | (.done h' buf pos, _) => some (.returned h' buf pos)

/-! ## The editor -/

/-- The text being edited, or the text that was returned. -/
inductive Edited where
  | editing (text : List UInt8)
  | entered (text : List UInt8)

/-- A key of the editor. -/
def editKey (max : Nat) (text : List UInt8) (c : UInt8) : Edited :=
  if c = 0x0A ∨ c = 0x0D then .entered text
  else if c = 3 then .entered []
  else if c = 24 then .editing []
  else if c = 0x08 ∨ c = 127 then .editing text.dropLast
  else if 32 ≤ c ∧ c ≤ 126 ∧ text.length < max - 1 then .editing (text ++ [c])
  else .editing text

def edit (max : Nat) : List UInt8 → List UInt8 → Edited
  | text, [] => .editing text
  | text, c :: keys =>
      match editKey max text c with
      | .editing text' => edit max text' keys
      | .entered text' => .entered text'

/-- The call is where the editor is: it holds the text, or has returned it terminated, with its
length. -/
def Reading.Matches : Reading → Edited → Prop
  | .waiting l, .editing text => l.text = text
  | .returned _ buf pos, .entered text => buf.toList 0 pos = text ∧ buf pos = 0
  | _, _ => False

/-- After every key of the sequence the call is where the editor is. -/
def Edits (max : Nat) (h : History) (buf : Buf) (keys : List UInt8) : Prop :=
  ∀ n, ∃ r, readline max h (.start h buf) (keys.take n) = some r ∧
    r.Matches (edit max [] (keys.take n))

/-- Until the line ends, Ctrl+C is not pressed, and Ctrl+X only on an empty line. -/
def Uncontrolled (max : Nat) : List UInt8 → List UInt8 → Prop
  | _, [] => True
  | text, c :: keys =>
      c ≠ 3 ∧ (c = 24 → text = []) ∧
        match editKey max text c with
        | .editing text' => Uncontrolled max text' keys
        | .entered _ => True

/-! ## One key -/

/-- With rows in range there is one for the line. -/
theorem History.add_some {h : History} (count : h.count ≤ historySize) (buf : Buf) (n : Nat) :
    ∃ h', h.add buf n = some h' := by
  have slot : h.row (h.count % historySize) = some (h.rows (h.count % historySize)) := by
    rw [History.row, if_pos (Nat.mod_lt _ (by decide))]
  unfold History.add
  by_cases positive : 0 < n
  · rw [if_pos positive]
    by_cases counted : 0 < h.count
    · have last : h.row (h.count - 1) = some (h.rows (h.count - 1)) := by
        rw [History.row, if_pos (by omega)]
      simp only [if_pos counted, last, slot, Option.map_some, Option.bind_eq_bind,
        Option.bind_some]
      split
      · exact ⟨_, rfl⟩
      · exact ⟨_, rfl⟩
    · simp only [if_neg counted, slot, Option.bind_eq_bind, Option.bind_some, Option.any_none]
      exact ⟨_, rfl⟩
  · rw [if_neg positive]
    exact ⟨_, rfl⟩

/-- The line holds a text that fits the buffer. -/
structure Line.Has (max : Nat) (l : Line) (text : List UInt8) : Prop where
  held : l.text = text
  short : text.length < max

section Key

variable {max : Nat} {h : History} {l : Line} {text : List UInt8} {c : UInt8}

theorem Line.Has.pos_eq (has : l.Has max text) : l.pos = text.length := by
  rw [← has.held, Line.text, Buf.length_toList]

/-- Ctrl+C and Ctrl+X are ignored. -/
theorem readlineKey_control (control : c = 3 ∨ c = 24) :
    readlineKey max h l c = some (.more l, [.resetScrollback]) := by
  rcases control with rfl | rfl <;> rfl

/-- What the line holds after a key that does not end it. -/
theorem readlineKey_editing (has : l.Has max text) (plain : c ≠ keyUp ∧ c ≠ keyDown)
    (goesOn : c ≠ 0x0A ∧ c ≠ 0x0D) (uncontrolled : c ≠ 3 ∧ (c = 24 → text = [])) :
    ∃ text' l' acts, editKey max text c = .editing text' ∧
      readlineKey max h l c = some (.more l', acts) ∧ l'.Has max text' := by
  have length := has.pos_eq
  have short := has.short
  unfold editKey
  rw [if_neg (not_or.mpr goesOn), if_neg uncontrolled.1]
  by_cases emptied : c = 24
  · rw [if_pos emptied]
    have nothing := uncontrolled.2 emptied
    exact ⟨[], l, _, rfl, readlineKey_control (.inr emptied), nothing ▸ has⟩
  rw [if_neg emptied]
  by_cases page : c = keyPgup ∨ c = keyPgdn
  · -- the view moves, the line stays
    rcases page with rfl | rfl
    · exact ⟨text, l, _, rfl, rfl, has⟩
    · exact ⟨text, l, _, rfl, rfl, has⟩
  rw [not_or] at page
  unfold readlineKey
  rw [if_neg page.1, if_neg page.2, if_neg plain.1, if_neg plain.2, if_neg (not_or.mpr goesOn)]
  by_cases isErase : c = 0x08 ∨ c = 127
  · rw [if_pos isErase]
    by_cases some_ : 0 < l.pos
    · rw [if_pos ⟨isErase, some_⟩, controlKey, if_neg uncontrolled.1, if_neg emptied]
      refine ⟨_, _, _, rfl, rfl, by rw [l.text_erase, has.held], ?_⟩
      rw [List.length_dropLast]
      omega
    · have outside : c < 32 ∨ 126 < c := by
        rcases isErase with rfl | rfl <;> decide
      have nothing : text = [] := List.length_eq_zero_iff.mp (by omega)
      rw [if_neg fun both => some_ both.2, if_pos outside, nothing]
      exact ⟨[], l, _, rfl, rfl, nothing ▸ has⟩
  · have typed : ¬ ((c = 0x08 ∨ c = 127) ∧ 0 < l.pos) := fun both => isErase both.1
    rw [if_neg isErase, if_neg typed]
    by_cases outside : c < 32 ∨ 126 < c
    · rw [if_pos outside, if_neg ?_]
      · exact ⟨text, l, _, rfl, rfl, has⟩
      · exact fun all => not_outside_iff.mpr ⟨all.1, all.2.1⟩ outside
    · have inside := not_outside_iff.mp outside
      rw [if_neg outside]
      by_cases room : l.pos < max - 1
      · rw [if_pos room, if_pos ⟨inside.1, inside.2, by omega⟩]
        refine ⟨_, _, _, rfl, rfl, by rw [l.text_type, has.held], ?_⟩
        rw [List.length_append, List.length_singleton]
        omega
      · rw [if_neg room, if_neg fun all => room (by rw [length]; exact all.2.2)]
        exact ⟨text, l, _, rfl, rfl, has⟩

/-- What is returned at the end of the line. -/
theorem readlineKey_enter (has : l.Has max text) (bound : max ≤ shellBufSize)
    (count : h.count ≤ historySize) (ends : c = 0x0A ∨ c = 0x0D) :
    ∃ h' buf pos acts, readlineKey max h l c = some (.done h' buf pos, acts) ∧
      buf.toList 0 pos = text ∧ buf pos = 0 := by
  have short := has.short
  rw [← has.pos_eq] at short
  obtain ⟨h', added⟩ := History.add_some count (Function.update l.buf l.pos 0) l.pos
  refine ⟨h', Function.update l.buf l.pos 0, l.pos,
    [.resetScrollback, .print [0x0A], .flush], ?_, ?_, Function.update_self ..⟩
  · have others : c ≠ keyPgup ∧ c ≠ keyPgdn ∧ c ≠ keyUp ∧ c ≠ keyDown := by
      rcases ends with rfl | rfl <;> decide
    unfold readlineKey
    rw [if_neg others.1, if_neg others.2.1, if_neg others.2.2.1, if_neg others.2.2.2, if_pos ends,
      if_pos ⟨short, by omega⟩]
    simp only [added, Option.bind_eq_bind, Option.bind_some]
    rfl
  · rw [l.text_terminated, has.held]

end Key

/-! ## Whole lines -/

section Lines

variable {max : Nat} {h : History}

theorem readline_more {l l' : Line} {c : UInt8} {acts : List TermAct}
    (is : readlineKey max h l c = some (.more l', acts)) (keys : List UInt8) :
    readline max h l (c :: keys) = readline max h l' keys := by
  rw [readline, is]
  rfl

theorem readline_done {l : Line} {c : UInt8} {h' : History} {buf : Buf} {pos : Nat}
    {acts : List TermAct} (is : readlineKey max h l c = some (.done h' buf pos, acts))
    (keys : List UInt8) : readline max h l (c :: keys) = some (.returned h' buf pos) := by
  rw [readline, is]
  rfl

theorem edit_editing {text text' : List UInt8} {c : UInt8}
    (is : editKey max text c = .editing text') (keys : List UInt8) :
    edit max text (c :: keys) = edit max text' keys := by
  rw [edit, is]

theorem edit_entered {text text' : List UInt8} {c : UInt8}
    (is : editKey max text c = .entered text') (keys : List UInt8) :
    edit max text (c :: keys) = .entered text' := by
  rw [edit, is]

/-- From the first key on, or from the second. -/
theorem forall_take_cons {P : List UInt8 → Prop} {c : UInt8} {rest : List UInt8} :
    (∀ n, P ((c :: rest).take n)) ↔ P [] ∧ ∀ n, P (c :: rest.take n) := by
  constructor
  · exact fun all => ⟨all 0, fun n => all (n + 1)⟩
  · rintro ⟨first, later⟩ (_ | n)
    · exact first
    · exact later n

/-- From any text on, the call is where the editor is exactly if the control keys do nothing. -/
theorem readline_matches_iff (bound : max ≤ shellBufSize) (count : h.count ≤ historySize)
    (keys : List UInt8) (plain : ∀ c ∈ keys, c ≠ keyUp ∧ c ≠ keyDown) {l : Line}
    {text : List UInt8} (has : l.Has max text) :
    (∀ n, ∃ r, readline max h l (keys.take n) = some r ∧ r.Matches (edit max text (keys.take n))) ↔
      Uncontrolled max text keys := by
  have start : ∃ r, readline max h l [] = some r ∧ r.Matches (edit max text []) :=
    ⟨.waiting l, rfl, has.held⟩
  induction keys generalizing l text with
  | nil =>
      refine ⟨fun _ => trivial, fun _ n => ?_⟩
      rw [List.take_nil]
      exact start
  | cons c rest ih =>
      rw [forall_take_cons
        (P := fun keys => ∃ r, readline max h l keys = some r ∧ r.Matches (edit max text keys)),
        and_iff_right start, Uncontrolled]
      by_cases ends : c = 0x0A ∨ c = 0x0D
      · obtain ⟨h', buf, pos, acts, is, held, ended⟩ := readlineKey_enter has bound count ends
        have entered : editKey max text c = .entered text := if_pos ends
        have harmless : c ≠ 3 ∧ c ≠ 24 := by
          rcases ends with rfl | rfl <;> decide
        rw [entered]
        refine ⟨fun _ => ⟨harmless.1, fun emptied => absurd emptied harmless.2, trivial⟩,
          fun _ n => ⟨_, readline_done is _, ?_⟩⟩
        rw [edit_entered entered]
        exact ⟨held, ended⟩
      have goesOn := not_or.mp ends
      by_cases harmless : c ≠ 3 ∧ (c = 24 → text = [])
      · obtain ⟨text', l', acts, edited, is, has'⟩ :=
          readlineKey_editing (h := h) has (plain c List.mem_cons_self) goesOn harmless
        have later := ih (fun c member => plain c (List.mem_cons_of_mem _ member)) has'
          ⟨.waiting l', rfl, has'.held⟩
        simp only [readline_more is, edit_editing edited, edited, later]
        exact ⟨fun rest_ => ⟨harmless.1, harmless.2, rest_⟩, fun all => all.2.2⟩
      · -- at this key the editor returns or is emptied, and the line stays
        refine ⟨fun all => ?_, fun all => absurd ⟨all.1, all.2.1⟩ harmless⟩
        obtain ⟨r, is, same⟩ := all 0
        by_cases givesUp : c = 3
        · subst givesUp
          rw [readline_more (readlineKey_control (.inl rfl))] at is
          cases is
          cases same
        · have emptied : c = 24 := by
            apply Classical.byContradiction
            intro other
            exact harmless ⟨givesUp, fun emptied => absurd emptied other⟩
          subst emptied
          rw [readline_more (readlineKey_control (.inr rfl))] at is
          cases is
          have nothing : l.text = [] := same
          exact absurd ⟨givesUp, fun _ => has.held ▸ nothing⟩ harmless

/-- For every sequence of keys other than the arrows, `sh_readline` does what the editor does
exactly if Ctrl+C is not pressed before the end of the line, and Ctrl+X only on an empty one. -/
theorem edits_iff (max : Nat) (room : 1 ≤ max) (bound : max ≤ shellBufSize) (h : History)
    (count : h.count ≤ historySize) (buf : Buf) (keys : List UInt8)
    (plain : ∀ c ∈ keys, c ≠ keyUp ∧ c ≠ keyDown) :
    Edits max h buf keys ↔ Uncontrolled max [] keys :=
  readline_matches_iff bound count keys plain ⟨rfl, room⟩

/-- `a`, Ctrl+C. -/
def givenUp : List UInt8 := [0x61, 3]

theorem givenUp_plain : ∀ c ∈ givenUp, c ≠ keyUp ∧ c ≠ keyDown := by
  simp [givenUp, keyUp, keyDown]

theorem givenUp_edits_iff : Edits shellBufSize ⟨fun _ _ => 0, 0⟩ (fun _ => 0) givenUp ↔
    Uncontrolled shellBufSize [] givenUp :=
  edits_iff shellBufSize (by decide) (Nat.le_refl _) ⟨fun _ _ => 0, 0⟩ (Nat.zero_le _) (fun _ => 0)
    givenUp givenUp_plain

/-- The call goes on, with the `a` in the line. -/
theorem ctrl_c_ignored :
    ¬ ∀ (max : Nat), 1 ≤ max → max ≤ shellBufSize → ∀ h : History, h.count ≤ historySize →
      ∀ (buf : Buf) (keys : List UInt8), (∀ c ∈ keys, c ≠ keyUp ∧ c ≠ keyDown) →
        Edits max h buf keys := by
  intro all
  obtain ⟨r, is, same⟩ := all shellBufSize (by decide) (Nat.le_refl _) ⟨fun _ _ => 0, 0⟩
    (Nat.zero_le _) (fun _ => 0) givenUp givenUp_plain 2
  cases is
  exact same

end Lines

end XosKernel.Shell
