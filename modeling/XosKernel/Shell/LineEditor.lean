/-
# Shell.LineEditor -- the keys of a line, as an editor

What `sh_readline` is for: an editor of one line that walks through a list of lines (`Editor`).
The variables hold the state of the editor (`Line.Shows`), and as long as the rows of `history`
hold the lines (`History.Holds`) every key does what the editor does (`readKey_refines`).  A walk
by arrow keys ends with the line that it leads to on the screen (`readKeys_walk`).
-/
import XosKernel.Shell.Readline

namespace XosKernel.Shell

open XosKernel.Lib XosKernel.Theory

set_option autoImplicit false

/-! ## Strings -/

/-- Characters that a string can have in an array of `SHELL_BUF_SIZE`. -/
structure Fits (text : List UInt8) : Prop where
  plain : 0 ∉ text
  short : text.length < shellBufSize

theorem stringFrom_eq_some {a : Buf} {room i : Nat} {text : List UInt8} :
    stringFrom a room i = some text ↔
      a.toList i text.length = text ∧ a (i + text.length) = 0 ∧ 0 ∉ text ∧ text.length < room := by
  induction room generalizing i text with
  | zero => simp [stringFrom]
  | succ room ih =>
      rw [stringFrom]
      by_cases ended : a i = 0
      · rw [if_pos ended]
        cases text with
        | nil => simp [Buf.toList, ended]
        | cons c rest =>
            have first : (a.toList i (rest.length + 1)).head? = some (a i) := by
              simp [Buf.toList, List.range_succ_eq_map]
            simp only [Option.some.injEq, reduceCtorEq, List.length_cons, false_iff]
            rintro ⟨copied, -, plain, -⟩
            rw [copied, List.head?_cons, Option.some.injEq, ended] at first
            exact plain (first ▸ List.mem_cons_self)
      · rw [if_neg ended]
        cases text with
        | nil => simp [ended]
        | cons c rest =>
            have split : a.toList i (rest.length + 1) = a i :: a.toList (i + 1) rest.length := by
              simp [Buf.toList, List.range_succ_eq_map, Function.comp_def, Nat.add_assoc,
                Nat.add_comm 1]
            simp only [Option.map_eq_some_iff, ih, List.length_cons, split, List.cons.injEq,
              List.mem_cons, not_or]
            constructor
            · rintro ⟨_, ⟨copied, last, plain, short⟩, rfl, rfl⟩
              refine ⟨⟨rfl, copied⟩, ?_, ⟨Ne.symm ended, plain⟩, by omega⟩
              rw [← last]
              congr 1
              omega
            · rintro ⟨⟨rfl, copied⟩, last, ⟨-, plain⟩, short⟩
              refine ⟨rest, ⟨copied, ?_, plain, by omega⟩, rfl, rfl⟩
              rw [← last]
              congr 1
              omega

/-- The string in an array is its characters up to the first NUL. -/
theorem cString_eq_some {a : Buf} {text : List UInt8} :
    cString a = some text ↔ a.toList 0 text.length = text ∧ a text.length = 0 ∧ Fits text := by
  rw [cString, stringFrom_eq_some, Nat.zero_add]
  exact ⟨fun ⟨copied, last, plain, short⟩ => ⟨copied, last, plain, short⟩,
    fun ⟨copied, last, fits⟩ => ⟨copied, last, fits.plain, fits.short⟩⟩

/-- A character stored behind others. -/
theorem toList_update (a : Buf) (pos : Nat) (c : UInt8) :
    Buf.toList (Function.update a pos c) 0 (pos + 1) = a.toList 0 pos ++ [c] := by
  rw [Buf.toList, List.range_succ, List.map_append, List.map_singleton, Nat.zero_add,
    Function.update_self]
  congr 1
  apply List.map_congr_left
  intro k member
  rw [List.mem_range] at member
  rw [Function.update_of_ne (by omega)]

theorem toList_storeText (dst src : Buf) (n : Nat) :
    (storeText dst src n).toList 0 n = src.toList 0 n := by
  apply Buf.toList_congr
  intro i low high
  rw [storeText, if_pos (by omega)]

/-- What was copied is the string. -/
theorem cString_storeText {dst src : Buf} {n : Nat} {text : List UInt8}
    (copied : src.toList 0 n = text) (fits : Fits text) :
    cString (storeText dst src n) = some text := by
  have length : text.length = n := by rw [← copied, Buf.length_toList]
  rw [cString_eq_some, length, toList_storeText]
  refine ⟨copied, ?_, fits⟩
  rw [storeText, if_neg (Nat.lt_irrefl n), if_pos rfl]

theorem fits_nil : Fits [] := ⟨List.not_mem_nil, by decide⟩

theorem cString_zero : cString (fun _ => 0) = some [] := by
  rw [cString_eq_some]
  exact ⟨rfl, rfl, fits_nil⟩

/-! ## The editor -/

/-- The line being typed, the place in the list of lines, and the text kept while walking. -/
structure Editor where
  text : List UInt8
  browse : Nat
  saved : List UInt8

namespace Editor

def start (lines : List (List UInt8)) : Editor := ⟨[], lines.length, []⟩

/-- The line before the present one. -/
def up (e : Editor) (lines : List (List UInt8)) : Editor :=
  if 0 < e.browse then
    { text := lines.getD (e.browse - 1) []
      browse := e.browse - 1
      saved := if e.browse = lines.length then e.text else e.saved }
  else e

/-- The line after the present one; after the last line, the text that was being typed. -/
def down (e : Editor) (lines : List (List UInt8)) : Editor :=
  if e.browse < lines.length then
    { e with
      text := if e.browse + 1 = lines.length then e.saved else lines.getD (e.browse + 1) []
      browse := e.browse + 1 }
  else e

/-- A key that does not end the line. -/
def key (e : Editor) (lines : List (List UInt8)) (c : UInt8) : Editor :=
  if c = keyUp then e.up lines
  else if c = keyDown then e.down lines
  else if c = 0x08 ∨ c = 127 then { e with text := e.text.dropLast }
  else if 32 ≤ c ∧ c ≤ 126 ∧ e.text.length < shellBufSize - 1 then { e with text := e.text ++ [c] }
  else e

/-- The key walks to another line. -/
def Moves (e : Editor) (lines : List (List UInt8)) (c : UInt8) : Prop :=
  c = keyUp ∧ 0 < e.browse ∨ c = keyDown ∧ e.browse < lines.length

end Editor

/-- The rows hold the lines. -/
structure History.Holds (h : History) (lines : List (List UInt8)) : Prop where
  count : h.count = lines.length
  bound : lines.length ≤ historySize
  rows : ∀ i, i < lines.length → cString (h.rows i) = some (lines.getD i [])

/-- The variables hold the state of the editor. -/
structure Line.Shows (l : Line) (e : Editor) : Prop where
  text : l.text = e.text
  fits : Fits e.text
  browse : l.browsePos = e.browse
  saved : cString l.temp = some e.saved

/-- The editor is within the list of lines. -/
def Editor.Within (e : Editor) (lines : List (List UInt8)) : Prop := e.browse ≤ lines.length

/-- A character behind the text. -/
theorem Line.text_type (l : Line) (c : UInt8) :
    { l with buf := Function.update l.buf l.pos c, pos := l.pos + 1 }.text = l.text ++ [c] :=
  toList_update l.buf l.pos c

/-- The text without its last character. -/
theorem Line.text_erase (l : Line) : { l with pos := l.pos - 1 }.text = l.text.dropLast := by
  show l.buf.toList 0 (l.pos - 1) = l.text.dropLast
  rw [Line.text, Buf.toList, Buf.toList, ← List.map_dropLast]
  congr 1
  cases l.pos with
  | zero => rfl
  | succ n => rw [List.range_succ, List.dropLast_concat, Nat.add_sub_cancel]

/-- The text does not change with what is stored behind it. -/
theorem Line.text_terminated (l : Line) :
    Buf.toList (Function.update l.buf l.pos 0) 0 l.pos = l.text := by
  rw [Line.text]
  apply Buf.toList_congr
  intro i _ high
  rw [Function.update_of_ne (by omega)]

namespace Line.Shows

variable {l : Line} {e : Editor} {h : History} {lines : List (List UInt8)}

theorem pos_eq (shows : l.Shows e) : l.pos = e.text.length := by
  rw [← shows.text, Line.text, Buf.length_toList]

theorem short (shows : l.Shows e) : l.pos < shellBufSize := by
  rw [shows.pos_eq]
  exact shows.fits.short

/-- After a string is recalled the line holds it, and it was printed. -/
theorem recallString {src : Buf} {text : List UInt8} (shows : l.Shows e)
    (holds : cString src = some text) :
    ∃ l', l.recallString src = some (l', [.print (clearLine e.text.length), .print text, .flush]) ∧
      l'.Shows { e with text } := by
  obtain ⟨copied, -, fits⟩ := cString_eq_some.mp holds
  have stored := @cString_storeText l.buf src text.length text copied fits
  refine ⟨{ l with buf := storeText l.buf src text.length, pos := text.length }, ?_, ?_, fits,
    shows.browse, shows.saved⟩
  · simp only [Line.recallString, holds, stored, shows.pos_eq, Option.bind_eq_bind,
      Option.bind_some]
    rfl
  · show (storeText l.buf src text.length).toList 0 text.length = text
    rw [toList_storeText]
    exact copied

theorem save (shows : l.Shows e) :
    ∃ l', l.save = some l' ∧ l'.Shows { e with saved := e.text } := by
  have short := shows.fits.short
  rw [← shows.pos_eq] at short
  refine ⟨{ l with temp := storeText l.temp l.buf l.pos }, by rw [Line.save, if_pos short],
    shows.text, shows.fits, shows.browse, cString_storeText shows.text shows.fits⟩

theorem up (shows : l.Shows e) (holds : h.Holds lines) (within : e.Within lines) :
    ∃ l' acts, l.up h = some (l', acts) ∧ l'.Shows (e.up lines) ∧
      (0 < e.browse →
        acts = [.print (clearLine e.text.length), .print (e.up lines).text, .flush]) := by
  unfold Line.up Editor.up
  rw [shows.browse, holds.count]
  by_cases some_ : 0 < e.browse
  · rw [if_pos some_, if_pos some_]
    have bound := holds.bound
    have here : e.browse - 1 < lines.length := by
      unfold Editor.Within at within
      omega
    have row : h.row (e.browse - 1) = some (h.rows (e.browse - 1)) := by
      rw [History.row, if_pos (by omega)]
    by_cases bottom : e.browse = lines.length
    · obtain ⟨kept, saved, shown⟩ := shows.save
      have moved : { kept with browsePos := e.browse - 1 }.Shows
          { e with saved := e.text, browse := e.browse - 1 } :=
        ⟨shown.text, shown.fits, rfl, shown.saved⟩
      obtain ⟨l', recalled, shows'⟩ := moved.recallString (holds.rows _ here)
      refine ⟨l', _, ?_, ?_, fun _ => rfl⟩
      · simp only [if_pos bottom, saved, row, Option.bind_eq_bind, Option.bind_some]
        exact recalled
      · rw [if_pos bottom]
        exact shows'
    · have moved : { l with browsePos := e.browse - 1 }.Shows { e with browse := e.browse - 1 } :=
        ⟨shows.text, shows.fits, rfl, shows.saved⟩
      obtain ⟨l', recalled, shows'⟩ := moved.recallString (holds.rows _ here)
      refine ⟨l', _, ?_, ?_, fun _ => rfl⟩
      · simp only [if_neg bottom, row, Option.bind_eq_bind, Option.bind_some]
        exact recalled
      · rw [if_neg bottom]
        exact shows'
  · rw [if_neg some_, if_neg some_]
    exact ⟨l, [], rfl, shows, fun positive => absurd positive some_⟩

theorem down (shows : l.Shows e) (holds : h.Holds lines) :
    ∃ l' acts, l.down h = some (l', acts) ∧ l'.Shows (e.down lines) ∧
      (e.browse < lines.length →
        acts = [.print (clearLine e.text.length), .print (e.down lines).text, .flush]) := by
  unfold Line.down Editor.down
  rw [shows.browse, holds.count]
  by_cases below : e.browse < lines.length
  · rw [if_pos below, if_pos below]
    have moved : { l with browsePos := e.browse + 1 }.Shows { e with browse := e.browse + 1 } :=
      ⟨shows.text, shows.fits, rfl, shows.saved⟩
    by_cases last : e.browse + 1 = lines.length
    · obtain ⟨l', recalled, shows'⟩ := moved.recallString shows.saved
      refine ⟨l', _, ?_, ?_, fun _ => rfl⟩
      · simp only [if_pos last, Option.bind_eq_bind, Option.bind_some]
        exact recalled
      · rw [if_pos last]
        exact shows'
    · have bound := holds.bound
      have row : h.row (e.browse + 1) = some (h.rows (e.browse + 1)) := by
        rw [History.row, if_pos (by omega)]
      obtain ⟨l', recalled, shows'⟩ := moved.recallString (holds.rows (e.browse + 1) (by omega))
      refine ⟨l', _, ?_, ?_, fun _ => rfl⟩
      · simp only [if_neg last, row, Option.bind_eq_bind, Option.bind_some]
        exact recalled
      · rw [if_neg last]
        exact shows'
  · rw [if_neg below, if_neg below]
    exact ⟨l, [], rfl, shows, fun above => absurd above below⟩

/-- A typed character. -/
theorem type (shows : l.Shows e) {c : UInt8} (printable : c ≠ 0)
    (room : l.pos < shellBufSize - 1) :
    { l with buf := Function.update l.buf l.pos c, pos := l.pos + 1 }.Shows
      { e with text := e.text ++ [c] } := by
  have length := shows.pos_eq
  refine ⟨?_, ⟨?_, ?_⟩, shows.browse, shows.saved⟩
  · rw [l.text_type c, shows.text]
  · rw [List.mem_append, List.mem_singleton, not_or]
    exact ⟨shows.fits.plain, Ne.symm printable⟩
  · rw [List.length_append, List.length_singleton]
    omega

/-- The last character is taken back. -/
theorem erase (shows : l.Shows e) :
    { l with pos := l.pos - 1 }.Shows { e with text := e.text.dropLast } := by
  have short := shows.fits.short
  refine ⟨?_, ⟨fun member => shows.fits.plain ((List.dropLast_sublist _).subset member), ?_⟩,
    shows.browse, shows.saved⟩
  · rw [l.text_erase, shows.text]
  · rw [List.length_dropLast]
    omega

end Line.Shows

/-! ## Keys -/

theorem Editor.within_key {e : Editor} {lines : List (List UInt8)} (within : e.Within lines)
    (c : UInt8) : (e.key lines c).Within lines := by
  unfold Editor.Within at within ⊢
  unfold Editor.key Editor.up Editor.down
  split
  · split
    · show e.browse - 1 ≤ lines.length
      omega
    · exact within
  split
  · split
    · next below => exact below
    · exact within
  split
  · exact within
  split
  · exact within
  · exact within

section Keys

variable {h : History} {lines : List (List UInt8)}

/-- The characters that are typed into the line. -/
theorem not_outside_iff {c : UInt8} : ¬ (c < 32 ∨ 126 < c) ↔ 32 ≤ c ∧ c ≤ 126 := by
  rw [not_or, UInt8.not_lt, UInt8.not_lt]

/-- A key that does not end the line does what the editor does, and a walk to another line ends
with that line on the screen. -/
theorem readKey_refines {l : Line} {e : Editor} (holds : h.Holds lines) (shows : l.Shows e)
    (within : e.Within lines) {c : UInt8} (goesOn : c ≠ 0x0A ∧ c ≠ 0x0D) :
    ∃ l' acts, readKey h l c = some (.more l', acts) ∧ l'.Shows (e.key lines c) ∧
      (e.Moves lines c → ∃ before,
        acts = before ++ [.print (e.key lines c).text, .flush]) := by
  unfold readKey readlineKey Editor.key
  by_cases isUp : c = keyUp
  · subst isUp
    obtain ⟨l', acts, is, shows', printed⟩ := shows.up holds within
    simp only [show keyUp ≠ keyPgup by decide, show keyUp ≠ keyPgdn by decide, if_false, if_true,
      is, Option.filter_some, decide_eq_true shows'.short]
    refine ⟨l', _, rfl, shows', ?_⟩
    rintro (⟨-, some_⟩ | ⟨wrong, -⟩)
    · refine ⟨[.resetScrollback, .print (clearLine e.text.length)], ?_⟩
      rw [printed some_]
      rfl
    · exact absurd wrong (by decide)
  by_cases isDown : c = keyDown
  · subst isDown
    obtain ⟨l', acts, is, shows', printed⟩ := shows.down holds
    simp only [show keyDown ≠ keyPgup by decide, show keyDown ≠ keyPgdn by decide,
      show keyDown ≠ keyUp by decide, if_false, if_true, is, Option.filter_some,
      decide_eq_true shows'.short]
    refine ⟨l', _, rfl, shows', ?_⟩
    rintro (⟨wrong, -⟩ | ⟨-, below⟩)
    · exact absurd wrong (by decide)
    · refine ⟨[.resetScrollback, .print (clearLine e.text.length)], ?_⟩
      rw [printed below]
      rfl
  have still : ¬ e.Moves lines c := by
    rintro (⟨is, -⟩ | ⟨is, -⟩)
    · exact isUp is
    · exact isDown is
  by_cases pageUp : c = keyPgup
  · subst pageUp
    exact ⟨l, _, rfl, shows, fun moves => absurd moves still⟩
  by_cases pageDown : c = keyPgdn
  · subst pageDown
    exact ⟨l, _, rfl, shows, fun moves => absurd moves still⟩
  rw [if_neg pageUp, if_neg pageDown, if_neg isUp, if_neg isUp, if_neg isDown, if_neg isDown,
    if_neg (not_or.mpr ⟨goesOn.1, goesOn.2⟩)]
  by_cases isErase : c = 0x08 ∨ c = 127
  · rw [if_pos isErase]
    by_cases some_ : 0 < l.pos
    · have neither : c ≠ 3 ∧ c ≠ 24 := by
        rcases isErase with rfl | rfl <;> decide
      rw [if_pos ⟨isErase, some_⟩, controlKey, if_neg neither.1, if_neg neither.2]
      exact ⟨_, _, rfl, shows.erase, fun moves => absurd moves still⟩
    · have outside : c < 32 ∨ 126 < c := by
        rcases isErase with rfl | rfl <;> decide
      have empty : e.text.dropLast = e.text := by
        have length := shows.pos_eq
        rw [List.eq_nil_of_length_eq_zero (show e.text.length = 0 by omega)]
        rfl
      rw [if_neg fun both => some_ both.2, if_pos outside, empty]
      exact ⟨_, _, rfl, shows, fun moves => absurd moves still⟩
  · rw [if_neg isErase, if_neg fun both => isErase both.1]
    by_cases outside : c < 32 ∨ 126 < c
    · rw [if_pos outside, if_neg ?_]
      · exact ⟨_, _, rfl, shows, fun moves => absurd moves still⟩
      · exact fun all => not_outside_iff.mpr ⟨all.1, all.2.1⟩ outside
    · have inside := not_outside_iff.mp outside
      rw [if_neg outside]
      by_cases room : l.pos < shellBufSize - 1
      · rw [if_pos room, if_pos ⟨inside.1, inside.2, by rw [← shows.pos_eq]; exact room⟩]
        refine ⟨_, _, rfl, shows.type ?_ room, fun moves => absurd moves still⟩
        rintro rfl
        exact absurd inside.1 (by decide)
      · rw [if_neg room, if_neg fun all => room (by rw [shows.pos_eq]; exact all.2.2)]
        exact ⟨_, _, rfl, shows, fun moves => absurd moves still⟩

/-- The editor after keys in a row. -/
def Editor.keys (e : Editor) (lines : List (List UInt8)) (keys : List UInt8) : Editor :=
  keys.foldl (fun e c => e.key lines c) e

/-- Keys in a row that do not end the line do what the editor does. -/
theorem readKeys_refines (holds : h.Holds lines) (keys : List UInt8)
    (goOn : ∀ c ∈ keys, c ≠ 0x0A ∧ c ≠ 0x0D) {l : Line} {e : Editor} (shows : l.Shows e)
    (within : e.Within lines) :
    ∃ l' acts, readKeys h l keys = some (l', acts) ∧ l'.Shows (e.keys lines keys) := by
  induction keys generalizing l e with
  | nil => exact ⟨l, [], rfl, shows⟩
  | cons c rest ih =>
      obtain ⟨l₁, acts, is, shows₁, -⟩ :=
        readKey_refines holds shows within (goOn c List.mem_cons_self)
      obtain ⟨l₂, later, rest_, shows₂⟩ :=
        ih (fun c member => goOn c (List.mem_cons_of_mem _ member)) shows₁
          (Editor.within_key within c)
      refine ⟨l₂, acts ++ later, ?_, shows₂⟩
      simp only [readKeys, is, rest_, Option.bind_eq_bind, Option.bind_some]
      rfl

theorem readKeys_append {l l₁ l₂ : Line} {keys keys' : List UInt8} {acts later : List TermAct}
    (first : readKeys h l keys = some (l₁, acts))
    (second : readKeys h l₁ keys' = some (l₂, later)) :
    readKeys h l (keys ++ keys') = some (l₂, acts ++ later) := by
  induction keys generalizing l acts with
  | nil =>
      simp only [readKeys, Option.some.injEq, Prod.mk.injEq] at first
      obtain ⟨rfl, rfl⟩ := first
      exact second
  | cons c rest ih =>
      simp only [readKeys, Option.bind_eq_bind] at first
      cases is : readKey h l c with
      | none => simp [is] at first
      | some r =>
          obtain ⟨result, now⟩ := r
          rw [is] at first
          cases result with
          | done h' buf pos => simp at first
          | more l' =>
              simp only [Option.bind_some] at first
              cases rest_ : readKeys h l' rest with
              | none => simp [rest_] at first
              | some r =>
                  obtain ⟨l'', then_⟩ := r
                  simp only [rest_, Option.bind_some, Option.pure_def, Option.some.injEq,
                    Prod.mk.injEq] at first
                  obtain ⟨rfl, rfl⟩ := first
                  simp only [List.cons_append, readKeys, is, ih rest_, Option.bind_eq_bind,
                    Option.bind_some, List.append_assoc]
                  rfl

theorem Line.Shows.start (h : History) (buf : Buf) (holds : h.Holds lines) :
    (Line.start h buf).Shows (Editor.start lines) :=
  ⟨rfl, fits_nil, holds.count, cString_zero⟩

/-- Text that the keys can type. -/
structure Typable (typed : List UInt8) : Prop where
  printable : ∀ c ∈ typed, 32 ≤ c ∧ c ≤ 126
  short : typed.length < shellBufSize

theorem Typable.goOn {typed : List UInt8} (typable : Typable typed) :
    ∀ c ∈ typed, c ≠ 0x0A ∧ c ≠ 0x0D := by
  intro c member
  have printable := (typable.printable c member).1
  constructor
  · rintro rfl
    exact absurd printable (by decide)
  · rintro rfl
    exact absurd printable (by decide)

theorem Editor.key_printable {e : Editor} {c : UInt8} (printable : 32 ≤ c ∧ c ≤ 126)
    (room : e.text.length < shellBufSize - 1) :
    e.key lines c = { e with text := e.text ++ [c] } := by
  have notUp : c ≠ keyUp := by
    rintro rfl
    exact absurd printable.2 (by decide)
  have notDown : c ≠ keyDown := by
    rintro rfl
    exact absurd printable.2 (by decide)
  have notErase : ¬ (c = 0x08 ∨ c = 127) := by
    rintro (rfl | rfl)
    · exact absurd printable.1 (by decide)
    · exact absurd printable.2 (by decide)
  rw [Editor.key, if_neg notUp, if_neg notDown, if_neg notErase,
    if_pos ⟨printable.1, printable.2, room⟩]

theorem Editor.keys_typed {typed : List UInt8} (printable : ∀ c ∈ typed, 32 ≤ c ∧ c ≤ 126)
    {e : Editor} (room : e.text.length + typed.length < shellBufSize) :
    e.keys lines typed = { e with text := e.text ++ typed } := by
  induction typed generalizing e with
  | nil => rw [List.append_nil]; rfl
  | cons c rest ih =>
      rw [List.length_cons] at room
      show (e.key lines c).keys lines rest = _
      rw [Editor.key_printable (printable c List.mem_cons_self) (by omega),
        ih (fun c member => printable c (List.mem_cons_of_mem _ member)) (by simp; omega)]
      simp

/-! ## Walking -/

/-- The editor is `k` lines up from the text that was being typed. -/
structure Editor.At (e : Editor) (lines : List (List UInt8)) (typed : List UInt8) (k : Nat) :
    Prop where
  browse : e.browse + k = lines.length
  text : e.text = (typed :: lines.reverse).getD k []
  saved : 0 < k → e.saved = typed

/-- The `k`-th line from the end. -/
theorem getD_walk {typed : List UInt8} {k i : Nat} (sum : i + (k + 1) = lines.length) :
    (typed :: lines.reverse).getD (k + 1) [] = lines.getD i [] := by
  rw [List.getD_cons_succ, List.getD_eq_getElem?_getD, List.getD_eq_getElem?_getD,
    List.getElem?_reverse (by omega)]
  congr 2
  omega

theorem Editor.At.up {e : Editor} {typed : List UInt8} {k : Nat} (at_ : e.At lines typed k)
    (more : k < lines.length) :
    e.Moves lines keyUp ∧ (e.key lines keyUp).At lines typed (k + 1) := by
  have sum := at_.browse
  have some_ : 0 < e.browse := by omega
  refine ⟨.inl ⟨rfl, some_⟩, ?_⟩
  show (e.up lines).At lines typed (k + 1)
  rw [Editor.up, if_pos some_]
  refine ⟨by show e.browse - 1 + (k + 1) = _; omega, ?_, fun _ => ?_⟩
  · exact (getD_walk (by omega)).symm
  · show (if e.browse = lines.length then e.text else e.saved) = typed
    by_cases bottom : e.browse = lines.length
    · obtain rfl : k = 0 := by omega
      rw [if_pos bottom, at_.text]
      rfl
    · rw [if_neg bottom]
      exact at_.saved (by omega)

theorem Editor.At.down {e : Editor} {typed : List UInt8} {k : Nat}
    (at_ : e.At lines typed (k + 1)) :
    e.Moves lines keyDown ∧ (e.key lines keyDown).At lines typed k := by
  have sum := at_.browse
  have below : e.browse < lines.length := by omega
  refine ⟨.inr ⟨rfl, below⟩, ?_⟩
  show (e.down lines).At lines typed k
  rw [Editor.down, if_pos below]
  refine ⟨by show e.browse + 1 + k = _; omega, ?_, fun _ => at_.saved (by omega)⟩
  show (if e.browse + 1 = lines.length then e.saved else lines.getD (e.browse + 1) []) = _
  cases k with
  | zero =>
      rw [if_pos (by omega)]
      exact at_.saved (by omega)
  | succ k =>
      rw [if_neg (by omega)]
      exact (getD_walk (by omega)).symm

theorem Editor.At.within {e : Editor} {typed : List UInt8} {k : Nat} (at_ : e.At lines typed k) :
    e.Within lines := by
  have sum := at_.browse
  show e.browse ≤ lines.length
  omega

/-- A key pressed `k` times in a row, each time a walk to another line: `place j` is where the
editor is after `j` times. -/
theorem readKeys_walk (holds : h.Holds lines) {typed : List UInt8} {c : UInt8}
    (goesOn : c ≠ 0x0A ∧ c ≠ 0x0D) (place : Nat → Nat) {k : Nat}
    (walks : ∀ j, j < k → ∀ e : Editor, e.At lines typed (place j) →
      e.Moves lines c ∧ (e.key lines c).At lines typed (place (j + 1)))
    {l : Line} {e : Editor} (shows : l.Shows e) (at_ : e.At lines typed (place 0)) :
    ∃ l' acts e', readKeys h l (List.replicate k c) = some (l', acts) ∧ l'.Shows e' ∧
      e'.At lines typed (place k) ∧
      (0 < k → ∃ before, acts = before ++ [.print e'.text, .flush]) := by
  induction k with
  | zero => exact ⟨l, [], e, rfl, shows, at_, fun positive => absurd positive (Nat.lt_irrefl 0)⟩
  | succ k ih =>
      obtain ⟨l₁, acts, e₁, first, shows₁, at₁, -⟩ := ih fun j low => walks j (by omega)
      obtain ⟨moves, at₂⟩ := walks k (Nat.lt_succ_self k) e₁ at₁
      obtain ⟨l₂, later, is, shows₂, printed⟩ := readKey_refines holds shows₁ at₁.within goesOn
      obtain ⟨before, ends⟩ := printed moves
      refine ⟨l₂, acts ++ later, _, ?_, shows₂, at₂, fun _ => ⟨acts ++ before, ?_⟩⟩
      · have last : readKeys h l₁ [c] = some (l₂, later) := by
          simp only [readKeys, is, Option.bind_eq_bind, Option.bind_some, List.append_nil]
          rfl
        rw [List.replicate_succ']
        exact readKeys_append first last
      · rw [ends, List.append_assoc]

end Keys

end XosKernel.Shell
