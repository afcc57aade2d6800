/-
# Shell.History -- what the arrow keys show

The shell's history is for the last `HISTORY_SIZE` lines: Up shows them one after the other, Down
leads back (`HistoryRight`).  Storing a line appends it to the list that the rows hold as long as
there are rows left.  `history_count` stops at `HISTORY_SIZE`, so from then on a line goes to row
0 while the walk starts at row 15: the history is right in every state of a session exactly if
the session has no more lines than rows (`history_right_iff`).
-/
import XosKernel.Shell.LineEditor
import XosKernel.Theory.Steps

namespace XosKernel.Shell

open XosKernel.Lib XosKernel.Theory

set_option autoImplicit false

/-- The history is the list `lines`.  With any text typed at a prompt, `k` times Up shows the
`k`-th line from the end and as many times Down the typed text again, and a line equal to the
last one is not stored. -/
def HistoryRight (h : History) (lines : List (List UInt8)) : Prop :=
  ∀ (buf : Buf) (typed : List UInt8), Typable typed →
    ∃ l acts, readKeys h (.start h buf) typed = some (l, acts) ∧ l.text = typed ∧
      (∀ k, k ≤ lines.length → ∃ l₁ ups, readKeys h l (List.replicate k keyUp) = some (l₁, ups) ∧
        l₁.text = (typed :: lines.reverse).getD k [] ∧
        (0 < k → ∃ before, ups = before ++ [.print l₁.text, .flush]) ∧
        ∃ l₂ downs, readKeys h l₁ (List.replicate k keyDown) = some (l₂, downs) ∧
          l₂.text = typed ∧
          (0 < k → ∃ before, downs = before ++ [.print typed, .flush])) ∧
      (lines.getLast? = some typed →
        ∃ buf' ends, readKey h l 0x0A = some (.done h buf' l.pos, ends))

theorem typable_nil : Typable [] := ⟨fun _ member => absurd member List.not_mem_nil, by decide⟩

/-- At an empty prompt Up shows the last line. -/
theorem HistoryRight.shown {h : History} {lines : List (List UInt8)} (right : HistoryRight h lines)
    (some_ : lines ≠ []) :
    ∃ l ups, readKeys h (.start h fun _ => 0) [keyUp] = some (l, ups) ∧
      lines.getLast? = some l.text := by
  obtain ⟨l, acts, typing, -, walk, -⟩ := right (fun _ => 0) [] typable_nil
  obtain ⟨l₁, ups, up, text, -⟩ := walk 1 (List.length_pos_iff.mpr some_)
  simp only [readKeys, Option.some.injEq, Prod.mk.injEq] at typing
  obtain ⟨rfl, rfl⟩ := typing
  refine ⟨l₁, ups, up, ?_⟩
  rw [text, List.getLast?_eq_head?_reverse]
  cases is : lines.reverse with
  | nil => exact absurd (List.reverse_eq_nil_iff.mp is) some_
  | cons last rest => rfl

/-- So the lists that it is right for have one last line. -/
theorem HistoryRight.getLast?_eq {h : History} {lines lines' : List (List UInt8)}
    (right : HistoryRight h lines) (right' : HistoryRight h lines') (some_ : lines ≠ [])
    (some' : lines' ≠ []) : lines.getLast? = lines'.getLast? := by
  obtain ⟨l, ups, up, last⟩ := right.shown some_
  obtain ⟨l', ups', up', last'⟩ := right'.shown some'
  rw [up, Option.some.injEq, Prod.mk.injEq] at up'
  rw [last, last', up'.1]

/-! ## Storing a line -/

/-- Add a line to the list, unless it is empty or the last one again. -/
def remember (lines : List (List UInt8)) (text : List UInt8) : List (List UInt8) :=
  if text = [] ∨ lines.getLast? = some text then lines else lines ++ [text]

/-- The last `HISTORY_SIZE` lines. -/
def recent (lines : List (List UInt8)) : List (List UInt8) :=
  lines.drop (lines.length - historySize)

/-- The history with `n` characters of `buf` in the next row. -/
def History.stored (h : History) (buf : Buf) (n : Nat) : History where
  rows := Function.update h.rows (h.count % historySize)
    (storeText (h.rows (h.count % historySize)) buf n)
  count := if h.count < historySize then h.count + 1 else h.count

section Store

variable {h : History} {lines : List (List UInt8)} {buf : Buf} {text : List UInt8}

theorem sameAsRow_iff {row : Buf} {other : List UInt8} (holds : cString row = some other)
    {n : Nat} (is : buf.toList 0 n = text) (fits : Fits text) :
    sameAsRow row buf n = true ↔ other = text := by
  have length : text.length = n := by rw [← is, Buf.length_toList]
  have pointwise : (List.range n).all (fun i => buf i == row i) = true ↔ row.toList 0 n = text := by
    rw [← is, Buf.toList, Buf.toList, List.map_inj_left, List.all_eq_true]
    simp only [beq_iff_eq, Nat.zero_add]
    exact forall₂_congr fun _ _ => eq_comm
  rw [sameAsRow, Bool.and_eq_true, pointwise, beq_iff_eq]
  constructor
  · rintro ⟨copied, ended⟩
    have again : cString row = some text := by
      rw [cString_eq_some, length]
      exact ⟨copied, ended, fits⟩
    rw [holds, Option.some.injEq] at again
    exact again
  · rintro rfl
    obtain ⟨copied, ended, -⟩ := cString_eq_some.mp holds
    rw [length] at copied ended
    exact ⟨copied, ended⟩

/-- Before the first line. -/
theorem History.Holds.empty : History.Holds ⟨fun _ _ => 0, 0⟩ [] :=
  ⟨rfl, Nat.zero_le _, fun i low => absurd low (Nat.not_lt_zero i)⟩

/-- The row that a new line is compared with. -/
theorem History.Holds.last (holds : h.Holds lines) (some_ : lines ≠ []) :
    ∃ last, lines.getLast? = some last ∧ h.row (h.count - 1) = some (h.rows (h.count - 1)) ∧
      cString (h.rows (h.count - 1)) = some last := by
  have positive := List.length_pos_iff.mpr some_
  have bound := holds.bound
  refine ⟨lines.getD (lines.length - 1) [], ?_, ?_, ?_⟩
  · rw [List.getLast?_eq_getElem?, List.getD_eq_getElem?_getD, List.getElem?_eq_getElem (by omega)]
    rfl
  · rw [History.row, holds.count, if_pos (by omega)]
  · rw [holds.count]
    exact holds.rows _ (by omega)

/-- An empty line, or the last one again, is not stored. -/
theorem History.Holds.add_again (holds : h.Holds lines) {n : Nat} (is : buf.toList 0 n = text)
    (fits : Fits text) (again : text = [] ∨ lines.getLast? = some text) :
    h.add buf n = some h := by
  have length : text.length = n := by rw [← is, Buf.length_toList]
  unfold History.add
  by_cases positive : 0 < n
  · have same : lines.getLast? = some text := by
      rcases again with rfl | same
      · exact absurd length (by rw [List.length_nil]; omega)
      · exact same
    have some_ : lines ≠ [] := by
      rintro rfl
      exact absurd same (by simp)
    obtain ⟨last, isLast, row, string⟩ := holds.last some_
    rw [same, Option.some.injEq] at isLast
    have counted : 0 < h.count := by
      rw [holds.count]
      exact List.length_pos_iff.mpr some_
    rw [if_pos positive, if_pos counted, row]
    simp only [Option.map_some, Option.bind_eq_bind, Option.bind_some, Option.any_some]
    rw [if_pos ((sameAsRow_iff string is fits).mpr isLast.symm)]
    rfl
  · rw [if_neg positive]

/-- Any other line goes to the row after the counted ones, and to row 0 once all are in use. -/
theorem History.Holds.add_new (holds : h.Holds lines) {n : Nat} (is : buf.toList 0 n = text)
    (fits : Fits text) (new : ¬ (text = [] ∨ lines.getLast? = some text)) :
    h.add buf n = some (h.stored buf n) := by
  have length : text.length = n := by rw [← is, Buf.length_toList]
  rw [not_or] at new
  have positive : 0 < n := by
    rw [← length]
    exact List.length_pos_iff.mpr new.1
  have row : h.row (h.count % historySize) = some (h.rows (h.count % historySize)) := by
    rw [History.row, if_pos (Nat.mod_lt _ (by decide))]
  unfold History.add
  rw [if_pos positive]
  by_cases counted : 0 < h.count
  · have some_ : lines ≠ [] := by
      rintro rfl
      rw [holds.count] at counted
      exact absurd counted (Nat.lt_irrefl 0)
    obtain ⟨last, isLast, lastRow, string⟩ := holds.last some_
    have differs : ¬ sameAsRow (h.rows (h.count - 1)) buf n = true := by
      rw [sameAsRow_iff string is fits]
      rintro rfl
      exact new.2 isLast
    rw [if_pos counted, lastRow]
    simp only [Option.map_some, Option.bind_eq_bind, Option.bind_some, Option.any_some]
    rw [if_neg differs, row]
    rfl
  · rw [if_neg counted]
    simp only [Option.bind_eq_bind, Option.bind_some, Option.any_none, row]
    rfl

/-- While there are rows left the line goes to the end of the list. -/
theorem History.Holds.append (holds : h.Holds lines) {n : Nat} (is : buf.toList 0 n = text)
    (fits : Fits text) (room : lines.length < historySize) :
    (h.stored buf n).Holds (lines ++ [text]) := by
  have slot : h.count % historySize = lines.length := by
    rw [holds.count, Nat.mod_eq_of_lt room]
  refine ⟨?_, ?_, ?_⟩
  · show (if h.count < historySize then h.count + 1 else h.count) = _
    rw [holds.count, if_pos room, List.length_append, List.length_singleton]
  · rw [List.length_append, List.length_singleton]
    omega
  · intro i low
    rw [List.length_append, List.length_singleton] at low
    show cString (Function.update h.rows (h.count % historySize) _ i) = _
    rw [slot]
    by_cases here : i = lines.length
    · subst here
      rw [Function.update_self, cString_storeText is fits]
      simp
    · rw [Function.update_of_ne here, holds.rows i (by omega), List.getD_eq_getElem?_getD,
        List.getD_eq_getElem?_getD, List.getElem?_append_left (by omega)]

/-- Without rows left it takes the place of the first line. -/
theorem History.Holds.overwrite (holds : h.Holds lines) {n : Nat} (is : buf.toList 0 n = text)
    (fits : Fits text) (full : lines.length = historySize) :
    (h.stored buf n).Holds (text :: lines.tail) := by
  have slot : h.count % historySize = 0 := by
    rw [holds.count, full, Nat.mod_self]
  have length : (text :: lines.tail).length = lines.length := by
    have positive : 0 < historySize := by decide
    rw [List.length_cons, List.length_tail]
    omega
  refine ⟨?_, ?_, ?_⟩
  · show (if h.count < historySize then h.count + 1 else h.count) = _
    rw [holds.count, if_neg (by omega), length]
  · rw [length]
    exact holds.bound
  · intro i low
    rw [length] at low
    show cString (Function.update h.rows (h.count % historySize) _ i) = _
    rw [slot]
    cases i with
    | zero =>
        rw [Function.update_self, cString_storeText is fits]
        rfl
    | succ i =>
        rw [Function.update_of_ne (Nat.succ_ne_zero i), holds.rows _ low, List.getD_cons_succ]
        simp [List.getD_eq_getElem?_getD, List.getElem?_tail]

/-- The end of the line: the history is what `History.add` makes of it. -/
theorem readKey_enter {l : Line} {e : Editor} (shows : l.Shows e) {c : UInt8}
    (ends : c = 0x0A ∨ c = 0x0D) :
    ∃ buf : Buf, buf.toList 0 l.pos = e.text ∧
      readKey h l c = (h.add buf l.pos).map fun h' =>
        (.done h' buf l.pos, [.resetScrollback, .print [0x0A], .flush]) := by
  have short := shows.short
  refine ⟨Function.update l.buf l.pos 0, ?_, ?_⟩
  · rw [l.text_terminated, shows.text]
  · have others : c ≠ keyPgup ∧ c ≠ keyPgdn ∧ c ≠ keyUp ∧ c ≠ keyDown := by
      rcases ends with rfl | rfl <;> decide
    unfold readKey readlineKey
    rw [if_neg others.1, if_neg others.2.1, if_neg others.2.2.1, if_neg others.2.2.2, if_pos ends,
      if_pos ⟨short, short⟩]
    rw [Option.map_eq_bind]
    rfl

/-- Rows that hold a list are a history that is right for it. -/
theorem History.Holds.right (holds : h.Holds lines) : HistoryRight h lines := by
  intro buf typed typable
  have within : (Editor.start lines).Within lines := Nat.le_refl _
  obtain ⟨l, acts, typing, shows⟩ :=
    readKeys_refines holds typed typable.goOn (.start h buf holds) within
  rw [Editor.keys_typed typable.printable (by simpa [Editor.start] using typable.short)] at shows
  have at_ : { Editor.start lines with text := (Editor.start lines).text ++ typed }.At lines
      typed 0 := ⟨rfl, rfl, fun positive => absurd positive (Nat.lt_irrefl 0)⟩
  refine ⟨l, acts, typing, shows.text, fun k low => ?_, fun same => ?_⟩
  · obtain ⟨l₁, ups, e₁, up, shows₁, at₁, printed₁⟩ :=
      readKeys_walk holds (show keyUp ≠ 0x0A ∧ keyUp ≠ 0x0D by decide) id
        (fun j below e at_ => at_.up (Nat.lt_of_lt_of_le below low)) shows at_
    obtain ⟨l₂, downs, e₂, down, shows₂, at₂, printed₂⟩ :=
      readKeys_walk holds (k := k) (show keyDown ≠ 0x0A ∧ keyDown ≠ 0x0D by decide) (k - ·)
        (fun j below e at_ => by
          rw [show k - j = k - (j + 1) + 1 by omega] at at_
          exact at_.down) shows₁ at₁
    rw [Nat.sub_self] at at₂
    have back : e₂.text = typed := at₂.text
    refine ⟨l₁, ups, up, shows₁.text.trans at₁.text, ?_, l₂, downs, down,
      shows₂.text.trans back, ?_⟩
    · rw [shows₁.text]
      exact printed₁
    · rw [← back]
      exact printed₂
  · obtain ⟨buf', is, entered⟩ := readKey_enter (h := h) shows (.inl rfl)
    rw [holds.add_again is shows.fits (.inr same)] at entered
    exact ⟨buf', _, entered⟩

end Store

/-! ## Sessions -/

/-- The shell reading line after line, with the lines entered so far: not the empty ones, and a
line that was entered several times in a row only once. -/
structure Session where
  history : History
  line : Line
  lines : List (List UInt8)

namespace Session

/-- Before the first key. -/
def start (buf : Buf) : Session where
  history := ⟨fun _ _ => 0, 0⟩
  line := .start ⟨fun _ _ => 0, 0⟩ buf
  lines := []

/-- A key.  After a line, `leave` is what the command makes of its buffer. -/
def key (leave : Buf → Buf) (s : Session) (c : UInt8) : Option Session :=
  (readKey s.history s.line c).map fun
    | (.more line, _) => { s with line }
    | (.done history buf pos, _) =>
        { history, line := .start history (leave buf),
          lines := remember s.lines (buf.toList 0 pos) }

/-- A key in a session that has not failed. -/
def step (leave : Buf → Buf) (s : Option Session) (c : UInt8) : Option Session :=
  s.bind fun s => s.key leave c

/-- The history is the list of the last `HISTORY_SIZE` lines. -/
def Right (s : Option Session) : Prop :=
  ∃ t, s = some t ∧ HistoryRight t.history (recent t.lines)

end Session

/-- A session as it should be: an editor, and the list of all lines. -/
structure Prompt where
  editor : Editor
  lines : List (List UInt8)

namespace Prompt

def start : Prompt := ⟨.start [], []⟩

def key (p : Prompt) (c : UInt8) : Prompt :=
  if c = 0x0A ∨ c = 0x0D then
    let lines := remember p.lines p.editor.text
    ⟨.start (recent lines), lines⟩
  else { p with editor := p.editor.key (recent p.lines) c }

theorem lines_le_key (p : Prompt) (c : UInt8) : p.lines.length ≤ (p.key c).lines.length := by
  unfold key
  split
  · show p.lines.length ≤ (remember p.lines p.editor.text).length
    unfold remember
    split
    · exact Nat.le_refl _
    · rw [List.length_append]
      exact Nat.le_add_right _ _
  · exact Nat.le_refl _

theorem lines_le_keys (keys : List UInt8) (p : Prompt) :
    p.lines.length ≤ (keys.foldl key p).lines.length := by
  induction keys generalizing p with
  | nil => exact Nat.le_refl _
  | cons c rest ih => exact Nat.le_trans (p.lines_le_key c) (ih (p.key c))

end Prompt

/-- The session is where it should be. -/
structure Session.Refines (s : Session) (p : Prompt) : Prop where
  lines : s.lines = p.lines
  holds : s.history.Holds p.lines
  shows : s.line.Shows p.editor
  within : p.editor.Within p.lines

theorem recent_eq {lines : List (List UInt8)} (few : lines.length ≤ historySize) :
    recent lines = lines := by
  rw [recent, Nat.sub_eq_zero_of_le few, List.drop_zero]

theorem getLast?_recent (lines : List (List UInt8)) (text : List UInt8) :
    (recent (lines ++ [text])).getLast? = some text := by
  have positive : 0 < historySize := by decide
  rw [recent, List.length_append, List.length_singleton,
    List.drop_append_of_le_length (by omega), List.getLast?_concat]

theorem getLast?_cons_tail {lines : List (List UInt8)} {text : List UInt8}
    (some_ : 1 < lines.length) : (text :: lines.tail).getLast? = lines.getLast? := by
  match lines, some_ with
  | _ :: last :: rest, _ => rw [List.tail_cons, List.getLast?_cons_cons, List.getLast?_cons_cons]

namespace Session.Refines

variable {leave : Buf → Buf} {s : Session} {p : Prompt}

theorem start (buf : Buf) : (Session.start buf).Refines .start :=
  ⟨rfl, .empty, .start _ buf .empty, Nat.le_refl _⟩

theorem right (refines : s.Refines p) : Session.Right (some s) := by
  refine ⟨s, rfl, ?_⟩
  rw [refines.lines, recent_eq refines.holds.bound]
  exact refines.holds.right

/-- The end of a line. -/
theorem enter (leave : Buf → Buf) (refines : s.Refines p) {c : UInt8} (ends : c = 0x0A ∨ c = 0x0D) :
    ∃ buf : Buf, buf.toList 0 s.line.pos = p.editor.text ∧
      s.key leave c = (s.history.add buf s.line.pos).map fun h =>
        ⟨h, .start h (leave buf), remember p.lines p.editor.text⟩ := by
  obtain ⟨buf, is, entered⟩ := readKey_enter (h := s.history) refines.shows ends
  refine ⟨buf, is, ?_⟩
  rw [Session.key, entered, Option.map_map]
  congr 1
  funext h
  show Session.mk h _ (remember s.lines (buf.toList 0 s.line.pos)) = _
  rw [is, refines.lines]

/-- A line that is stored, or not, in the right place. -/
theorem prompt {h : History} {lines : List (List UInt8)} (holds : h.Holds lines) (buf : Buf) :
    Session.Refines ⟨h, .start h buf, lines⟩ ⟨.start (recent lines), lines⟩ := by
  rw [recent_eq holds.bound]
  exact ⟨rfl, holds, .start h buf holds, Nat.le_refl _⟩

/-- A key that leaves no more lines than rows. -/
theorem key (refines : s.Refines p) {c : UInt8} (few : (p.key c).lines.length ≤ historySize) :
    ∃ s', s.key leave c = some s' ∧ s'.Refines (p.key c) := by
  have holds := refines.holds
  unfold Prompt.key at few ⊢
  by_cases ends : c = 0x0A ∨ c = 0x0D
  · rw [if_pos ends] at few ⊢
    obtain ⟨buf, is, entered⟩ := refines.enter leave ends
    by_cases again : p.editor.text = [] ∨ p.lines.getLast? = some p.editor.text
    · rw [holds.add_again is refines.shows.fits again, Option.map_some] at entered
      refine ⟨_, entered, ?_⟩
      rw [remember, if_pos again]
      exact prompt holds _
    · rw [holds.add_new is refines.shows.fits again, Option.map_some] at entered
      refine ⟨_, entered, ?_⟩
      rw [remember, if_neg again, List.length_append, List.length_singleton] at few
      rw [remember, if_neg again]
      exact prompt (holds.append is refines.shows.fits (by omega)) _
  · rw [if_neg ends] at few ⊢
    obtain ⟨l, acts, is, shows, -⟩ :=
      readKey_refines holds refines.shows refines.within (not_or.mp ends)
    rw [recent_eq holds.bound]
    refine ⟨{ s with line := l }, ?_, refines.lines, holds, shows,
      Editor.within_key refines.within c⟩
    rw [Session.key, is]
    rfl

/-- A key that makes one line more than there are rows. -/
theorem key_overflow (refines : s.Refines p) {c : UInt8}
    (many : historySize < (p.key c).lines.length) : ¬ Session.Right (s.key leave c) := by
  have holds := refines.holds
  have bound := holds.bound
  unfold Prompt.key at many
  by_cases ends : c = 0x0A ∨ c = 0x0D
  · rw [if_pos ends] at many
    obtain ⟨buf, is, entered⟩ := refines.enter leave ends
    by_cases again : p.editor.text = [] ∨ p.lines.getLast? = some p.editor.text
    · rw [remember, if_pos again] at many
      exact absurd bound (Nat.not_le_of_gt many)
    · rw [remember, if_neg again, List.length_append, List.length_singleton] at many
      have full : p.lines.length = historySize := by omega
      have written := (holds.overwrite is refines.shows.fits full).right
      rw [holds.add_new is refines.shows.fits again, remember, if_neg again, Option.map_some]
        at entered
      rw [entered]
      rintro ⟨t, is_t, right⟩
      obtain rfl := Option.some.inj is_t
      have some_ : recent (p.lines ++ [p.editor.text]) ≠ [] := by
        intro none_
        have last := getLast?_recent p.lines p.editor.text
        rw [none_] at last
        exact absurd last (by simp)
      have same := written.getLast?_eq right (List.cons_ne_nil _ _) some_
      rw [getLast?_recent, getLast?_cons_tail (by rw [full]; decide)] at same
      exact again (.inr same)
  · rw [if_neg ends] at many
    exact absurd bound (Nat.not_le_of_gt many)

end Session.Refines

/-- The history is right after every key exactly if the keys enter no more lines than there are
rows. -/
theorem history_right_iff (leave : Buf → Buf) (buf : Buf) (keys : List UInt8) :
    Always (Session.step leave) Session.Right (some (.start buf)) keys ↔
      (keys.foldl Prompt.key .start).lines.length ≤ historySize := by
  suffices general : ∀ (s : Session) (p : Prompt), s.Refines p →
      (Always (Session.step leave) Session.Right (some s) keys ↔
        (keys.foldl Prompt.key p).lines.length ≤ historySize) from general _ _ (.start buf)
  induction keys with
  | nil => exact fun s p refines => ⟨fun _ => refines.holds.bound, fun _ => refines.right⟩
  | cons c rest ih =>
      intro s p refines
      by_cases few : (p.key c).lines.length ≤ historySize
      · obtain ⟨s', is, refines'⟩ := refines.key few
        rw [List.foldl_cons, ← ih s' _ refines', ← is]
        exact ⟨fun always => always.2, fun later => ⟨refines.right, later⟩⟩
      · have many := Nat.lt_of_not_le few
        have grows := Prompt.lines_le_keys rest (p.key c)
        constructor
        · exact fun always => absurd always.2.head (refines.key_overflow many)
        · intro short
          rw [List.foldl_cons] at short
          omega

/-- The lines `a` to `q`. -/
def seventeenLines : List UInt8 :=
  (List.range 17).flatMap fun i => [0x61 + UInt8.ofNat i, 0x0A]

/-- After them Up shows `p`. -/
theorem seventeenth_line_lost :
    ¬ Always (Session.step id) Session.Right (some (.start fun _ => 0)) seventeenLines := by
  intro always
  obtain ⟨t, is, right⟩ := always.last
  have lines : (seventeenLines.foldl (Session.step id) (some (.start fun _ => 0))).map
      (fun t => (recent t.lines).getLast?) = some (some [0x71]) := by decide +kernel
  have shown : (seventeenLines.foldl (Session.step id) (some (.start fun _ => 0))).bind
      (fun t => (readKeys t.history (.start t.history fun _ => 0) [keyUp]).map (·.1.text)) =
        some [0x70] := by decide +kernel
  rw [is, Option.map_some, Option.some.injEq] at lines
  have some_ : recent t.lines ≠ [] := by
    intro none_
    rw [none_] at lines
    exact absurd lines (by decide)
  obtain ⟨l, ups, up, last⟩ := right.shown some_
  rw [is, Option.bind_some, up, Option.map_some, Option.some.injEq] at shown
  rw [lines, shown, Option.some.injEq] at last
  exact absurd last (by decide)

end XosKernel.Shell
